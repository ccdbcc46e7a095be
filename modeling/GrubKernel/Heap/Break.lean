import GrubKernel.Heap.Model
import GrubKernel.Lib.CInt

/-!
# The program break

`brk` sets the program break to an address, `sbrk` moves it and returns where it was.  Their comments
count bytes, but the break is a pointer to words, so `heap_end += incr` moves it by four bytes for each
unit.

* `BreakCall` — a call; `documentedBreak` — where a sequence of calls should leave the break.
* `CallsAccurate` — every call of a run does what its comment says.
* **`breaks_accurate_iff`** — a run is accurate iff all its increments are zero.
-/

namespace GrubKernel

open CInt

/-- A call of `brk` or `sbrk`. -/
inductive BreakCall
  | brk (addr : UInt32)
  | sbrk (incr : Int32)

/-- The state after a call. -/
def BreakCall.run (s : Heap) : BreakCall → Heap
  | brk addr => (s.brk addr).2
  | sbrk incr => (s.sbrk incr.toUInt32).2

/-- What the comments say about one call: `brk` sets the break and returns zero, `sbrk` returns the break
and moves it by the increment. -/
def BreakCall.Accurate (s : Heap) : BreakCall → Prop
  | brk addr => (s.brk addr).1 = 0 ∧ (s.brk addr).2.heapEnd = addr
  | sbrk incr => (s.sbrk incr.toUInt32).1 = s.heapEnd ∧
      ((s.sbrk incr.toUInt32).2.heapEnd.toNat : ℤ) = s.heapEnd.toNat + incr.toInt

/-- The state after a sequence of calls. -/
def runBreaks : Heap → List BreakCall → Heap
  | s, [] => s
  | s, call :: calls => runBreaks (call.run s) calls

/-- Every call of a sequence is accurate. -/
def CallsAccurate : Heap → List BreakCall → Prop
  | _, [] => True
  | s, call :: calls => call.Accurate s ∧ CallsAccurate (call.run s) calls

/-- The break after a sequence of calls, counted in bytes. -/
def documentedBreak : ℤ → List BreakCall → ℤ
  | b, [] => b
  | _, .brk addr :: calls => documentedBreak addr.toNat calls
  | b, .sbrk incr :: calls => documentedBreak (b + incr.toInt) calls

/-! ## The documented break -/

/-- Increments alone add up. -/
lemma documentedBreak_sbrk (incrs : List Int32) : ∀ b : ℤ,
    documentedBreak b (incrs.map .sbrk) = b + (incrs.map Int32.toInt).sum := by
  induction incrs with
  | nil =>
      intro b
      exact (Int.add_zero b).symm
  | cons incr incrs ih =>
      intro b
      show documentedBreak (b + incr.toInt) (incrs.map .sbrk) = _
      rw [ih, List.map_cons, List.sum_cons, Int.add_assoc]

/-- The last `brk` decides, and the increments after it add up. -/
lemma documentedBreak_brk (addr : UInt32) (incrs : List Int32) (calls : List BreakCall) : ∀ b : ℤ,
    documentedBreak b (calls ++ .brk addr :: incrs.map .sbrk)
      = addr.toNat + (incrs.map Int32.toInt).sum := by
  induction calls with
  | nil =>
      intro b
      exact documentedBreak_sbrk incrs addr.toNat
  | cons call calls ih =>
      intro b
      cases call with
      | brk addr' => exact ih addr'.toNat
      | sbrk incr => exact ih (b + incr.toInt)

/-! ## Runs -/

/-- Three is a unit among the words. -/
lemma eq_zero_of_four_mul {u : UInt32} (h : 4 * u = u) : u = 0 := by
  have hthree : 3 * u = 0 := by
    rw [show (4 : UInt32) = 3 + 1 from rfl, UInt32.add_mul, UInt32.one_mul] at h
    exact UInt32.add_eq_right.mp h
  calc u = 0xAAAAAAAB * 3 * u := by rw [show (0xAAAAAAAB * 3 : UInt32) = 1 from rfl, UInt32.one_mul]
    _ = 0 := by rw [UInt32.mul_assoc, hthree, UInt32.mul_zero]

/-- A pointer that moves by an `int` moves by its word. -/
lemma eq_add_of_toNat {p q u : UInt32} {x : ℤ} (hmod : x % 2 ^ 32 = u.toNat)
    (h : (q.toNat : ℤ) = p.toNat + x) : q = p + u := by
  have hq := q.toNat_lt
  rw [← UInt32.toNat_inj, UInt32.toNat_add]
  omega

/-- A call of `sbrk` is accurate iff it does not move the break. -/
lemma sbrk_accurate_iff (s : Heap) (incr : Int32) :
    (BreakCall.sbrk incr).Accurate s ↔ incr = 0 := by
  constructor
  · rintro ⟨-, hmoved⟩
    have hword : s.heapEnd + 4 * incr.toUInt32 = s.heapEnd + incr.toUInt32 :=
      eq_add_of_toNat (int32_emod incr) hmoved
    have hzero : incr.toUInt32 = 0 := eq_zero_of_four_mul ((UInt32.add_right_inj _).mp hword)
    have hmod := int32_emod incr
    rw [hzero, UInt32.toNat_zero] at hmod
    have hlo := incr.le_toInt
    have hhi := incr.toInt_lt
    rw [← Int32.toInt_inj, Int32.toInt_zero]
    omega
  · rintro rfl
    refine ⟨rfl, ?_⟩
    show ((s.heapEnd + 4 * 0).toNat : ℤ) = s.heapEnd.toNat + 0
    rw [UInt32.mul_zero, UInt32.add_zero, Int.add_zero]

lemma brk_accurate (s : Heap) (addr : UInt32) : (BreakCall.brk addr).Accurate s := ⟨rfl, rfl⟩

/-- One accurate call leaves the break where it is documented. -/
lemma BreakCall.Accurate.documented {s : Heap} {call : BreakCall} (h : call.Accurate s)
    (calls : List BreakCall) :
    documentedBreak (call.run s).heapEnd.toNat calls = documentedBreak s.heapEnd.toNat (call :: calls) := by
  cases call with
  | brk addr => rfl
  | sbrk incr =>
      show _ = documentedBreak (s.heapEnd.toNat + incr.toInt) calls
      rw [← h.2]
      rfl

/-- Accurate calls leave the break where it is documented. -/
lemma CallsAccurate.documented {calls : List BreakCall} : ∀ {s : Heap}, CallsAccurate s calls →
    ((runBreaks s calls).heapEnd.toNat : ℤ) = documentedBreak s.heapEnd.toNat calls := by
  induction calls with
  | nil =>
      intro s _
      rfl
  | cons call calls ih =>
      intro s h
      rw [← h.1.documented calls]
      exact ih h.2

lemma callsAccurate_iff (calls : List BreakCall) : ∀ s : Heap,
    CallsAccurate s calls ↔ ∀ incr, BreakCall.sbrk incr ∈ calls → incr = 0 := by
  induction calls with
  | nil =>
      intro s
      exact iff_of_true trivial fun incr hincr => absurd hincr List.not_mem_nil
  | cons call calls ih =>
      intro s
      rw [CallsAccurate, ih]
      cases call with
      | brk addr =>
          rw [and_iff_right (brk_accurate s addr)]
          simp
      | sbrk incr₀ =>
          rw [sbrk_accurate_iff]
          simp

/-- **When the program break is accurate to the byte.**  For every state and every sequence of calls:
each `sbrk` returns the break before it and moves it by its increment, each `brk` sets it, and so the
break ends at the last address set plus the later increments, iff all increments are zero. -/
theorem breaks_accurate_iff (s : Heap) (calls : List BreakCall) :
    (CallsAccurate s calls ∧
      ((runBreaks s calls).heapEnd.toNat : ℤ) = documentedBreak s.heapEnd.toNat calls) ↔
    ∀ incr, BreakCall.sbrk incr ∈ calls → incr = 0 := by
  rw [← callsAccurate_iff calls s]
  constructor
  · intro h
    exact h.1
  · intro h
    exact ⟨h, h.documented⟩

/-- `sbrk(1)` at the start of the heap moves the break by four bytes. -/
theorem sbrk_moves_words :
    ¬ (CallsAccurate (Heap.start ⟨0, by decide⟩ fun _ => ⟨0, 0⟩) [.sbrk 1] ∧
      ((runBreaks (Heap.start ⟨0, by decide⟩ fun _ => ⟨0, 0⟩) [.sbrk 1]).heapEnd.toNat : ℤ)
        = documentedBreak heapStart.toNat [.sbrk 1]) := by
  rintro ⟨-, hbreak⟩
  revert hbreak
  decide

end GrubKernel
