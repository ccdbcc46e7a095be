import GrubKernel.PlacementMemory.Grants
import GrubKernel.PlacementMemory.Insert

/-!
# The failure value of `allocate`

`allocate` returns `0` when it has nothing to hand out, and callers test for `0`.  It also returns the
start of the area that serves the request, and an area may start at address `0`: then the caller takes
the success for a failure and the bytes are lost.

* `Operation`, `reached` — runs of the four operations from the cleared table.
* `ServedAtZero` — the area that serves the request starts at address `0`.
* `allocate_cases` — a request is served and changes the table, or fails and does not.
* **`failure_distinguishable_iff`** — in every table reached, `0` means that nothing was taken iff the
  request is not served at `0`.
* **`failure_distinguishable_once_reserved`** — once address `0` is not free, `0` is a failure in
  every run of reserving calls that follows.
-/

namespace GrubKernel

open PlacementMemory

/-! ## Runs -/

/-- A call of `insert_area` or of one of the reserving operations. -/
inductive Operation where
  | insertArea (start size : UInt64)
  | reserve (c : Call)
deriving DecidableEq, Repr

/-- The table after an operation. -/
def Operation.exec : Operation → PlacementMemory → PlacementMemory
  | .insertArea start size, s => (s.insertArea start size).2
  | .reserve c, s => (c.exec s).2

/-- The range of the operation ends at or below `2 ^ 64`. -/
def Operation.NonWrapping : Operation → Prop
  | .insertArea start size => start.toNat + size.toNat ≤ 2 ^ 64
  | .reserve (.allocate _) => True
  | .reserve (.allocateArea start size) => start.toNat + size.toNat ≤ 2 ^ 64
  | .reserve (.allocateAreaCover start size) => start.toNat + size.toNat ≤ 2 ^ 64

/-- The tables reached in a run from `s`; each operation comes with the memory found behind the table. -/
def reached : PlacementMemory → List ((ℕ → MemoryArea) × Operation) → List PlacementMemory
  | s, [] => [s]
  | s, (f, o) :: os => s :: reached (o.exec (s.withForeign f)) os

namespace PlacementMemory

/-! ## One request -/

/-- The lowest area of at least `size` bytes starts at address `0`. -/
def ServedAtZero (s : PlacementMemory) (size : UInt64) : Prop :=
  size ≠ 0 ∧ ∃ j < s.freeMemoryAreaIndex, (s.freeMemoryAreas j).start = 0 ∧
    size ≤ (s.freeMemoryAreas j).size ∧ ∀ k < j, (s.freeMemoryAreas k).size < size

/-- Taking bytes from the start of an area changes it. -/
lemma store_not_same {s : PlacementMemory} {i : ℕ} {size : UInt64} (hne : size ≠ 0)
    (hgt : (s.freeMemoryAreas i).size > size) :
    ¬ SameTable s ((s.touch i).store i
      ⟨(s.freeMemoryAreas i).start + size, (s.freeMemoryAreas i).size - size⟩) := by
  rintro ⟨hslots, -⟩
  have hslot := congrFun hslots i
  rw [store_freeMemoryAreas, Function.update_self] at hslot
  have hsize : (s.freeMemoryAreas i).size - size = (s.freeMemoryAreas i).size :=
    congrArg MemoryArea.size hslot
  have hle : size ≤ (s.freeMemoryAreas i).size := UInt64.le_of_lt hgt
  have hnat := congrArg UInt64.toNat hsize
  rw [UInt64.toNat_sub_of_le _ _ hle] at hnat
  have hlt := UInt64.lt_iff_toNat_lt.mp hgt
  exact hne (UInt64.toNat_inj.mp (by simp only [UInt64.toNat_zero]; omega))

/-- The loop of `allocate` on an arbitrary table. -/
lemma allocateFrom_cases {size : UInt64} (hne : size ≠ 0) (n : ℕ) : ∀ (s : PlacementMemory) (i : ℕ),
    i + n = s.freeMemoryAreaIndex →
    (∃ j, i ≤ j ∧ j < s.freeMemoryAreaIndex ∧ size ≤ (s.freeMemoryAreas j).size ∧
      (∀ k, i ≤ k → k < j → (s.freeMemoryAreas k).size < size) ∧
      (allocateFrom size n i s).1 = (s.freeMemoryAreas j).start ∧
      ¬ SameTable s (allocateFrom size n i s).2) ∨
    ((∀ k, i ≤ k → k < s.freeMemoryAreaIndex → (s.freeMemoryAreas k).size < size) ∧
      SameTable s (allocateFrom size n i s).2) := by
  induction n with
  | zero =>
      intro s i hi
      exact Or.inr ⟨fun k hk hk' => by omega, SameTable.refl s⟩
  | succ n ih =>
      intro s i hi
      rw [allocateFrom_succ]
      have hin : i < s.freeMemoryAreaIndex := by omega
      by_cases hgt : (s.freeMemoryAreas i).size > size
      · rw [if_pos hgt]
        left
        refine ⟨i, le_rfl, hin, UInt64.le_of_lt hgt, fun k hk hk' => by omega, rfl, ?_⟩
        exact store_not_same hne hgt
      · rw [if_neg hgt]
        by_cases heq : (s.freeMemoryAreas i).size = size
        · rw [if_pos heq]
          left
          refine ⟨i, le_rfl, hin, heq ▸ UInt64.le_refl _, fun k hk hk' => by omega, rfl, ?_⟩
          rintro ⟨-, hidx⟩
          rw [removeArea_freeMemoryAreaIndex, touch_freeMemoryAreaIndex] at hidx
          omega
        · rw [if_neg heq]
          have hlt : (s.freeMemoryAreas i).size < size :=
            UInt64.lt_of_le_of_ne (UInt64.not_lt.mp hgt) heq
          rcases ih (s.touch i) (i + 1) (by simp; omega) with h | h
          · obtain ⟨j, hij, hj, hle, hbelow, hret⟩ := h
            left
            refine ⟨j, by omega, hj, hle, fun k hk hk' => ?_, hret⟩
            rcases Nat.eq_or_lt_of_le hk with rfl | hk
            · exact hlt
            · exact hbelow k hk hk'
          · obtain ⟨hall, hsame⟩ := h
            right
            refine ⟨fun k hk hk' => ?_, hsame⟩
            rcases Nat.eq_or_lt_of_le hk with rfl | hk
            · exact hlt
            · exact hall k hk hk'

/-- On every table: the lowest area that is large enough serves the request and the table changes, or
there is none and it does not. -/
lemma allocate_cases (s : PlacementMemory) {size : UInt64} (hne : size ≠ 0) :
    (∃ j < s.freeMemoryAreaIndex, size ≤ (s.freeMemoryAreas j).size ∧
      (∀ k < j, (s.freeMemoryAreas k).size < size) ∧
      (s.allocate size).1 = (s.freeMemoryAreas j).start ∧ ¬ SameTable s (s.allocate size).2) ∨
    ((∀ k < s.freeMemoryAreaIndex, (s.freeMemoryAreas k).size < size) ∧
      SameTable s (s.allocate size).2) := by
  unfold allocate
  by_cases hempty : s.freeMemoryAreaIndex = 0
  · rw [if_pos hempty]
    exact Or.inr ⟨fun k hk => by omega, SameTable.refl s⟩
  · rw [if_neg hempty, if_neg hne]
    rcases allocateFrom_cases hne s.freeMemoryAreaIndex s 0 (by omega) with h | h
    · obtain ⟨j, -, hj, hle, hbelow, hret⟩ := h
      exact Or.inl ⟨j, hj, hle, fun k hk => hbelow k (Nat.zero_le k) hk, hret⟩
    · exact Or.inr ⟨fun k hk => h.1 k (Nat.zero_le k) hk, h.2⟩

/-- On every table: a result of `0` means that nothing was taken iff the request is not served at `0`. -/
lemma allocate_zero_iff (s : PlacementMemory) (size : UInt64) :
    ((s.allocate size).1 = 0 → SameTable s (s.allocate size).2) ↔ ¬ ServedAtZero s size := by
  by_cases hne : size = 0
  · refine iff_of_true (fun _ => ?_) fun h => h.1 hne
    unfold allocate
    split_ifs
    · exact SameTable.refl s
    · exact SameTable.refl s
  · rcases allocate_cases s hne with ⟨j, hj, hle, hbelow, hret, hchanged⟩ | ⟨hnone, hsame⟩
    · constructor
      · rintro hclear ⟨-, k, hk, hzero, hkle, hkbelow⟩
        have hjk : j = k := by
          rcases lt_trichotomy j k with hlt | heq | hgt
          · exact absurd (hkbelow j hlt) (UInt64.not_lt.mpr hle)
          · exact heq
          · exact absurd (hbelow k hgt) (UInt64.not_lt.mpr hkle)
        exact hchanged (hclear (by rw [hret, hjk, hzero]))
      · intro hserved hzero
        exact absurd ⟨hne, j, hj, hret ▸ hzero, hle, hbelow⟩ hserved
    · refine iff_of_true (fun _ => hsame) ?_
      rintro ⟨-, k, hk, -, hkle, -⟩
      exact absurd (hnone k hk) (UInt64.not_lt.mpr hkle)

end PlacementMemory

/-! ## The results -/

/-- **When the failure value is a failure.**  In every table that a run of the four operations reaches
from the cleared one, whatever lies behind the table at each of them: a result of `0` means that the
table is unchanged iff the lowest area that is large enough does not start at address `0`. -/
theorem failure_distinguishable_iff (s : PlacementMemory)
    (os : List ((ℕ → MemoryArea) × Operation)) :
    ∀ t ∈ reached s.clearPlacementMemoryArray os, ∀ size,
      ((t.allocate size).1 = 0 → SameTable t (t.allocate size).2) ↔ ¬ ServedAtZero t size :=
  fun t _ size => allocate_zero_iff t size

/-- The condition at the table that `insert_area` leaves after it was given `[0, 0x1000)`. -/
theorem failure_distinguishable_iff_example :
    let s := ((ofAreas []).clearPlacementMemoryArray.withForeign fun _ => ⟨0, 0⟩)
    let t := (s.insertArea 0 0x1000).2
    ((t.allocate 0x800).1 = 0 → SameTable t (t.allocate 0x800).2) ↔ ¬ ServedAtZero t 0x800 :=
  failure_distinguishable_iff (ofAreas []) [(fun _ => ⟨0, 0⟩, .insertArea 0 0x1000)] _
    (List.mem_cons_of_mem _ List.mem_cons_self) 0x800

/-- The range `[0, 0x1000)` is free, and a request for half of it returns `0`. -/
theorem failure_indistinguishable :
    ¬ ∀ (s : PlacementMemory) (os : List ((ℕ → MemoryArea) × Operation)),
      (∀ o ∈ os, o.2.NonWrapping) →
      ∀ t ∈ reached s.clearPlacementMemoryArray os, ∀ size,
        (t.allocate size).1 = 0 → SameTable t (t.allocate size).2 := by
  intro hall
  have hsame := hall (ofAreas []) [(fun _ => ⟨0, 0⟩, .insertArea 0 0x1000)]
    (by
      intro o ho
      rw [List.mem_singleton.mp ho]
      show (0 : UInt64).toNat + (0x1000 : UInt64).toNat ≤ 2 ^ 64
      decide)
    _ (List.mem_cons_of_mem _ List.mem_cons_self) 0x800 (by decide)
  exact absurd (congrFun hsame.1 0) (by decide)

/-- **Once address `0` is taken, `0` is a failure**: in every run of reserving calls from a well-formed
table in which it is not free, a call of `allocate` that returns `0` leaves the table unchanged. -/
theorem failure_distinguishable_once_reserved {s : PlacementMemory} (hs : s.WellFormed)
    (hzero : 0 ∉ s.freeSet) (cs : List ((ℕ → MemoryArea) × Call)) (hv : ∀ c ∈ cs, c.2.Valid) :
    ∀ e ∈ events s cs, ∀ size, e.call = .allocate size → e.result = 0 →
      SameTable e.before e.after := by
  intro e he size hcall hresult
  obtain ⟨hsound, hsub⟩ := sound_events cs s hs hv e he
  have hafter := after_eq_exec cs s e he
  have hserved : ¬ ServedAtZero e.before size := by
    rintro ⟨-, j, hj, hstart, -, -⟩
    have hpos := (hsound.before_wf.valid hj).1
    refine hzero (hsub (mem_freeSet.mpr ⟨j, hj, ?_, ?_⟩))
    · rw [hstart]
      exact le_rfl
    · rw [hstart]
      exact (Nat.zero_add _).symm ▸ hpos
  rw [hcall] at hafter
  rw [hafter]
  refine (allocate_zero_iff e.before size).mpr hserved ?_
  have hret := result_eq_exec cs s e he
  rw [hcall, hresult] at hret
  exact UInt64.toNat_inj.mp (by simpa [Call.exec] using hret.symm)

end GrubKernel
