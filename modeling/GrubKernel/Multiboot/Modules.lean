import GrubKernel.Multiboot.Model
import GrubKernel.PlacementMemory.Pieces

/-!
# Loaded modules and the free list

`processMods` calls `allocate_area` for every module record it visits and ignores the error codes.  But
`multiboot.c` does not declare `allocate_area`: the start and the length of a module, 32 bits each,
together become the start of the range, and its size is whatever lies behind them on the stack.
Besides, the loop visits the records at a stride of sixteen records, because `mod += sizeof(module_t)`
is pointer arithmetic.

So no range of a module is reserved.  A module stays out of the free memory if it was out of it before,
and no size found on the stack can free it.

* `visited`, `visited_eq` — the records that the loop reads.
* `processMods_eq` — the loop as a sequence of calls with sizes of their own.
* **`modules_reserved_iff`** — no byte of a module is free, whatever lies on the stack, iff none was and
  none can become so.
-/

namespace GrubKernel

open RangeList ByteMemory

/-! ## Module records -/

namespace Module

/-- The start that `allocate_area` receives for a record. -/
def packedStart (m : Module) : UInt64 := packed m.modStart (m.modEnd - m.modStart)

/-- The bytes of the module. -/
def span (m : Module) : Span ℕ := ⟨m.modStart.toNat, m.modEnd.toNat⟩

/-- The words of the record. -/
def fields (m : Module) : List UInt32 := [m.modStart, m.modEnd, m.string, m.reserved]

/-- The bytes of the record. -/
def encode (m : Module) : List UInt8 := words m.fields

end Module

/-- The bytes of the module records, one behind the other. -/
def encodeModules (ms : List Module) : List UInt8 := ms.flatMap Module.encode

/-- The records that the loop of `processMods` reads in `n` rounds from the record at `mod`. -/
def visited (mem : UInt32 → UInt8) : ℕ → UInt32 → List Module
  | 0, _ => []
  | n + 1, mod => moduleAt mem mod :: visited mem n (mod + sizeofModule * sizeofModule)

/-- The number of records of a list of `n` that the loop reads. -/
def strides (n : ℕ) : ℕ := (n + 15) / 16

/-- Every sixteenth record. -/
def sixteenths (ms : List Module) : List Module :=
  (List.range (strides ms.length)).filterMap fun i => ms[16 * i]?

/-! ### The records that are visited -/

/-- The record that the code reads where a record lies. -/
lemma moduleAt_encode {mem : UInt32 → UInt8} {a : ℕ} {m : Module} (h : Holds mem a m.encode) :
    moduleAt mem (UInt32.ofNat a) = m := by
  have hw := load32_of_holds m.fields h
  have hfield : ∀ k (hk : k < 4),
      load32 mem (UInt32.ofNat a + UInt32.ofNat (4 * k)) = m.fields[k] := by
    intro k hk
    rw [← UInt32.ofNat_add]
    exact hw k hk
  have hzero : UInt32.ofNat a + UInt32.ofNat (4 * 0) = UInt32.ofNat a := UInt32.add_zero _
  rw [moduleAt, Module.mk.injEq]
  refine ⟨?_, hfield 1 (by omega), hfield 2 (by omega), hfield 3 (by omega)⟩
  rw [← hzero]
  exact hfield 0 (by omega)

/-- The records lie sixteen bytes apart. -/
lemma holds_module {mem : UInt32 → UInt8} (ms : List Module) : ∀ {a : ℕ},
    Holds mem a (encodeModules ms) → ∀ j (h : j < ms.length), Holds mem (a + 16 * j) ms[j].encode := by
  induction ms with
  | nil =>
      intro a _ j hj
      simp at hj
  | cons m ms ih =>
      intro a h j hj
      obtain ⟨hhead, htail⟩ :=
        holds_append.mp (show Holds mem a (m.encode ++ encodeModules ms) from h)
      cases j with
      | zero => exact hhead
      | succ j =>
          have hrec := ih htail j (by simpa using hj)
          have hlen : m.encode.length = 16 := length_words m.fields
          rw [hlen] at hrec
          rw [List.getElem_cons_succ, show a + 16 * (j + 1) = a + 16 + 16 * j by omega]
          exact hrec

/-- The loop reads the records at multiples of 256 bytes. -/
lemma visited_eq_map (mem : UInt32 → UInt8) (n : ℕ) : ∀ a : ℕ,
    visited mem n (UInt32.ofNat a)
      = (List.range n).map fun i => moduleAt mem (UInt32.ofNat (a + 256 * i)) := by
  induction n with
  | zero =>
      intro a
      rfl
  | succ n ih =>
      intro a
      have hstep : UInt32.ofNat a + sizeofModule * sizeofModule = UInt32.ofNat (a + 256) := by
        rw [UInt32.ofNat_add]
        rfl
      rw [visited, hstep, ih, List.range_succ_eq_map, List.map_cons, List.map_map]
      refine congrArg₂ List.cons rfl (List.map_congr_left fun i _ => ?_)
      show _ = moduleAt mem (UInt32.ofNat (a + 256 * (i + 1)))
      congr 2
      omega

/-- **What the loop reads**: every sixteenth module, and then as many records from the memory behind the
modules as it takes to make up their number. -/
theorem visited_eq {mem : UInt32 → UInt8} {ms : List Module} {a : ℕ}
    (h : Holds mem a (encodeModules ms)) :
    visited mem ms.length (UInt32.ofNat a)
      = sixteenths ms ++ visited mem (ms.length - strides ms.length)
          (UInt32.ofNat (a + 256 * strides ms.length)) := by
  have hle : strides ms.length ≤ ms.length := by
    unfold strides
    omega
  have hread : sixteenths ms = (List.range (strides ms.length)).map fun i =>
      moduleAt mem (UInt32.ofNat (a + 256 * i)) := by
    rw [sixteenths, ← List.filterMap_eq_map]
    refine List.filterMap_congr fun i hi => ?_
    have hlt : 16 * i < ms.length := by
      have := List.mem_range.mp hi
      unfold strides at this
      omega
    have hrec := moduleAt_encode (holds_module ms h (16 * i) hlt)
    rw [List.getElem?_eq_getElem hlt, Function.comp_apply, ← hrec]
    congr 3
    omega
  rw [hread, visited_eq_map, visited_eq_map]
  conv_lhs => rw [← Nat.add_sub_cancel' hle, List.range_add, List.map_append, List.map_map]
  refine congrArg₂ (· ++ ·) rfl (List.map_congr_left fun i _ => ?_)
  show moduleAt mem (UInt32.ofNat (a + 256 * (strides ms.length + i))) = _
  congr 2
  omega

open PlacementMemory

/-! ## `processMods` -/

lemma processModsFrom_eq (mem : UInt32 → UInt8) (behind : ℕ → UInt64) (n : ℕ) :
    ∀ (i : ℕ) (mod : UInt32) (s : PlacementMemory), processModsFrom mem behind n i mod s
      = reserveAll behind ((visited mem n mod).map Module.packedStart) i s := by
  induction n with
  | zero => exact fun i mod s => rfl
  | succ n ih => exact fun i mod s => ih _ _ _

/-- The starts that `allocate_area` receives: for every sixteenth module, and then for the records found
behind the modules. -/
def startsOfMods (mem : UInt32 → UInt8) (mbi : MultibootInfo) (ms : List Module) : List UInt64 :=
  (sixteenths ms ++ visited mem (ms.length - strides ms.length)
    (UInt32.ofNat (mbi.modsAddr.toNat + 256 * strides ms.length))).map Module.packedStart

/-- The records of the modules `ms` lie one behind the other where the multiboot information says. -/
structure ModulesAt (mem : UInt32 → UInt8) (mbi : MultibootInfo) (ms : List Module) : Prop where
  flag : checkFlag mbi.flags 3
  records : Holds mem mbi.modsAddr.toNat (encodeModules ms)
  count : mbi.modsCount.toNat = ms.length

lemma processMods_eq {mem : UInt32 → UInt8} {mbi : MultibootInfo} {ms : List Module}
    (h : ModulesAt mem mbi ms) (behind : ℕ → UInt64) (s : PlacementMemory) :
    processMods mem behind mbi s = reserveAll behind (startsOfMods mem mbi ms) 0 s := by
  have hvisited := visited_eq h.records
  rw [UInt32.ofNat_toNat] at hvisited
  rw [processMods, if_neg (not_not.mpr h.flag), processModsFrom_eq, h.count, hvisited, startsOfMods]

/-- **Modules stay out of the free memory iff they were out of it and cannot be freed.**  After
`processMods` no byte of a module is free, whatever lies on the stack, if and only if none was free
before and there are no sizes with which the calls, at the starts that the records are taken for, free
one. -/
theorem modules_reserved_iff {s : PlacementMemory} (hs : s.WellFormed) {mem : UInt32 → UInt8}
    {mbi : MultibootInfo} {ms : List Module} (h : ModulesAt mem mbi ms) :
    (∀ behind, ∀ m ∈ ms, Disjoint m.span.toSet (processMods mem behind mbi s).freeSet) ↔
      ∀ m ∈ ms, ∀ x ∈ m.span.toSet, x ∉ s.freeSet ∧ ¬ CanFree s (startsOfMods mem mbi ms) x := by
  have hfree : ∀ x, (∃ behind, x ∈ (processMods mem behind mbi s).freeSet) ↔
      x ∈ s.freeSet ∨ CanFree s (startsOfMods mem mbi ms) x := by
    intro x
    rw [← exists_reserveAll_iff hs]
    exact exists_congr fun behind => by rw [processMods_eq h]
  constructor
  · intro hall m hm x hx
    rw [← not_or, ← hfree]
    rintro ⟨behind, hin⟩
    exact Set.disjoint_left.mp (hall behind m hm) hx hin
  · intro hnone behind m hm
    refine Set.disjoint_left.mpr fun x hx hin => ?_
    rcases (hfree x).mp ⟨behind, hin⟩ with hbefore | hcan
    · exact (hnone m hm x hx).1 hbefore
    · exact (hnone m hm x hx).2 hcan

/-- The kernel's own image fares alike: its address is free afterwards, whatever lies on the stack, iff
it was before or can become so. -/
lemma exists_processELF_iff {s : PlacementMemory} (hs : s.WellFormed) {mbi : MultibootInfo}
    (hflag : checkFlag mbi.flags 5) (x : ℕ) :
    (∃ behind, x ∈ (processELF behind mbi s).freeSet) ↔
      x ∈ s.freeSet ∨ CanFree s [packed mbi.elfSec.addr mbi.elfSec.size] x := by
  rw [← exists_reserveAll_iff hs]
  simp only [processELF, if_neg (not_not.mpr hflag)]
  exact ⟨fun ⟨behind, h⟩ => ⟨fun _ => behind, h⟩, fun ⟨size, h⟩ => ⟨size 0, h⟩⟩

/-- A table with one area. -/
lemma mem_freeSet_ofAreas_singleton {a : MemoryArea} {x : ℕ} :
    x ∈ (ofAreas [a]).freeSet ↔ a.start.toNat ≤ x ∧ x < a.start.toNat + a.size.toNat := by
  rw [freeSet, spans_ofAreas, List.map_singleton, addresses_cons, addresses_nil, Set.union_empty]
  exact Iff.rfl

/-- A module above the only free area. -/
theorem modules_reserved_iff_example :
    let ms : List Module := [⟨0x200000, 0x300000, 0, 0⟩]
    let mbi : MultibootInfo := ⟨0x8, 1, 0x9000, ⟨0, 0, 0, 0⟩, 0, 0⟩
    let mem := memOf 0x9000 (encodeModules ms)
    let s := ofAreas [⟨0x100000, 0x100000⟩]
    ∀ behind, ∀ m ∈ ms, Disjoint m.span.toSet (processMods mem behind mbi s).freeSet := by
  refine (modules_reserved_iff (wellFormed_ofAreas (by decide))
    ⟨by decide, holds_memOf (by decide), by decide⟩).mpr ?_
  rintro m hm x ⟨hlo, hhi⟩
  obtain rfl := List.mem_singleton.mp hm
  refine ⟨fun hfree => ?_, ?_⟩
  · have hbelow := (mem_freeSet_ofAreas_singleton.mp hfree).2
    exact absurd (lt_of_le_of_lt hlo hbelow) (by decide)
  · -- the start that is received lies behind 4 GiB
    rintro ⟨before, start, behind, hstarts, hfree, -⟩
    have hstart : start ∈ [UInt64.ofNat (0x200000 + 2 ^ 32 * 0x100000)] := by
      refine Eq.subst (motive := fun l => start ∈ l) hstarts.symm ?_
      exact List.mem_append_right _ List.mem_cons_self
    rw [List.mem_singleton.mp hstart] at hfree
    exact absurd (mem_freeSet_ofAreas_singleton.mp hfree).2 (by decide)

/-- One module in one free area: the call is for a range that starts behind 4 GiB, and so the module
stays free. -/
theorem module_left_free :
    let ms : List Module := [⟨0x200000, 0x300000, 0, 0⟩]
    let mbi : MultibootInfo := ⟨0x8, 1, 0x9000, ⟨0, 0, 0, 0⟩, 0, 0⟩
    let mem := memOf 0x9000 (encodeModules ms)
    let s := ofAreas [⟨0x100000, 0x7ee0000⟩]
    s.WellFormed ∧ ModulesAt mem mbi ms ∧ (∀ m ∈ ms, m.modStart < m.modEnd) ∧
      ∀ behind, 0x200000 ∈ (processMods mem behind mbi s).freeSet := by
  have hs : (ofAreas [⟨0x100000, 0x7ee0000⟩]).WellFormed := wellFormed_ofAreas (by decide)
  refine ⟨hs, ⟨by decide, holds_memOf (by decide), by decide⟩, by decide, fun behind => ?_⟩
  have hoff : SameTable (ofAreas [⟨0x100000, 0x7ee0000⟩])
      ((ofAreas [⟨0x100000, 0x7ee0000⟩]).allocateArea (packed 0x200000 0x100000) (behind 0)).2 := by
    refine allocateArea_off hs fun a ha hin => ?_
    rw [spans_ofAreas, List.map_singleton, List.mem_singleton] at ha
    subst ha
    exact absurd hin.2 (by decide)
  show 0x200000 ∈ ((ofAreas [⟨0x100000, 0x7ee0000⟩]).allocateArea (packed 0x200000 0x100000)
    (behind 0)).2.freeSet
  rw [freeSet, hoff.spans_eq]
  exact mem_freeSet_ofAreas_singleton.mpr ⟨by decide, by decide⟩

end GrubKernel
