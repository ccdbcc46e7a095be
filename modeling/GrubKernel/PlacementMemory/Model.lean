import Mathlib.Tactic
import Mathlib.Logic.Function.Basic

/-!
# The placement memory

`placement_memory.c` keeps the free physical memory in a global table of ten slots,
`free_memory_areas`, and a count of the slots in use, `free_memory_area_index`.  This file
translates the operations on that table.

* `PlacementMemory` — the table and the count.  The table is indexed by every natural number:
  slots `0..9` are the array, the slots from `10` on are whatever lies behind it in memory, so
  that an access past the end is a value of the model and not a gap in it.  `touched` records
  the slot numbers that were read or written, which is all the bounds results need.
* `allocate`, `allocateArea`, `allocateAreaCover`, `insertArea` — the four operations, branch for
  branch.  `start`, `size` and the ends computed from them are 64-bit and wrap.
* `removeArea`, `splitArea` — the shift loops that the operations have in common.

An `int` result is an integer with the error codes of the source.
-/

namespace GrubKernel

/-- `MAX_MEMORY_AREAS_SIZE`. -/
def maxMemoryAreasSize : ℕ := 10

/-- `memory_area_t`. -/
@[ext] structure MemoryArea where
  start : UInt64
  size : UInt64
deriving DecidableEq, Repr, Inhabited

/-- The address of the last byte as the source computes it, `start + size - 1` modulo `2 ^ 64`. -/
def MemoryArea.last (a : MemoryArea) : UInt64 := a.start + a.size - 1

/-- `overlapp`: one of the two end points of `rhs` lies in `lhs`. -/
def overlapp (lhs rhs : MemoryArea) : Bool :=
  (lhs.start ≤ rhs.start ∧ rhs.start ≤ lhs.last) ∨ (lhs.start ≤ rhs.last ∧ rhs.last ≤ lhs.last)

/-- `is_free`: the slot is not in use. -/
def isFree (a : MemoryArea) : Bool := a.size = 0 ∧ a.start = 0

/-- The table of free areas, the number of slots in use, and the slots accessed so far. -/
structure PlacementMemory where
  freeMemoryAreas : ℕ → MemoryArea
  freeMemoryAreaIndex : ℕ
  touched : List ℕ

namespace PlacementMemory

/-! ## Slots -/

/-- Slot `i` is read. -/
def touch (s : PlacementMemory) (i : ℕ) : PlacementMemory := { s with touched := i :: s.touched }

/-- Slot `i` is written. -/
def store (s : PlacementMemory) (i : ℕ) (a : MemoryArea) : PlacementMemory :=
  { s with freeMemoryAreas := Function.update s.freeMemoryAreas i a, touched := i :: s.touched }

/-- The loop `free_memory_areas[j] = free_memory_areas[j + 1]`, `n` rounds upwards from `j`. -/
def shiftDown (s : PlacementMemory) (j : ℕ) : ℕ → PlacementMemory
  | 0 => s
  | n + 1 => shiftDown ((s.touch (j + 1)).store j (s.freeMemoryAreas (j + 1))) (j + 1) n

/-- The loop `free_memory_areas[j] = free_memory_areas[j - 1]`, `n` rounds downwards to `j = i + 1`. -/
def shiftUp (s : PlacementMemory) (i : ℕ) : ℕ → PlacementMemory
  | 0 => s
  | n + 1 => shiftUp ((s.touch (i + n)).store (i + n + 1) (s.freeMemoryAreas (i + n))) i n

/-- Remove slot `i`: everything behind it moves one slot down, up to the last slot in use. -/
def removeArea (s : PlacementMemory) (i : ℕ) : PlacementMemory :=
  { s.shiftDown i (s.freeMemoryAreaIndex - i) with
    freeMemoryAreaIndex := s.freeMemoryAreaIndex - 1 }

/-- Replace slot `i` by two: everything behind it moves one slot up. -/
def splitArea (s : PlacementMemory) (i : ℕ) (left right : MemoryArea) : PlacementMemory :=
  { ((s.store i left).shiftUp i (s.freeMemoryAreaIndex - i)).store (i + 1) right with
    freeMemoryAreaIndex := s.freeMemoryAreaIndex + 1 }

/-! ## Reset and size -/

/-- The loop of `clear_placement_memory_array` over the first `n` slots. -/
def clearSlots (s : PlacementMemory) : ℕ → PlacementMemory
  | 0 => s
  | n + 1 => (clearSlots s n).store n ⟨0, 0⟩

/-- `clear_placement_memory_array`. -/
def clearPlacementMemoryArray (s : PlacementMemory) : PlacementMemory :=
  { s with freeMemoryAreaIndex := 0 }.clearSlots maxMemoryAreasSize

/-- The loop of `memory_areas_size`, `n` slots from slot `i` on. -/
def memoryAreasSizeFrom (s : PlacementMemory) : ℕ → ℕ → ℕ
  | 0, _ => maxMemoryAreasSize
  | n + 1, i =>
      if (s.freeMemoryAreas i).start = 0 ∧ (s.freeMemoryAreas i).size = 0 then i
      else memoryAreasSizeFrom s n (i + 1)

/-- `memory_areas_size`: the first slot that is all zero. -/
def memoryAreasSize (s : PlacementMemory) : ℕ := s.memoryAreasSizeFrom maxMemoryAreasSize 0

/-! ## `allocate` -/

/-- The loop of `allocate`, `n` slots from slot `i` on. -/
def allocateFrom (size : UInt64) : ℕ → ℕ → PlacementMemory → UInt64 × PlacementMemory
  | 0, _, s => (0, s)
  | n + 1, i, s =>
      let s := s.touch i
      let a := s.freeMemoryAreas i
      if a.size > size then (a.start, s.store i ⟨a.start + size, a.size - size⟩)
      else if a.size = size then (a.start, s.removeArea i)
      else allocateFrom size n (i + 1) s

/-- `allocate`: the start of the lowest area that is large enough, or `0`. -/
def allocate (s : PlacementMemory) (size : UInt64) : UInt64 × PlacementMemory :=
  if s.freeMemoryAreaIndex = 0 then (0, s)
  else if size = 0 then (0, s)
  else allocateFrom size s.freeMemoryAreaIndex 0 s

/-! ## `allocate_area` -/

/-- The search loop of `allocate_area`: the first area that does not end below `start`. -/
def findOverlap (start : UInt64) : ℕ → ℕ → PlacementMemory → Option ℕ × PlacementMemory
  | 0, _, s => (none, s)
  | n + 1, i, s =>
      let s := s.touch i
      if start > (s.freeMemoryAreas i).last then findOverlap start n (i + 1) s
      else (some i, s)

/-- The case distinction of `allocate_area` on the area found, in slot `i`. -/
def allocateAreaAt (s : PlacementMemory) (start size : UInt64) (i : ℕ) : ℤ × PlacementMemory :=
  let a := s.freeMemoryAreas i
  let last := start + size - 1
  if a.start = start ∧ a.last > last then
    (0, s.store i ⟨a.start + size, a.size - size⟩)
  else if a.start < start ∧ a.last = last then
    (0, s.store i ⟨a.start, a.size - size⟩)
  else if a.start = start ∧ a.last = last then
    (0, s.removeArea i)
  else if a.start < start ∧ a.last > last then
    if s.freeMemoryAreaIndex = maxMemoryAreasSize then (-4, s)
    else (0, s.splitArea i ⟨a.start, start - a.start⟩
      ⟨last + 1, a.size - size - (start - a.start)⟩)
  else (-5, s)

/-- `allocate_area`: reserve `[start, start + size)` if it lies inside one free area. -/
def allocateArea (s : PlacementMemory) (start size : UInt64) : ℤ × PlacementMemory :=
  if s.freeMemoryAreaIndex = 0 then (-1, s)
  else if size = 0 then (-2, s)
  else
    match findOverlap start s.freeMemoryAreaIndex 0 s with
    | (none, s) => (-3, s)
    | (some i, s) => s.allocateAreaAt start size i

/-! ## `allocate_area_cover` -/

/-- The area in slot `i` has a byte in common with `[start, last]`. -/
def Meets (s : PlacementMemory) (start last : UInt64) (i : ℕ) : Prop :=
  ¬ ((s.freeMemoryAreas i).last < start ∨ (s.freeMemoryAreas i).start > last)

instance (s : PlacementMemory) (start last : UInt64) (i : ℕ) : Decidable (s.Meets start last i) :=
  inferInstanceAs (Decidable (¬ _))

@[simp] lemma touch_freeMemoryAreas (s : PlacementMemory) (i : ℕ) :
    (s.touch i).freeMemoryAreas = s.freeMemoryAreas := rfl

@[simp] lemma touch_freeMemoryAreaIndex (s : PlacementMemory) (i : ℕ) :
    (s.touch i).freeMemoryAreaIndex = s.freeMemoryAreaIndex := rfl

@[simp] lemma store_freeMemoryAreas (s : PlacementMemory) (i : ℕ) (a : MemoryArea) :
    (s.store i a).freeMemoryAreas = Function.update s.freeMemoryAreas i a := rfl

@[simp] lemma store_freeMemoryAreaIndex (s : PlacementMemory) (i : ℕ) (a : MemoryArea) :
    (s.store i a).freeMemoryAreaIndex = s.freeMemoryAreaIndex := rfl

@[simp] lemma removeArea_freeMemoryAreaIndex (s : PlacementMemory) (i : ℕ) :
    (s.removeArea i).freeMemoryAreaIndex = s.freeMemoryAreaIndex - 1 := rfl

@[simp] lemma splitArea_freeMemoryAreaIndex (s : PlacementMemory) (i : ℕ) (a b : MemoryArea) :
    (s.splitArea i a b).freeMemoryAreaIndex = s.freeMemoryAreaIndex + 1 := rfl

lemma splitArea_freeMemoryAreas_right (s : PlacementMemory) (i : ℕ) (a b : MemoryArea) :
    (s.splitArea i a b).freeMemoryAreas (i + 1) = b := by
  simp [splitArea]

lemma lt_add_one_of_lt {x y : UInt64} (h : x < y) : x < x + 1 := by
  rw [UInt64.lt_iff_toNat_lt] at h ⊢
  have hy := y.toNat_lt
  rw [UInt64.toNat_add, UInt64.toNat_one]
  omega

/-- The loop of `allocate_area_cover` from slot `i` on.  A removed slot is followed by the slot that
moved into its place.  A split advances both the slot and the count; it ends because the second
half starts behind `last`, which is what the measure counts. -/
def coverFrom (start last : UInt64) (s : PlacementMemory) (i : ℕ) : ℤ × PlacementMemory :=
  if i < s.freeMemoryAreaIndex then
    let a := s.freeMemoryAreas i
    if ¬ s.Meets start last i then
      coverFrom start last (s.touch i) (i + 1)
    else if start ≤ a.start ∧ last ≥ a.last then
      coverFrom start last ((s.touch i).removeArea i) i
    else if start ≤ a.start ∧ last < a.last then
      coverFrom start last ((s.touch i).store i ⟨last + 1, a.last - (last + 1) + 1⟩) (i + 1)
    else if start > a.start ∧ last ≥ a.last then
      coverFrom start last ((s.touch i).store i ⟨a.start, start - a.start⟩) (i + 1)
    else if start > a.start ∧ last < a.last then
      if s.freeMemoryAreaIndex = maxMemoryAreasSize then (-1, s.touch i)
      else coverFrom start last
        ((s.touch i).splitArea i ⟨a.start, start - a.start⟩ ⟨last + 1, a.last - last⟩) (i + 1)
    else coverFrom start last (s.touch i) (i + 1)
  else (0, s)
termination_by 2 * (s.freeMemoryAreaIndex - i) + if s.Meets start last i then 1 else 0
decreasing_by
  all_goals simp_wf
  · rename_i h hm
    simp only [hm, if_false]
    split <;> omega
  · rename_i h hm _
    split <;> omega
  · split <;> omega
  · split <;> omega
  · rename_i h hm _ _ _ hin _
    have hafter : ¬ ((s.touch i).splitArea i ⟨a.start, start - a.start⟩
        ⟨last + 1, a.last - last⟩).Meets start last (i + 1) := by
      simp only [Meets, splitArea_freeMemoryAreas_right, not_not]
      exact Or.inr (lt_add_one_of_lt hin.2)
    rw [if_neg hafter, if_pos (not_not.mp hm)]
    omega
  · split <;> omega

/-- `allocate_area_cover`: reserve every free byte of `[start, start + size)`. -/
def allocateAreaCover (s : PlacementMemory) (start size : UInt64) : ℤ × PlacementMemory :=
  if s.freeMemoryAreaIndex = 0 then (0, s)
  else coverFrom start (start + size - 1) s 0

/-! ## `insert_area` -/

/-- The search loop of `insert_area`: the first slot whose area does not start below `start`, or the
first slot behind those in use.  The source reads the slot before it compares the index. -/
def findInsert (start : UInt64) : ℕ → ℕ → PlacementMemory → ℕ × PlacementMemory
  | 0, i, s => (i, s.touch i)
  | n + 1, i, s =>
      if start > (s.freeMemoryAreas i).start then findInsert start n (i + 1) (s.touch i)
      else (i, s.touch i)

/-- The rest of `insert_area` once the slot `i` is found. -/
def insertAreaAt (s : PlacementMemory) (start size : UInt64) (i : ℕ) : ℤ × PlacementMemory :=
  let new : MemoryArea := ⟨start, size⟩
  let pred := s.freeMemoryAreas (i - 1)
  let succ := s.freeMemoryAreas i
  let s := if i > 0 then s.touch (i - 1) else s
  if i > 0 ∧ overlapp pred new then (-3, s)
  else if ¬ isFree succ ∧ overlapp succ new then (-4, s.touch i)
  else
    let s := s.touch i
    if i > 0 ∧ pred.last + 1 = start then
      let pred : MemoryArea := ⟨pred.start, pred.size + size⟩
      let s := s.store (i - 1) pred
      if succ.start = pred.last + 1 then
        (0, (s.store (i - 1) ⟨pred.start, pred.size + succ.size⟩).removeArea i)
      else (0, s)
    else if succ.start = start + size then
      (0, s.store i ⟨start, succ.size + size⟩)
    else
      (0, { s.store i new with freeMemoryAreaIndex := s.freeMemoryAreaIndex + 1 })

/-- `insert_area`: add `[start, start + size)` to the free areas. -/
def insertArea (s : PlacementMemory) (start size : UInt64) : ℤ × PlacementMemory :=
  if s.freeMemoryAreaIndex = maxMemoryAreasSize then (-1, s)
  else if size = 0 then (-2, s)
  else
    let found := findInsert start s.freeMemoryAreaIndex 0 s
    found.2.insertAreaAt start size found.1

end PlacementMemory

end GrubKernel
