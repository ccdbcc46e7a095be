import GrubKernel.PlacementMemory.Model
import Mathlib.Data.List.Basic

/-!
# What the shift loops do to the table

`shiftDown` and `shiftUp` are the only loops that write more than one slot.  Their effect on the
slots, on the count and on the record of accesses is stated here once; the operations are then
described by the list of the areas in use.

* `usedAreas` — the contents of slots `0 .. free_memory_area_index - 1`.
* `usedAreas_store`, `usedAreas_removeArea`, `usedAreas_splitArea` — one slot of that list is
  replaced by one, by none, or by two areas.
* `mem_touched_removeArea`, `mem_touched_splitArea` — which slots are accessed.
-/

namespace GrubKernel
namespace PlacementMemory

/-! ## The shift loops -/

/-- After `n` rounds the slots `j .. j + n - 1` hold what was one slot above them. -/
lemma shiftDown_freeMemoryAreas (n : ℕ) : ∀ (s : PlacementMemory) (j k : ℕ),
    (s.shiftDown j n).freeMemoryAreas k
      = if j ≤ k ∧ k < j + n then s.freeMemoryAreas (k + 1) else s.freeMemoryAreas k := by
  induction n with
  | zero =>
      intro s j k
      rw [if_neg (by omega)]
      rfl
  | succ n ih =>
      intro s j k
      rw [shiftDown, ih]
      simp only [store_freeMemoryAreas, touch_freeMemoryAreas, Function.update_apply]
      split_ifs <;> first | rfl | omega | (congr 1; omega)

/-- After `n` rounds the slots `i + 1 .. i + n` hold what was one slot below them. -/
lemma shiftUp_freeMemoryAreas (n : ℕ) : ∀ (s : PlacementMemory) (i k : ℕ),
    (s.shiftUp i n).freeMemoryAreas k
      = if i < k ∧ k ≤ i + n then s.freeMemoryAreas (k - 1) else s.freeMemoryAreas k := by
  induction n with
  | zero =>
      intro s i k
      rw [if_neg (by omega)]
      rfl
  | succ n ih =>
      intro s i k
      rw [shiftUp, ih]
      simp only [store_freeMemoryAreas, touch_freeMemoryAreas, Function.update_apply]
      split_ifs <;> first | rfl | omega | (congr 1; omega)

/-- `n` rounds from `j` access the slots `j .. j + n`. -/
lemma mem_touched_shiftDown (n : ℕ) : ∀ (s : PlacementMemory) (j x : ℕ),
    x ∈ (s.shiftDown j n).touched ↔ x ∈ s.touched ∨ (0 < n ∧ j ≤ x ∧ x ≤ j + n) := by
  induction n with
  | zero =>
      intro s j x
      simp [shiftDown]
  | succ n ih =>
      intro s j x
      rw [shiftDown, ih]
      simp only [store, touch, List.mem_cons]
      grind

/-- `n` rounds down to `i + 1` access the slots `i .. i + n`. -/
lemma mem_touched_shiftUp (n : ℕ) : ∀ (s : PlacementMemory) (i x : ℕ),
    x ∈ (s.shiftUp i n).touched ↔ x ∈ s.touched ∨ (0 < n ∧ i ≤ x ∧ x ≤ i + n) := by
  induction n with
  | zero =>
      intro s i x
      simp [shiftUp]
  | succ n ih =>
      intro s i x
      rw [shiftUp, ih]
      simp only [store, touch, List.mem_cons]
      grind

/-! ## Removing and splitting a slot -/

lemma removeArea_freeMemoryAreas (s : PlacementMemory) (i k : ℕ) :
    (s.removeArea i).freeMemoryAreas k
      = if i ≤ k ∧ k < s.freeMemoryAreaIndex then s.freeMemoryAreas (k + 1)
        else s.freeMemoryAreas k := by
  show (s.shiftDown i (s.freeMemoryAreaIndex - i)).freeMemoryAreas k = _
  rw [shiftDown_freeMemoryAreas]
  split_ifs <;> first | rfl | omega

lemma splitArea_freeMemoryAreas (s : PlacementMemory) {i : ℕ} (hi : i < s.freeMemoryAreaIndex)
    (a b : MemoryArea) (k : ℕ) :
    (s.splitArea i a b).freeMemoryAreas k
      = if k = i then a
        else if k = i + 1 then b
        else if i + 1 < k ∧ k ≤ s.freeMemoryAreaIndex then s.freeMemoryAreas (k - 1)
        else s.freeMemoryAreas k := by
  show Function.update ((s.store i a).shiftUp i (s.freeMemoryAreaIndex - i)).freeMemoryAreas
    (i + 1) b k = _
  rw [Function.update_apply, shiftUp_freeMemoryAreas]
  simp only [store_freeMemoryAreas, Function.update_apply]
  split_ifs <;> first | rfl | omega

/-- **Removing a slot reads one slot past the last one in use.** -/
lemma mem_touched_removeArea (s : PlacementMemory) (i x : ℕ) :
    x ∈ (s.removeArea i).touched ↔
      x ∈ s.touched ∨ (i < s.freeMemoryAreaIndex ∧ i ≤ x ∧ x ≤ s.freeMemoryAreaIndex) := by
  show x ∈ (s.shiftDown i (s.freeMemoryAreaIndex - i)).touched ↔ _
  rw [mem_touched_shiftDown]
  grind

lemma mem_touched_splitArea (s : PlacementMemory) {i : ℕ} (hi : i < s.freeMemoryAreaIndex)
    (a b : MemoryArea) (x : ℕ) :
    x ∈ (s.splitArea i a b).touched ↔
      x ∈ s.touched ∨ (i ≤ x ∧ x ≤ s.freeMemoryAreaIndex) := by
  show x ∈ (i + 1) :: ((s.store i a).shiftUp i (s.freeMemoryAreaIndex - i)).touched ↔ _
  rw [List.mem_cons, mem_touched_shiftUp]
  simp only [store, List.mem_cons]
  grind

/-! ## The areas in use -/

/-- The contents of the slots in use, in slot order. -/
def usedAreas (s : PlacementMemory) : List MemoryArea :=
  (List.range s.freeMemoryAreaIndex).map s.freeMemoryAreas

@[simp] lemma length_usedAreas (s : PlacementMemory) :
    s.usedAreas.length = s.freeMemoryAreaIndex := by simp [usedAreas]

@[simp] lemma getElem_usedAreas (s : PlacementMemory) {k : ℕ} (h : k < s.usedAreas.length) :
    s.usedAreas[k] = s.freeMemoryAreas k := by simp [usedAreas]

lemma mem_usedAreas {s : PlacementMemory} {a : MemoryArea} :
    a ∈ s.usedAreas ↔ ∃ i < s.freeMemoryAreaIndex, s.freeMemoryAreas i = a := by
  simp [usedAreas]

/-- The list of areas in use depends on the slots below the count only. -/
lemma usedAreas_congr {s t : PlacementMemory} (hn : s.freeMemoryAreaIndex = t.freeMemoryAreaIndex)
    (h : ∀ i < t.freeMemoryAreaIndex, s.freeMemoryAreas i = t.freeMemoryAreas i) :
    s.usedAreas = t.usedAreas := by
  unfold usedAreas
  rw [hn]
  refine List.map_congr_left fun i hi => ?_
  exact h i (List.mem_range.mp hi)

/-- The list of areas in use, taken apart at slot `i`. -/
lemma usedAreas_eq (s : PlacementMemory) {i : ℕ} (hi : i < s.freeMemoryAreaIndex) :
    s.usedAreas = s.usedAreas.take i ++ s.freeMemoryAreas i :: s.usedAreas.drop (i + 1) := by
  have hlen : i < s.usedAreas.length := by simpa using hi
  rw [← getElem_usedAreas s hlen, List.getElem_cons_drop, List.take_append_drop]

/-- Writing a slot in use replaces one area. -/
lemma usedAreas_store (s : PlacementMemory) {i : ℕ} (hi : i < s.freeMemoryAreaIndex)
    (a : MemoryArea) :
    (s.store i a).usedAreas = s.usedAreas.take i ++ a :: s.usedAreas.drop (i + 1) := by
  refine List.ext_getElem (by simp; omega) fun k hk hk' => ?_
  rw [getElem_usedAreas, List.getElem_append, store_freeMemoryAreas, Function.update_apply]
  simp only [List.length_take, length_usedAreas, List.getElem_take, getElem_usedAreas,
    List.getElem_cons, List.getElem_drop]
  split_ifs <;> first | rfl | omega | (congr 1; omega)

/-- Removing a slot in use drops one area. -/
lemma usedAreas_removeArea (s : PlacementMemory) {i : ℕ} (hi : i < s.freeMemoryAreaIndex) :
    (s.removeArea i).usedAreas = s.usedAreas.take i ++ s.usedAreas.drop (i + 1) := by
  refine List.ext_getElem (by simp; omega) fun k hk hk' => ?_
  have hk₁ : k < s.freeMemoryAreaIndex - 1 := by simpa using hk
  rw [getElem_usedAreas, List.getElem_append, removeArea_freeMemoryAreas]
  simp only [List.length_take, length_usedAreas, List.getElem_take, getElem_usedAreas,
    List.getElem_drop]
  split_ifs <;> first | rfl | omega | (congr 1; omega)

/-- Splitting a slot in use replaces one area by two. -/
lemma usedAreas_splitArea (s : PlacementMemory) {i : ℕ} (hi : i < s.freeMemoryAreaIndex)
    (a b : MemoryArea) :
    (s.splitArea i a b).usedAreas = s.usedAreas.take i ++ a :: b :: s.usedAreas.drop (i + 1) := by
  refine List.ext_getElem (by simp; omega) fun k hk hk' => ?_
  have hk₁ : k < s.freeMemoryAreaIndex + 1 := by simpa using hk
  rw [getElem_usedAreas, List.getElem_append, splitArea_freeMemoryAreas s hi]
  simp only [List.length_take, length_usedAreas, List.getElem_take, getElem_usedAreas,
    List.getElem_cons, List.getElem_drop]
  split_ifs <;> first | rfl | omega | (congr 1; omega)

end PlacementMemory
end GrubKernel
