import GrubKernel.Lib.RangeList
import GrubKernel.PlacementMemory.Slots
import Mathlib.Data.List.GetD

/-!
# The free list as a set of addresses

The table stands for a set of free physical addresses.  This file says how: the areas in use are
read as half-open ranges of natural numbers, and `WellFormed` is the invariant under which that
reading is faithful, because no end wraps around `2 ^ 64`.

* `spans`, `freeSet` — the ranges in use and the addresses they cover.
* `WellFormed` — at most ten slots in use, non-empty, ascending, disjoint, below `2 ^ 64`.
* `ZeroTail` — the slots that are not in use hold the zero sentinel.
-/

namespace GrubKernel

open RangeList

/-! ## Areas as ranges -/

lemma toNat_pos_iff {size : UInt64} : 0 < size.toNat ↔ size ≠ 0 := by
  rw [Nat.pos_iff_ne_zero, ne_eq, ne_eq, ← UInt64.toNat_inj, UInt64.toNat_zero]

/-- The addresses of an area, with the end computed without wrapping. -/
def MemoryArea.span (a : MemoryArea) : Span ℕ := ⟨a.start.toNat, a.start.toNat + a.size.toNat⟩

lemma MemoryArea.span_lo (a : MemoryArea) : a.span.lo = a.start.toNat := rfl

lemma MemoryArea.span_hi (a : MemoryArea) : a.span.hi = a.start.toNat + a.size.toNat := rfl

/-- A non-empty area that ends at or below `2 ^ 64`. -/
def MemoryArea.Valid (a : MemoryArea) : Prop :=
  0 < a.size.toNat ∧ a.start.toNat + a.size.toNat ≤ 2 ^ 64

instance (a : MemoryArea) : Decidable a.Valid := inferInstanceAs (Decidable (_ ∧ _))

lemma MemoryArea.Valid.lo_lt_hi {a : MemoryArea} (h : a.Valid) : a.span.lo < a.span.hi := by
  have := h.1
  simp only [MemoryArea.span_lo, MemoryArea.span_hi]
  omega

lemma MemoryArea.Valid.size_ne_zero {a : MemoryArea} (h : a.Valid) : a.size ≠ 0 :=
  toNat_pos_iff.mp h.1

/-- For a valid area the wrapping end is the last address. -/
lemma MemoryArea.Valid.last_toNat {a : MemoryArea} (h : a.Valid) :
    a.last.toNat = a.start.toNat + a.size.toNat - 1 := by
  obtain ⟨hpos, hfit⟩ := h
  rw [MemoryArea.last, UInt64.toNat_sub, UInt64.toNat_add, UInt64.toNat_one]
  omega

/-- An area is determined by its range. -/
lemma MemoryArea.span_injective {a b : MemoryArea} (h : a.span = b.span) : a = b := by
  have hlo : a.start.toNat = b.start.toNat := congrArg Span.lo h
  have hhi : a.start.toNat + a.size.toNat = b.start.toNat + b.size.toNat := congrArg Span.hi h
  refine MemoryArea.ext (UInt64.toNat_inj.mp hlo) (UInt64.toNat_inj.mp ?_)
  omega

namespace PlacementMemory

/-! ## The set that a table stands for -/

/-- The ranges in use, in slot order. -/
def spans (s : PlacementMemory) : List (Span ℕ) := s.usedAreas.map MemoryArea.span

/-- The free addresses. -/
def freeSet (s : PlacementMemory) : Set ℕ := addresses s.spans

/-- The used slots are non-empty, ascending, pairwise disjoint and end at or below `2 ^ 64`. -/
structure WellFormed (s : PlacementMemory) : Prop where
  index_le : s.freeMemoryAreaIndex ≤ maxMemoryAreasSize
  separated : Separated s.spans
  bounded : ∀ a ∈ s.spans, a.hi ≤ 2 ^ 64

/-- The slots behind those in use hold the zero sentinel. -/
def ZeroTail (s : PlacementMemory) : Prop :=
  ∀ i, s.freeMemoryAreaIndex ≤ i → i < maxMemoryAreasSize → s.freeMemoryAreas i = ⟨0, 0⟩

/-- The two tables agree in the slots and in the count; only the record of accesses may differ. -/
def SameTable (s t : PlacementMemory) : Prop :=
  t.freeMemoryAreas = s.freeMemoryAreas ∧ t.freeMemoryAreaIndex = s.freeMemoryAreaIndex

lemma SameTable.refl (s : PlacementMemory) : SameTable s s := ⟨rfl, rfl⟩

lemma SameTable.trans {s t u : PlacementMemory} (h₁ : SameTable s t) (h₂ : SameTable t u) :
    SameTable s u := ⟨h₂.1.trans h₁.1, h₂.2.trans h₁.2⟩

lemma SameTable.usedAreas_eq {s t : PlacementMemory} (h : SameTable s t) :
    t.usedAreas = s.usedAreas := by rw [usedAreas, usedAreas, h.1, h.2]

lemma SameTable.spans_eq {s t : PlacementMemory} (h : SameTable s t) : t.spans = s.spans := by
  rw [spans, spans, h.usedAreas_eq]

lemma SameTable.wellFormed {s t : PlacementMemory} (h : SameTable s t) (hs : WellFormed s) :
    WellFormed t :=
  ⟨h.2 ▸ hs.index_le, h.spans_eq ▸ hs.separated, h.spans_eq ▸ hs.bounded⟩

@[simp] lemma length_spans (s : PlacementMemory) : s.spans.length = s.freeMemoryAreaIndex := by
  simp [spans]

lemma mem_spans {s : PlacementMemory} {a : Span ℕ} :
    a ∈ s.spans ↔ ∃ i < s.freeMemoryAreaIndex, (s.freeMemoryAreas i).span = a := by
  simp only [spans, List.mem_map, mem_usedAreas]
  constructor
  · rintro ⟨b, ⟨i, hi, rfl⟩, rfl⟩
    exact ⟨i, hi, rfl⟩
  · rintro ⟨i, hi, rfl⟩
    exact ⟨_, ⟨i, hi, rfl⟩, rfl⟩

lemma mem_freeSet {s : PlacementMemory} {x : ℕ} :
    x ∈ s.freeSet ↔ ∃ i < s.freeMemoryAreaIndex, (s.freeMemoryAreas i).start.toNat ≤ x ∧
      x < (s.freeMemoryAreas i).start.toNat + (s.freeMemoryAreas i).size.toNat := by
  constructor
  · rintro ⟨a, ha, hx⟩
    obtain ⟨i, hi, rfl⟩ := mem_spans.mp ha
    exact ⟨i, hi, hx⟩
  · rintro ⟨i, hi, hx⟩
    exact ⟨_, mem_spans.mpr ⟨i, hi, rfl⟩, hx⟩

@[simp] lemma spans_touch (s : PlacementMemory) (i : ℕ) : (s.touch i).spans = s.spans := rfl

lemma WellFormed.touch {s : PlacementMemory} (h : WellFormed s) (i : ℕ) : WellFormed (s.touch i) :=
  ⟨h.index_le, h.separated, h.bounded⟩

/-! ## One slot among the others -/

lemma spans_eq (s : PlacementMemory) {i : ℕ} (hi : i < s.freeMemoryAreaIndex) :
    s.spans = s.spans.take i ++ (s.freeMemoryAreas i).span :: s.spans.drop (i + 1) := by
  conv_lhs => rw [spans, s.usedAreas_eq hi]
  simp [spans]

lemma spans_store (s : PlacementMemory) {i : ℕ} (hi : i < s.freeMemoryAreaIndex) (a : MemoryArea) :
    (s.store i a).spans = s.spans.take i ++ a.span :: s.spans.drop (i + 1) := by
  rw [spans, usedAreas_store s hi]
  simp [spans]

lemma spans_removeArea (s : PlacementMemory) {i : ℕ} (hi : i < s.freeMemoryAreaIndex) :
    (s.removeArea i).spans = s.spans.take i ++ s.spans.drop (i + 1) := by
  rw [spans, usedAreas_removeArea s hi]
  simp [spans]

lemma spans_splitArea (s : PlacementMemory) {i : ℕ} (hi : i < s.freeMemoryAreaIndex)
    (a b : MemoryArea) :
    (s.splitArea i a b).spans
      = s.spans.take i ++ a.span :: b.span :: s.spans.drop (i + 1) := by
  rw [spans, usedAreas_splitArea s hi]
  simp [spans]

namespace WellFormed

variable {s : PlacementMemory} (h : WellFormed s)

include h

lemma valid {i : ℕ} (hi : i < s.freeMemoryAreaIndex) : (s.freeMemoryAreas i).Valid := by
  have hmem : (s.freeMemoryAreas i).span ∈ s.spans := mem_spans.mpr ⟨i, hi, rfl⟩
  have hlt := h.separated.1 _ hmem
  have hle := h.bounded _ hmem
  simp only [MemoryArea.span_lo, MemoryArea.span_hi] at hlt hle
  exact ⟨by omega, hle⟩

/-- Lower slots lie below higher ones. -/
lemma ordered {i j : ℕ} (hij : i < j) (hj : j < s.freeMemoryAreaIndex) :
    (s.freeMemoryAreas i).span.hi ≤ (s.freeMemoryAreas j).span.lo := by
  have hp := List.pairwise_iff_getElem.mp h.separated.2 i j (by simp; omega) (by simp; omega) hij
  simpa [spans] using hp

/-- The slots below and above slot `i`, as separated lists around its range. -/
lemma separated_at {i : ℕ} (hi : i < s.freeMemoryAreaIndex) :
    Separated (s.spans.take i ++ (s.freeMemoryAreas i).span :: s.spans.drop (i + 1)) :=
  s.spans_eq hi ▸ h.separated

lemma carve_at {i : ℕ} (hi : i < s.freeMemoryAreaIndex) (lo hi' : ℕ) (hlh : lo ≤ hi')
    (hlo : (s.freeMemoryAreas i).span.lo ≤ lo) (hhi : hi' ≤ (s.freeMemoryAreas i).span.hi) :
    carve lo hi' s.spans
      = s.spans.take i ++ (s.freeMemoryAreas i).span.minus lo hi' ++ s.spans.drop (i + 1) := by
  conv_lhs => rw [s.spans_eq hi]
  exact (h.separated_at hi).carve_middle hlh hlo hhi

/-- A table whose ranges are those of `s` with a range carved out is well-formed if its count is
not too large. -/
lemma of_carve {t : PlacementMemory} {lo hi : ℕ} (hlh : lo ≤ hi)
    (ht : t.spans = carve lo hi s.spans) (hn : t.freeMemoryAreaIndex ≤ maxMemoryAreasSize) :
    WellFormed t := by
  refine ⟨hn, ht ▸ h.separated.carve hlh, fun b hb => ?_⟩
  rw [ht] at hb
  obtain ⟨a, ha, -, -, hba⟩ := mem_carve hb
  exact hba.trans (h.bounded a ha)

/-- A table that keeps all areas but one and parts of that one is well-formed if its count is not too
large. -/
lemma of_replace {t : PlacementMemory} {i : ℕ} (hi : i < s.freeMemoryAreaIndex)
    {r : List (Span ℕ)} (hr : Separated r)
    (hin : ∀ b ∈ r, (s.freeMemoryAreas i).span.lo ≤ b.lo ∧ b.hi ≤ (s.freeMemoryAreas i).span.hi)
    (ht : t.spans = s.spans.take i ++ (r ++ s.spans.drop (i + 1)))
    (hn : t.freeMemoryAreaIndex ≤ maxMemoryAreasSize) : WellFormed t := by
  refine ⟨hn, ht ▸ (h.separated_at hi).replace hr hin, fun b hb => ?_⟩
  rw [ht, List.mem_append, List.mem_append] at hb
  rcases hb with hb | hb | hb
  · exact h.bounded b (List.mem_of_mem_take hb)
  · exact (hin b hb).2.trans (h.valid hi).2
  · exact h.bounded b (List.mem_of_mem_drop hb)

end WellFormed

/-- Reading the areas off a table whose ranges are known. -/
lemma usedAreas_eq_of_spans_eq {s t : PlacementMemory} (h : s.spans = t.spans) :
    s.usedAreas = t.usedAreas :=
  List.map_injective_iff.mpr (fun _ _ hab => MemoryArea.span_injective hab) h

/-! ## The zero sentinel under the basic steps -/

lemma ZeroTail.touch {s : PlacementMemory} (h : ZeroTail s) (i : ℕ) : ZeroTail (s.touch i) := h

lemma ZeroTail.store {s : PlacementMemory} (h : ZeroTail s) {i : ℕ} (hi : i < s.freeMemoryAreaIndex)
    (a : MemoryArea) : ZeroTail (s.store i a) := by
  intro k hk hk'
  rw [store_freeMemoryAreaIndex] at hk
  rw [store_freeMemoryAreas, Function.update_of_ne (by omega)]
  exact h k hk hk'

/-- Removing an area moves the sentinel down, as long as there is one behind the last slot in use. -/
lemma ZeroTail.removeArea {s : PlacementMemory} (h : ZeroTail s) {i : ℕ}
    (hi : i < s.freeMemoryAreaIndex) (hroom : s.freeMemoryAreaIndex < maxMemoryAreasSize) :
    ZeroTail (s.removeArea i) := by
  intro k hk hk'
  rw [removeArea_freeMemoryAreaIndex] at hk
  rw [removeArea_freeMemoryAreas]
  split_ifs with hin
  · exact h (k + 1) (by omega) (by omega)
  · exact h k (by omega) hk'

lemma ZeroTail.splitArea {s : PlacementMemory} (h : ZeroTail s) {i : ℕ}
    (hi : i < s.freeMemoryAreaIndex) (a b : MemoryArea) : ZeroTail (s.splitArea i a b) := by
  intro k hk hk'
  rw [splitArea_freeMemoryAreaIndex] at hk
  rw [splitArea_freeMemoryAreas s hi, if_neg (by omega), if_neg (by omega), if_neg (by omega)]
  exact h k (by omega) hk'

/-! ## Tables given by their areas -/

/-- The table that holds the given areas and zeros behind them. -/
def ofAreas (l : List MemoryArea) : PlacementMemory :=
  { freeMemoryAreas := fun i => l.getD i ⟨0, 0⟩, freeMemoryAreaIndex := l.length, touched := [] }

@[simp] lemma ofAreas_freeMemoryAreaIndex (l : List MemoryArea) :
    (ofAreas l).freeMemoryAreaIndex = l.length := rfl

@[simp] lemma usedAreas_ofAreas (l : List MemoryArea) : (ofAreas l).usedAreas = l := by
  refine List.ext_getElem (by simp) fun k hk hk' => ?_
  rw [getElem_usedAreas]
  exact List.getD_eq_getElem l ⟨0, 0⟩ hk'

@[simp] lemma spans_ofAreas (l : List MemoryArea) :
    (ofAreas l).spans = l.map MemoryArea.span := by rw [spans, usedAreas_ofAreas]

lemma zeroTail_ofAreas (l : List MemoryArea) : ZeroTail (ofAreas l) := by
  intro i hi _
  exact List.getD_eq_default l ⟨0, 0⟩ hi

/-- The list of areas fits the table, and its ranges are separated and do not wrap. -/
def AreasWellFormed (l : List MemoryArea) : Prop :=
  l.length ≤ maxMemoryAreasSize ∧ Separated (l.map MemoryArea.span) ∧
    ∀ a ∈ l, a.span.hi ≤ 2 ^ 64

instance (l : List MemoryArea) : Decidable (AreasWellFormed l) :=
  inferInstanceAs (Decidable (_ ∧ _ ∧ _))

lemma wellFormed_ofAreas {l : List MemoryArea} (h : AreasWellFormed l) : WellFormed (ofAreas l) := by
  obtain ⟨hlen, hsep, hbound⟩ := h
  refine ⟨hlen, by rwa [spans_ofAreas], ?_⟩
  rw [spans_ofAreas]
  intro a ha
  obtain ⟨b, hb, rfl⟩ := List.mem_map.mp ha
  exact hbound b hb

end PlacementMemory
end GrubKernel
