import GrubKernel.PlacementMemory.Grants
import Mathlib.Data.Set.Card
import Mathlib.Order.Interval.Finset.Nat

/-!
# The reserving operations are exact and atomic

What a caller may rely on: the result of an operation tells exactly what happened to the set of free
addresses.

* **`allocateArea_exact`** — `allocate_area` succeeds iff the range fits, and then takes it away.
* **`allocateAreaCover_exact`** — `allocate_area_cover` takes the range away unless the table is full and
  the range would split an area.
* **`allocate_exact`** — `allocate` takes the first bytes of the lowest area that is large enough.
* **`reservation_paths_agree`** — on a range inside one area the first two leave the same table.
-/

namespace GrubKernel

open RangeList

namespace PlacementMemory

/-! ## The search of `allocate_area` -/

/-- `allocate_area` decides on the area that contains the start of the range. -/
lemma allocateArea_inside {s : PlacementMemory} (hs : WellFormed s) {start size : UInt64} {k : ℕ}
    (hne : size ≠ 0) (hk : k < s.freeMemoryAreaIndex)
    (hlo : (s.freeMemoryAreas k).span.lo ≤ start.toNat)
    (hhi : start.toNat < (s.freeMemoryAreas k).span.hi) :
    ∃ t, SameTable s t ∧ s.allocateArea start size = t.allocateAreaAt start size k := by
  obtain ⟨t, hsame, hfind⟩ := findOverlap_eq hs hk hlo hhi
  refine ⟨t, hsame, ?_⟩
  unfold allocateArea
  rw [if_neg (by omega), if_neg hne, hfind]

/-- A range that would split an area of a full table is refused with `-4`. -/
lemma allocateArea_blocked {s : PlacementMemory} (hs : WellFormed s) {r : MemoryArea} (hr : r.Valid)
    (hblocked : Blocked s r.span) : (s.allocateArea r.start r.size).1 = -4 := by
  obtain ⟨hfull, a, ha, hlo, hhi⟩ := hblocked
  obtain ⟨k, hk, rfl⟩ := mem_spans.mp ha
  have hrlt : r.span.lo < r.span.hi := hr.lo_lt_hi
  have hv := hs.valid hk
  have hstart : r.start.toNat = r.span.lo := rfl
  have hne := hr.size_ne_zero
  have hbefore : (s.freeMemoryAreas k).start < r.start := UInt64.lt_iff_toNat_lt.mpr hlo
  have hbehind : (s.freeMemoryAreas k).last > r.start + r.size - 1 :=
    (MemoryArea.last_lt_last_iff hv hr).mpr hhi
  have hnstart : (s.freeMemoryAreas k).start ≠ r.start := by
    intro heq
    rw [heq] at hbefore
    exact UInt64.lt_irrefl _ hbefore
  have hnlast : (s.freeMemoryAreas k).last ≠ r.start + r.size - 1 := by
    intro heq
    rw [heq] at hbehind
    exact UInt64.lt_irrefl _ hbehind
  obtain ⟨t, hsame, hat⟩ : ∃ t, SameTable s t ∧
      s.allocateArea r.start r.size = t.allocateAreaAt r.start r.size k :=
    allocateArea_inside hs hne hk (by omega) (by omega)
  rw [hat]
  unfold allocateAreaAt
  dsimp only
  rw [hsame.1, hsame.2, if_neg fun h => hnstart h.1, if_neg fun h => hnlast h.2,
    if_neg fun h => hnstart h.1, if_pos ⟨hbefore, hbehind⟩, if_pos hfull]

/-! ## Counting free bytes -/

lemma finite_freeSet {s : PlacementMemory} (hs : WellFormed s) : s.freeSet.Finite := by
  refine (Set.finite_Iio (2 ^ 64)).subset ?_
  rintro x ⟨a, ha, -, hx⟩
  exact hx.trans_le (hs.bounded a ha)

/-- Taking a range of free bytes away. -/
lemma ncard_freeSet_sdiff {s : PlacementMemory} (hs : WellFormed s) {lo n : ℕ}
    (hsub : Set.Ico lo (lo + n) ⊆ s.freeSet) :
    (s.freeSet \ Set.Ico lo (lo + n)).ncard + n = s.freeSet.ncard := by
  have hcard : (Set.Ico lo (lo + n)).ncard = n := by
    rw [← Finset.coe_Ico, Set.ncard_coe_finset, Nat.card_Ico, Nat.add_sub_cancel_left]
  have hsplit := Set.ncard_sdiff_add_ncard_of_subset hsub (finite_freeSet hs)
  rwa [hcard] at hsplit

/-- The memory of a machine with 128 MiB: conventional memory and what lies above 1 MiB. -/
def smallMachine : PlacementMemory := ofAreas [⟨0, 0x9fc00⟩, ⟨0x100000, 0x7ee0000⟩]

lemma wellFormed_smallMachine : smallMachine.WellFormed := wellFormed_ofAreas (by decide)

end PlacementMemory

open PlacementMemory

/-! ## The results -/

/-- **`allocate_area` is exact and atomic.**  It returns `0` iff the size is not `0`, the range lies inside
one area, and there is a slot for a second half if there will be one.  Then the range is taken away from
the free addresses, and a negative result changes nothing. -/
theorem allocateArea_exact {s : PlacementMemory} (hs : s.WellFormed) {start size : UInt64}
    (hfit : start.toNat + size.toNat ≤ 2 ^ 64) :
    ((s.allocateArea start size).1 = 0 ↔ 1 ≤ size.toNat ∧ ∃ a ∈ s.spans,
      a.lo ≤ start.toNat ∧ start.toNat + size.toNat ≤ a.hi ∧
      (a.lo < start.toNat → start.toNat + size.toNat < a.hi →
        s.freeMemoryAreaIndex < maxMemoryAreasSize)) ∧
    ((s.allocateArea start size).1 = 0 → (s.allocateArea start size).2.WellFormed ∧
      (s.allocateArea start size).2.freeSet
        = s.freeSet \ Set.Ico start.toNat (start.toNat + size.toNat)) ∧
    ((s.allocateArea start size).1 < 0 → SameTable s (s.allocateArea start size).2) := by
  have hle := hs.index_le
  by_cases hzero : size = 0
  · -- an empty range is refused
    have hrefused : (s.allocateArea start size).1 < 0 ∧ (s.allocateArea start size).2 = s := by
      unfold allocateArea
      split_ifs
      · exact ⟨show (-1 : ℤ) < 0 by decide, rfl⟩
      · exact ⟨show (-2 : ℤ) < 0 by decide, rfl⟩
    obtain ⟨hneg, hsame⟩ := hrefused
    refine ⟨iff_of_false hneg.ne ?_, fun hbad => absurd hbad hneg.ne, fun _ => ?_⟩
    · rintro ⟨hpos, -⟩
      rw [hzero] at hpos
      simp at hpos
    · rw [hsame]
      exact SameTable.refl s
  · have hpos := toNat_pos_iff.mpr hzero
    have hr : (⟨start, size⟩ : MemoryArea).Valid := ⟨hpos, hfit⟩
    have hfits : Fits s.spans (⟨start, size⟩ : MemoryArea).span ↔ 1 ≤ size.toNat ∧ ∃ a ∈ s.spans,
        a.lo ≤ start.toNat ∧ start.toNat + size.toNat ≤ a.hi ∧
        (a.lo < start.toNat → start.toNat + size.toNat < a.hi →
          s.freeMemoryAreaIndex < maxMemoryAreasSize) := by
      unfold Fits
      rw [length_spans]
      constructor
      · rintro ⟨a, ha, hlo, hhi, hroom⟩
        exact ⟨hpos, a, ha, hlo, hhi, fun h₁ h₂ => by
          simp only [MemoryArea.span_lo, MemoryArea.span_hi] at hroom
          omega⟩
      · rintro ⟨-, a, ha, hlo, hhi, hroom⟩
        refine ⟨a, ha, hlo, hhi, ?_⟩
        simp only [MemoryArea.span_lo, MemoryArea.span_hi]
        omega
    rcases allocateArea_spec hs hr with ⟨hyes, hcode, hspans, hidx⟩ | ⟨hno, hcode, hsame⟩
    · refine ⟨iff_of_true hcode (hfits.mp hyes), fun _ => ⟨?_, ?_⟩, fun hbad => ?_⟩
      · exact hs.of_carve hr.lo_lt_hi.le hspans hidx
      · exact freeSet_of_spans_eq_carve hspans
      · exact absurd (show (s.allocateArea start size).1 = 0 from hcode) hbad.ne
    · refine ⟨iff_of_false hcode.ne fun h => hno (hfits.mpr h), fun hbad => ?_, fun _ => hsame⟩
      exact absurd hbad hcode.ne

/-- The kernel image at 1 MiB is reserved, its size computed in full. -/
theorem allocateArea_exact_image :
    ((smallMachine.allocateArea 0x100000 0x8000).1 = 0 ↔
      1 ≤ (0x8000 : UInt64).toNat ∧ ∃ a ∈ smallMachine.spans,
        a.lo ≤ (0x100000 : UInt64).toNat ∧
        (0x100000 : UInt64).toNat + (0x8000 : UInt64).toNat ≤ a.hi ∧
        (a.lo < (0x100000 : UInt64).toNat →
          (0x100000 : UInt64).toNat + (0x8000 : UInt64).toNat < a.hi →
          smallMachine.freeMemoryAreaIndex < maxMemoryAreasSize)) :=
  (allocateArea_exact wellFormed_smallMachine (by decide)).1

/-- **`allocate_area_cover` is exact and atomic.**  It takes the range away from the free addresses and
returns `0`, or returns `-1` and changes nothing; the latter iff all slots are in use and the range lies
strictly inside one area. -/
theorem allocateAreaCover_exact {s : PlacementMemory} (hs : s.WellFormed) {start size : UInt64}
    (hsize : 1 ≤ size.toNat) (hfit : start.toNat + size.toNat ≤ 2 ^ 64) :
    (((s.allocateAreaCover start size).1 = 0 ∧ (s.allocateAreaCover start size).2.WellFormed ∧
        (s.allocateAreaCover start size).2.freeSet
          = s.freeSet \ Set.Ico start.toNat (start.toNat + size.toNat)) ∨
      ((s.allocateAreaCover start size).1 = -1 ∧ SameTable s (s.allocateAreaCover start size).2)) ∧
    ((s.allocateAreaCover start size).1 = -1 ↔ s.freeMemoryAreaIndex = maxMemoryAreasSize ∧
      ∃ a ∈ s.spans, a.lo < start.toNat ∧ start.toNat + size.toNat < a.hi) := by
  have hr : (⟨start, size⟩ : MemoryArea).Valid := ⟨hsize, hfit⟩
  rcases allocateAreaCover_spec hs hr with ⟨hno, hcode, hspans, hidx⟩ | ⟨hyes, hcode, hsame⟩
  · refine ⟨Or.inl ⟨hcode, hs.of_carve hr.lo_lt_hi.le hspans hidx, ?_⟩, iff_of_false ?_ hno⟩
    · exact freeSet_of_spans_eq_carve hspans
    · rw [hcode]
      decide
  · exact ⟨Or.inr ⟨hcode, hsame⟩, iff_of_true hcode hyes⟩

/-- A range over both areas is taken from each of them. -/
theorem allocateAreaCover_exact_both :
    (smallMachine.allocateAreaCover 0x9f000 0x62000).1 = -1 ↔
      smallMachine.freeMemoryAreaIndex = maxMemoryAreasSize ∧ ∃ a ∈ smallMachine.spans,
        a.lo < (0x9f000 : UInt64).toNat ∧
        (0x9f000 : UInt64).toNat + (0x62000 : UInt64).toNat < a.hi :=
  (allocateAreaCover_exact wellFormed_smallMachine (by decide) (by decide)).2

/-- **`allocate` is an exact first fit.**  If some area has `size` bytes, it returns the lowest start of
such an area and takes the bytes from there on away; the number of free bytes drops by `size`.
Otherwise nothing changes. -/
theorem allocate_exact {s : PlacementMemory} (hs : s.WellFormed) {size : UInt64}
    (hsize : 1 ≤ size.toNat) :
    ((∃ a ∈ s.spans, a.lo + size.toNat ≤ a.hi) →
      (∃ a ∈ s.spans, a.lo + size.toNat ≤ a.hi ∧ (s.allocate size).1.toNat = a.lo ∧
        ∀ b ∈ s.spans, b.lo + size.toNat ≤ b.hi → a.lo ≤ b.lo) ∧
      (s.allocate size).2.WellFormed ∧
      (s.allocate size).2.freeSet = s.freeSet \
        Set.Ico (s.allocate size).1.toNat ((s.allocate size).1.toNat + size.toNat) ∧
      (s.allocate size).2.freeSet.ncard + size.toNat = s.freeSet.ncard) ∧
    ((¬ ∃ a ∈ s.spans, a.lo + size.toNat ≤ a.hi) → SameTable s (s.allocate size).2) := by
  have hlarge : ∀ k, (s.freeMemoryAreas k).span.lo + size.toNat ≤ (s.freeMemoryAreas k).span.hi ↔
      size.toNat ≤ (s.freeMemoryAreas k).size.toNat := by
    intro k
    rw [MemoryArea.span_lo, MemoryArea.span_hi, Nat.add_le_add_iff_left]
  rcases allocate_spec hs hsize with ⟨j, hj, hle, hbelow, hret, hidx, hspans⟩ | ⟨hnone, -, hsame⟩
  · have hmem : (s.freeMemoryAreas j).span ∈ s.spans := mem_spans.mpr ⟨j, hj, rfl⟩
    have hfree := freeSet_of_spans_eq_carve hspans
    rw [← hret] at hfree
    refine ⟨fun _ => ⟨⟨_, hmem, (hlarge j).mpr hle, ?_, ?_⟩, ?_, hfree, ?_⟩, fun hno => ?_⟩
    · rw [hret, MemoryArea.span_lo]
    · intro b hb hblarge
      obtain ⟨k, hk, rfl⟩ := mem_spans.mp hb
      rcases lt_trichotomy j k with hjk | rfl | hkj
      · have hord := hs.ordered hjk hk
        have hlt := (hs.valid hj).lo_lt_hi
        omega
      · exact le_rfl
      · have hsmall := hbelow k hkj
        rw [hlarge] at hblarge
        omega
    · exact hs.of_carve (Nat.le_add_right _ _) hspans (hidx.trans hs.index_le)
    · rw [hfree]
      refine ncard_freeSet_sdiff hs fun x hx => ⟨_, hmem, ?_, ?_⟩
      · rw [MemoryArea.span_lo, ← hret]
        exact hx.1
      · have hhi := (hlarge j).mpr hle
        rw [MemoryArea.span_lo, ← hret] at hhi
        exact hx.2.trans_le hhi
    · exact absurd ⟨_, hmem, (hlarge j).mpr hle⟩ hno
  · refine ⟨?_, fun _ => hsame⟩
    rintro ⟨a, ha, halarge⟩
    obtain ⟨k, hk, rfl⟩ := mem_spans.mp ha
    have hsmall := hnone k hk
    rw [hlarge] at halarge
    omega

/-- A request of a page is served from conventional memory. -/
theorem allocate_exact_page :
    (smallMachine.allocate 0x1000).2.freeSet.ncard + (0x1000 : UInt64).toNat
      = smallMachine.freeSet.ncard := by
  refine ((allocate_exact wellFormed_smallMachine (by decide)).1 ?_).2.2.2
  rw [smallMachine, spans_ofAreas]
  decide

/-- **The two reservation paths agree** on a range inside one area: both succeed and leave the same areas
in use, or both fail and leave the table alone. -/
theorem reservation_paths_agree {s : PlacementMemory} (hs : s.WellFormed) {start size : UInt64}
    (hsize : 1 ≤ size.toNat) (hfit : start.toNat + size.toNat ≤ 2 ^ 64)
    (hin : ∃ a ∈ s.spans, a.lo ≤ start.toNat ∧ start.toNat + size.toNat ≤ a.hi) :
    ((s.allocateArea start size).1 = 0 ∧ (s.allocateAreaCover start size).1 = 0 ∧
      (s.allocateArea start size).2.usedAreas = (s.allocateAreaCover start size).2.usedAreas ∧
      (s.allocateArea start size).2.freeMemoryAreaIndex
        = (s.allocateAreaCover start size).2.freeMemoryAreaIndex) ∨
    ((s.allocateArea start size).1 = -4 ∧ (s.allocateAreaCover start size).1 = -1 ∧
      SameTable s (s.allocateArea start size).2 ∧
      SameTable s (s.allocateAreaCover start size).2) := by
  have hr : (⟨start, size⟩ : MemoryArea).Valid := ⟨hsize, hfit⟩
  rcases allocateAreaCover_spec hs hr with ⟨hno, hcode, hspans, -⟩ | ⟨hyes, hcode, hsame⟩
  · -- the range does not need a slot that is not there, so it fits
    have hfits : Fits s.spans (⟨start, size⟩ : MemoryArea).span := by
      obtain ⟨a, ha, hlo, hhi⟩ := hin
      refine ⟨a, ha, hlo, hhi, ?_⟩
      rw [length_spans]
      by_contra hcon
      push Not at hcon
      obtain ⟨hfull, hne₁, hne₂⟩ := hcon
      refine hno ⟨hfull, a, ha, lt_of_le_of_ne hlo hne₁, lt_of_le_of_ne hhi hne₂⟩
    rcases allocateArea_spec hs hr with ⟨-, hcode', hspans', -⟩ | ⟨hbad, -⟩
    · left
      have heq := hspans'.trans hspans.symm
      refine ⟨hcode', hcode, usedAreas_eq_of_spans_eq heq, ?_⟩
      rw [← length_spans, ← length_spans, heq]
    · exact absurd hfits hbad
  · right
    have hfour := allocateArea_blocked hs hr hyes
    refine ⟨hfour, hcode, ?_, hsame⟩
    rcases allocateArea_spec hs hr with ⟨-, hcode', -⟩ | ⟨-, -, hsame'⟩
    · rw [hcode'] at hfour
      exact absurd hfour (by decide)
    · exact hsame'

/-- The two paths agree on a range in the middle of the upper area. -/
theorem reservation_paths_agree_example :
    ((smallMachine.allocateArea 0x200000 0x1000).1 = 0 ∧
      (smallMachine.allocateAreaCover 0x200000 0x1000).1 = 0 ∧
      (smallMachine.allocateArea 0x200000 0x1000).2.usedAreas
        = (smallMachine.allocateAreaCover 0x200000 0x1000).2.usedAreas ∧
      (smallMachine.allocateArea 0x200000 0x1000).2.freeMemoryAreaIndex
        = (smallMachine.allocateAreaCover 0x200000 0x1000).2.freeMemoryAreaIndex) ∨
    ((smallMachine.allocateArea 0x200000 0x1000).1 = -4 ∧
      (smallMachine.allocateAreaCover 0x200000 0x1000).1 = -1 ∧
      SameTable smallMachine (smallMachine.allocateArea 0x200000 0x1000).2 ∧
      SameTable smallMachine (smallMachine.allocateAreaCover 0x200000 0x1000).2) := by
  refine reservation_paths_agree wellFormed_smallMachine (by decide) (by decide) ?_
  rw [smallMachine, spans_ofAreas]
  decide

end GrubKernel
