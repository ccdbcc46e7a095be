import GrubKernel.PlacementMemory.Insert

/-!
# Which collisions `insert_area` rejects

`insert_area` compares the new range with the area before and the area behind the slot it found, and
`overlapp` asks whether one of the two ends of the range lies in that area.  A range that has an area
strictly between its ends passes both tests.

* `insertArea_neg_iff` — the call fails iff one of the two tests finds an overlap.
* **`rejects_collision_iff`** — a colliding range is rejected iff its first address is free or no area
  lies strictly between its ends.
-/

namespace GrubKernel

open RangeList

namespace PlacementMemory

/-! ## The two tests -/

/-- What `overlapp` asks: the first or the last address of `b` lies in `a`. -/
lemma overlapp_iff {a b : MemoryArea} (ha : a.Valid) (hb : b.Valid) :
    overlapp a b ↔ (a.span.lo ≤ b.span.lo ∧ b.span.lo < a.span.hi) ∨
      (a.span.lo < b.span.hi ∧ b.span.hi ≤ a.span.hi) := by
  have hal := ha.last_toNat
  have hbl := hb.last_toNat
  have hapos := ha.1
  have hbpos := hb.1
  simp only [overlapp, UInt64.le_iff_toNat_le, hal, hbl, decide_eq_true_eq, MemoryArea.span_lo,
    MemoryArea.span_hi]
  omega

/-- An area of at least one byte is not the zero sentinel. -/
lemma not_isFree {a : MemoryArea} (ha : a.Valid) : ¬ isFree a := by
  have hpos := ha.1
  intro hfree
  have hzero : a.size = 0 := (of_decide_eq_true hfree).1
  rw [hzero] at hpos
  simp at hpos

/-- The call fails iff one of the tests finds an overlap, and then the table is unchanged. -/
lemma insertArea_neg_iff {s : PlacementMemory} (hroom : s.freeMemoryAreaIndex < maxMemoryAreasSize)
    {a : MemoryArea} (ha : a.Valid) {i : ℕ}
    (hi : i = (findInsert a.start s.freeMemoryAreaIndex 0 s).1) :
    ((s.insertArea a.start a.size).1 < 0 ∧ SameTable s (s.insertArea a.start a.size).2) ↔
      (i > 0 ∧ overlapp (s.freeMemoryAreas (i - 1)) a) ∨
      (¬ isFree (s.freeMemoryAreas i) ∧ overlapp (s.freeMemoryAreas i) a) := by
  have hne := ha.size_ne_zero
  obtain ⟨hsame, -⟩ := findInsert_spec a.start s.freeMemoryAreaIndex s 0 (by omega)
  unfold insertArea
  rw [if_neg hroom.ne, if_neg hne]
  dsimp only
  rw [← hi]
  set t := (findInsert a.start s.freeMemoryAreaIndex 0 s).2
  unfold insertAreaAt
  dsimp only
  rw [hsame.1]
  by_cases hpred : i > 0 ∧ overlapp (s.freeMemoryAreas (i - 1)) a
  · rw [if_pos hpred]
    refine iff_of_true ⟨show (-3 : ℤ) < 0 by decide, ?_⟩ (Or.inl hpred)
    rw [if_pos hpred.1]
    exact hsame
  · rw [if_neg hpred]
    by_cases hsucc : ¬ isFree (s.freeMemoryAreas i) ∧ overlapp (s.freeMemoryAreas i) a
    · rw [if_pos hsucc]
      refine iff_of_true ⟨show (-4 : ℤ) < 0 by decide, ?_⟩ (Or.inr hsucc)
      split_ifs
      · exact hsame
      · exact hsame
    · rw [if_neg hsucc]
      refine iff_of_false ?_ (not_or.mpr ⟨hpred, hsucc⟩)
      rintro ⟨hneg, -⟩
      split_ifs at hneg <;> exact absurd hneg (lt_irrefl _)

/-! ## The slot found -/

section Slot

variable {s : PlacementMemory} {a : MemoryArea} {i : ℕ}

/-- The slot that the search finds lies between the areas that start below the range and the others. -/
structure Parts (s : PlacementMemory) (a : Span ℕ) (i : ℕ) : Prop where
  le : i ≤ s.freeMemoryAreaIndex
  below : ∀ k < i, (s.freeMemoryAreas k).span.lo < a.lo
  above : ∀ k, i ≤ k → k < s.freeMemoryAreaIndex → a.lo ≤ (s.freeMemoryAreas k).span.lo

lemma parts_findInsert (hs : WellFormed s) :
    Parts s a.span (findInsert a.start s.freeMemoryAreaIndex 0 s).1 := by
  obtain ⟨-, hle, hbelow, hfound, -⟩ := findInsert_spec a.start s.freeMemoryAreaIndex s 0 (by omega)
  refine ⟨hle, fun k hk => ?_, fun k hk hk' => ?_⟩
  · exact UInt64.lt_iff_toNat_lt.mp (hbelow k (Nat.zero_le k) hk)
  · have hge := UInt64.le_iff_toNat_le.mp (hfound (hk.trans_lt hk'))
    rcases Nat.eq_or_lt_of_le hk with heq | hlt
    · rw [← heq]
      exact hge
    · exact hge.trans ((hs.valid (hlt.trans hk')).lo_lt_hi.le.trans (hs.ordered hlt hk'))

/-- The test with the predecessor succeeds iff the range begins in an area that starts below it. -/
lemma Parts.pred_iff (hi : Parts s a.span i) (hs : WellFormed s) (ha : a.Valid) :
    (i > 0 ∧ overlapp (s.freeMemoryAreas (i - 1)) a) ↔
      ∃ b ∈ s.spans, b.lo < a.span.lo ∧ a.span.lo < b.hi := by
  have halt := ha.lo_lt_hi
  have hile := hi.le
  constructor
  · rintro ⟨hpos, hover⟩
    have hk : i - 1 < s.freeMemoryAreaIndex := by omega
    have hlo := hi.below (i - 1) (by omega)
    rw [overlapp_iff (hs.valid hk) ha] at hover
    exact ⟨_, mem_spans.mpr ⟨i - 1, hk, rfl⟩, hlo, by omega⟩
  · rintro ⟨b, hb, hlo, hhi⟩
    obtain ⟨k, hk, rfl⟩ := mem_spans.mp hb
    have hki : k < i := by
      by_contra hcon
      have := hi.above k (by omega) hk
      omega
    -- the areas between it and the slot would start below the range as well
    have hlast : k = i - 1 := by
      by_contra hcon
      have hord := hs.ordered (show k < i - 1 by omega) (by omega)
      have hbelow := hi.below (i - 1) (by omega)
      omega
    refine ⟨by omega, ?_⟩
    rw [← hlast, overlapp_iff (hs.valid hk) ha]
    exact Or.inl ⟨hlo.le, hhi⟩

/-- The test with the successor succeeds iff the first area that does not start below the range starts
with it or contains its last address. -/
lemma Parts.succ_iff (hi : Parts s a.span i) (hs : WellFormed s) (hz : ZeroTail s)
    (hroom : s.freeMemoryAreaIndex < maxMemoryAreasSize) (ha : a.Valid) :
    (¬ isFree (s.freeMemoryAreas i) ∧ overlapp (s.freeMemoryAreas i) a) ↔
      i < s.freeMemoryAreaIndex ∧ (s.freeMemoryAreas i).span.lo < a.span.hi ∧
        ((s.freeMemoryAreas i).span.lo = a.span.lo ∨ a.span.hi ≤ (s.freeMemoryAreas i).span.hi) := by
  have halt := ha.lo_lt_hi
  constructor
  · rintro ⟨hused, hover⟩
    have hlt : i < s.freeMemoryAreaIndex := by
      by_contra hcon
      have heq : i = s.freeMemoryAreaIndex := le_antisymm hi.le (not_lt.mp hcon)
      rw [heq, hz _ le_rfl hroom] at hused
      exact hused (by decide)
    have hge := hi.above i le_rfl hlt
    rw [overlapp_iff (hs.valid hlt) ha] at hover
    exact ⟨hlt, by omega, by omega⟩
  · rintro ⟨hlt, hmeet, hend⟩
    have hv := hs.valid hlt
    have hvlt := hv.lo_lt_hi
    refine ⟨not_isFree hv, ?_⟩
    rw [overlapp_iff hv ha]
    omega

/-- The area that starts with the range is the one in the slot. -/
lemma Parts.eq_of_lo (hi : Parts s a.span i) (hs : WellFormed s) {k : ℕ}
    (hk : k < s.freeMemoryAreaIndex) (heq : (s.freeMemoryAreas k).span.lo = a.span.lo) : k = i := by
  rcases lt_trichotomy k i with hki | h | hik
  · have hbelow := hi.below k hki
    omega
  · exact h
  · have hord := hs.ordered hik hk
    have habove := hi.above i le_rfl (hik.trans hk)
    have hvlt := (hs.valid (hik.trans hk)).lo_lt_hi
    omega

/-- Where the area in the slot reaches to the end of the range, all other areas lie outside of it. -/
lemma Parts.none_between (hi : Parts s a.span i) (hs : WellFormed s)
    (hend : a.span.hi ≤ (s.freeMemoryAreas i).span.hi) :
    ¬ ∃ b ∈ s.spans, a.span.lo < b.lo ∧ b.hi < a.span.hi := by
  rintro ⟨b, hb, hlo, hhi⟩
  obtain ⟨k, hk, rfl⟩ := mem_spans.mp hb
  have hklt := (hs.valid hk).lo_lt_hi
  rcases lt_trichotomy k i with hki | rfl | hik
  · have hbelow := hi.below k hki
    omega
  · omega
  · have hord := hs.ordered hik hk
    omega

/-- The first area that does not start below the range starts no higher than the others. -/
lemma Parts.slot_lo_le (hi : Parts s a.span i) (hs : WellFormed s) {k : ℕ}
    (hk : k < s.freeMemoryAreaIndex) (hlo : a.span.lo ≤ (s.freeMemoryAreas k).span.lo) :
    i < s.freeMemoryAreaIndex ∧ (s.freeMemoryAreas i).span.lo ≤ (s.freeMemoryAreas k).span.lo := by
  have hik : i ≤ k := by
    by_contra hlt
    have hbelow := hi.below k (by omega)
    omega
  have hilt : i < s.freeMemoryAreaIndex := hik.trans_lt hk
  refine ⟨hilt, ?_⟩
  rcases Nat.eq_or_lt_of_le hik with heq | hlt
  · rw [heq]
  · exact (hs.valid hilt).lo_lt_hi.le.trans (hs.ordered hlt hk)

end Slot

end PlacementMemory

open PlacementMemory

/-! ## The result -/

/-- **Which collisions are rejected.**  A range that shares an address with the free areas is rejected
with a negative code and an unchanged table iff its first address is free, or no area begins behind its
first and ends before its last address. -/
theorem rejects_collision_iff {s : PlacementMemory} (hs : s.WellFormed) (hz : s.ZeroTail)
    (hroom : s.freeMemoryAreaIndex < maxMemoryAreasSize) {a : MemoryArea} (ha : a.Valid)
    (hmeet : (a.span.toSet ∩ s.freeSet).Nonempty) :
    ((s.insertArea a.start a.size).1 < 0 ∧ SameTable s (s.insertArea a.start a.size).2) ↔
      (a.span.lo ∈ s.freeSet ∨ ¬ ∃ b ∈ s.spans, a.span.lo < b.lo ∧ b.hi < a.span.hi) := by
  have halt := ha.lo_lt_hi
  have hi := parts_findInsert (a := a) hs
  rw [insertArea_neg_iff hroom ha rfl, hi.pred_iff hs ha, hi.succ_iff hs hz hroom ha]
  set i := (findInsert a.start s.freeMemoryAreaIndex 0 s).1
  constructor
  · rintro (⟨b, hb, hlo, hhi⟩ | ⟨hlt, hin, hstart | hend⟩)
    · exact Or.inl ⟨b, hb, hlo.le, hhi⟩
    · have hvlt := (hs.valid hlt).lo_lt_hi
      exact Or.inl ⟨_, mem_spans.mpr ⟨i, hlt, rfl⟩, hstart.le, by omega⟩
    · exact Or.inr (hi.none_between hs hend)
  · rintro (⟨b, hb, hlo, hhi⟩ | hnone)
    · rcases Nat.lt_or_eq_of_le hlo with hlt | heq
      · exact Or.inl ⟨b, hb, hlt, hhi⟩
      · obtain ⟨k, hk, rfl⟩ := mem_spans.mp hb
        obtain rfl := hi.eq_of_lo hs hk heq
        exact Or.inr ⟨hk, by omega, Or.inl heq⟩
    · -- an area that both tests miss makes the one in the slot lie between the ends
      by_contra hcon
      rw [not_or] at hcon
      obtain ⟨hpred, hsucc⟩ := hcon
      obtain ⟨x, ⟨hxlo, hxhi⟩, b, hb, hblo, hbhi⟩ := hmeet
      have hbstart : a.span.lo ≤ b.lo := by
        by_contra hlt
        exact hpred ⟨b, hb, by omega, by omega⟩
      obtain ⟨k, hk, rfl⟩ := mem_spans.mp hb
      obtain ⟨hilt, hile⟩ := hi.slot_lo_le hs hk hbstart
      have habove := hi.above i le_rfl hilt
      refine hnone ⟨_, mem_spans.mpr ⟨i, hilt, rfl⟩, ?_, ?_⟩
      · by_contra hge
        exact hsucc ⟨hilt, by omega, Or.inl (by omega)⟩
      · by_contra hge
        exact hsucc ⟨hilt, by omega, Or.inr (by omega)⟩

/-- The range `[0x80, 0x280)` has the free area `[0x100, 0x200)` between its ends and is accepted. -/
theorem collision_accepted :
    ¬ ∀ (s : PlacementMemory), s.WellFormed → s.ZeroTail →
      s.freeMemoryAreaIndex < maxMemoryAreasSize → ∀ (a : MemoryArea), a.Valid →
      (a.span.toSet ∩ s.freeSet).Nonempty →
      (s.insertArea a.start a.size).1 < 0 ∧ SameTable s (s.insertArea a.start a.size).2 := by
  intro hall
  have hwf : (ofAreas [⟨0x100, 0x100⟩]).WellFormed := wellFormed_ofAreas (by decide)
  have hmeet : ((⟨0x80, 0x200⟩ : MemoryArea).span.toSet
      ∩ (ofAreas [⟨0x100, 0x100⟩]).freeSet).Nonempty :=
    ⟨0x100, Span.mem_toSet.mpr (by decide), mem_freeSet.mpr ⟨0, by decide, by decide, by decide⟩⟩
  obtain ⟨hneg, -⟩ := hall (ofAreas [⟨0x100, 0x100⟩]) hwf (zeroTail_ofAreas _) (by decide)
    ⟨0x80, 0x200⟩ (by decide) hmeet
  exact absurd hneg (by decide)

/-- A range that begins in a free area is rejected. -/
theorem rejects_collision_iff_example :
    ((ofAreas [⟨0x100, 0x100⟩]).insertArea 0x180 0x100).1 < 0 ∧
      SameTable (ofAreas [⟨0x100, 0x100⟩]) ((ofAreas [⟨0x100, 0x100⟩]).insertArea 0x180 0x100).2 := by
  have hfree : 0x180 ∈ (ofAreas [⟨0x100, 0x100⟩]).freeSet :=
    mem_freeSet.mpr ⟨0, by decide, by decide, by decide⟩
  refine (rejects_collision_iff (a := ⟨0x180, 0x100⟩) (wellFormed_ofAreas (by decide))
    (zeroTail_ofAreas _) (by decide) (by decide) ⟨0x180, Span.mem_toSet.mpr (by decide), hfree⟩).mpr (Or.inl hfree)

end GrubKernel
