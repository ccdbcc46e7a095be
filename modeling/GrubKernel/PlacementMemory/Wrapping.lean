import GrubKernel.PlacementMemory.Exact

/-!
# Ranges that wrap around

`allocate_area` and `allocate_area_cover` compute the end of a range as `start + size - 1` modulo
`2 ^ 64`.  If the range ends behind `2 ^ 64`, or is empty, that end lies below its start, and the
comparisons of the source put such a range into an area as if it ended there.

* `Respects` — the free set loses addresses of the range only and gains none, and the areas in use do not
  overlap.
* `allocateArea_inside`, `allocateArea_off` — `allocate_area` by the area that holds the start.
* `cover_backward` — `allocate_area_cover` when the end lies below the start.
* `AreaTorn`, `CoverTorn` — the ranges that tear an area.
* **`range_arithmetic_iff`** — the two operations respect the free set iff the range tears no area.
-/

namespace GrubKernel

open RangeList

namespace PlacementMemory

/-- From `s` to `t` the free set loses addresses of the mathematical interval `[start, start + size)` only,
and the areas in use are pairwise disjoint. -/
structure Respects (s t : PlacementMemory) (start size : UInt64) : Prop where
  gains_nothing : t.freeSet ⊆ s.freeSet
  loses_within : s.freeSet \ t.freeSet ⊆ Set.Ico start.toNat (start.toNat + size.toNat)
  disjoint : t.spans.Pairwise fun a b => Disjoint a.toSet b.toSet

lemma WellFormed.pairwise_disjoint {s : PlacementMemory} (hs : WellFormed s) :
    s.spans.Pairwise fun a b => Disjoint a.toSet b.toSet := by
  refine hs.separated.2.imp fun {a b} hab => Set.disjoint_left.mpr fun x hxa hxb => ?_
  exact absurd (hxa.2.trans_le (hab.trans hxb.1)) (lt_irrefl x)

lemma Respects.of_freeSet_eq {s t : PlacementMemory} (h : t.freeSet = s.freeSet)
    (ht : WellFormed t) (start size : UInt64) : Respects s t start size := by
  refine ⟨h.subset, ?_, ht.pairwise_disjoint⟩
  rw [h, Set.sdiff_self]
  exact Set.empty_subset _

lemma Respects.of_same {s t : PlacementMemory} (hs : WellFormed s) (h : SameTable s t)
    (start size : UInt64) : Respects s t start size := by
  refine .of_freeSet_eq ?_ (h.wellFormed hs) start size
  rw [freeSet, h.spans_eq, freeSet]

lemma Respects.of_taken {s t : PlacementMemory} {start size : UInt64} (ht : WellFormed t)
    (h : t.freeSet = s.freeSet \ Set.Ico start.toNat (start.toNat + size.toNat)) :
    Respects s t start size := by
  refine ⟨h ▸ Set.sdiff_subset, ?_, ht.pairwise_disjoint⟩
  rw [h, Set.sdiff_sdiff_right_self]
  exact Set.inter_subset_right

/-- Two areas with a common address are not disjoint. -/
lemma not_respects_of_overlap {s t : PlacementMemory} {start size : UInt64} {l₁ l₂ l₃ : List (Span ℕ)}
    {a b : Span ℕ} (ht : t.spans = l₁ ++ a :: (l₂ ++ b :: l₃)) {x : ℕ} (ha : x ∈ a.toSet)
    (hb : x ∈ b.toSet) : ¬ Respects s t start size := by
  intro h
  have hpair := ht ▸ h.disjoint
  have htail := (List.pairwise_append.mp hpair).2.1
  have hdisj := (List.pairwise_cons.mp htail).1 b
    (List.mem_append_right l₂ List.mem_cons_self)
  exact Set.disjoint_left.mp hdisj ha hb

/-! ## `allocate_area` -/

section AllocateArea

variable {s : PlacementMemory} {start size : UInt64}

/-- A range whose start lies in no area is refused. -/
lemma allocateArea_off (hs : WellFormed s)
    (hoff : ∀ a ∈ s.spans, ¬ (a.lo ≤ start.toNat ∧ start.toNat < a.hi)) :
    SameTable s (s.allocateArea start size).2 := by
  unfold allocateArea
  split_ifs
  · exact SameTable.refl s
  · exact SameTable.refl s
  obtain ⟨hsame, hsome, -⟩ := findOverlap_spec start s.freeMemoryAreaIndex s 0 (by omega)
  rcases hfind : findOverlap start s.freeMemoryAreaIndex 0 s with ⟨_ | i, t⟩
  · rw [hfind] at hsame
    exact hsame
  · rw [hfind] at hsame hsome
    obtain ⟨-, hi, hge, -⟩ := hsome i rfl
    rw [MemoryArea.last_lt_iff (hs.valid hi), not_le] at hge
    have hlo : start.toNat < (s.freeMemoryAreas i).start.toNat := by
      by_contra hcon
      exact hoff _ (mem_spans.mpr ⟨i, hi, rfl⟩) ⟨not_lt.mp hcon, hge⟩
    -- every branch that writes asks for an area that does not start above the range
    have hne : (s.freeMemoryAreas i).start ≠ start := by
      intro heq
      rw [heq] at hlo
      exact lt_irrefl _ hlo
    have hnlt : ¬ (s.freeMemoryAreas i).start < start := by
      rw [UInt64.lt_iff_toNat_lt]
      omega
    show SameTable s (t.allocateAreaAt start size i).2
    unfold allocateAreaAt
    dsimp only
    rw [hsame.1, if_neg fun h => hne h.1, if_neg fun h => hnlt h.1, if_neg fun h => hne h.1,
      if_neg fun h => hnlt h.1]
    exact hsame

/-- The range goes beyond `2 ^ 64`. -/
def Wraps (start size : UInt64) : Prop := 2 ^ 64 < start.toNat + size.toNat

/-- The end that the source computes for such a range. -/
lemma Wraps.toNat_last (h : Wraps start size) :
    (start + size - 1).toNat = start.toNat + size.toNat - 1 - 2 ^ 64 := by
  have hstart := start.toNat_lt
  have hsize := size.toNat_lt
  unfold Wraps at h
  rw [UInt64.toNat_sub, UInt64.toNat_add, UInt64.toNat_one]
  omega

lemma Wraps.size_ne_zero (h : Wraps start size) : size ≠ 0 := by
  have hstart := start.toNat_lt
  rintro rfl
  unfold Wraps at h
  rw [UInt64.toNat_zero] at h
  omega

/-- The computed end lies below every area that holds the start. -/
lemma Wraps.last_lt (h : Wraps start size) {a : MemoryArea} (ha : a.Valid)
    (hhi : start.toNat < a.span.hi) : a.last > start + size - 1 := by
  have hlast := h.toNat_last
  have hsize := size.toNat_lt
  unfold Wraps at h
  rw [MemoryArea.span_hi] at hhi
  rw [gt_iff_lt, UInt64.lt_iff_toNat_lt, hlast, ha.last_toNat]
  omega

/-- A wrapping range that starts with an area moves the start of that area down. -/
lemma allocateArea_wrapped_start (hs : WellFormed s) (hw : Wraps start size) {k : ℕ}
    (hk : k < s.freeMemoryAreaIndex) (hlo : (s.freeMemoryAreas k).span.lo = start.toNat) :
    (s.allocateArea start size).2.spans = s.spans.take k ++
      ⟨start.toNat + size.toNat - 2 ^ 64, (s.freeMemoryAreas k).span.hi⟩ :: s.spans.drop (k + 1) := by
  have hv := hs.valid hk
  have hhi : start.toNat < (s.freeMemoryAreas k).span.hi := hlo ▸ hv.lo_lt_hi
  have heq : (s.freeMemoryAreas k).start = start := UInt64.toNat_inj.mp hlo
  obtain ⟨t, hsame, hat⟩ := allocateArea_inside hs hw.size_ne_zero hk hlo.le hhi
  have hspan : (⟨(s.freeMemoryAreas k).start + size, (s.freeMemoryAreas k).size - size⟩ :
      MemoryArea).span = ⟨start.toNat + size.toNat - 2 ^ 64, (s.freeMemoryAreas k).span.hi⟩ := by
    have hfit := hv.2
    have hstart := start.toNat_lt
    have hsize := size.toNat_lt
    unfold Wraps at hw
    rw [heq] at hfit ⊢
    simp only [MemoryArea.span, UInt64.toNat_add, UInt64.toNat_sub, Span.mk.injEq, heq]
    omega
  rw [hat]
  unfold allocateAreaAt
  dsimp only
  rw [hsame.1, if_pos ⟨heq, hw.last_lt hv hhi⟩, spans_store t (hsame.2 ▸ hk), hspan, hsame.spans_eq]

/-- A wrapping range that starts inside an area makes two areas of it that overlap; a full table refuses
it. -/
lemma allocateArea_wrapped_inside (hs : WellFormed s) (hw : Wraps start size) {k : ℕ}
    (hk : k < s.freeMemoryAreaIndex) (hlo : (s.freeMemoryAreas k).span.lo < start.toNat)
    (hhi : start.toNat < (s.freeMemoryAreas k).span.hi) :
    (s.freeMemoryAreaIndex = maxMemoryAreasSize ∧ SameTable s (s.allocateArea start size).2) ∨
    (s.freeMemoryAreaIndex ≠ maxMemoryAreasSize ∧
      (s.allocateArea start size).2.spans = s.spans.take k ++
        ⟨(s.freeMemoryAreas k).span.lo, start.toNat⟩ ::
        ⟨start.toNat + size.toNat - 2 ^ 64, (s.freeMemoryAreas k).span.hi⟩ ::
        s.spans.drop (k + 1)) := by
  have hv := hs.valid hk
  have hbefore : (s.freeMemoryAreas k).start < start := UInt64.lt_iff_toNat_lt.mpr hlo
  have hne : (s.freeMemoryAreas k).start ≠ start := by
    intro heq
    rw [heq] at hbefore
    exact UInt64.lt_irrefl _ hbefore
  have hbehind := hw.last_lt hv hhi
  have hnlast : (s.freeMemoryAreas k).last ≠ start + size - 1 := by
    intro heq
    rw [heq] at hbehind
    exact UInt64.lt_irrefl _ hbehind
  obtain ⟨t, hsame, hat⟩ := allocateArea_inside hs hw.size_ne_zero hk hlo.le hhi
  rw [hat]
  unfold allocateAreaAt
  dsimp only
  rw [hsame.1, hsame.2, if_neg fun h => hne h.1, if_neg fun h => hnlast h.2,
    if_neg fun h => hne h.1, if_pos ⟨hbefore, hbehind⟩]
  by_cases hfull : s.freeMemoryAreaIndex = maxMemoryAreasSize
  · rw [if_pos hfull]
    exact Or.inl ⟨hfull, hsame⟩
  · rw [if_neg hfull]
    have hleft : (⟨(s.freeMemoryAreas k).start, start - (s.freeMemoryAreas k).start⟩ :
        MemoryArea).span = ⟨(s.freeMemoryAreas k).span.lo, start.toNat⟩ :=
      MemoryArea.span_below (r := ⟨start, size⟩) hlo.le
    have hright : (⟨start + size - 1 + 1, (s.freeMemoryAreas k).size - size
        - (start - (s.freeMemoryAreas k).start)⟩ : MemoryArea).span
        = ⟨start.toNat + size.toNat - 2 ^ 64, (s.freeMemoryAreas k).span.hi⟩ := by
      have hfit := hv.2
      have hstart := start.toNat_lt
      have hsize := size.toNat_lt
      have hlast := hw.toNat_last
      unfold Wraps at hw
      rw [MemoryArea.span_lo] at hlo
      rw [MemoryArea.span_hi] at hhi
      simp only [MemoryArea.span, UInt64.toNat_add, UInt64.toNat_one, hlast, UInt64.toNat_sub,
        Span.mk.injEq]
      omega
    refine Or.inr ⟨hfull, ?_⟩
    rw [spans_splitArea t (hsame.2 ▸ hk), hleft, hright, hsame.spans_eq]

/-- The range wraps and starts in an area, either with it or with room for a second half. -/
def AreaTorn (s : PlacementMemory) (start size : UInt64) : Prop :=
  Wraps start size ∧ ∃ a ∈ s.spans, a.lo ≤ start.toNat ∧ start.toNat < a.hi ∧
    (a.lo = start.toNat ∨ s.freeMemoryAreaIndex < maxMemoryAreasSize)

/-- **`allocate_area` on a wrapping range.** -/
lemma allocateArea_wrapped_iff (hs : WellFormed s) (hw : Wraps start size) :
    Respects s (s.allocateArea start size).2 start size ↔ ¬ AreaTorn s start size := by
  have hsize := size.toNat_lt
  have hstart := start.toNat_lt
  have hle := hs.index_le
  by_cases hin : ∃ k < s.freeMemoryAreaIndex, (s.freeMemoryAreas k).span.lo ≤ start.toNat ∧
      start.toNat < (s.freeMemoryAreas k).span.hi
  · obtain ⟨k, hk, hlo, hhi⟩ := hin
    have hmem : (s.freeMemoryAreas k).span ∈ s.spans := mem_spans.mpr ⟨k, hk, rfl⟩
    have hw' : 2 ^ 64 < start.toNat + size.toNat := hw
    rcases Nat.eq_or_lt_of_le hlo with heq | hlt
    · -- the byte below the range is now in the area; before it was in the one below, or not free
      have hspans := allocateArea_wrapped_start hs hw hk heq
      have hnew : start.toNat - 1 ∈ (⟨start.toNat + size.toNat - 2 ^ 64,
          (s.freeMemoryAreas k).span.hi⟩ : Span ℕ).toSet := ⟨by dsimp only; omega, by dsimp only; omega⟩
      refine iff_of_false (fun hres => ?_) (not_not.mpr ⟨hw, _, hmem, hlo, hhi, Or.inl heq⟩)
      have hafter : start.toNat - 1 ∈ (s.allocateArea start size).2.freeSet := by
        refine ⟨_, ?_, hnew⟩
        rw [hspans]
        exact List.mem_append_right _ List.mem_cons_self
      obtain ⟨b, hb, hxb⟩ := hres.gains_nothing hafter
      rw [s.spans_eq hk] at hb
      obtain ⟨-, -, habove⟩ := (hs.separated_at hk).around
      have hbelow : b ∈ s.spans.take k := by
        rcases List.mem_append.mp hb with hb | hb
        · exact hb
        · rcases List.mem_cons.mp hb with rfl | hb
          · have := hxb.1
            omega
          · have := (habove b hb).1
            have := hxb.1
            omega
      obtain ⟨l₁, l₂, htake⟩ := List.append_of_mem hbelow
      have hboth : (s.allocateArea start size).2.spans = l₁ ++ b :: (l₂ ++
          ⟨start.toNat + size.toNat - 2 ^ 64, (s.freeMemoryAreas k).span.hi⟩ ::
          s.spans.drop (k + 1)) := by
        rw [hspans, htake]
        simp
      exact not_respects_of_overlap hboth hxb hnew hres
    · rcases allocateArea_wrapped_inside hs hw hk hlt hhi with ⟨hfull, hsame⟩ | ⟨hroom, hspans⟩
      · refine iff_of_true (.of_same hs hsame _ _) ?_
        rintro ⟨-, a, ha, halo, hahi, heq | hroom⟩
        · -- only one area holds the start
          obtain ⟨j, hj, rfl⟩ := mem_spans.mp ha
          rcases lt_trichotomy j k with hjk | rfl | hkj
          · have := hs.ordered hjk hk
            omega
          · omega
          · have := hs.ordered hkj hj
            omega
        · omega
      · refine iff_of_false ?_ (not_not.mpr ⟨hw, _, hmem, hlo, hhi, Or.inr (by omega)⟩)
        rw [← List.nil_append (⟨start.toNat + size.toNat - 2 ^ 64, _⟩ :: s.spans.drop (k + 1))]
          at hspans
        refine not_respects_of_overlap hspans (x := start.toNat - 1) ?_ ?_
        · exact ⟨by dsimp only; omega, by dsimp only; omega⟩
        · exact ⟨by dsimp only; omega, by dsimp only; omega⟩
  · have hoff : ∀ a ∈ s.spans, ¬ (a.lo ≤ start.toNat ∧ start.toNat < a.hi) := by
      intro a ha hcon
      obtain ⟨k, hk, rfl⟩ := mem_spans.mp ha
      exact hin ⟨k, hk, hcon⟩
    refine iff_of_true (.of_same hs (allocateArea_off hs hoff) _ _) ?_
    rintro ⟨-, a, ha, hlo, hhi, -⟩
    exact hoff a ha ⟨hlo, hhi⟩

end AllocateArea

/-! ## `allocate_area_cover` -/

section Cover

variable {start last : UInt64}

lemma meets_iff_toNat {s : PlacementMemory} (hs : WellFormed s) {i : ℕ}
    (hi : i < s.freeMemoryAreaIndex) : s.Meets start last i ↔
      (s.freeMemoryAreas i).span.lo ≤ last.toNat ∧ start.toNat < (s.freeMemoryAreas i).span.hi := by
  unfold Meets
  rw [MemoryArea.last_lt_iff (hs.valid hi), not_or, not_le, gt_iff_lt, UInt64.not_lt,
    UInt64.le_iff_toNat_le, and_comm]
  rfl

/-- The loop passes over slots that do not meet the range. -/
lemma coverFrom_skip (start last : UInt64) (n : ℕ) : ∀ (s : PlacementMemory) (i : ℕ), i + n ≤ s.freeMemoryAreaIndex →
    (∀ k, i ≤ k → k < i + n → ¬ s.Meets start last k) →
    ∃ t, SameTable s t ∧ coverFrom start last s i = coverFrom start last t (i + n) := by
  induction n with
  | zero =>
      intro s i _ _
      exact ⟨s, SameTable.refl s, rfl⟩
  | succ n ih =>
      intro s i hle hoff
      obtain ⟨t, hsame, heq⟩ := ih (s.touch i) (i + 1) (by simp; omega)
        fun k hk hk' => hoff k (by omega) (by omega)
      refine ⟨t, hsame, ?_⟩
      rw [coverFrom, if_pos (by omega)]
      dsimp only
      rw [if_pos (hoff i le_rfl (by omega)), heq]
      congr 1
      omega

/-- If no slot from `i` on meets the range, the loop ends with `0`. -/
lemma coverFrom_off (start last : UInt64) {s : PlacementMemory} {i : ℕ} (hi : i ≤ s.freeMemoryAreaIndex)
    (hoff : ∀ k, i ≤ k → k < s.freeMemoryAreaIndex → ¬ s.Meets start last k) :
    ∃ t, SameTable s t ∧ coverFrom start last s i = (0, t) := by
  obtain ⟨t, hsame, heq⟩ := coverFrom_skip start last
    (s.freeMemoryAreaIndex - i) s i (by omega) fun k hk hk' => hoff k hk (by omega)
  refine ⟨t, hsame, ?_⟩
  rw [heq, coverFrom, if_neg]
  rw [hsame.2]
  omega

/-- The round of the loop on an area that reaches over both ends. -/
lemma coverFrom_around {s : PlacementMemory} {j : ℕ} (hj : j < s.freeMemoryAreaIndex)
    (hmeets : s.Meets start last j) (hbefore : (s.freeMemoryAreas j).start < start)
    (hbehind : last < (s.freeMemoryAreas j).last) :
    coverFrom start last s j = if s.freeMemoryAreaIndex = maxMemoryAreasSize then (-1, s.touch j)
      else coverFrom start last ((s.touch j).splitArea j
        ⟨(s.freeMemoryAreas j).start, start - (s.freeMemoryAreas j).start⟩
        ⟨last + 1, (s.freeMemoryAreas j).last - last⟩) (j + 1) := by
  have hnle : ¬ start ≤ (s.freeMemoryAreas j).start := UInt64.not_le.mpr hbefore
  have hnge : ¬ last ≥ (s.freeMemoryAreas j).last := UInt64.not_le.mpr hbehind
  rw [coverFrom, if_pos hj]
  dsimp only
  rw [if_neg (not_not.mpr hmeets), if_neg fun h => hnle h.1, if_neg fun h => hnle h.1,
    if_neg fun h => hnge h.2, if_pos ⟨hbefore, hbehind⟩]

/-- The areas of the table after an area around the range was split. -/
lemma spans_splitArea_around (start last : UInt64) {s : PlacementMemory} (hs : WellFormed s) {j : ℕ}
    (hj : j < s.freeMemoryAreaIndex) (hlo : (s.freeMemoryAreas j).span.lo ≤ start.toNat)
    (hhi : last.toNat + 1 < (s.freeMemoryAreas j).span.hi) :
    (s.splitArea j ⟨(s.freeMemoryAreas j).start, start - (s.freeMemoryAreas j).start⟩
      ⟨last + 1, (s.freeMemoryAreas j).last - last⟩).spans
      = s.spans.take j ++ ⟨(s.freeMemoryAreas j).span.lo, start.toNat⟩ ::
        ⟨last.toNat + 1, (s.freeMemoryAreas j).span.hi⟩ :: s.spans.drop (j + 1) := by
  have hv := hs.valid hj
  have hvl := hv.last_toNat
  have hleft : (⟨(s.freeMemoryAreas j).start, start - (s.freeMemoryAreas j).start⟩ :
      MemoryArea).span = ⟨(s.freeMemoryAreas j).span.lo, start.toNat⟩ :=
    MemoryArea.span_below (r := ⟨start, 0⟩) hlo
  have hright : (⟨last + 1, (s.freeMemoryAreas j).last - last⟩ : MemoryArea).span
      = ⟨last.toNat + 1, (s.freeMemoryAreas j).span.hi⟩ := by
    have hfit := hv.2
    rw [MemoryArea.span_hi] at hhi
    simp only [MemoryArea.span, UInt64.toNat_add, UInt64.toNat_one, UInt64.toNat_sub, hvl,
      Span.mk.injEq]
    omega
  rw [spans_splitArea s hj, hleft, hright]

/-- **The loop when the end lies below the start.**  Only an area that holds the end, the start and all
between them meets the range.  It is split, or the table is full and stays as it is. -/
lemma cover_backward (start last : UInt64) {s : PlacementMemory} (hs : WellFormed s)
    (hback : last.toNat < start.toNat) :
    (∃ j < s.freeMemoryAreaIndex, (s.freeMemoryAreas j).span.lo ≤ last.toNat ∧
      start.toNat < (s.freeMemoryAreas j).span.hi ∧
      s.freeMemoryAreaIndex < maxMemoryAreasSize ∧
      (coverFrom start last s 0).2.freeMemoryAreaIndex = s.freeMemoryAreaIndex + 1 ∧
      (coverFrom start last s 0).2.spans = s.spans.take j ++
        ⟨(s.freeMemoryAreas j).span.lo, start.toNat⟩ ::
        ⟨last.toNat + 1, (s.freeMemoryAreas j).span.hi⟩ :: s.spans.drop (j + 1)) ∨
    ((s.freeMemoryAreaIndex < maxMemoryAreasSize →
        ∀ a ∈ s.spans, ¬ (a.lo ≤ last.toNat ∧ start.toNat < a.hi)) ∧
      SameTable s (coverFrom start last s 0).2) := by
  have hle := hs.index_le
  by_cases hin : ∃ j < s.freeMemoryAreaIndex, s.Meets start last j
  · obtain ⟨j, hj, hmeets⟩ := hin
    obtain ⟨hlo, hhi⟩ := (meets_iff_toNat hs hj).mp hmeets
    have hv := hs.valid hj
    have hvl := hv.last_toNat
    -- the areas in front of it end below the start
    obtain ⟨t, hsame, heq⟩ := coverFrom_skip start last j s 0 (by omega) (by
      intro k _ hk hcon
      have hkj : k < j := by omega
      have hord := hs.ordered hkj hj
      have := ((meets_iff_toNat hs (hkj.trans hj)).mp hcon).2
      omega)
    have ht := hsame.wellFormed hs
    have htj : j < t.freeMemoryAreaIndex := hsame.2 ▸ hj
    have hbefore : (s.freeMemoryAreas j).start < start := by
      rw [MemoryArea.span_lo] at hlo
      rw [UInt64.lt_iff_toNat_lt]
      omega
    have hbehind : last < (s.freeMemoryAreas j).last := by
      rw [MemoryArea.span_hi] at hhi
      rw [UInt64.lt_iff_toNat_lt, hvl]
      omega
    have htmeets : t.Meets start last j := by
      rw [meets_iff_toNat ht htj, hsame.1]
      exact ⟨hlo, hhi⟩
    rw [Nat.zero_add, coverFrom_around htj htmeets (by rwa [hsame.1]) (by rwa [hsame.1]), hsame.2]
      at heq
    by_cases hfull : s.freeMemoryAreaIndex = maxMemoryAreasSize
    · rw [if_pos hfull] at heq
      refine Or.inr ⟨fun hroom => by omega, ?_⟩
      rw [heq]
      exact hsame
    · rw [if_neg hfull] at heq
      set u := (t.touch j).splitArea j
        ⟨(t.freeMemoryAreas j).start, start - (t.freeMemoryAreas j).start⟩
        ⟨last + 1, (t.freeMemoryAreas j).last - last⟩ with hu
      have huidx : u.freeMemoryAreaIndex = s.freeMemoryAreaIndex + 1 := by
        rw [hu, splitArea_freeMemoryAreaIndex, touch_freeMemoryAreaIndex, hsame.2]
      -- neither the second half nor an area behind it meets the range
      obtain ⟨w, huw, hend⟩ := coverFrom_off start last (s := u) (i := j + 1)
        (by omega) (by
          intro k hk hk' hcon
          have hslot : last < (u.freeMemoryAreas k).start := by
            rw [hu, splitArea_freeMemoryAreas (t.touch j) htj, touch_freeMemoryAreas, hsame.1,
              if_neg (by omega)]
            split_ifs with hright hshift
            · exact lt_add_one_of_lt hbehind
            · have hord := hs.ordered (show j < k - 1 by omega) (by omega)
              rw [UInt64.lt_iff_toNat_lt]
              rw [MemoryArea.span_lo (s.freeMemoryAreas (k - 1))] at hord
              omega
            · rw [touch_freeMemoryAreaIndex, hsame.2] at hshift
              omega
          exact hcon (Or.inr hslot))
      have hspans := spans_splitArea_around start last (s := t.touch j)
        (ht.touch j) htj (by rw [touch_freeMemoryAreas, hsame.1]; omega)
        (by rw [touch_freeMemoryAreas, hsame.1]; omega)
      rw [touch_freeMemoryAreas, ← hu, spans_touch, hsame.spans_eq, hsame.1] at hspans
      refine Or.inl ⟨j, hj, hlo, hhi, by omega, ?_, ?_⟩
      · rw [heq, hend, huw.2, huidx]
      · rw [heq, hend, huw.spans_eq, hspans]
  · obtain ⟨t, hsame, heq⟩ := coverFrom_off start last (s := s)
      (Nat.zero_le _) fun k _ hk hcon => hin ⟨k, hk, hcon⟩
    refine Or.inr ⟨fun _ a ha hcon => ?_, ?_⟩
    · obtain ⟨k, hk, rfl⟩ := mem_spans.mp ha
      exact hin ⟨k, hk, (meets_iff_toNat hs hk).mpr hcon⟩
    · rw [heq]
      exact hsame

/-- The range `[0, 2 ^ 64 - 1]` removes every area. -/
lemma coverFrom_everything (n : ℕ) : ∀ s : PlacementMemory, s.freeMemoryAreaIndex = n →
    (coverFrom 0 (0 + 0 - 1) s 0).2.freeMemoryAreaIndex = 0 := by
  induction n with
  | zero =>
      intro s hn
      rw [coverFrom, if_neg (by omega)]
      exact hn
  | succ n ih =>
      intro s hn
      have hlast : ∀ x : UInt64, x ≤ 0 + 0 - 1 := by
        intro x
        have hmax : ((0 : UInt64) + 0 - 1).toNat = 2 ^ 64 - 1 := by decide
        have hx := x.toNat_lt
        rw [UInt64.le_iff_toNat_le, hmax]
        omega
      have hzero : ∀ x : UInt64, 0 ≤ x := fun x => UInt64.le_iff_toNat_le.mpr (Nat.zero_le _)
      have hmeets : ¬ ¬ s.Meets 0 (0 + 0 - 1) 0 := by
        rw [not_not]
        rintro (hlt | hgt)
        · exact UInt64.not_lt.mpr (hzero _) hlt
        · exact UInt64.not_lt.mpr (hlast _) hgt
      rw [coverFrom, if_pos (by omega)]
      dsimp only
      rw [if_neg hmeets, if_pos ⟨hzero _, hlast _⟩]
      exact ih _ (by simp [hn])

end Cover

/-- The range is `[0, 0)`, or it wraps and an area reaches over both of its ends, with room for a second
half. -/
def CoverTorn (s : PlacementMemory) (start size : UInt64) : Prop :=
  (start = 0 ∧ size = 0 ∧ 0 < s.freeMemoryAreaIndex) ∨
  (Wraps start size ∧ s.freeMemoryAreaIndex < maxMemoryAreasSize ∧
    ∃ a ∈ s.spans, a.lo + 2 ^ 64 < start.toNat + size.toNat ∧ start.toNat < a.hi)

lemma allocateAreaCover_eq (s : PlacementMemory) (start size : UInt64) :
    s.allocateAreaCover start size = coverFrom start (start + size - 1) s 0 := by
  unfold allocateAreaCover
  split_ifs with hzero
  · rw [coverFrom, if_neg (by omega)]
  · rfl

/-- **`allocate_area_cover` on an empty range.** -/
lemma allocateAreaCover_empty_iff {s : PlacementMemory} (hs : WellFormed s) (start : UInt64) :
    Respects s (s.allocateAreaCover start 0).2 start 0 ↔ ¬ CoverTorn s start 0 := by
  have hnwrap : ¬ Wraps start 0 := fun h => h.size_ne_zero rfl
  by_cases hzero : start = 0
  · subst hzero
    by_cases hempty : s.freeMemoryAreaIndex = 0
    · have hsame : s.allocateAreaCover 0 0 = (0, s) := if_pos hempty
      rw [hsame]
      refine iff_of_true (.of_same hs (SameTable.refl s) _ _) ?_
      rintro (⟨-, -, hpos⟩ | ⟨hw, -⟩)
      · omega
      · exact hnwrap hw
    · -- everything is taken, so an address of the first area is missing
      refine iff_of_false (fun hres => ?_) (not_not.mpr (Or.inl ⟨rfl, rfl, by omega⟩))
      have hidx : (s.allocateAreaCover 0 0).2.freeMemoryAreaIndex = 0 := by
        rw [allocateAreaCover_eq]
        exact coverFrom_everything _ s rfl
      have hfirst : (s.freeMemoryAreas 0).span.lo ∈ s.freeSet :=
        ⟨_, mem_spans.mpr ⟨0, by omega, rfl⟩, le_rfl, (hs.valid (by omega)).lo_lt_hi⟩
      have hgone : (s.freeMemoryAreas 0).span.lo ∉ (s.allocateAreaCover 0 0).2.freeSet := by
        rw [mem_freeSet, hidx]
        rintro ⟨i, hi, -⟩
        exact absurd hi (Nat.not_lt_zero i)
      have hin := (hres.loses_within ⟨hfirst, hgone⟩).2
      simp at hin
  · have hpos := toNat_pos_iff.mpr hzero
    have hlast : (start + 0 - 1).toNat = start.toNat - 1 := by
      have hstart := start.toNat_lt
      rw [UInt64.toNat_sub, UInt64.toNat_add, UInt64.toNat_zero, UInt64.toNat_one]
      omega
    have hnot : ¬ CoverTorn s start 0 := by
      rintro (⟨h, -, -⟩ | ⟨hw, -⟩)
      · exact hzero h
      · exact hnwrap hw
    refine iff_of_true ?_ hnot
    rw [allocateAreaCover_eq]
    rcases cover_backward start (start + 0 - 1) hs (by omega) with
      ⟨j, hj, hlo, hhi, hroom, hidx, hspans⟩ | ⟨-, hsame⟩
    · -- the area is split at the start, and no address is lost
      rw [hlast, Nat.sub_add_cancel hpos] at hspans
      rw [hlast] at hlo
      have hset : (coverFrom start (start + 0 - 1) s 0).2.freeSet = s.freeSet := by
        have hjoin := Span.toSet_join (p := ⟨(s.freeMemoryAreas j).span.lo, start.toNat⟩)
          (a := ⟨start.toNat, (s.freeMemoryAreas j).span.hi⟩) rfl (by dsimp only; omega) hhi.le
        rw [freeSet, freeSet, hspans]
        conv_rhs => rw [s.spans_eq hj]
        simp only [addresses_append, addresses_cons]
        rw [← Set.union_assoc (Span.toSet _) (Span.toSet _), ← hjoin]
      refine .of_freeSet_eq hset ?_ _ _
      refine hs.of_replace hj (r := [⟨(s.freeMemoryAreas j).span.lo, start.toNat⟩,
        ⟨start.toNat, (s.freeMemoryAreas j).span.hi⟩]) ?_ ?_ hspans (by omega)
      · simp only [separated_cons, List.mem_cons, List.not_mem_nil, or_false, forall_eq, le_refl,
          separated_nil, false_implies, implies_true, and_true, true_and]
        omega
      · simp only [List.mem_cons, List.not_mem_nil, or_false, forall_eq_or_imp, forall_eq, le_refl,
          and_true, true_and]
        omega
    · exact .of_same hs hsame _ _

/-- **`allocate_area_cover` on a wrapping range.** -/
lemma allocateAreaCover_wrapped_iff {s : PlacementMemory} (hs : WellFormed s) {start size : UInt64}
    (hw : Wraps start size) :
    Respects s (s.allocateAreaCover start size).2 start size ↔ ¬ CoverTorn s start size := by
  have hlast := hw.toNat_last
  have hsize := size.toNat_lt
  have hwide : 2 ^ 64 < start.toNat + size.toNat := hw
  rw [allocateAreaCover_eq]
  rcases cover_backward start (start + size - 1) hs (by omega) with
    ⟨j, hj, hlo, hhi, hroom, -, hspans⟩ | ⟨hnone, hsame⟩
  · refine iff_of_false ?_ (not_not.mpr (Or.inr ⟨hw, hroom, _, mem_spans.mpr ⟨j, hj, rfl⟩, ?_, hhi⟩))
    · rw [hlast] at hspans
      rw [← List.nil_append (⟨start.toNat + size.toNat - 1 - 2 ^ 64 + 1, _⟩ :: s.spans.drop (j + 1))]
        at hspans
      refine not_respects_of_overlap hspans (x := start.toNat - 1) ?_ ?_
      · exact ⟨by dsimp only; omega, by dsimp only; omega⟩
      · exact ⟨by dsimp only; omega, by dsimp only; omega⟩
    · omega
  · refine iff_of_true (.of_same hs hsame _ _) ?_
    rintro (⟨-, hzero, -⟩ | ⟨-, hroom, a, ha, hlo, hhi⟩)
    · exact hw.size_ne_zero hzero
    · exact hnone hroom a ha ⟨by omega, hhi⟩

end PlacementMemory

open PlacementMemory

/-! ## The result -/

/-- **Which ranges tear an area.**  For every start and size the two operations take only addresses of
the range from the free set, add none and leave the areas in use disjoint, iff the range does not tear
an area. -/
theorem range_arithmetic_iff {s : PlacementMemory} (hs : s.WellFormed) (start size : UInt64) :
    (Respects s (s.allocateArea start size).2 start size ↔ ¬ AreaTorn s start size) ∧
    (Respects s (s.allocateAreaCover start size).2 start size ↔ ¬ CoverTorn s start size) := by
  by_cases hw : Wraps start size
  · exact ⟨allocateArea_wrapped_iff hs hw, allocateAreaCover_wrapped_iff hs hw⟩
  have hnarea : ¬ AreaTorn s start size := fun h => hw h.1
  by_cases hzero : size = 0
  · subst hzero
    refine ⟨iff_of_true (.of_same hs ?_ _ _) hnarea, allocateAreaCover_empty_iff hs start⟩
    unfold allocateArea
    split_ifs with hempty hne
    · exact SameTable.refl s
    · exact SameTable.refl s
    · exact absurd rfl hne
  have hpos := toNat_pos_iff.mpr hzero
  have hr : (⟨start, size⟩ : MemoryArea).Valid := ⟨hpos, not_lt.mp hw⟩
  have hncover : ¬ CoverTorn s start size := by
    rintro (⟨-, h, -⟩ | ⟨h, -⟩)
    · exact hzero h
    · exact hw h
  refine ⟨iff_of_true ?_ hnarea, iff_of_true ?_ hncover⟩
  · rcases allocateArea_spec hs hr with ⟨-, -, hspans, hidx⟩ | ⟨-, -, hsame⟩
    · exact .of_taken (hs.of_carve hr.lo_lt_hi.le hspans hidx) (freeSet_of_spans_eq_carve hspans)
    · exact .of_same hs hsame _ _
  · rcases allocateAreaCover_spec hs hr with ⟨-, -, hspans, hidx⟩ | ⟨-, -, hsame⟩
    · exact .of_taken (hs.of_carve hr.lo_lt_hi.le hspans hidx) (freeSet_of_spans_eq_carve hspans)
    · exact .of_same hs hsame _ _

/-- The condition at the kernel's reservation of the first ten megabytes. -/
theorem range_arithmetic_iff_example :
    (Respects smallMachine (smallMachine.allocateArea 0 0xa00000).2 0 0xa00000 ↔
      ¬ AreaTorn smallMachine 0 0xa00000) ∧
    (Respects smallMachine (smallMachine.allocateAreaCover 0 0xa00000).2 0 0xa00000 ↔
      ¬ CoverTorn smallMachine 0 0xa00000) :=
  range_arithmetic_iff wellFormed_smallMachine 0 0xa00000

/-- The area `[100, 200)` and a range of `2 ^ 64 - 50` bytes from its start: `allocate_area` reports success
and leaves `[50, 200)`. -/
theorem wrapping_range_frees :
    ¬ ∀ (s : PlacementMemory), s.WellFormed → ∀ start size : UInt64,
      Respects s (s.allocateArea start size).2 start size ∧
      Respects s (s.allocateAreaCover start size).2 start size := by
  intro hall
  have hres := (hall (ofAreas [⟨100, 100⟩]) (wellFormed_ofAreas (by decide)) 100
    (0 - 50)).1.gains_nothing
  have hafter : 50 ∈ ((ofAreas [⟨100, 100⟩]).allocateArea 100 (0 - 50)).2.freeSet :=
    mem_freeSet.mpr ⟨0, by decide, by decide, by decide⟩
  obtain ⟨i, hi, hlo, -⟩ := mem_freeSet.mp (hres hafter)
  have hzero : i = 0 := Nat.lt_one_iff.mp hi
  subst hzero
  exact absurd hlo (by decide)

end GrubKernel
