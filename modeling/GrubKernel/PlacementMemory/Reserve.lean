import GrubKernel.PlacementMemory.FreeList

/-!
# What the three reserving operations do

`allocate`, `allocateArea` and `allocateAreaCover` each take a range out of the free list.  Over a
well-formed table all three are the one abstract operation `carve`, or leave the table alone:

* `allocate_spec` — first fit: the lowest area that is large enough loses its first bytes.
* `allocateArea_spec` — the range is carved out iff it `Fits` one area.
* `allocateAreaCover_spec` — the range is carved out unless the table is full and the range lies
  strictly inside one area (`Blocked`).

The case distinctions of the source compare inclusive 64-bit ends; the lemmas of the first section
translate them once.
-/

namespace GrubKernel

open RangeList

/-! ## The new areas that the operations write -/

namespace MemoryArea

variable {a r : MemoryArea}

/-- Moving the start of an area up by `size` bytes. -/
lemma span_advance (ha : a.Valid) {size : UInt64} (h : size.toNat < a.size.toNat) :
    (⟨a.start + size, a.size - size⟩ : MemoryArea).span
      = ⟨a.start.toNat + size.toNat, a.span.hi⟩ := by
  have hfit := ha.2
  have hsize := a.size.toNat_lt
  simp only [span, UInt64.toNat_add, UInt64.toNat_sub, Span.mk.injEq]
  omega

/-- Moving the end of an area down by `size` bytes. -/
lemma span_shorten (a : MemoryArea) {size : UInt64} (h : size.toNat ≤ a.size.toNat) :
    (⟨a.start, a.size - size⟩ : MemoryArea).span
      = ⟨a.span.lo, a.span.hi - size.toNat⟩ := by
  have hsize := a.size.toNat_lt
  simp only [span, UInt64.toNat_sub, Span.mk.injEq, true_and]
  omega

/-- The part of an area below the range `r`. -/
lemma span_below (h : a.start.toNat ≤ r.start.toNat) :
    (⟨a.start, r.start - a.start⟩ : MemoryArea).span = ⟨a.span.lo, r.span.lo⟩ := by
  have hstart := r.start.toNat_lt
  rw [span_lo, span_lo]
  simp only [span, UInt64.toNat_sub, Span.mk.injEq, true_and]
  omega

/-- The part of an area behind the range `r`, in each of the three ways the source computes it. -/
lemma span_behind (ha : a.Valid) (hr : r.Valid) (h : r.last < a.last) {size : UInt64}
    (hsize : size = a.last - r.last ∨ size = a.last - (r.last + 1) + 1 ∨
      (a.start < r.start ∧ size = a.size - r.size - (r.start - a.start))) :
    (⟨r.last + 1, size⟩ : MemoryArea).span = ⟨r.span.hi, a.span.hi⟩ := by
  have hal := ha.last_toNat
  have hrl := hr.last_toNat
  obtain ⟨hapos, hafit⟩ := ha
  obtain ⟨hrpos, hrfit⟩ := hr
  rw [UInt64.lt_iff_toNat_lt, hal, hrl] at h
  have hs : size.toNat = a.span.hi - r.span.hi := by
    simp only [span_hi]
    rcases hsize with rfl | rfl | ⟨hlt, rfl⟩
    · rw [UInt64.toNat_sub, hal, hrl]
      omega
    · rw [UInt64.toNat_add, UInt64.toNat_sub, UInt64.toNat_add, hal, hrl, UInt64.toNat_one]
      omega
    · rw [UInt64.lt_iff_toNat_lt] at hlt
      have has := a.size.toNat_lt
      rw [UInt64.toNat_sub, UInt64.toNat_sub, UInt64.toNat_sub]
      omega
  simp only [span, UInt64.toNat_add, hrl, UInt64.toNat_one, Span.mk.injEq, hs]
  omega

/-! ### The comparisons of inclusive ends -/

lemma last_lt_iff (ha : a.Valid) (x : UInt64) : a.last < x ↔ a.span.hi ≤ x.toNat := by
  have := ha.1
  rw [UInt64.lt_iff_toNat_lt, ha.last_toNat, span_hi]
  omega

lemma last_lt_last_iff (ha : a.Valid) (hr : r.Valid) : r.last < a.last ↔ r.span.hi < a.span.hi := by
  have := ha.1
  have := hr.1
  rw [UInt64.lt_iff_toNat_lt, ha.last_toNat, hr.last_toNat, span_hi, span_hi]
  omega

lemma last_eq_last_iff (ha : a.Valid) (hr : r.Valid) : a.last = r.last ↔ a.span.hi = r.span.hi := by
  have := ha.1
  have := hr.1
  rw [← UInt64.toNat_inj, ha.last_toNat, hr.last_toNat, span_hi, span_hi]
  omega

lemma last_le_last_iff (ha : a.Valid) (hr : r.Valid) : a.last ≤ r.last ↔ a.span.hi ≤ r.span.hi := by
  have := ha.1
  have := hr.1
  rw [UInt64.le_iff_toNat_le, ha.last_toNat, hr.last_toNat, span_hi, span_hi]
  omega

lemma lt_start_iff (hr : r.Valid) : r.last < a.start ↔ r.span.hi ≤ a.span.lo := by
  rw [last_lt_iff hr, span_lo]

end MemoryArea

namespace PlacementMemory

/-! ## `allocate` -/

lemma allocateFrom_succ (size : UInt64) (n i : ℕ) (s : PlacementMemory) :
    allocateFrom size (n + 1) i s
      = if (s.freeMemoryAreas i).size > size then
          ((s.freeMemoryAreas i).start, (s.touch i).store i
            ⟨(s.freeMemoryAreas i).start + size, (s.freeMemoryAreas i).size - size⟩)
        else if (s.freeMemoryAreas i).size = size then
          ((s.freeMemoryAreas i).start, (s.touch i).removeArea i)
        else allocateFrom size n (i + 1) (s.touch i) := rfl

/-- The loop of `allocate` stops at the first area that is large enough. -/
lemma allocateFrom_spec (size : UInt64) (n : ℕ) : ∀ (s : PlacementMemory) (i : ℕ), WellFormed s →
    i + n = s.freeMemoryAreaIndex → 0 < size.toNat →
    (∃ j, i ≤ j ∧ j < s.freeMemoryAreaIndex ∧ size.toNat ≤ (s.freeMemoryAreas j).size.toNat ∧
      (∀ k, i ≤ k → k < j → (s.freeMemoryAreas k).size.toNat < size.toNat) ∧
      (allocateFrom size n i s).1 = (s.freeMemoryAreas j).start ∧
      (allocateFrom size n i s).2.freeMemoryAreaIndex ≤ s.freeMemoryAreaIndex ∧
      (allocateFrom size n i s).2.spans
        = carve (s.freeMemoryAreas j).start.toNat
            ((s.freeMemoryAreas j).start.toNat + size.toNat) s.spans) ∨
    ((∀ k, i ≤ k → k < s.freeMemoryAreaIndex → (s.freeMemoryAreas k).size.toNat < size.toNat) ∧
      (allocateFrom size n i s).1 = 0 ∧ SameTable s (allocateFrom size n i s).2) := by
  induction n with
  | zero =>
      intro s i _ hi _
      right
      exact ⟨fun k hk hk' => by omega, rfl, SameTable.refl s⟩
  | succ n ih =>
      intro s i hs hi hpos
      have hin : i < s.freeMemoryAreaIndex := by omega
      have hv := hs.valid hin
      rw [allocateFrom_succ]
      by_cases hgt : (s.freeMemoryAreas i).size > size
      · -- the area is larger than the request: it loses its first `size` bytes
        have hgt' : size.toNat < (s.freeMemoryAreas i).size.toNat := UInt64.lt_iff_toNat_lt.mp hgt
        left
        refine ⟨i, le_rfl, hin, hgt'.le, fun k hk hk' => by omega, ?_⟩
        rw [if_pos hgt]
        refine ⟨rfl, le_rfl, ?_⟩
        have hcut := hs.carve_at hin (s.freeMemoryAreas i).start.toNat
          ((s.freeMemoryAreas i).start.toNat + size.toNat) (by omega) le_rfl
          (by rw [MemoryArea.span_hi]; omega)
        have hleft : (s.freeMemoryAreas i).span.minus (s.freeMemoryAreas i).start.toNat
            ((s.freeMemoryAreas i).start.toNat + size.toNat)
            = [⟨(s.freeMemoryAreas i).start.toNat + size.toNat, (s.freeMemoryAreas i).span.hi⟩] :=
          Span.minus_start le_rfl (Nat.le_add_right _ _) (by rw [MemoryArea.span_hi]; omega)
        rw [spans_store _ (by simpa using hin), MemoryArea.span_advance hv hgt', spans_touch, hcut,
          hleft]
        simp
      · rw [if_neg hgt]
        by_cases heq : (s.freeMemoryAreas i).size = size
        · -- the area is exactly as large as the request: its slot is removed
          left
          refine ⟨i, le_rfl, hin, by rw [heq], fun k hk hk' => by omega, ?_⟩
          rw [if_pos heq]
          refine ⟨rfl, by simp, ?_⟩
          have hcut := hs.carve_at hin (s.freeMemoryAreas i).start.toNat
            ((s.freeMemoryAreas i).start.toNat + size.toNat) (by omega) le_rfl
            (by rw [MemoryArea.span_hi, heq])
          have hleft : (s.freeMemoryAreas i).span.minus (s.freeMemoryAreas i).start.toNat
              ((s.freeMemoryAreas i).start.toNat + size.toNat) = [] :=
            Span.minus_all le_rfl (by rw [MemoryArea.span_hi, heq])
          rw [spans_removeArea _ (by simpa using hin), spans_touch, hcut, hleft]
          simp
        · rw [if_neg heq]
          have hlt : (s.freeMemoryAreas i).size.toNat < size.toNat := by
            have h₁ : ¬ size.toNat < (s.freeMemoryAreas i).size.toNat :=
              fun h => hgt (UInt64.lt_iff_toNat_lt.mpr h)
            have h₂ : (s.freeMemoryAreas i).size.toNat ≠ size.toNat :=
              fun h => heq (UInt64.toNat_inj.mp h)
            omega
          rcases ih (s.touch i) (i + 1) (hs.touch i) (by simp; omega) hpos with h | h
          · obtain ⟨j, hij, hj, hle, hbelow, hret⟩ := h
            left
            refine ⟨j, by omega, hj, hle, fun k hk hk' => ?_, hret⟩
            rcases Nat.eq_or_lt_of_le hk with rfl | hk
            · exact hlt
            · exact hbelow k hk hk'
          · obtain ⟨hall, hret⟩ := h
            right
            refine ⟨fun k hk hk' => ?_, hret⟩
            rcases Nat.eq_or_lt_of_le hk with rfl | hk
            · exact hlt
            · exact hall k hk hk'

/-- **`allocate` is first fit.**  Either slot `j` holds the lowest area that is large enough and
loses its first `size` bytes, or no area is large enough and the table is unchanged. -/
theorem allocate_spec {s : PlacementMemory} (hs : WellFormed s) {size : UInt64}
    (hsize : 0 < size.toNat) :
    (∃ j, j < s.freeMemoryAreaIndex ∧ size.toNat ≤ (s.freeMemoryAreas j).size.toNat ∧
      (∀ k < j, (s.freeMemoryAreas k).size.toNat < size.toNat) ∧
      (s.allocate size).1 = (s.freeMemoryAreas j).start ∧
      (s.allocate size).2.freeMemoryAreaIndex ≤ s.freeMemoryAreaIndex ∧
      (s.allocate size).2.spans
        = carve (s.freeMemoryAreas j).start.toNat
            ((s.freeMemoryAreas j).start.toNat + size.toNat) s.spans) ∨
    ((∀ k < s.freeMemoryAreaIndex, (s.freeMemoryAreas k).size.toNat < size.toNat) ∧
      (s.allocate size).1 = 0 ∧ SameTable s (s.allocate size).2) := by
  have hne := toNat_pos_iff.mp hsize
  unfold allocate
  by_cases h₀ : s.freeMemoryAreaIndex = 0
  · right
    rw [if_pos h₀]
    exact ⟨fun k hk => by omega, rfl, SameTable.refl s⟩
  · rw [if_neg h₀, if_neg hne]
    rcases allocateFrom_spec size s.freeMemoryAreaIndex s 0 hs (by omega) hsize with h | h
    · obtain ⟨j, -, hj, hle, hbelow, hret⟩ := h
      exact Or.inl ⟨j, hj, hle, fun k hk => hbelow k (Nat.zero_le k) hk, hret⟩
    · exact Or.inr ⟨fun k hk => h.1 k (Nat.zero_le k) hk, h.2⟩

/-! ## `allocate_area` -/

/-- The range lies inside one area of the list, and if it touches neither end of that area the table
has a slot left for the second half. -/
def Fits (l : List (Span ℕ)) (r : Span ℕ) : Prop :=
  ∃ a ∈ l, a.lo ≤ r.lo ∧ r.hi ≤ a.hi ∧
    (l.length ≠ maxMemoryAreasSize ∨ a.lo = r.lo ∨ r.hi = a.hi)

instance (l : List (Span ℕ)) (r : Span ℕ) : Decidable (Fits l r) :=
  inferInstanceAs (Decidable (∃ a ∈ l, _))

lemma findOverlap_succ (start : UInt64) (n i : ℕ) (s : PlacementMemory) :
    findOverlap start (n + 1) i s
      = if start > (s.freeMemoryAreas i).last then findOverlap start n (i + 1) (s.touch i)
        else (some i, s.touch i) := rfl

/-- The search loop finds the first area that does not end below `start`. -/
lemma findOverlap_spec (start : UInt64) (n : ℕ) : ∀ (s : PlacementMemory) (i : ℕ),
    i + n = s.freeMemoryAreaIndex →
    SameTable s (findOverlap start n i s).2 ∧
    (∀ j, (findOverlap start n i s).1 = some j → i ≤ j ∧ j < s.freeMemoryAreaIndex ∧
      ¬ (s.freeMemoryAreas j).last < start ∧
      ∀ k, i ≤ k → k < j → (s.freeMemoryAreas k).last < start) ∧
    ((findOverlap start n i s).1 = none →
      ∀ k, i ≤ k → k < s.freeMemoryAreaIndex → (s.freeMemoryAreas k).last < start) := by
  induction n with
  | zero =>
      intro s i hi
      refine ⟨SameTable.refl s, fun j hj => ?_, fun _ k hk hk' => by omega⟩
      simp [findOverlap] at hj
  | succ n ih =>
      intro s i hi
      rw [findOverlap_succ]
      by_cases hlt : start > (s.freeMemoryAreas i).last
      · rw [if_pos hlt]
        obtain ⟨hsame, hsome, hnone⟩ := ih (s.touch i) (i + 1) (by simp; omega)
        have hstep : ∀ m, (∀ k, i + 1 ≤ k → k < m → (s.freeMemoryAreas k).last < start) →
            ∀ k, i ≤ k → k < m → (s.freeMemoryAreas k).last < start := by
          intro m hm k hk hk'
          rcases Nat.eq_or_lt_of_le hk with rfl | hk
          · exact hlt
          · exact hm k hk hk'
        refine ⟨hsame, fun j hj => ?_, fun h => hstep _ (hnone h)⟩
        obtain ⟨hij, hj', hge, hbelow⟩ := hsome j hj
        exact ⟨by omega, hj', hge, hstep _ hbelow⟩
      · rw [if_neg hlt]
        refine ⟨⟨rfl, rfl⟩, fun j hj => ?_, fun h => by simp at h⟩
        obtain rfl : i = j := by simpa using hj
        exact ⟨le_rfl, by omega, hlt, fun k hk hk' => by omega⟩

/-- **The case distinction of `allocate_area`**, on the first area that does not end below the
range: the range is carved out of it, or it does not fit and nothing changes. -/
lemma allocateAreaAt_spec {s : PlacementMemory} (hs : WellFormed s) {r : MemoryArea} (hr : r.Valid)
    {i : ℕ} (hi : i < s.freeMemoryAreaIndex)
    (hfirst : r.span.lo < (s.freeMemoryAreas i).span.hi) :
    ((s.freeMemoryAreas i).span.lo ≤ r.span.lo ∧ r.span.hi ≤ (s.freeMemoryAreas i).span.hi ∧
        (s.freeMemoryAreaIndex ≠ maxMemoryAreasSize ∨
          (s.freeMemoryAreas i).span.lo = r.span.lo ∨
          r.span.hi = (s.freeMemoryAreas i).span.hi) ∧
        (s.allocateAreaAt r.start r.size i).1 = 0 ∧
        (s.allocateAreaAt r.start r.size i).2.spans = carve r.span.lo r.span.hi s.spans ∧
        (s.allocateAreaAt r.start r.size i).2.freeMemoryAreaIndex ≤ maxMemoryAreasSize) ∨
      (¬ ((s.freeMemoryAreas i).span.lo ≤ r.span.lo ∧ r.span.hi ≤ (s.freeMemoryAreas i).span.hi ∧
        (s.freeMemoryAreaIndex ≠ maxMemoryAreasSize ∨
          (s.freeMemoryAreas i).span.lo = r.span.lo ∨
          r.span.hi = (s.freeMemoryAreas i).span.hi)) ∧
        (s.allocateAreaAt r.start r.size i).1 < 0 ∧
        (s.allocateAreaAt r.start r.size i).2 = s) := by
  have hv := hs.valid hi
  have hpos := hr.1
  have hle := hs.index_le
  set a := s.freeMemoryAreas i with ha
  have hlast : r.start + r.size - 1 = r.last := rfl
  -- the four comparisons of the source, on the ranges
  have hstart : a.start = r.start ↔ a.span.lo = r.span.lo := UInt64.toNat_inj.symm
  have hbefore : a.start < r.start ↔ a.span.lo < r.span.lo := UInt64.lt_iff_toNat_lt
  have hend := MemoryArea.last_eq_last_iff hv hr
  have hbehind := MemoryArea.last_lt_last_iff hv hr
  have hrlt : r.span.lo < r.span.hi := hr.lo_lt_hi
  unfold allocateAreaAt
  dsimp only
  rw [← ha, hlast]
  simp only [gt_iff_lt, hstart, hbefore, hend, hbehind]
  by_cases h₁ : a.span.lo = r.span.lo ∧ r.span.hi < a.span.hi
  · -- the range is the beginning of the area
    left
    have hsz : r.size.toNat < a.size.toNat := by
      have := h₁.1
      have := h₁.2
      simp only [MemoryArea.span_lo, MemoryArea.span_hi] at *
      omega
    rw [if_pos h₁]
    refine ⟨h₁.1.le, h₁.2.le, Or.inr (Or.inl h₁.1), rfl, ?_, hle⟩
    rw [spans_store _ hi, MemoryArea.span_advance hv hsz,
      hs.carve_at hi _ _ hrlt.le h₁.1.le h₁.2.le, Span.minus_start h₁.1.ge (by omega) h₁.2]
    have hlo : a.start.toNat + r.size.toNat = r.span.hi := by
      have := h₁.1
      simp only [MemoryArea.span_lo, MemoryArea.span_hi] at *
      omega
    rw [hlo]
    simp
  rw [if_neg h₁]
  by_cases h₂ : a.span.lo < r.span.lo ∧ a.span.hi = r.span.hi
  · -- the range is the end of the area
    left
    have hsz : r.size.toNat ≤ a.size.toNat := by
      have := h₂.1
      have := h₂.2
      simp only [MemoryArea.span_lo, MemoryArea.span_hi] at *
      omega
    rw [if_pos h₂]
    refine ⟨h₂.1.le, h₂.2.ge, Or.inr (Or.inr h₂.2.symm), rfl, ?_, hle⟩
    rw [spans_store _ hi, MemoryArea.span_shorten a hsz,
      hs.carve_at hi _ _ hrlt.le h₂.1.le h₂.2.ge, ← ha,
      Span.minus_end h₂.1 (by omega) h₂.2.le]
    have hhi : a.span.hi - r.size.toNat = r.span.lo := by
      have := h₂.2
      simp only [MemoryArea.span_lo, MemoryArea.span_hi] at *
      omega
    rw [hhi]
    simp
  rw [if_neg h₂]
  by_cases h₃ : a.span.lo = r.span.lo ∧ a.span.hi = r.span.hi
  · -- the range is the whole area
    left
    rw [if_pos h₃]
    refine ⟨h₃.1.le, h₃.2.ge, Or.inr (Or.inl h₃.1), rfl, ?_, by simp; omega⟩
    rw [spans_removeArea _ hi, hs.carve_at hi _ _ hrlt.le h₃.1.le h₃.2.ge, ← ha,
      Span.minus_all h₃.1.ge h₃.2.le]
    simp
  rw [if_neg h₃]
  by_cases h₄ : a.span.lo < r.span.lo ∧ r.span.hi < a.span.hi
  · rw [if_pos h₄]
    by_cases hfull : s.freeMemoryAreaIndex = maxMemoryAreasSize
    · -- the range is strictly inside the area and there is no slot for the second half
      right
      rw [if_pos hfull]
      exact ⟨by omega, show (-4 : ℤ) < 0 by decide, rfl⟩
    · left
      rw [if_neg hfull]
      refine ⟨h₄.1.le, h₄.2.le, Or.inl hfull, rfl, ?_, by simp; omega⟩
      have hlt : a.start < r.start := hbefore.mpr h₄.1
      rw [spans_splitArea _ hi, MemoryArea.span_below (UInt64.lt_iff_toNat_lt.mp hlt).le,
        MemoryArea.span_behind hv hr (hbehind.mpr h₄.2) (Or.inr (Or.inr ⟨hlt, rfl⟩)),
        hs.carve_at hi _ _ hrlt.le h₄.1.le h₄.2.le, ← ha, Span.minus_inside h₄.1 hrlt.le h₄.2]
      simp
  · -- the range leaves the area on one side
    right
    rw [if_neg h₄]
    exact ⟨by omega, show (-5 : ℤ) < 0 by decide, rfl⟩

/-- The search finds the area that contains the start of the range. -/
lemma findOverlap_eq {s : PlacementMemory} (hs : WellFormed s) {start : UInt64} {k : ℕ}
    (hk : k < s.freeMemoryAreaIndex) (hlo : (s.freeMemoryAreas k).span.lo ≤ start.toNat)
    (hhi : start.toNat < (s.freeMemoryAreas k).span.hi) :
    ∃ t, SameTable s t ∧ findOverlap start s.freeMemoryAreaIndex 0 s = (some k, t) := by
  obtain ⟨hsame, hsome, hnone⟩ := findOverlap_spec start s.freeMemoryAreaIndex s 0 (by omega)
  rcases hfind : findOverlap start s.freeMemoryAreaIndex 0 s with ⟨_ | i, t⟩
  · rw [hfind] at hnone
    have hlast := (MemoryArea.last_lt_iff (hs.valid hk) _).mp (hnone rfl k (Nat.zero_le k) hk)
    omega
  · rw [hfind] at hsome hsame
    obtain ⟨-, hi, hge, hbelow⟩ := hsome i rfl
    rw [MemoryArea.last_lt_iff (hs.valid hi), not_le] at hge
    have hik : i = k := by
      rcases lt_trichotomy i k with hlt | heq | hgt
      · have hord := hs.ordered hlt hk
        omega
      · exact heq
      · have hlast := (MemoryArea.last_lt_iff (hs.valid hk) _).mp (hbelow k (Nat.zero_le k) hgt)
        omega
    exact ⟨t, hsame, by rw [hik]⟩

/-- **`allocate_area` carves its range out of the free list iff the range fits**, and otherwise
returns an error code and changes nothing. -/
theorem allocateArea_spec {s : PlacementMemory} (hs : WellFormed s) {r : MemoryArea}
    (hr : r.Valid) :
    (Fits s.spans r.span ∧ (s.allocateArea r.start r.size).1 = 0 ∧
      (s.allocateArea r.start r.size).2.spans = carve r.span.lo r.span.hi s.spans ∧
      (s.allocateArea r.start r.size).2.freeMemoryAreaIndex ≤ maxMemoryAreasSize) ∨
    (¬ Fits s.spans r.span ∧ (s.allocateArea r.start r.size).1 < 0 ∧
      SameTable s (s.allocateArea r.start r.size).2) := by
  have hrlt : r.span.lo < r.span.hi := hr.lo_lt_hi
  have hne := hr.size_ne_zero
  unfold allocateArea
  by_cases h₀ : s.freeMemoryAreaIndex = 0
  · right
    rw [if_pos h₀]
    refine ⟨?_, show (-1 : ℤ) < 0 by decide, SameTable.refl s⟩
    rintro ⟨a, ha, -⟩
    obtain ⟨i, hi, -⟩ := mem_spans.mp ha
    omega
  rw [if_neg h₀, if_neg hne]
  obtain ⟨hsame, hsome, -⟩ := findOverlap_spec r.start s.freeMemoryAreaIndex s 0 (by omega)
  rcases hfind : findOverlap r.start s.freeMemoryAreaIndex 0 s with ⟨_ | i, t⟩
  · -- every area ends below the range
    rw [hfind] at hsame
    right
    refine ⟨?_, show (-3 : ℤ) < 0 by decide, hsame⟩
    rintro ⟨a, ha, hlo, hhi, -⟩
    obtain ⟨k, hk, rfl⟩ := mem_spans.mp ha
    obtain ⟨t', -, hfound⟩ := findOverlap_eq hs hk hlo (hrlt.trans_le hhi)
    rw [hfind] at hfound
    exact absurd (Prod.ext_iff.mp hfound).1 (Option.some_ne_none k).symm
  · rw [hfind] at hsame hsome
    replace hsame : SameTable s t := hsame
    obtain ⟨-, hi, hge, -⟩ := hsome i rfl
    have hfirst : r.span.lo < (s.freeMemoryAreas i).span.hi := by
      rw [MemoryArea.last_lt_iff (hs.valid hi)] at hge
      exact not_le.mp hge
    -- an area that contains the range can only be the one found
    have honly : ∀ k < s.freeMemoryAreaIndex, (s.freeMemoryAreas k).span.lo ≤ r.span.lo →
        r.span.hi ≤ (s.freeMemoryAreas k).span.hi → k = i := by
      intro k hk hlo hhi
      obtain ⟨t', -, hfound⟩ := findOverlap_eq hs hk hlo (hrlt.trans_le hhi)
      rw [hfind] at hfound
      exact (Option.some.inj (Prod.ext_iff.mp hfound).1).symm
    have hfits : Fits s.spans r.span ↔
        (s.freeMemoryAreas i).span.lo ≤ r.span.lo ∧ r.span.hi ≤ (s.freeMemoryAreas i).span.hi ∧
        (s.freeMemoryAreaIndex ≠ maxMemoryAreasSize ∨
          (s.freeMemoryAreas i).span.lo = r.span.lo ∨
          r.span.hi = (s.freeMemoryAreas i).span.hi) := by
      constructor
      · rintro ⟨a, ha, hlo, hhi, hroom⟩
        obtain ⟨k, hk, rfl⟩ := mem_spans.mp ha
        obtain rfl := honly k hk hlo hhi
        exact ⟨hlo, hhi, by simpa using hroom⟩
      · rintro ⟨hlo, hhi, hroom⟩
        exact ⟨_, mem_spans.mpr ⟨i, hi, rfl⟩, hlo, hhi, by simpa using hroom⟩
    have hspec := allocateAreaAt_spec (hsame.wellFormed hs) hr (i := i) (by rw [hsame.2]; exact hi)
      (by rw [hsame.1]; exact hfirst)
    simp only [hsame.1, hsame.2, hsame.spans_eq] at hspec
    rcases hspec with ⟨hlo, hhi, hroom, hret⟩ | ⟨hnot, hcode, hstate⟩
    · left
      exact ⟨hfits.mpr ⟨hlo, hhi, hroom⟩, hret⟩
    · right
      refine ⟨fun h => hnot (hfits.mp h), hcode, ?_⟩
      show SameTable s (t.allocateAreaAt r.start r.size i).2
      rw [hstate]
      exact hsame

/-! ## `allocate_area_cover` -/

/-- The range lies strictly inside one of the spans, touching neither of its ends. -/
def StrictlyInside (l : List (Span ℕ)) (r : Span ℕ) : Prop :=
  ∃ a ∈ l, a.lo < r.lo ∧ r.hi < a.hi

instance (l : List (Span ℕ)) (r : Span ℕ) : Decidable (StrictlyInside l r) :=
  inferInstanceAs (Decidable (∃ a ∈ l, _))

/-- The table is full and the range would split one of its areas. -/
def Blocked (s : PlacementMemory) (r : Span ℕ) : Prop :=
  s.freeMemoryAreaIndex = maxMemoryAreasSize ∧ StrictlyInside s.spans r

lemma strictlyInside_cons {a : Span ℕ} {l : List (Span ℕ)} {r : Span ℕ} :
    StrictlyInside (a :: l) r ↔ (a.lo < r.lo ∧ r.hi < a.hi) ∨ StrictlyInside l r := by
  simp [StrictlyInside]

/-- Spans that start above the start of the range do not contain it strictly. -/
lemma not_strictlyInside {l : List (Span ℕ)} {r : Span ℕ} (h : ∀ a ∈ l, r.lo ≤ a.lo) :
    ¬ StrictlyInside l r := by
  rintro ⟨a, ha, hlo, -⟩
  exact absurd (h a ha) (not_le.mpr hlo)

/-- `Meets` on the ranges: the two have an address in common. -/
lemma meets_iff {s : PlacementMemory} (hs : WellFormed s) {r : MemoryArea} (hr : r.Valid) {i : ℕ}
    (hi : i < s.freeMemoryAreaIndex) :
    s.Meets r.start r.last i ↔
      r.span.lo < (s.freeMemoryAreas i).span.hi ∧ (s.freeMemoryAreas i).span.lo < r.span.hi := by
  unfold Meets
  rw [MemoryArea.last_lt_iff (hs.valid hi), gt_iff_lt, MemoryArea.lt_start_iff hr, not_or, not_le,
    not_le]
  rfl

/-- Taking the list of ranges apart at the slot that the loop is at. -/
lemma spans_split {s : PlacementMemory} {l₁ l₂ : List (Span ℕ)} (h : s.spans = l₁ ++ l₂)
    (hi : l₁.length < s.freeMemoryAreaIndex) :
    l₁ = s.spans.take l₁.length ∧
      l₂ = (s.freeMemoryAreas l₁.length).span :: s.spans.drop (l₁.length + 1) := by
  have heq := (s.spans_eq hi).symm.trans h
  have hlen : (s.spans.take l₁.length).length = l₁.length := by simp; omega
  obtain ⟨h₁, h₂⟩ := List.append_inj heq hlen
  exact ⟨h₁.symm, h₂.symm⟩

/-- An area that meets the range: the two overlap, and the areas behind it start above the start of
the range. -/
lemma meets_spec {s : PlacementMemory} (hs : WellFormed s) {r : MemoryArea} (hr : r.Valid) {i : ℕ}
    (hi : i < s.freeMemoryAreaIndex) (hmeet : ¬ ¬ s.Meets r.start r.last i) :
    r.span.lo < (s.freeMemoryAreas i).span.hi ∧ (s.freeMemoryAreas i).span.lo < r.span.hi ∧
      ∀ b ∈ s.spans.drop (i + 1), r.span.lo ≤ b.lo := by
  obtain ⟨hlo, hhi⟩ := (meets_iff hs hr hi).mp (not_not.mp hmeet)
  refine ⟨hlo, hhi, fun b hb => ?_⟩
  have hafter := ((hs.separated_at hi).around.2.2 b hb).1
  omega

section Slot

variable {s : PlacementMemory} {l₁ l₂ : List (Span ℕ)} {a : Span ℕ}

/-- The slot that the loop is at holds the first of the areas that are left. -/
lemma slot_of_spans (hl : s.spans = l₁ ++ a :: l₂) : l₁.length < s.freeMemoryAreaIndex ∧
    (s.freeMemoryAreas l₁.length).span = a ∧ s.spans.take l₁.length = l₁ ∧
    s.spans.drop (l₁.length + 1) = l₂ := by
  have hi : l₁.length < s.freeMemoryAreaIndex := by
    have hcount := congrArg List.length hl
    rw [length_spans, List.length_append, List.length_cons] at hcount
    omega
  obtain ⟨hl₁, hl₂⟩ := spans_split hl hi
  obtain ⟨ha, hrest⟩ := List.cons.inj hl₂
  exact ⟨hi, ha.symm, hl₁.symm, hrest.symm⟩

/-- The area is removed. -/
lemma removeArea_slot (hs : WellFormed s) (hl : s.spans = l₁ ++ a :: l₂) :
    WellFormed (s.removeArea l₁.length) ∧ (s.removeArea l₁.length).spans = l₁ ++ l₂ := by
  obtain ⟨hi, -, htake, hdrop⟩ := slot_of_spans hl
  have ht := spans_removeArea s hi
  refine ⟨hs.of_replace hi separated_nil (fun b hb => absurd hb List.not_mem_nil) ht
    ((Nat.sub_le _ _).trans hs.index_le), ?_⟩
  rw [ht, htake, hdrop]

/-- The area is replaced by a part of it. -/
lemma store_slot (hs : WellFormed s) (hl : s.spans = l₁ ++ a :: l₂) (b : MemoryArea)
    (hb : b.span.lo < b.span.hi) (hlo : a.lo ≤ b.span.lo) (hhi : b.span.hi ≤ a.hi) :
    WellFormed (s.store l₁.length b) ∧ (s.store l₁.length b).spans = l₁ ++ [b.span] ++ l₂ := by
  obtain ⟨hi, ha, htake, hdrop⟩ := slot_of_spans hl
  have ht := spans_store s hi b
  have hsep : Separated [b.span] := by simp [separated_cons, hb]
  refine ⟨hs.of_replace hi hsep (fun c hc => ?_) ht hs.index_le, ?_⟩
  · rw [List.mem_singleton.mp hc, ha]
    exact ⟨hlo, hhi⟩
  · rw [ht, htake, hdrop, List.append_assoc, List.singleton_append]

/-- The area is replaced by two parts of it. -/
lemma splitArea_slot (hs : WellFormed s) (hl : s.spans = l₁ ++ a :: l₂) (b c : MemoryArea)
    (hsep : Separated [b.span, c.span]) (hlo : a.lo ≤ b.span.lo) (hhi : c.span.hi ≤ a.hi)
    (hroom : s.freeMemoryAreaIndex ≠ maxMemoryAreasSize) :
    WellFormed (s.splitArea l₁.length b c) ∧
      (s.splitArea l₁.length b c).spans = l₁ ++ [b.span] ++ c.span :: l₂ := by
  obtain ⟨hi, ha, htake, hdrop⟩ := slot_of_spans hl
  have ht := spans_splitArea s hi b c
  have hcount : (s.splitArea l₁.length b c).freeMemoryAreaIndex ≤ maxMemoryAreasSize := by
    have hle := hs.index_le
    rw [splitArea_freeMemoryAreaIndex]
    omega
  have hparts : b.span.lo < b.span.hi ∧ b.span.hi ≤ c.span.lo ∧ c.span.lo < c.span.hi := by
    simpa [separated_cons] using hsep
  refine ⟨hs.of_replace hi hsep (fun d hd => ?_) ht hcount, ?_⟩
  · rw [ha]
    rcases List.mem_cons.mp hd with rfl | hd
    · exact ⟨hlo, by omega⟩
    · rw [List.mem_singleton.mp hd]
      exact ⟨by omega, hhi⟩
  · rw [ht, htake, hdrop, List.append_assoc, List.singleton_append]

end Slot

/-- The loop as a derivation: `l₁` are the areas below slot `i = l₁.length`, `l₂` the areas from slot
`i` on.  There is one rule for each branch of the source; `trim` stands for the two branches that
shorten the area at one end. -/
inductive CoverRun (r : MemoryArea) :
    PlacementMemory → List (Span ℕ) → List (Span ℕ) → ℤ × PlacementMemory → Prop
  | done {s l₁} (hs : WellFormed s) (hl : s.spans = l₁) : CoverRun r s l₁ [] (0, s)
  | skip {s l₁ a l₂ res} (hs : WellFormed s) (hl : s.spans = l₁ ++ a :: l₂)
      (hoff : a.hi ≤ r.span.lo ∨ r.span.hi ≤ a.lo)
      (next : CoverRun r (s.touch l₁.length) (l₁ ++ [a]) l₂ res) : CoverRun r s l₁ (a :: l₂) res
  | remove {s l₁ a l₂ res} (hs : WellFormed s) (hl : s.spans = l₁ ++ a :: l₂)
      (hlo : r.span.lo ≤ a.lo) (hhi : a.hi ≤ r.span.hi) (hrest : ∀ b ∈ l₂, r.span.lo ≤ b.lo)
      (next : CoverRun r ((s.touch l₁.length).removeArea l₁.length) l₁ l₂ res) :
      CoverRun r s l₁ (a :: l₂) res
  | trim {s l₁ a l₂ res} (b : MemoryArea) (hs : WellFormed s) (hl : s.spans = l₁ ++ a :: l₂)
      (hleft : a.minus r.span.lo r.span.hi = [b.span])
      (hside : r.span.lo ≤ a.lo ∨ a.hi ≤ r.span.hi) (hrest : ∀ b ∈ l₂, r.span.lo ≤ b.lo)
      (next : CoverRun r ((s.touch l₁.length).store l₁.length b) (l₁ ++ [b.span]) l₂ res) :
      CoverRun r s l₁ (a :: l₂) res
  | full {s l₁ a l₂} (hs : WellFormed s) (hl : s.spans = l₁ ++ a :: l₂)
      (hin : a.lo < r.span.lo ∧ r.span.hi < a.hi)
      (hfull : s.freeMemoryAreaIndex = maxMemoryAreasSize) :
      CoverRun r s l₁ (a :: l₂) (-1, s.touch l₁.length)
  | split {s l₁ a l₂ res} (b c : MemoryArea) (hs : WellFormed s) (hl : s.spans = l₁ ++ a :: l₂)
      (hin : a.lo < r.span.lo ∧ r.span.hi < a.hi)
      (hb : b.span = ⟨a.lo, r.span.lo⟩) (hc : c.span = ⟨r.span.hi, a.hi⟩)
      (hroom : s.freeMemoryAreaIndex ≠ maxMemoryAreasSize)
      (hrest : ∀ b ∈ l₂, a.hi ≤ b.lo ∧ b.lo < b.hi)
      (next : CoverRun r ((s.touch l₁.length).splitArea l₁.length b c) (l₁ ++ [b.span])
        (c.span :: l₂) res) :
      CoverRun r s l₁ (a :: l₂) res

/-- **The loop of `allocate_area_cover` follows the rules.**  The induction is that of the loop. -/
lemma coverFrom_run {r : MemoryArea} (hr : r.Valid) (s : PlacementMemory) (i : ℕ) :
    ∀ l₁ l₂ : List (Span ℕ), WellFormed s → s.spans = l₁ ++ l₂ → l₁.length = i →
    CoverRun r s l₁ l₂ (coverFrom r.start r.last s i) := by
  have hrlt : r.span.lo < r.span.hi := hr.lo_lt_hi
  induction s, i using coverFrom.induct r.start r.last with
  | case1 s i hi hmeet ih =>
      intro l₁ l₂ hs hsplit hlen
      subst hlen
      obtain ⟨hl₁, hl₂⟩ := spans_split hsplit hi
      set a := (s.freeMemoryAreas l₁.length).span with ha
      have hoff : a.hi ≤ r.span.lo ∨ r.span.hi ≤ a.lo := by
        rw [meets_iff hs hr hi, ← ha] at hmeet
        omega
      rw [coverFrom, if_pos hi, if_pos hmeet]
      rw [hl₂] at hsplit ⊢
      refine .skip hs hsplit hoff (ih _ _ (hs.touch _) ?_ (by simp))
      rw [spans_touch, hsplit]
      simp
  | case2 s i hi a' hmeet hcov ih =>
      intro l₁ l₂ hs hsplit hlen
      subst hlen
      obtain ⟨hl₁, hl₂⟩ := spans_split hsplit hi
      obtain ⟨hmlo, hmhi, hrest⟩ := meets_spec hs hr hi hmeet
      set a := (s.freeMemoryAreas l₁.length).span with ha
      have hlo : r.span.lo ≤ a.lo := UInt64.le_iff_toNat_le.mp hcov.1
      have hhi : a.hi ≤ r.span.hi := (MemoryArea.last_le_last_iff (hs.valid hi) hr).mp hcov.2
      rw [coverFrom, if_pos hi]
      dsimp only
      rw [if_neg hmeet, if_pos hcov]
      rw [hl₂] at hsplit ⊢
      obtain ⟨hwf, ht⟩ := removeArea_slot (hs.touch l₁.length) hsplit
      exact .remove hs hsplit hlo hhi hrest (ih _ _ hwf ht rfl)
  | case3 s i hi a' hmeet hncov hst ih =>
      intro l₁ l₂ hs hsplit hlen
      subst hlen
      obtain ⟨hl₁, hl₂⟩ := spans_split hsplit hi
      obtain ⟨hmlo, hmhi, hrest⟩ := meets_spec hs hr hi hmeet
      set a := (s.freeMemoryAreas l₁.length).span with ha
      have hv := hs.valid hi
      have hlo : r.span.lo ≤ a.lo := UInt64.le_iff_toNat_le.mp hst.1
      have hhi : r.span.hi < a.hi := (MemoryArea.last_lt_last_iff hv hr).mp hst.2
      have hb := MemoryArea.span_behind hv hr hst.2 (Or.inr (Or.inl rfl))
      rw [coverFrom, if_pos hi]
      dsimp only
      rw [if_neg hmeet, if_neg hncov, if_pos hst]
      rw [hl₂] at hsplit ⊢
      obtain ⟨hwf, ht⟩ := store_slot (hs.touch l₁.length) hsplit
        ⟨r.last + 1, (s.freeMemoryAreas l₁.length).last - (r.last + 1) + 1⟩
        (by rw [hb]; exact hhi) (by rw [hb]; exact hmhi.le) (by rw [hb])
      exact .trim _ hs hsplit (hb ▸ Span.minus_start hlo hmhi.le hhi) (Or.inl hlo) hrest
        (ih _ _ hwf ht (by simp))
  | case4 s i hi a' hmeet hncov hnst hend ih =>
      intro l₁ l₂ hs hsplit hlen
      subst hlen
      obtain ⟨hl₁, hl₂⟩ := spans_split hsplit hi
      obtain ⟨hmlo, hmhi, hrest⟩ := meets_spec hs hr hi hmeet
      set a := (s.freeMemoryAreas l₁.length).span with ha
      have hv := hs.valid hi
      have hlo : a.lo < r.span.lo := UInt64.lt_iff_toNat_lt.mp hend.1
      have hhi : a.hi ≤ r.span.hi := (MemoryArea.last_le_last_iff hv hr).mp hend.2
      have hb := MemoryArea.span_below (UInt64.lt_iff_toNat_lt.mp hend.1).le
      rw [coverFrom, if_pos hi]
      dsimp only
      rw [if_neg hmeet, if_neg hncov, if_neg hnst, if_pos hend]
      rw [hl₂] at hsplit ⊢
      obtain ⟨hwf, ht⟩ := store_slot (hs.touch l₁.length) hsplit
        ⟨(s.freeMemoryAreas l₁.length).start, r.start - (s.freeMemoryAreas l₁.length).start⟩
        (by rw [hb]; exact hlo) (by rw [hb]) (by rw [hb]; exact hmlo.le)
      exact .trim _ hs hsplit (hb ▸ Span.minus_end hlo hmlo.le hhi) (Or.inr hhi) hrest
        (ih _ _ hwf ht (by simp))
  | case5 s i hi a' hmeet hncov hnst hnend hin hfull =>
      intro l₁ l₂ hs hsplit hlen
      subst hlen
      obtain ⟨hl₁, hl₂⟩ := spans_split hsplit hi
      have hlo := UInt64.lt_iff_toNat_lt.mp hin.1
      have hhi := (MemoryArea.last_lt_last_iff (hs.valid hi) hr).mp hin.2
      rw [coverFrom, if_pos hi]
      dsimp only
      rw [if_neg hmeet, if_neg hncov, if_neg hnst, if_neg hnend, if_pos hin, if_pos hfull]
      rw [hl₂] at hsplit ⊢
      exact .full hs hsplit ⟨hlo, hhi⟩ hfull
  | case6 s i hi a' hmeet hncov hnst hnend hin hfull ih =>
      intro l₁ l₂ hs hsplit hlen
      subst hlen
      obtain ⟨hl₁, hl₂⟩ := spans_split hsplit hi
      obtain ⟨hmlo, hmhi, hrest⟩ := meets_spec hs hr hi hmeet
      set a := (s.freeMemoryAreas l₁.length).span with ha
      have hv := hs.valid hi
      have hlo : a.lo < r.span.lo := UInt64.lt_iff_toNat_lt.mp hin.1
      have hhi : r.span.hi < a.hi := (MemoryArea.last_lt_last_iff hv hr).mp hin.2
      have hb := MemoryArea.span_below (UInt64.lt_iff_toNat_lt.mp hin.1).le
      have hc := MemoryArea.span_behind hv hr hin.2 (Or.inl rfl)
      rw [coverFrom, if_pos hi]
      dsimp only
      rw [if_neg hmeet, if_neg hncov, if_neg hnst, if_neg hnend, if_pos hin, if_neg hfull]
      rw [hl₂] at hsplit ⊢
      have hsep : Separated [(⟨(s.freeMemoryAreas l₁.length).start,
            r.start - (s.freeMemoryAreas l₁.length).start⟩ : MemoryArea).span,
          (⟨r.last + 1, (s.freeMemoryAreas l₁.length).last - r.last⟩ : MemoryArea).span] := by
        rw [hb, hc]
        simpa [separated_cons, hrlt.le] using And.intro hlo hhi
      obtain ⟨hwf, ht⟩ := splitArea_slot (hs.touch l₁.length) hsplit _ _ hsep (by rw [hb])
        (by rw [hc]) hfull
      exact .split _ _ hs hsplit ⟨hlo, hhi⟩ hb hc hfull (hs.separated_at hi).around.2.2
        (ih _ _ hwf ht (by simp))
  | case7 s i hi a' hmeet hncov hnst hnend hnin ih =>
      -- the four cases of the source are exhaustive
      exfalso
      rcases UInt64.le_or_lt r.start a'.start with hlo | hlo
      · rcases UInt64.le_or_lt a'.last r.last with hhi | hhi
        · exact hncov ⟨hlo, hhi⟩
        · exact hnst ⟨hlo, hhi⟩
      · rcases UInt64.le_or_lt a'.last r.last with hhi | hhi
        · exact hnend ⟨hlo, hhi⟩
        · exact hnin ⟨hlo, hhi⟩
  | case8 s i hi =>
      intro l₁ l₂ hs hsplit hlen
      have hnil : l₂ = [] := by
        have hcount := congrArg List.length hsplit
        rw [length_spans, List.length_append] at hcount
        exact List.length_eq_zero_iff.mp (by omega)
      rw [coverFrom, if_neg hi, hnil]
      exact .done hs (by rw [hsplit, hnil, List.append_nil])

/-- What the loop promises from slot `l₁.length` on: the areas `l₁` are done, and the range is carved
out of the rest `l₂`, unless the table is full and the range is strictly inside one of the rest. -/
def CoverPost (s : PlacementMemory) (r : Span ℕ) (l₁ l₂ : List (Span ℕ))
    (res : ℤ × PlacementMemory) : Prop :=
  (¬ (s.freeMemoryAreaIndex = maxMemoryAreasSize ∧ StrictlyInside l₂ r) ∧ res.1 = 0 ∧
    res.2.spans = l₁ ++ carve r.lo r.hi l₂ ∧ res.2.freeMemoryAreaIndex ≤ maxMemoryAreasSize) ∨
  ((s.freeMemoryAreaIndex = maxMemoryAreasSize ∧ StrictlyInside l₂ r) ∧ res.1 = -1 ∧
    SameTable s res.2)

/-- One round that leaves the areas `m₁ ++ m₂` of the area `a`, where no later area contains the range
strictly: what is promised for the table `t` after the round is promised for `s`. -/
lemma CoverPost.round {s t : PlacementMemory} {r a : Span ℕ} {l₁ l₂ : List (Span ℕ)}
    (m₁ m₂ : List (Span ℕ)) {res : ℤ × PlacementMemory} (h : CoverPost t r (l₁ ++ m₁) (m₂ ++ l₂) res)
    (hm : a.minus r.lo r.hi = m₁ ++ carve r.lo r.hi m₂) (hm₂ : ∀ b ∈ m₂, r.lo ≤ b.lo)
    (hrest : ∀ b ∈ l₂, r.lo ≤ b.lo)
    (hs : ¬ (s.freeMemoryAreaIndex = maxMemoryAreasSize ∧ a.lo < r.lo ∧ r.hi < a.hi)) :
    CoverPost s r l₁ (a :: l₂) res := by
  have hnone : ¬ StrictlyInside (m₂ ++ l₂) r := by
    refine not_strictlyInside fun b hb => ?_
    rcases List.mem_append.mp hb with hb | hb
    · exact hm₂ b hb
    · exact hrest b hb
  rcases h with ⟨-, hcode, hspans, hle⟩ | ⟨⟨-, hbad⟩, -⟩
  · left
    refine ⟨?_, hcode, ?_, hle⟩
    · rintro ⟨hfull, hin⟩
      rcases strictlyInside_cons.mp hin with hin | hin
      · exact hs ⟨hfull, hin⟩
      · exact not_strictlyInside hrest hin
    · rw [hspans, carve_cons, hm, carve_append]
      simp
  · exact absurd hbad hnone

/-- Every run of the loop keeps the promise. -/
lemma CoverRun.post {r : MemoryArea} (hr : r.Valid) {s : PlacementMemory} {l₁ l₂ : List (Span ℕ)}
    {res : ℤ × PlacementMemory} (h : CoverRun r s l₁ l₂ res) : CoverPost s r.span l₁ l₂ res := by
  have hrlt : r.span.lo < r.span.hi := hr.lo_lt_hi
  induction h with
  | done hs hl =>
      left
      exact ⟨by simp [StrictlyInside], rfl, by rw [hl, carve_nil, List.append_nil], hs.index_le⟩
  | @skip s l₁ a l₂ res hs hl hoff _ ih =>
      have ha : a.lo < a.hi := hs.separated.1 a (by rw [hl]; simp)
      rcases ih with ⟨hnot, hcode, hspans, hle⟩ | ⟨⟨hfull, hin⟩, hcode, hsame⟩
      · left
        refine ⟨?_, hcode, ?_, hle⟩
        · rintro ⟨hfull, hin⟩
          rcases strictlyInside_cons.mp hin with hin | hin
          · omega
          · exact hnot ⟨hfull, hin⟩
        · rw [hspans, carve_cons, Span.minus_of_disjoint ha hoff hrlt.le]
          simp
      · right
        exact ⟨⟨hfull, strictlyInside_cons.mpr (Or.inr hin)⟩, hcode, hsame⟩
  | @remove s l₁ a l₂ res hs hl hlo hhi hrest _ ih =>
      rw [← List.append_nil l₁] at ih
      exact CoverPost.round [] [] ih (Span.minus_all hlo hhi) (by simp) hrest (by omega)
  | @trim s l₁ a l₂ res b hs hl hleft hside hrest _ ih =>
      exact ih.round _ [] (by simp [hleft]) (by simp) hrest (by omega)
  | @full s l₁ a l₂ hs hl hin hfull =>
      right
      exact ⟨⟨hfull, strictlyInside_cons.mpr (Or.inl hin)⟩, rfl, rfl, rfl⟩
  | @split s l₁ a l₂ res b c hs hl hin hb hc hroom hrest _ ih =>
      -- the second half starts where the range ends, so the next round leaves it alone
      have hsecond : c.span.minus r.span.lo r.span.hi = [c.span] := by
        rw [hc]
        exact Span.minus_of_disjoint hin.2 (Or.inr le_rfl) hrlt.le
      refine ih.round _ [c.span] ?_ ?_ ?_ (fun h => hroom h.1)
      · rw [Span.minus_inside hin.1 hrlt.le hin.2, carve_cons, hsecond, hb, hc]
        rfl
      · intro d hd
        obtain rfl := List.mem_singleton.mp hd
        rw [hc]
        exact hrlt.le
      · intro d hd
        have := (hrest d hd).1
        omega

/-- **`allocate_area_cover` carves its range out of the free list**, unless the table is full and the
range is strictly inside one area: then it returns `-1` and changes nothing. -/
theorem allocateAreaCover_spec {s : PlacementMemory} (hs : WellFormed s) {r : MemoryArea}
    (hr : r.Valid) :
    (¬ Blocked s r.span ∧ (s.allocateAreaCover r.start r.size).1 = 0 ∧
      (s.allocateAreaCover r.start r.size).2.spans = carve r.span.lo r.span.hi s.spans ∧
      (s.allocateAreaCover r.start r.size).2.freeMemoryAreaIndex ≤ maxMemoryAreasSize) ∨
    (Blocked s r.span ∧ (s.allocateAreaCover r.start r.size).1 = -1 ∧
      SameTable s (s.allocateAreaCover r.start r.size).2) := by
  unfold allocateAreaCover
  by_cases h₀ : s.freeMemoryAreaIndex = 0
  · have hnil : s.spans = [] := List.length_eq_zero_iff.mp (by simpa using h₀)
    rw [if_pos h₀]
    left
    refine ⟨?_, rfl, by rw [hnil]; rfl, hs.index_le⟩
    rintro ⟨-, a, ha, -⟩
    rw [hnil] at ha
    simp at ha
  · rw [if_neg h₀]
    exact (coverFrom_run hr s 0 [] s.spans hs rfl rfl).post hr

end PlacementMemory
end GrubKernel
