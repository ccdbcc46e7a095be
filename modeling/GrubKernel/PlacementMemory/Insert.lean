import GrubKernel.PlacementMemory.FreeList

/-!
# Building the free list with `insert_area`

`insert_area` finds the sorted slot for a new range and then merges it with its neighbours, or writes
it into the slot found.  The shift that should make room for it in the middle of the table is
commented out in the source, and the merges look at the slot behind those in use, where they find
the zero sentinel.

* `Inserted` — the six things that a call can do to the list of ranges.
* `insertArea_inserted` — a call on a range off the free set does one of them and returns `0`.
* `Grows`, `Inserted.exact_iff` — the call leaves the canonical list of the larger set iff the range
  ends below `2 ^ 64` and lies above, or touches, what is there.
* **`insert_exact_iff`** — the same for every list of ranges in every order.
-/

namespace GrubKernel

open RangeList

namespace PlacementMemory

/-! ## The search loop -/

/-- The search loop of `insert_area` finds the first area that does not start below `start`, and
reads no slot above the first one behind those in use. -/
lemma findInsert_spec (start : UInt64) (n : ℕ) : ∀ (s : PlacementMemory) (i : ℕ),
    i + n = s.freeMemoryAreaIndex →
    SameTable s (findInsert start n i s).2 ∧
      (findInsert start n i s).1 ≤ s.freeMemoryAreaIndex ∧
      (∀ k, i ≤ k → k < (findInsert start n i s).1 → (s.freeMemoryAreas k).start < start) ∧
      ((findInsert start n i s).1 < s.freeMemoryAreaIndex →
        start ≤ (s.freeMemoryAreas (findInsert start n i s).1).start) ∧
      ∀ x ∈ (findInsert start n i s).2.touched, x ∈ s.touched ∨ x ≤ s.freeMemoryAreaIndex := by
  induction n with
  | zero =>
      intro s i hi
      have hidx : i = s.freeMemoryAreaIndex := by omega
      refine ⟨⟨rfl, rfl⟩, hidx.le, fun k hk hk' => ?_, fun hlt => ?_, fun x hx => ?_⟩
      · exact absurd hk' (not_lt.mpr hk)
      · exact absurd hidx (ne_of_lt hlt)
      · rcases List.mem_cons.mp hx with rfl | hx
        · exact Or.inr hidx.le
        · exact Or.inl hx
  | succ n ih =>
      intro s i hi
      have hread : ∀ x ∈ (s.touch i).touched, x ∈ s.touched ∨ x ≤ s.freeMemoryAreaIndex := by
        intro x hx
        rcases List.mem_cons.mp hx with rfl | hx
        · exact Or.inr (by omega)
        · exact Or.inl hx
      rw [findInsert]
      split_ifs with hgt
      · obtain ⟨hsame, hle, hbelow, hfound, hin⟩ := ih (s.touch i) (i + 1) (by simp; omega)
        refine ⟨hsame, hle, fun k hk hk' => ?_, hfound, fun x hx => ?_⟩
        · rcases Nat.eq_or_lt_of_le hk with rfl | hk
          · exact hgt
          · exact hbelow k hk hk'
        · rcases hin x hx with hx | hx
          · exact hread x hx
          · exact Or.inr hx
      · refine ⟨⟨rfl, rfl⟩, by simp; omega, fun k hk hk' => ?_, fun _ => ?_, hread⟩
        · exact absurd hk' (not_lt.mpr hk)
        · exact UInt64.not_lt.mp hgt

/-! ## The outcomes -/

/-- What one call of `insert_area` with the range `a` does to the list of ranges.  In the last two cases
the list is damaged: `overwrite` loses the range `q` and leaves an empty range at the end, and
`wrap`, the case of a range that ends at `2 ^ 64`, does not record the range. -/
inductive Inserted (a : Span ℕ) : List (Span ℕ) → List (Span ℕ) → Prop
  | joinBoth {m n p q} (hp : p.hi = a.lo) (hq : a.hi = q.lo) :
      Inserted a (m ++ p :: q :: n) (m ++ ⟨p.lo, q.hi⟩ :: n)
  | joinLeft {m n p} (hp : p.hi = a.lo) (hn : ∀ b ∈ n, a.hi < b.lo) (hfit : a.hi < 2 ^ 64) :
      Inserted a (m ++ p :: n) (m ++ ⟨p.lo, a.hi⟩ :: n)
  | joinRight {m n q} (hm : ∀ b ∈ m, b.hi < a.lo) (hq : a.hi = q.lo) :
      Inserted a (m ++ q :: n) (m ++ ⟨a.lo, q.hi⟩ :: n)
  | append {m} (hm : ∀ b ∈ m, b.hi < a.lo) (hfit : a.hi < 2 ^ 64) : Inserted a m (m ++ [a])
  | overwrite {m n q} (hm : ∀ b ∈ m, b.hi < a.lo) (hq : a.hi < q.lo) (hn : ∀ b ∈ n, a.hi < b.lo) :
      Inserted a (m ++ q :: n) (m ++ a :: n ++ [⟨0, 0⟩])
  | wrap {l l'} (hend : a.hi = 2 ^ 64) (hlost : a.lo ∉ addresses l') : Inserted a l l'

/-! ## The comparisons of the source -/

/-- What `overlapp` misses is disjoint ranges only. -/
lemma not_overlapp {a b : MemoryArea} (ha : a.Valid) (hb : b.Valid)
    (h : a.span.hi ≤ b.span.lo ∨ b.span.hi ≤ a.span.lo) : ¬ overlapp a b := by
  have hal := ha.last_toNat
  have hbl := hb.last_toNat
  have hapos := ha.1
  have hbpos := hb.1
  simp only [MemoryArea.span_lo, MemoryArea.span_hi] at h
  simp only [overlapp, UInt64.le_iff_toNat_le, hal, hbl, decide_eq_true_eq]
  omega

/-- The test for a shared edge with the predecessor. -/
lemma last_add_one_eq_iff {p a : MemoryArea} (hp : p.Valid) (h : p.span.hi ≤ a.span.lo) :
    p.last + 1 = a.start ↔ p.span.hi = a.span.lo := by
  have hpl := hp.last_toNat
  have hpos := hp.1
  have hlt := a.start.toNat_lt
  simp only [MemoryArea.span_lo, MemoryArea.span_hi] at h ⊢
  rw [← UInt64.toNat_inj, UInt64.toNat_add, hpl, UInt64.toNat_one]
  omega

/-- The end of the predecessor once it is extended by the range, as the source computes it. -/
lemma extended_last_add_one {p a : MemoryArea} (h : p.span.hi = a.span.lo) :
    (⟨p.start, p.size + a.size⟩ : MemoryArea).last + 1 = a.start + a.size := by
  have hp := p.size.toNat_lt
  have ha := a.size.toNat_lt
  simp only [MemoryArea.span_lo, MemoryArea.span_hi] at h
  rw [← UInt64.toNat_inj, MemoryArea.last]
  simp only [UInt64.toNat_add, UInt64.toNat_sub, UInt64.toNat_one]
  omega

/-- The test for a shared edge with the successor. -/
lemma start_eq_end_iff {q a : MemoryArea} (ha : a.span.hi < 2 ^ 64) :
    q.start = a.start + a.size ↔ a.span.hi = q.span.lo := by
  simp only [MemoryArea.span_lo, MemoryArea.span_hi] at ha ⊢
  rw [← UInt64.toNat_inj, UInt64.toNat_add, Nat.mod_eq_of_lt ha]
  exact eq_comm

/-- The zero sentinel passes for a successor of a range that ends at `2 ^ 64`. -/
lemma zero_eq_end_iff {a : MemoryArea} (ha : a.Valid) :
    (0 : UInt64) = a.start + a.size ↔ a.span.hi = 2 ^ 64 := by
  obtain ⟨hpos, hfit⟩ := ha
  simp only [MemoryArea.span_hi]
  rw [← UInt64.toNat_inj, UInt64.toNat_add, UInt64.toNat_zero]
  omega

/-- An area that is extended at its end. -/
lemma span_extended {p a : MemoryArea} (h : p.span.hi = a.span.lo) (ha : a.span.hi < 2 ^ 64) :
    (⟨p.start, p.size + a.size⟩ : MemoryArea).span = ⟨p.span.lo, a.span.hi⟩ := by
  simp only [MemoryArea.span_lo, MemoryArea.span_hi] at h ha
  simp only [MemoryArea.span, UInt64.toNat_add, Span.mk.injEq, true_and]
  omega

/-! ## One call -/

/-- A table from which the free list can be built up further. -/
structure Buildable (s : PlacementMemory) : Prop where
  index_le : s.freeMemoryAreaIndex ≤ maxMemoryAreasSize
  canonical : Canonical s.spans
  below : ∀ b ∈ s.spans, b.hi < 2 ^ 64
  zeroTail : ZeroTail s

lemma Buildable.wellFormed {s : PlacementMemory} (h : Buildable s) : WellFormed s :=
  ⟨h.index_le, h.canonical.separated, fun b hb => (h.below b hb).le⟩

lemma SameTable.buildable {s t : PlacementMemory} (h : SameTable s t) (hs : Buildable s) :
    Buildable t := by
  refine ⟨h.2 ▸ hs.index_le, h.spans_eq ▸ hs.canonical, h.spans_eq ▸ hs.below, fun i hi hi' => ?_⟩
  rw [h.1]
  exact hs.zeroTail i (h.2 ▸ hi) hi'

/-- The slot that `insert_area` found splits the table at the new range. -/
structure SplitsAt (s : PlacementMemory) (a : Span ℕ) (i : ℕ) : Prop where
  le : i ≤ s.freeMemoryAreaIndex
  below : ∀ k < i, (s.freeMemoryAreas k).span.hi ≤ a.lo
  above : ∀ k, i ≤ k → k < s.freeMemoryAreaIndex → a.hi ≤ (s.freeMemoryAreas k).span.lo

/-- A range off the free set is split off by the slot that the search finds. -/
lemma splitsAt_findInsert {s : PlacementMemory} (hs : WellFormed s) {a : MemoryArea} (ha : a.Valid)
    (hd : Disjoint a.span.toSet s.freeSet) :
    SplitsAt s a.span (findInsert a.start s.freeMemoryAreaIndex 0 s).1 := by
  obtain ⟨-, hle, hbelow, hfound, -⟩ := findInsert_spec a.start s.freeMemoryAreaIndex s 0 (by omega)
  set i := (findInsert a.start s.freeMemoryAreaIndex 0 s).1 with hi
  have halt : a.span.lo < a.span.hi := ha.lo_lt_hi
  -- an area and the range have no address in common
  have hoff : ∀ k < s.freeMemoryAreaIndex,
      (s.freeMemoryAreas k).span.hi ≤ a.span.lo ∨ a.span.hi ≤ (s.freeMemoryAreas k).span.lo := by
    intro k hk
    have hklt := (hs.valid hk).lo_lt_hi
    by_contra hcon
    have hmem : max a.span.lo (s.freeMemoryAreas k).span.lo ∈ s.freeSet :=
      ⟨_, mem_spans.mpr ⟨k, hk, rfl⟩, le_max_right _ _, by omega⟩
    exact Set.disjoint_left.mp hd ⟨le_max_left _ _, by omega⟩ hmem
  refine ⟨hle, fun k hk => ?_, fun k hk hk' => ?_⟩
  · have hlt : (s.freeMemoryAreas k).span.lo < a.span.lo :=
      UInt64.lt_iff_toNat_lt.mp (hbelow k (Nat.zero_le k) hk)
    have := hoff k (hk.trans_le hle)
    omega
  · have hge : a.span.lo ≤ (s.freeMemoryAreas i).span.lo :=
      UInt64.le_iff_toNat_le.mp (hfound (hk.trans_lt hk'))
    have hik : (s.freeMemoryAreas i).span.lo ≤ (s.freeMemoryAreas k).span.lo := by
      rcases Nat.eq_or_lt_of_le hk with h | h
      · rw [← h]
      · exact (hs.valid (hk.trans_lt hk')).lo_lt_hi.le.trans (hs.ordered h hk')
    have hklt := (hs.valid hk').lo_lt_hi
    have := hoff k hk'
    omega

/-- Once neither neighbour overlaps the range, `insert_area` only looks at the shared edges. -/
lemma insertAreaAt_eq {s : PlacementMemory} (hs : Buildable s) {a : MemoryArea} (ha : a.Valid) {i : ℕ}
    (hi : SplitsAt s a.span i) (hroom : s.freeMemoryAreaIndex < maxMemoryAreasSize) :
    ∃ t, SameTable s t ∧ s.insertAreaAt a.start a.size i =
      if i > 0 ∧ (s.freeMemoryAreas (i - 1)).span.hi = a.span.lo then
        if (s.freeMemoryAreas i).start = a.start + a.size then
          (0, ((t.store (i - 1) ⟨(s.freeMemoryAreas (i - 1)).start,
              (s.freeMemoryAreas (i - 1)).size + a.size⟩).store (i - 1)
            ⟨(s.freeMemoryAreas (i - 1)).start,
              (s.freeMemoryAreas (i - 1)).size + a.size + (s.freeMemoryAreas i).size⟩).removeArea i)
        else
          (0, t.store (i - 1) ⟨(s.freeMemoryAreas (i - 1)).start,
            (s.freeMemoryAreas (i - 1)).size + a.size⟩)
      else if (s.freeMemoryAreas i).start = a.start + a.size then
        (0, t.store i ⟨a.start, (s.freeMemoryAreas i).size + a.size⟩)
      else (0, { t.store i a with freeMemoryAreaIndex := t.freeMemoryAreaIndex + 1 }) := by
  have hwf := hs.wellFormed
  have hpred : i > 0 → ((s.freeMemoryAreas (i - 1)).last + 1 = a.start ↔
      (s.freeMemoryAreas (i - 1)).span.hi = a.span.lo) := by
    intro hpos
    have hlt : i - 1 < s.freeMemoryAreaIndex := by have := hi.le; omega
    exact last_add_one_eq_iff (hwf.valid hlt) (hi.below _ (by omega))
  have hfree₁ : ¬ (i > 0 ∧ overlapp (s.freeMemoryAreas (i - 1)) a) := by
    rintro ⟨hpos, hover⟩
    have hlt : i - 1 < s.freeMemoryAreaIndex := by have := hi.le; omega
    exact not_overlapp (hwf.valid hlt) ha (Or.inl (hi.below _ (by omega))) hover
  have hfree₂ : ¬ (¬ isFree (s.freeMemoryAreas i) ∧ overlapp (s.freeMemoryAreas i) a) := by
    rintro ⟨hused, hover⟩
    rcases Nat.lt_or_eq_of_le hi.le with hlt | rfl
    · exact not_overlapp (hwf.valid hlt) ha (Or.inr (hi.above i le_rfl hlt)) hover
    · rw [hs.zeroTail _ le_rfl hroom] at hused
      exact hused (by decide)
  unfold insertAreaAt
  dsimp only
  rw [if_neg hfree₁, if_neg hfree₂]
  refine ⟨(if i > 0 then s.touch (i - 1) else s).touch i, ?_, ?_⟩
  · split_ifs
    · exact ⟨rfl, rfl⟩
    · exact ⟨rfl, rfl⟩
  · by_cases hleft : i > 0 ∧ (s.freeMemoryAreas (i - 1)).span.hi = a.span.lo
    · rw [if_pos hleft, if_pos ⟨hleft.1, (hpred hleft.1).mpr hleft.2⟩,
        extended_last_add_one hleft.2]
    · rw [if_neg hleft, if_neg fun h => hleft ⟨h.1, (hpred h.1).mp h.2⟩]

/-- What is to be shown of the table `r` after the call. -/
structure Outcome (s : PlacementMemory) (a : Span ℕ) (r : PlacementMemory) : Prop where
  inserted : Inserted a s.spans r.spans
  index_le : r.freeMemoryAreaIndex ≤ maxMemoryAreasSize
  zeroTail : a.hi < 2 ^ 64 → ZeroTail r

lemma drop_spans (s : PlacementMemory) {i : ℕ} (hi : i < s.freeMemoryAreaIndex) :
    s.spans.drop i = (s.freeMemoryAreas i).span :: s.spans.drop (i + 1) := by
  have hlen : i < s.spans.length := by simpa using hi
  rw [List.drop_eq_getElem_cons hlen]
  simp [spans]

lemma SplitsAt.lt_of_mem_take {s : PlacementMemory} (hs : WellFormed s) {a : Span ℕ} {i : ℕ}
    (hi : SplitsAt s a i) (hne : ¬ (i > 0 ∧ (s.freeMemoryAreas (i - 1)).span.hi = a.lo)) :
    ∀ b ∈ s.spans.take i, b.hi < a.lo := by
  intro b hb
  obtain ⟨k, hk, rfl⟩ := List.mem_take_iff_getElem.mp hb
  have hki : k < i := by omega
  have hle := hi.le
  simp only [spans, List.getElem_map, getElem_usedAreas]
  have hbelow := hi.below (i - 1) (by omega)
  rcases Nat.eq_or_lt_of_le (Nat.le_sub_one_of_lt hki) with rfl | hlt
  · have : (s.freeMemoryAreas (i - 1)).span.hi ≠ a.lo := fun h => hne ⟨by omega, h⟩
    omega
  · have hord := hs.ordered hlt (by omega)
    have := (hs.valid (show i - 1 < s.freeMemoryAreaIndex by omega)).lo_lt_hi
    omega

lemma SplitsAt.lt_of_mem_drop {s : PlacementMemory} (hs : WellFormed s) {a : Span ℕ} {i : ℕ}
    (hi : SplitsAt s a i)
    (hne : i < s.freeMemoryAreaIndex → a.hi ≠ (s.freeMemoryAreas i).span.lo) :
    ∀ b ∈ s.spans.drop i, a.hi < b.lo := by
  intro b hb
  obtain ⟨k, hk, rfl⟩ := List.mem_drop_iff_getElem.mp hb
  have hlen : i + k < s.freeMemoryAreaIndex := by
    rw [length_spans] at hk
    omega
  have hi' : i < s.freeMemoryAreaIndex := by omega
  simp only [spans, List.getElem_map, getElem_usedAreas]
  have habove := hi.above i le_rfl hi'
  have := hne hi'
  rcases Nat.eq_zero_or_pos k with rfl | hpos
  · rw [Nat.add_zero]
    omega
  · have hord := hs.ordered (show i < i + k by omega) hlen
    have := (hs.valid hi').lo_lt_hi
    omega

/-- Writing the slot of one range among others. -/
lemma spans_store_append {s : PlacementMemory} {l₁ l₂ : List (Span ℕ)} {b : Span ℕ}
    (h : s.spans = l₁ ++ b :: l₂) {i : ℕ} (hi : l₁.length = i) (c : MemoryArea) :
    (s.store i c).spans = l₁ ++ c.span :: l₂ := by
  subst hi
  have hlt : l₁.length < s.freeMemoryAreaIndex := by
    rw [← length_spans, h, List.length_append, List.length_cons]
    omega
  rw [spans_store s hlt, h]
  simp

/-- Removing the slot of one range among others. -/
lemma spans_removeArea_append {s : PlacementMemory} {l₁ l₂ : List (Span ℕ)} {b : Span ℕ}
    (h : s.spans = l₁ ++ b :: l₂) {i : ℕ} (hi : l₁.length = i) :
    (s.removeArea i).spans = l₁ ++ l₂ := by
  subst hi
  have hlt : l₁.length < s.freeMemoryAreaIndex := by
    rw [← length_spans, h, List.length_append, List.length_cons]
    omega
  rw [spans_removeArea s hlt, h]
  simp

/-- Counting one slot more. -/
lemma spans_succ_index (s : PlacementMemory) :
    ({ s with freeMemoryAreaIndex := s.freeMemoryAreaIndex + 1 } : PlacementMemory).spans
      = s.spans ++ [(s.freeMemoryAreas s.freeMemoryAreaIndex).span] := by
  simp [spans, usedAreas, List.range_succ]

section Outcomes

variable {s t : PlacementMemory} {a : MemoryArea} {i : ℕ} (hs : Buildable s) (hst : SameTable s t)
  (ha : a.Valid) (hroom : s.freeMemoryAreaIndex < maxMemoryAreasSize)

include hs

/-- A range below an area in use ends below `2 ^ 64`. -/
lemma hi_lt_of_slot (hi : SplitsAt s a.span i) (hin : i < s.freeMemoryAreaIndex) :
    a.span.hi < 2 ^ 64 ∧ (s.freeMemoryAreas i).span.hi < 2 ^ 64 := by
  have hlt := (hs.wellFormed.valid hin).lo_lt_hi
  have hle := hi.above i le_rfl hin
  have hbelow := hs.below _ (mem_spans.mpr ⟨i, hin, rfl⟩)
  exact ⟨by omega, hbelow⟩

include hst ha hroom

/-- The range fills the gap between two neighbours. -/
lemma outcome_joinBoth (hi : SplitsAt s a.span (i + 1))
    (hp : (s.freeMemoryAreas i).span.hi = a.span.lo)
    (hq : (s.freeMemoryAreas (i + 1)).start = a.start + a.size) :
    Outcome s a.span
      (((t.store i ⟨(s.freeMemoryAreas i).start, (s.freeMemoryAreas i).size + a.size⟩).store i
        ⟨(s.freeMemoryAreas i).start, (s.freeMemoryAreas i).size + a.size
          + (s.freeMemoryAreas (i + 1)).size⟩).removeArea (i + 1)) := by
  set p := s.freeMemoryAreas i with hpdef
  have hil : i < s.freeMemoryAreaIndex := hi.le
  have hlen : (s.spans.take i).length = i := by simp; omega
  have hzt : ZeroTail t := (hst.buildable hs).zeroTail
  rcases Nat.lt_or_eq_of_le hi.le with hin | hin
  · -- there is a successor
    obtain ⟨hfit, hqfit⟩ := hi_lt_of_slot hs hi hin
    have hqlt := (hs.wellFormed.valid hin).lo_lt_hi
    set q := s.freeMemoryAreas (i + 1) with hqdef
    have hqe : a.span.hi = q.span.lo := (start_eq_end_iff hfit).mp hq
    have hspans : s.spans = s.spans.take i ++ p.span :: q.span :: s.spans.drop (i + 2) := by
      conv_lhs => rw [s.spans_eq hil, s.drop_spans hin]
    have hnew : (⟨p.start, p.size + a.size + q.size⟩ : MemoryArea).span
        = ⟨p.span.lo, q.span.hi⟩ := by
      have hpa := span_extended hp hfit
      exact span_extended (p := ⟨p.start, p.size + a.size⟩) (by rw [hpa]; exact hqe) hqfit
    have hlen' : ∀ b : Span ℕ, (s.spans.take i ++ [b]).length = i + 1 := by simp; omega
    refine ⟨?_, by simp [hst.2]; omega, fun _ => ?_⟩
    · have h₁ := spans_store_append (hst.spans_eq.trans hspans) hlen ⟨p.start, p.size + a.size⟩
      have h₂ := spans_store_append h₁ hlen ⟨p.start, p.size + a.size + q.size⟩
      rw [List.append_cons] at h₂
      rw [spans_removeArea_append h₂ (hlen' _), hnew, List.append_assoc]
      conv => arg 2; rw [hspans]
      exact .joinBoth hp hqe
    · refine ZeroTail.removeArea (ZeroTail.store (ZeroTail.store hzt ?_ _) ?_ _) ?_ ?_
      · rwa [hst.2]
      · rwa [store_freeMemoryAreaIndex, hst.2]
      · rwa [store_freeMemoryAreaIndex, store_freeMemoryAreaIndex, hst.2]
      · rwa [store_freeMemoryAreaIndex, store_freeMemoryAreaIndex, hst.2]
  · -- the sentinel is taken for a successor, and the count drops below the predecessor
    rw [hin, hs.zeroTail _ le_rfl hroom, zero_eq_end_iff ha] at hq
    refine ⟨.wrap hq ?_, by simp [hst.2]; omega, fun h => absurd hq h.ne⟩
    rintro ⟨b, hb, hx⟩
    obtain ⟨k, hk, rfl⟩ := mem_spans.mp hb
    have hki : k < i := by
      simp only [removeArea_freeMemoryAreaIndex, store_freeMemoryAreaIndex, hst.2] at hk
      omega
    rw [removeArea_freeMemoryAreas, if_neg (by omega), store_freeMemoryAreas,
      Function.update_of_ne (by omega), store_freeMemoryAreas, Function.update_of_ne (by omega),
      hst.1] at hx
    have hx' := hx.2
    have := hi.below k (by omega)
    omega

/-- The range extends its predecessor. -/
lemma outcome_joinLeft (hi : SplitsAt s a.span (i + 1))
    (hp : (s.freeMemoryAreas i).span.hi = a.span.lo)
    (hq : (s.freeMemoryAreas (i + 1)).start ≠ a.start + a.size) :
    Outcome s a.span
      (t.store i ⟨(s.freeMemoryAreas i).start, (s.freeMemoryAreas i).size + a.size⟩) := by
  set p := s.freeMemoryAreas i with hpdef
  have hil : i < s.freeMemoryAreaIndex := hi.le
  have hlen : (s.spans.take i).length = i := by simp; omega
  have hfit : a.span.hi < 2 ^ 64 := by
    rcases Nat.lt_or_eq_of_le hi.le with hin | hin
    · exact (hi_lt_of_slot hs hi hin).1
    · rw [hin, hs.zeroTail _ le_rfl hroom, ne_eq, zero_eq_end_iff ha] at hq
      exact lt_of_le_of_ne ha.2 hq
  have habove : ∀ b ∈ s.spans.drop (i + 1), a.span.hi < b.lo :=
    hi.lt_of_mem_drop hs.wellFormed fun _ h => hq ((start_eq_end_iff hfit).mpr h)
  refine ⟨?_, by simp [hst.2]; omega, fun _ => ZeroTail.store (hst.buildable hs).zeroTail ?_ _⟩
  · have h₁ := spans_store_append (hst.spans_eq.trans (s.spans_eq hil)) hlen
      ⟨p.start, p.size + a.size⟩
    rw [h₁, span_extended hp hfit]
    conv => arg 2; rw [s.spans_eq hil]
    exact .joinLeft hp habove hfit
  · rwa [hst.2]

/-- The range extends its successor. -/
lemma outcome_joinRight (hi : SplitsAt s a.span i)
    (hp : ¬ (i > 0 ∧ (s.freeMemoryAreas (i - 1)).span.hi = a.span.lo))
    (hq : (s.freeMemoryAreas i).start = a.start + a.size) :
    Outcome s a.span (t.store i ⟨a.start, (s.freeMemoryAreas i).size + a.size⟩) := by
  have hbelow := hi.lt_of_mem_take hs.wellFormed hp
  rcases Nat.lt_or_eq_of_le hi.le with hin | hin
  · obtain ⟨hfit, hqfit⟩ := hi_lt_of_slot hs hi hin
    set q := s.freeMemoryAreas i with hqdef
    have hqe : a.span.hi = q.span.lo := (start_eq_end_iff hfit).mp hq
    have hlen : (s.spans.take i).length = i := by simp; omega
    have hnew : (⟨a.start, q.size + a.size⟩ : MemoryArea).span = ⟨a.span.lo, q.span.hi⟩ := by
      rw [UInt64.add_comm]
      exact span_extended (p := a) hqe hqfit
    refine ⟨?_, by simp [hst.2]; omega, fun _ => ZeroTail.store (hst.buildable hs).zeroTail ?_ _⟩
    · have h₁ := spans_store_append (hst.spans_eq.trans (s.spans_eq hin)) hlen
        ⟨a.start, q.size + a.size⟩
      rw [h₁, hnew]
      conv => arg 2; rw [s.spans_eq hin]
      exact .joinRight hbelow hqe
    · rwa [hst.2]
  · -- the sentinel is taken for a successor, and the slot written is not in use
    rw [hin, hs.zeroTail _ le_rfl hroom, zero_eq_end_iff ha] at hq
    refine ⟨.wrap hq ?_, by simp [hst.2]; omega, fun h => absurd hq h.ne⟩
    rintro ⟨b, hb, hx⟩
    obtain ⟨k, hk, rfl⟩ := mem_spans.mp hb
    rw [store_freeMemoryAreaIndex, hst.2] at hk
    rw [store_freeMemoryAreas, Function.update_of_ne (by omega), hst.1] at hx
    have hx' := hx.2
    have := hi.below k (by omega)
    omega

/-- The range is written into the slot found. -/
lemma outcome_put (hi : SplitsAt s a.span i)
    (hp : ¬ (i > 0 ∧ (s.freeMemoryAreas (i - 1)).span.hi = a.span.lo))
    (hq : (s.freeMemoryAreas i).start ≠ a.start + a.size) :
    Outcome s a.span { t.store i a with freeMemoryAreaIndex := t.freeMemoryAreaIndex + 1 } := by
  have hbelow := hi.lt_of_mem_take hs.wellFormed hp
  have hspans := spans_succ_index (t.store i a)
  rw [store_freeMemoryAreaIndex] at hspans
  have htail : ZeroTail { t.store i a with freeMemoryAreaIndex := t.freeMemoryAreaIndex + 1 } := by
    intro k hk hk'
    have hk₁ : s.freeMemoryAreaIndex + 1 ≤ k := hst.2 ▸ hk
    have hle := hi.le
    show Function.update t.freeMemoryAreas i a k = _
    rw [Function.update_of_ne (by omega), hst.1]
    exact hs.zeroTail k (by omega) hk'
  have hidx : t.freeMemoryAreaIndex + 1 ≤ maxMemoryAreasSize := by rw [hst.2]; omega
  rcases Nat.lt_or_eq_of_le hi.le with hin | hin
  · -- a slot in use is overwritten, and the count takes in the sentinel
    obtain ⟨hfit, -⟩ := hi_lt_of_slot hs hi hin
    have hlen : (s.spans.take i).length = i := by simp; omega
    have hne : a.span.hi ≠ (s.freeMemoryAreas i).span.lo :=
      fun h => hq ((start_eq_end_iff hfit).mpr h)
    have habove := hi.lt_of_mem_drop hs.wellFormed fun _ => hne
    refine ⟨?_, hidx, fun _ => htail⟩
    rw [hspans, spans_store_append (hst.spans_eq.trans (s.spans_eq hin)) hlen,
      store_freeMemoryAreas, hst.2, hst.1, Function.update_of_ne (by omega),
      hs.zeroTail _ le_rfl hroom]
    conv => arg 2; rw [s.spans_eq hin]
    rw [s.drop_spans hin, List.forall_mem_cons] at habove
    exact .overwrite hbelow habove.1 habove.2
  · have hfit : a.span.hi < 2 ^ 64 := by
      rw [hin, hs.zeroTail _ le_rfl hroom, ne_eq, zero_eq_end_iff ha] at hq
      exact lt_of_le_of_ne ha.2 hq
    refine ⟨?_, hidx, fun _ => htail⟩
    have hsame : (t.store i a).spans = s.spans := by
      rw [← hst.spans_eq]
      refine congrArg (List.map MemoryArea.span) (usedAreas_congr rfl fun k hk => ?_)
      have hk' : k < s.freeMemoryAreaIndex := hst.2 ▸ hk
      rw [store_freeMemoryAreas, Function.update_of_ne (by omega)]
    rw [hspans, hsame, store_freeMemoryAreas, hst.2, ← hin, Function.update_self]
    rw [hin, ← length_spans, List.take_length] at hbelow
    exact .append hbelow hfit

end Outcomes

/-- **One call on a range off the free set** returns `0` and does one of the six things. -/
theorem insertArea_inserted {s : PlacementMemory} (hs : Buildable s) {a : MemoryArea} (ha : a.Valid)
    (hroom : s.freeMemoryAreaIndex < maxMemoryAreasSize) (hd : Disjoint a.span.toSet s.freeSet) :
    (s.insertArea a.start a.size).1 = 0 ∧
      Outcome s a.span (s.insertArea a.start a.size).2 := by
  have hne := ha.size_ne_zero
  have hsplit := splitsAt_findInsert hs.wellFormed ha hd
  obtain ⟨hsame, -⟩ := findInsert_spec a.start s.freeMemoryAreaIndex s 0 (by omega)
  unfold insertArea
  rw [if_neg hroom.ne, if_neg hne]
  dsimp only
  generalize hfound : findInsert a.start s.freeMemoryAreaIndex 0 s = found at hsplit hsame
  obtain ⟨i, u⟩ := found
  have hsu : SameTable s u := hsame
  have hiu : SplitsAt u a.span i :=
    ⟨hsu.2 ▸ hsplit.le, hsu.1 ▸ hsplit.below, hsu.1 ▸ hsu.2 ▸ hsplit.above⟩
  have hu : Buildable u := hsu.buildable hs
  have hroom' : u.freeMemoryAreaIndex < maxMemoryAreasSize := hsu.2 ▸ hroom
  obtain ⟨t, hut, heq⟩ := insertAreaAt_eq hu ha hiu hroom'
  suffices h : (u.insertAreaAt a.start a.size i).1 = 0 ∧
      Outcome u a.span (u.insertAreaAt a.start a.size i).2 by
    exact ⟨h.1, hsu.spans_eq ▸ h.2.inserted, h.2.index_le, h.2.zeroTail⟩
  rw [heq]
  split_ifs with hleft hright hright
  · obtain ⟨j, rfl⟩ : ∃ j, i = j + 1 := ⟨i - 1, by omega⟩
    exact ⟨rfl, outcome_joinBoth hu hut ha hroom' hiu hleft.2 hright⟩
  · obtain ⟨j, rfl⟩ : ∃ j, i = j + 1 := ⟨i - 1, by omega⟩
    exact ⟨rfl, outcome_joinLeft hu hut ha hroom' hiu hleft.2 hright⟩
  · exact ⟨rfl, outcome_joinRight hu hut ha hroom' hiu hleft hright⟩
  · exact ⟨rfl, outcome_put hu hut ha hroom' hiu hleft hright⟩

/-! ## When the call does what it should -/

/-- The range ends below `2 ^ 64`, and it lies above the points of `U` or touches one of them. -/
def Grows (U : Set ℕ) (a : Span ℕ) : Prop :=
  a.hi < 2 ^ 64 ∧ ((∀ x ∈ U, x < a.lo) ∨ (∃ x ∈ U, x + 1 = a.lo) ∨ a.hi ∈ U)

/-- **Among the six things, the last two are wrong**, and they are what happens to a range that does
not grow the set. -/
theorem Inserted.exact_iff {a : Span ℕ} {l l' : List (Span ℕ)} (h : Inserted a l l')
    (hl : Canonical l) (hb : ∀ b ∈ l, b.hi < 2 ^ 64) (ha : a.lo < a.hi) :
    (Canonical l' ∧ addresses l' = addresses l ∪ a.toSet) ↔ Grows (addresses l) a := by
  cases h with
  | @joinBoth m n p q hp hq =>
      obtain ⟨hm, hpqn, hcross⟩ := canonical_append.mp hl
      obtain ⟨hplt, -, hqn⟩ := canonical_cons.mp hpqn
      obtain ⟨hqlt, hqabove, hn⟩ := canonical_cons.mp hqn
      have hqb := hb q (by simp)
      refine iff_of_true ⟨?_, ?_⟩ ⟨by omega, Or.inr (Or.inr ⟨q, by simp, hq.ge, by omega⟩)⟩
      · refine hm.between hn (by show p.lo < q.hi; omega) (fun b hbm => ?_) hqabove
        exact hcross b hbm p List.mem_cons_self
      · have hjoin : (⟨p.lo, q.hi⟩ : Span ℕ).toSet = p.toSet ∪ (a.toSet ∪ q.toSet) := by
          rw [← Span.toSet_join hq ha.le hqlt.le]
          exact Span.toSet_join (p := p) (a := ⟨a.lo, q.hi⟩) hp hplt.le (by show a.lo ≤ q.hi; omega)
        simp only [addresses_append, addresses_cons, hjoin]
        ext x
        simp only [Set.mem_union]
        tauto
  | @joinLeft m n p hp hn hfit =>
      obtain ⟨hm, hpn, hcross⟩ := canonical_append.mp hl
      obtain ⟨hplt, -, hn'⟩ := canonical_cons.mp hpn
      refine iff_of_true ⟨?_, ?_⟩ ⟨hfit, Or.inr (Or.inl ⟨p.hi - 1, ⟨p, by simp, ?_, ?_⟩, ?_⟩)⟩
      · refine hm.between hn' (by show p.lo < a.hi; omega) (fun b hbm => ?_) hn
        exact hcross b hbm p List.mem_cons_self
      · simp only [addresses_append, addresses_cons, Span.toSet_join hp hplt.le ha.le]
        ext x
        simp only [Set.mem_union]
        tauto
      · omega
      · omega
      · omega
  | @joinRight m n q hm hq =>
      obtain ⟨hm', hqn, -⟩ := canonical_append.mp hl
      obtain ⟨hqlt, hqabove, hn⟩ := canonical_cons.mp hqn
      have hqb := hb q (by simp)
      refine iff_of_true ⟨?_, ?_⟩ ⟨by omega, Or.inr (Or.inr ⟨q, by simp, hq.ge, by omega⟩)⟩
      · exact hm'.between hn (by show a.lo < q.hi; omega) hm hqabove
      · simp only [addresses_append, addresses_cons, Span.toSet_join hq ha.le hqlt.le]
        ext x
        simp only [Set.mem_union]
        tauto
  | append hm hfit =>
      refine iff_of_true ⟨hl.between canonical_nil ha hm (by simp), ?_⟩ ⟨hfit, Or.inl ?_⟩
      · rw [addresses_append, addresses_cons, addresses_nil, Set.union_empty]
      · rintro x ⟨b, hbl, -, hx⟩
        exact hx.trans (hm b hbl)
  | @overwrite m n q hm hq hn =>
      have hqlt : q.lo < q.hi := hl.1 q (by simp)
      refine iff_of_false ?_ ?_
      · rintro ⟨hcan, -⟩
        exact absurd (hcan.1 ⟨0, 0⟩ (by simp)) (lt_irrefl 0)
      · -- every range is below `a.lo` or above `a.hi`, with a gap
        have hgap : ∀ b ∈ m ++ q :: n, b.hi < a.lo ∨ a.hi < b.lo := by
          intro b hbl
          rcases List.mem_append.mp hbl with hbm | hbq
          · exact Or.inl (hm b hbm)
          · rcases List.mem_cons.mp hbq with rfl | hbn
            · exact Or.inr hq
            · exact Or.inr (hn b hbn)
        rintro ⟨-, hall | ⟨x, ⟨b, hbl, hlo, hhi⟩, hx⟩ | ⟨b, hbl, hlo, hhi⟩⟩
        · have := hall q.lo ⟨q, by simp, le_rfl, hqlt⟩
          omega
        · have := hgap b hbl
          omega
        · have := hgap b hbl
          omega
  | wrap hend hlost =>
      refine iff_of_false ?_ fun h => absurd hend h.1.ne
      rintro ⟨-, heq⟩
      exact hlost (heq ▸ Or.inr ⟨le_rfl, ha⟩)

/-! ## Building a whole list -/

/-- `insert_area` for each range of the list in turn. -/
def insertAll (s : PlacementMemory) (rs : List MemoryArea) : PlacementMemory :=
  rs.foldl (fun t a => (t.insertArea a.start a.size).2) s

/-- Fewer than ten areas are in use before each call. -/
def Room : PlacementMemory → List MemoryArea → Prop
  | _, [] => True
  | s, a :: rs =>
      s.freeMemoryAreaIndex < maxMemoryAreasSize ∧ Room (s.insertArea a.start a.size).2 rs

/-- Every call returns `0` and leaves the canonical list of the ranges inserted so far, where `earlier`
are those inserted before. -/
def BuildsExactly : PlacementMemory → List MemoryArea → List MemoryArea → Prop
  | _, _, [] => True
  | s, earlier, a :: rs =>
      (s.insertArea a.start a.size).1 = 0 ∧
      Canonical (s.insertArea a.start a.size).2.spans ∧
      (s.insertArea a.start a.size).2.freeSet
        = addresses ((earlier ++ [a]).map MemoryArea.span) ∧
      BuildsExactly (s.insertArea a.start a.size).2 (earlier ++ [a]) rs

/-- The range ends below `2 ^ 64`, and it lies above all earlier ranges or shares an edge with one. -/
def Extends (earlier : List MemoryArea) (a : MemoryArea) : Prop :=
  a.span.hi < 2 ^ 64 ∧ ((∀ b ∈ earlier, b.span.hi ≤ a.span.lo) ∨
    ∃ b ∈ earlier, b.span.hi = a.span.lo ∨ a.span.hi = b.span.lo)

instance (earlier : List MemoryArea) (a : MemoryArea) : Decidable (Extends earlier a) :=
  inferInstanceAs (Decidable (_ ∧ (_ ∨ _)))

/-- Every range of the list extends those before it. -/
def Extending : List MemoryArea → List MemoryArea → Prop
  | _, [] => True
  | earlier, a :: rs => Extends earlier a ∧ Extending (earlier ++ [a]) rs

/-- Two ranges without a common address. -/
def Apart (a b : MemoryArea) : Prop := a.span.hi ≤ b.span.lo ∨ b.span.hi ≤ a.span.lo

instance (a b : MemoryArea) : Decidable (Apart a b) := inferInstanceAs (Decidable (_ ∨ _))

lemma Apart.symm {a b : MemoryArea} (h : Apart a b) : Apart b a := Or.symm h

lemma disjoint_addresses {l : List MemoryArea} {a : MemoryArea} (h : ∀ b ∈ l, Apart b a) :
    Disjoint a.span.toSet (addresses (l.map MemoryArea.span)) := by
  refine Set.disjoint_left.mpr ?_
  rintro x ⟨halo, hahi⟩ ⟨c, hc, hclo, hchi⟩
  obtain ⟨b, hb, rfl⟩ := List.mem_map.mp hc
  have := h b hb
  unfold Apart at this
  omega

/-- For ranges apart from each other, growing the set is a matter of their edges. -/
lemma grows_iff {l : List MemoryArea} {a : MemoryArea} (ha : a.Valid) (hv : ∀ b ∈ l, b.Valid)
    (hd : ∀ b ∈ l, Apart b a) : Grows (addresses (l.map MemoryArea.span)) a.span ↔ Extends l a := by
  have halt := ha.lo_lt_hi
  refine and_congr_right fun _ => ?_
  constructor
  · rintro (hall | ⟨x, ⟨c, hc, hlo, hhi⟩, hx⟩ | ⟨c, hc, hlo, hhi⟩)
    · left
      intro b hb
      have hblt := (hv b hb).lo_lt_hi
      have hmax := hall (b.span.hi - 1) ⟨b.span, List.mem_map_of_mem hb, by omega, by omega⟩
      omega
    · right
      obtain ⟨b, hb, rfl⟩ := List.mem_map.mp hc
      have := hd b hb
      unfold Apart at this
      exact ⟨b, hb, Or.inl (by omega)⟩
    · right
      obtain ⟨b, hb, rfl⟩ := List.mem_map.mp hc
      have := hd b hb
      unfold Apart at this
      exact ⟨b, hb, Or.inr (by omega)⟩
  · rintro (hall | ⟨b, hb, hedge | hedge⟩)
    · left
      rintro x ⟨c, hc, -, hhi⟩
      obtain ⟨b, hb, rfl⟩ := List.mem_map.mp hc
      exact hhi.trans_le (hall b hb)
    · right; left
      have hblt := (hv b hb).lo_lt_hi
      exact ⟨b.span.hi - 1, ⟨b.span, List.mem_map_of_mem hb, by omega, by omega⟩, by omega⟩
    · right; right
      have hblt := (hv b hb).lo_lt_hi
      exact ⟨b.span, List.mem_map_of_mem hb, hedge.ge, by omega⟩

/-- A canonical table that covers a set of addresses below `2 ^ 64 - 1`. -/
lemma Outcome.buildable {s : PlacementMemory} {a : Span ℕ} {r : PlacementMemory} (h : Outcome s a r)
    (hs : Buildable s) (hcan : Canonical r.spans) (hfree : r.freeSet = s.freeSet ∪ a.toSet)
    (hfit : a.hi < 2 ^ 64) : Buildable r := by
  refine ⟨h.index_le, hcan, fun b hb => ?_, h.zeroTail hfit⟩
  have hblt := hcan.1 b hb
  have hlast : b.hi - 1 ∈ r.freeSet := ⟨b, hb, by omega, by omega⟩
  rw [hfree] at hlast
  rcases hlast with ⟨c, hc, -, hhi⟩ | ⟨-, hhi⟩
  · have := hs.below c hc
    omega
  · omega

/-- **Every order, step by step.**  The induction is on the ranges still to come. -/
lemma buildsExactly_iff (rs : List MemoryArea) : ∀ (s : PlacementMemory) (earlier : List MemoryArea),
    Buildable s → s.freeSet = addresses (earlier.map MemoryArea.span) →
    (∀ a ∈ earlier ++ rs, a.Valid) → (earlier ++ rs).Pairwise Apart → Room s rs →
    (BuildsExactly s earlier rs ↔ Extending earlier rs) := by
  induction rs with
  | nil =>
      intro s earlier _ _ _ _ _
      exact Iff.rfl
  | cons a rs ih =>
      intro s earlier hs hfree hv hd hroom
      obtain ⟨hlt, hroom'⟩ := hroom
      have ha : a.Valid := hv a (by simp)
      have hapart : ∀ b ∈ earlier, Apart b a := fun b hb =>
        (List.pairwise_append.mp hd).2.2 b hb a List.mem_cons_self
      have hoff : Disjoint a.span.toSet s.freeSet := hfree ▸ disjoint_addresses hapart
      obtain ⟨hcode, hout⟩ := insertArea_inserted hs ha hlt hoff
      have hexact := hout.inserted.exact_iff hs.canonical hs.below ha.lo_lt_hi
      have hgrows := grows_iff ha (fun b hb => hv b (List.mem_append_left _ hb)) hapart
      have hset : addresses ((earlier ++ [a]).map MemoryArea.span) = s.freeSet ∪ a.span.toSet := by
        rw [hfree]
        simp
      have hhead : (Canonical (s.insertArea a.start a.size).2.spans ∧
          (s.insertArea a.start a.size).2.freeSet = s.freeSet ∪ a.span.toSet) ↔
          Extends earlier a := by
        rw [← hgrows, ← hfree]
        exact hexact
      have happend : earlier ++ a :: rs = (earlier ++ [a]) ++ rs := by simp
      rw [BuildsExactly, Extending, hset, ← hhead]
      constructor
      · rintro ⟨-, hcan, hunion, hrest⟩
        have hfit := (hhead.mp ⟨hcan, hunion⟩).1
        refine ⟨⟨hcan, hunion⟩, (ih _ _ (hout.buildable hs hcan hunion hfit) ?_ ?_ ?_ hroom').mp hrest⟩
        · rw [hunion, hset]
        · rwa [← happend]
        · rwa [← happend]
      · rintro ⟨⟨hcan, hunion⟩, hrest⟩
        have hfit := (hhead.mp ⟨hcan, hunion⟩).1
        refine ⟨hcode, hcan, hunion,
          (ih _ _ (hout.buildable hs hcan hunion hfit) ?_ ?_ ?_ hroom').mpr hrest⟩
        · rw [hunion, hset]
        · rwa [← happend]
        · rwa [← happend]

/-- A list built exactly ends in the canonical list of all its ranges. -/
lemma BuildsExactly.final (rs : List MemoryArea) : ∀ (s : PlacementMemory) (earlier : List MemoryArea),
    Canonical s.spans → s.freeSet = addresses (earlier.map MemoryArea.span) →
    BuildsExactly s earlier rs →
    Canonical (s.insertAll rs).spans ∧
      (s.insertAll rs).freeSet = addresses ((earlier ++ rs).map MemoryArea.span) := by
  induction rs with
  | nil =>
      intro s earlier hcan hfree _
      rw [List.append_nil]
      exact ⟨hcan, hfree⟩
  | cons a rs ih =>
      intro s earlier _ _ h
      obtain ⟨-, hcan, hfree, hrest⟩ := h
      have := ih _ _ hcan hfree hrest
      rwa [List.append_assoc] at this

/-! ### The cleared table -/

lemma clearSlots_freeMemoryAreas (s : PlacementMemory) (n : ℕ) :
    ∀ k < n, (s.clearSlots n).freeMemoryAreas k = ⟨0, 0⟩ := by
  induction n with
  | zero =>
      intro k hk
      omega
  | succ n ih =>
      intro k hk
      rw [clearSlots, store_freeMemoryAreas, Function.update_apply]
      split_ifs with h
      · rfl
      · exact ih k (by omega)

lemma clearSlots_freeMemoryAreaIndex (s : PlacementMemory) (n : ℕ) :
    (s.clearSlots n).freeMemoryAreaIndex = s.freeMemoryAreaIndex := by
  induction n with
  | zero => rfl
  | succ n ih => rw [clearSlots, store_freeMemoryAreaIndex, ih]

lemma spans_clear (s : PlacementMemory) : s.clearPlacementMemoryArray.spans = [] := by
  refine List.length_eq_zero_iff.mp ?_
  rw [length_spans, clearPlacementMemoryArray, clearSlots_freeMemoryAreaIndex]

lemma buildable_clear (s : PlacementMemory) : Buildable s.clearPlacementMemoryArray := by
  have hnil := s.spans_clear
  refine ⟨?_, by rw [hnil]; exact canonical_nil, by simp [hnil], fun i _ hi => ?_⟩
  · rw [← length_spans, hnil]
    exact Nat.zero_le _
  · exact clearSlots_freeMemoryAreas _ _ i hi

end PlacementMemory

open PlacementMemory

/-- **Building the free list.**  Start from a cleared table and insert non-empty ranges that are pairwise
disjoint, with room for each.  Every call returns `0` and leaves the canonical list of the ranges so
far iff every range ends below `2 ^ 64` and lies above the earlier ones or shares an edge with one
of them.  Two orders of the same ranges that both meet this build the same table. -/
theorem insert_exact_iff (s : PlacementMemory) {rs : List MemoryArea} (hv : ∀ a ∈ rs, a.Valid)
    (hd : rs.Pairwise Apart) :
    (Room s.clearPlacementMemoryArray rs →
      (BuildsExactly s.clearPlacementMemoryArray [] rs ↔ Extending [] rs)) ∧
    ∀ rs', rs'.Perm rs →
      Room s.clearPlacementMemoryArray rs → Extending [] rs →
      Room s.clearPlacementMemoryArray rs' → Extending [] rs' →
      (s.clearPlacementMemoryArray.insertAll rs').usedAreas
        = (s.clearPlacementMemoryArray.insertAll rs).usedAreas := by
  have hclear := buildable_clear s
  have hnone : s.clearPlacementMemoryArray.freeSet = addresses ([].map MemoryArea.span) := by
    rw [freeSet, spans_clear]
    rfl
  have hall : ∀ qs : List MemoryArea, qs.Perm rs → Room s.clearPlacementMemoryArray qs →
      (BuildsExactly s.clearPlacementMemoryArray [] qs ↔ Extending [] qs) := by
    intro qs hperm hroom
    refine buildsExactly_iff qs _ [] hclear hnone (fun a ha => ?_) ?_ hroom
    · exact hv a (hperm.mem_iff.mp ha)
    · exact (hperm.pairwise_iff fun h => h.symm).mpr hd
  refine ⟨hall rs (List.Perm.refl rs), fun rs' hperm hroom hext hroom' hext' => ?_⟩
  have h₁ := ((hall rs' hperm hroom').mpr hext').final _ _ _ hclear.canonical hnone
  have h₂ := ((hall rs (List.Perm.refl rs) hroom).mpr hext).final _ _ _ hclear.canonical hnone
  refine usedAreas_eq_of_spans_eq (h₁.1.eq_of_addresses_eq h₂.1 ?_)
  show PlacementMemory.freeSet _ = PlacementMemory.freeSet _
  rw [h₁.2, h₂.2]
  ext x
  simp only [mem_addresses, List.mem_map, List.nil_append, hperm.mem_iff]

/-- Two ranges in descending order, with a gap: the second call writes over the first range. -/
theorem insert_below_loses_range :
    let s := (ofAreas []).clearPlacementMemoryArray
    let rs : List MemoryArea := [⟨0x100000, 0x1000⟩, ⟨0, 0x1000⟩]
    (∀ a ∈ rs, a.Valid) ∧ rs.Pairwise Apart ∧ Room s rs ∧
      (s.insertAll rs).usedAreas = [⟨0, 0x1000⟩, ⟨0, 0⟩] ∧ ¬ BuildsExactly s [] rs := by
  refine ⟨by decide, by decide, ⟨by decide, by decide, trivial⟩, by decide, ?_⟩
  rintro ⟨-, -, -, -, hcan, -⟩
  exact absurd (hcan.1 ⟨0, 0⟩ (by decide)) (lt_irrefl 0)

/-- Two RAM regions and the range between them, in two orders. -/
theorem insert_exact_iff_example :
    let s := (ofAreas []).clearPlacementMemoryArray
    let rs : List MemoryArea := [⟨0, 0x9fc00⟩, ⟨0x100000, 0x7ee0000⟩, ⟨0x9fc00, 0x60400⟩]
    let rs' : List MemoryArea := [⟨0x9fc00, 0x60400⟩, ⟨0x100000, 0x7ee0000⟩, ⟨0, 0x9fc00⟩]
    BuildsExactly s [] rs ∧ (s.insertAll rs').usedAreas = (s.insertAll rs).usedAreas := by
  have hroom : Room (ofAreas []).clearPlacementMemoryArray
      [⟨0, 0x9fc00⟩, ⟨0x100000, 0x7ee0000⟩, ⟨0x9fc00, 0x60400⟩] :=
    ⟨by decide, by decide, by decide, trivial⟩
  have hroom' : Room (ofAreas []).clearPlacementMemoryArray
      [⟨0x9fc00, 0x60400⟩, ⟨0x100000, 0x7ee0000⟩, ⟨0, 0x9fc00⟩] :=
    ⟨by decide, by decide, by decide, trivial⟩
  have hext : Extending [] [⟨0, 0x9fc00⟩, ⟨0x100000, 0x7ee0000⟩, ⟨0x9fc00, 0x60400⟩] :=
    ⟨by decide, by decide, by decide, trivial⟩
  have hext' : Extending [] [⟨0x9fc00, 0x60400⟩, ⟨0x100000, 0x7ee0000⟩, ⟨0, 0x9fc00⟩] :=
    ⟨by decide, by decide, by decide, trivial⟩
  obtain ⟨hbuilds, horders⟩ := insert_exact_iff (ofAreas [])
    (show ∀ a ∈ ([⟨0, 0x9fc00⟩, ⟨0x100000, 0x7ee0000⟩, ⟨0x9fc00, 0x60400⟩] : List MemoryArea),
      a.Valid by decide) (by decide)
  exact ⟨(hbuilds hroom).mpr hext, horders _ (by decide) hroom hext hroom' hext'⟩

end GrubKernel
