import GrubKernel.PlacementMemory.Wrapping

/-!
# `allocate_area` on any table

The other files say what `allocate_area` does to a well-formed table.  A range that wraps around leaves
a table whose areas overlap or are out of order, and the next call works on that one.  What holds on
every table is that the first area that does not end below the start is cut at the start and behind the
end that the source computes.

* `Bounded` — the areas in use are ranges, in any order.
* `cut`, `CutAt` — what is left of one area.
* **`allocateArea_cut`** — `allocate_area` cuts one area or leaves the table as it is.
* `CutAt.freeSet`, `CutAt.of_full` — what a cut can free, and what it does to a full table.
* `reserveAll`, `CanFree` — a sequence of calls, and the addresses that it can free.
* **`exists_reserveAll_iff`** — with sizes left open, an address is free afterwards iff it was or can
  become so.
-/

namespace GrubKernel

open RangeList

namespace PlacementMemory

/-- The areas in use are non-empty and end at or below `2 ^ 64`. -/
def Bounded (s : PlacementMemory) : Prop := ∀ a ∈ s.spans, a.lo < a.hi ∧ a.hi ≤ 2 ^ 64

/-- What is left of an area that is cut at `start` and at `stop`. -/
def cut (a : Span ℕ) (start stop : ℕ) : List (Span ℕ) :=
  (if a.lo < start then [⟨a.lo, start⟩] else []) ++ if stop < a.hi then [⟨stop, a.hi⟩] else []

/-- From `s` to `t` the area in one slot, which holds `start`, is cut.  Into two pieces only if there is
a slot to spare. -/
def CutAt (s t : PlacementMemory) (start : ℕ) : Prop :=
  ∃ k < s.freeMemoryAreaIndex, ∃ stop, let a := (s.freeMemoryAreas k).span
    (a.lo ≤ start ∧ start < a.hi) ∧ 0 < stop ∧ stop ≤ a.hi ∧
    (s.freeMemoryAreaIndex = maxMemoryAreasSize → a.lo = start ∨ stop = a.hi) ∧
    t.spans = s.spans.take k ++ cut a start stop ++ s.spans.drop (k + 1)

variable {s t : PlacementMemory} {start size : UInt64}

lemma WellFormed.toBounded (hs : WellFormed s) : Bounded s := by
  intro a ha
  obtain ⟨k, hk, rfl⟩ := mem_spans.mp ha
  exact ⟨(hs.valid hk).lo_lt_hi, hs.bounded _ ha⟩

lemma Bounded.valid (hs : Bounded s) {k : ℕ} (hk : k < s.freeMemoryAreaIndex) :
    (s.freeMemoryAreas k).Valid := by
  have h := hs _ (mem_spans.mpr ⟨k, hk, rfl⟩)
  rw [MemoryArea.span_lo, MemoryArea.span_hi] at h
  exact ⟨by omega, h.2⟩

/-! ## One area -/

section Area

variable {a r : MemoryArea}

/-- The end that the source computes for any range. -/
lemma toNat_last (r : MemoryArea) :
    r.last.toNat = (r.start.toNat + r.size.toNat + (2 ^ 64 - 1)) % 2 ^ 64 := by
  rw [MemoryArea.last, UInt64.toNat_sub, UInt64.toNat_add, UInt64.toNat_one]
  omega

/-- The area behind that end, where the range starts with the area. -/
lemma span_from (ha : a.Valid) (hlo : a.start = r.start) (h : r.last < a.last) :
    (⟨a.start + r.size, a.size - r.size⟩ : MemoryArea).span = ⟨r.last.toNat + 1, a.span.hi⟩ := by
  obtain ⟨hpos, hfit⟩ := ha
  have hr := r.size.toNat_lt
  have hstart := r.start.toNat_lt
  have hlast := toNat_last r
  rw [UInt64.lt_iff_toNat_lt, toNat_last a, hlast] at h
  rw [hlast, MemoryArea.span_hi]
  simp only [MemoryArea.span, UInt64.toNat_add, UInt64.toNat_sub, Span.mk.injEq, hlo] at h hfit ⊢
  omega

/-- The area behind that end, as the second half of the area. -/
lemma span_rest (ha : a.Valid) (h : r.last < a.last) :
    (⟨r.last + 1, a.size - r.size - (r.start - a.start)⟩ : MemoryArea).span
      = ⟨r.last.toNat + 1, a.span.hi⟩ := by
  obtain ⟨hpos, hfit⟩ := ha
  have hr := r.size.toNat_lt
  have hstart := r.start.toNat_lt
  have hlast := toNat_last r
  rw [UInt64.lt_iff_toNat_lt, toNat_last a, hlast] at h
  rw [MemoryArea.span_hi, hlast]
  simp only [MemoryArea.span, UInt64.toNat_add, UInt64.toNat_one, UInt64.toNat_sub, hlast, Span.mk.injEq]
  omega

/-- The area below the range, where both end together. -/
lemma span_until (ha : a.Valid) (hlo : a.start < r.start) (hge : r.start.toNat < a.span.hi)
    (h : a.last = r.last) :
    (⟨a.start, a.size - r.size⟩ : MemoryArea).span = ⟨a.span.lo, r.start.toNat⟩ := by
  have hlast := congrArg UInt64.toNat h
  rw [ha.last_toNat, toNat_last] at hlast
  obtain ⟨hpos, hfit⟩ := ha
  have hr := r.size.toNat_lt
  have hstart := r.start.toNat_lt
  rw [UInt64.lt_iff_toNat_lt] at hlo
  rw [MemoryArea.span_hi] at hge
  have hsize : r.size.toNat = a.start.toNat + a.size.toNat - r.start.toNat := by omega
  refine Span.ext rfl ?_
  show a.start.toNat + (a.size - r.size).toNat = r.start.toNat
  rw [UInt64.toNat_sub]
  omega

end Area

/-- **The case distinction of `allocate_area`** on an area that does not end below `start`. -/
lemma allocateAreaAt_cut {i : ℕ} (hi : i < s.freeMemoryAreaIndex) (ha : (s.freeMemoryAreas i).Valid)
    (hge : start.toNat < (s.freeMemoryAreas i).span.hi) :
    (s.allocateAreaAt start size i).2 = s ∨ CutAt s (s.allocateAreaAt start size i).2 start.toNat := by
  set a := s.freeMemoryAreas i with haeq
  set r : MemoryArea := ⟨start, size⟩ with hr
  have hstop : a.last.toNat + 1 = a.span.hi := by
    have hpos := ha.1
    rw [ha.last_toNat, MemoryArea.span_hi]
    omega
  unfold allocateAreaAt
  dsimp only
  rw [← haeq, show start + size - 1 = r.last from rfl]
  split_ifs with h₁ h₂ h₃ h₄ h₅
  · -- the area starts with the range and goes on behind it
    obtain ⟨hlo, hhi⟩ := h₁
    have hlast := UInt64.lt_iff_toNat_lt.mp hhi
    have hlo' : a.span.lo = start.toNat := congrArg UInt64.toNat hlo
    refine Or.inr ⟨i, hi, r.last.toNat + 1, ?_⟩
    rw [← haeq]
    refine ⟨⟨hlo'.le, hge⟩, by omega, by omega, fun _ => Or.inl hlo', ?_⟩
    rw [spans_store s hi, span_from (r := r) ha hlo hhi, cut, if_neg hlo'.not_lt, if_pos (by omega)]
    simp
  · -- both end together
    obtain ⟨hlo, hhi⟩ := h₂
    have hlo' : a.span.lo < start.toNat := UInt64.lt_iff_toNat_lt.mp hlo
    refine Or.inr ⟨i, hi, a.span.hi, ?_⟩
    rw [← haeq]
    refine ⟨⟨hlo'.le, hge⟩, by omega, le_rfl, fun _ => Or.inr rfl, ?_⟩
    rw [spans_store s hi, span_until (r := r) ha hlo hge hhi, cut, if_pos hlo', if_neg (lt_irrefl _)]
    simp [hr]
  · -- the range is the area
    obtain ⟨hlo, hhi⟩ := h₃
    have hlo' : a.span.lo = start.toNat := congrArg UInt64.toNat hlo
    refine Or.inr ⟨i, hi, a.span.hi, ?_⟩
    rw [← haeq]
    refine ⟨⟨hlo'.le, hge⟩, by omega, le_rfl, fun _ => Or.inl hlo', ?_⟩
    rw [spans_removeArea s hi, cut, if_neg hlo'.not_lt, if_neg (lt_irrefl _)]
    simp
  · -- no room for the second half
    exact Or.inl rfl
  · -- the area starts before the range and goes on behind it
    obtain ⟨hlo, hhi⟩ := h₄
    have hlast := UInt64.lt_iff_toNat_lt.mp hhi
    have hlo' : a.span.lo < start.toNat := UInt64.lt_iff_toNat_lt.mp hlo
    refine Or.inr ⟨i, hi, r.last.toNat + 1, ?_⟩
    rw [← haeq]
    refine ⟨⟨hlo'.le, hge⟩, by omega, by omega, fun hfull => absurd hfull h₅, ?_⟩
    rw [spans_splitArea s hi, MemoryArea.span_below (r := r) hlo'.le, span_rest (r := r) ha hhi, cut,
      if_pos hlo', if_pos (by omega)]
    simp [hr, MemoryArea.span_lo]
  · exact Or.inl rfl

/-- **`allocate_area` cuts one area or leaves the table as it is.** -/
theorem allocateArea_cut (hs : Bounded s) (start size : UInt64) :
    SameTable s (s.allocateArea start size).2 ∨ CutAt s (s.allocateArea start size).2 start.toNat := by
  unfold allocateArea
  split_ifs
  · exact Or.inl (SameTable.refl s)
  · exact Or.inl (SameTable.refl s)
  obtain ⟨hsame, hsome, -⟩ := findOverlap_spec start s.freeMemoryAreaIndex s 0 (by omega)
  rcases hfind : findOverlap start s.freeMemoryAreaIndex 0 s with ⟨_ | i, t⟩
  · rw [hfind] at hsame
    exact Or.inl hsame
  · rw [hfind] at hsame hsome
    replace hsame : SameTable s t := hsame
    obtain ⟨-, hi, hge, -⟩ := hsome i rfl
    rw [MemoryArea.last_lt_iff (hs.valid hi), not_le, ← hsame.1] at hge
    rw [← hsame.2] at hi
    have hv : (t.freeMemoryAreas i).Valid := hsame.1 ▸ hs.valid (hsame.2 ▸ hi)
    show SameTable s (t.allocateAreaAt start size i).2 ∨ CutAt s (t.allocateAreaAt start size i).2 _
    rcases allocateAreaAt_cut hi hv hge with hkeep | hcut
    · left
      rw [hkeep]
      exact hsame
    · right
      unfold CutAt at hcut ⊢
      rwa [hsame.1, hsame.2, hsame.spans_eq] at hcut

/-! ## What a cut can do -/

/-- The pieces that are left of an area. -/
lemma mem_cut {a b : Span ℕ} {start stop : ℕ} :
    b ∈ cut a start stop ↔ (a.lo < start ∧ b = ⟨a.lo, start⟩) ∨ (stop < a.hi ∧ b = ⟨stop, a.hi⟩) := by
  rw [cut, List.mem_append]
  split_ifs with hbelow habove habove
  · simp [hbelow, habove]
  · simp [hbelow, habove]
  · simp [hbelow, habove]
  · simp [hbelow, habove]

/-- What is in a list with one element replaced. -/
lemma mem_of_mem_replaced {α : Type*} {l m : List α} {k : ℕ} {b : α}
    (hb : b ∈ l.take k ++ m ++ l.drop (k + 1)) : b ∈ l ∨ b ∈ m := by
  rw [List.append_assoc] at hb
  rcases List.mem_append.mp hb with hb | hb
  · exact Or.inl (List.mem_of_mem_take hb)
  rcases List.mem_append.mp hb with hb | hb
  · exact Or.inr hb
  · exact Or.inl (List.mem_of_mem_drop hb)

section CutAt

variable {x : ℕ} (h : CutAt s t x)
include h

/-- The pieces are ranges again. -/
lemma CutAt.bounded (hs : Bounded s) : Bounded t := by
  obtain ⟨k, hk, stop, ⟨hlo, hhi⟩, hpos, hstop, -, hspans⟩ := h
  have ha := hs _ (mem_spans.mpr ⟨k, hk, rfl⟩)
  intro b hb
  rw [hspans] at hb
  rcases mem_of_mem_replaced hb with hb | hb
  · exact hs b hb
  · rcases mem_cut.mp hb with ⟨hlt, rfl⟩ | ⟨hlt, rfl⟩
    · exact ⟨hlt, (hhi.trans_le ha.2).le⟩
    · exact ⟨hlt, ha.2⟩

/-- An address that becomes free lies below the start, which was free. -/
lemma CutAt.freeSet {y : ℕ} (hy : y ∈ t.freeSet) : y ∈ s.freeSet ∨ (0 < y ∧ y < x ∧ x ∈ s.freeSet) := by
  obtain ⟨k, hk, stop, ⟨hlo, hhi⟩, hpos, hstop, -, hspans⟩ := h
  have hmem : (s.freeMemoryAreas k).span ∈ s.spans := mem_spans.mpr ⟨k, hk, rfl⟩
  have hx : x ∈ s.freeSet := ⟨_, hmem, hlo, hhi⟩
  obtain ⟨b, hb, hyb⟩ := hy
  rw [hspans] at hb
  rcases mem_of_mem_replaced hb with hb | hb
  · exact Or.inl ⟨b, hb, hyb⟩
  · -- a piece starts with the area or with `stop`, and from the start on it lies in the area
    rcases mem_cut.mp hb with ⟨-, rfl⟩ | ⟨-, rfl⟩
    · exact Or.inl ⟨_, hmem, hyb.1, lt_trans hyb.2 hhi⟩
    · rcases Nat.lt_or_ge y x with hyx | hyx
      · exact Or.inr ⟨lt_of_lt_of_le hpos hyb.1, hyx, hx⟩
      · exact Or.inl ⟨_, hmem, hlo.trans hyx, hyb.2⟩

/-- In a full table, where no area begins with the range, the area loses its end. -/
lemma CutAt.of_full (hfull : s.freeMemoryAreaIndex = maxMemoryAreasSize)
    (hno : ∀ a ∈ s.spans, a.lo ≠ x) :
    t.spans.map Span.lo = s.spans.map Span.lo ∧ t.freeSet ⊆ s.freeSet := by
  obtain ⟨k, hk, stop, ⟨hlo, hhi⟩, -, hstop, hroom, hspans⟩ := h
  have hmem : (s.freeMemoryAreas k).span ∈ s.spans := mem_spans.mpr ⟨k, hk, rfl⟩
  have hlt : (s.freeMemoryAreas k).span.lo < x := lt_of_le_of_ne hlo (hno _ hmem)
  have heq := (hroom hfull).resolve_left (hno _ hmem)
  constructor
  · rw [hspans, cut, if_pos hlt, if_neg heq.not_lt]
    conv_rhs => rw [s.spans_eq hk]
    simp
  · rintro y ⟨b, hb, hyb⟩
    rw [hspans] at hb
    rcases mem_of_mem_replaced hb with hb | hb
    · exact ⟨b, hb, hyb⟩
    · rcases mem_cut.mp hb with ⟨-, rfl⟩ | ⟨hgt, -⟩
      · exact ⟨_, hmem, hyb.1, lt_trans hyb.2 hhi⟩
      · exact absurd hgt heq.not_lt

end CutAt

/-! ## A sequence of calls -/

/-- Calls of `allocate_area` from call `i` on: with the starts of the list, each with its own size, and
whatever they return. -/
def reserveAll (size : ℕ → UInt64) : List UInt64 → ℕ → PlacementMemory → PlacementMemory
  | [], _, s => s
  | start :: starts, i, s => reserveAll size starts (i + 1) (s.allocateArea start (size i)).2

/-- There are sizes with which the calls free the address `x`.  One of the starts must lie in an area,
with `x` below it, and its call must be able to cut that area: with a slot to spare, or because the
start, or one before it, is where an area begins. -/
def CanFree (s : PlacementMemory) (starts : List UInt64) (x : ℕ) : Prop :=
  ∃ before start behind, starts = before ++ start :: behind ∧ start.toNat ∈ s.freeSet ∧
    (0 < x ∧ x < start.toNat) ∧ (s.freeMemoryAreaIndex < maxMemoryAreasSize ∨
      ∃ earlier ∈ before ++ [start], ∃ a ∈ s.spans, a.lo = earlier.toNat)

/-- With suitable sizes the calls from call `i` on lead from one table to the other. -/
def Leads (starts : List UInt64) (i : ℕ) (s t : PlacementMemory) : Prop :=
  ∃ size, reserveAll size starts i s = t

lemma reserveAll_append (size : ℕ → UInt64) (l₁ : List UInt64) : ∀ (l₂ : List UInt64) (i : ℕ)
    (s : PlacementMemory), reserveAll size (l₁ ++ l₂) i s
      = reserveAll size l₂ (i + l₁.length) (reserveAll size l₁ i s) := by
  induction l₁ with
  | nil => exact fun l₂ i s => rfl
  | cons start l₁ ih =>
      intro l₂ i s
      rw [List.cons_append, reserveAll, ih, List.length_cons, reserveAll, Nat.add_right_comm,
        Nat.add_assoc]

/-- Only the sizes of the calls made matter. -/
lemma reserveAll_congr {size : ℕ → UInt64} (size' : ℕ → UInt64) (starts : List UInt64) :
    ∀ (i : ℕ) (s : PlacementMemory),
    (∀ k, i ≤ k → k < i + starts.length → size k = size' k) →
    reserveAll size starts i s = reserveAll size' starts i s := by
  induction starts with
  | nil => exact fun i s _ => rfl
  | cons start starts ih =>
      intro i s hsize
      rw [List.length_cons] at hsize
      rw [reserveAll, reserveAll, hsize i le_rfl (by omega)]
      exact ih (i + 1) _ fun k hk hk' => hsize k (by omega) (by omega)

lemma Leads.append {l₁ l₂ : List UInt64} {i : ℕ} {s t u : PlacementMemory} (h₁ : Leads l₁ i s t)
    (h₂ : Leads l₂ (i + l₁.length) t u) : Leads (l₁ ++ l₂) i s u := by
  obtain ⟨size₁, rfl⟩ := h₁
  obtain ⟨size₂, rfl⟩ := h₂
  refine ⟨fun k => if k < i + l₁.length then size₁ k else size₂ k, ?_⟩
  rw [reserveAll_append, reserveAll_congr size₁ l₁ i s fun k _ hk => if_pos hk]
  exact reserveAll_congr size₂ l₂ _ _ fun k hk _ => if_neg (not_lt.mpr hk)

lemma Leads.cons {start : UInt64} {l : List UInt64} {i : ℕ} {s u : PlacementMemory} (size : UInt64)
    (h : Leads l (i + 1) (s.allocateArea start size).2 u) : Leads (start :: l) i s u := by
  rw [← List.singleton_append]
  exact Leads.append ⟨fun _ => size, rfl⟩ h

/-- An empty range is refused. -/
lemma allocateArea_zero (s : PlacementMemory) (start : UInt64) : (s.allocateArea start 0).2 = s := by
  unfold allocateArea
  by_cases h₀ : s.freeMemoryAreaIndex = 0
  · rw [if_pos h₀]
  · rw [if_neg h₀, if_pos rfl]

/-- With empty ranges nothing changes. -/
lemma Leads.refl (starts : List UInt64) : ∀ (i : ℕ) (s : PlacementMemory), Leads starts i s s := by
  induction starts with
  | nil => exact fun i s => ⟨fun _ => 0, rfl⟩
  | cons start starts ih =>
      intro i s
      refine Leads.cons 0 ?_
      rw [allocateArea_zero]
      exact ih (i + 1) s

/-! ### What no sizes can free -/

section Safe

variable {s₀ : PlacementMemory} {x : ℕ} (size : ℕ → UInt64)

/-- Without a start that lies in an area above it, an address does not become free. -/
lemma mem_freeSet_of_reserveAll (starts : List UInt64) : ∀ (i : ℕ) (s : PlacementMemory),
    Bounded s → (∀ y ∈ s.freeSet, x ≤ y → y ∈ s₀.freeSet) →
    (∀ start ∈ starts, x < start.toNat → start.toNat ∉ s₀.freeSet) →
    x ∈ (reserveAll size starts i s).freeSet → x ∈ s₀.freeSet := by
  induction starts with
  | nil => exact fun i s _ habove _ hfree => habove x hfree le_rfl
  | cons start starts ih =>
      intro i s hs habove hstarts
      have hrest := fun p hp => hstarts p (List.mem_cons_of_mem start hp)
      rw [reserveAll]
      rcases allocateArea_cut hs start (size i) with hsame | hcut
      · refine ih _ _ ?_ ?_ hrest
        · rwa [Bounded, hsame.spans_eq]
        · rwa [PlacementMemory.freeSet, hsame.spans_eq]
      · refine ih _ _ (hcut.bounded hs) (fun y hy hxy => ?_) hrest
        rcases hcut.freeSet hy with hy | ⟨-, hlt, hfree⟩
        · exact habove y hy hxy
        · have hlt' : x < start.toNat := by omega
          exact absurd (habove _ hfree hlt'.le) (hstarts start List.mem_cons_self hlt')

/-- The end of a range is never taken for address `0`. -/
lemma zero_mem_freeSet_of_reserveAll (starts : List UInt64) : ∀ (i : ℕ) (s : PlacementMemory),
    Bounded s → 0 ∈ (reserveAll size starts i s).freeSet → 0 ∈ s.freeSet := by
  induction starts with
  | nil => exact fun i s _ hfree => hfree
  | cons start starts ih =>
      intro i s hs hfree
      rcases allocateArea_cut hs start (size i) with hsame | hcut
      · have hbefore := ih _ _ (by rwa [Bounded, hsame.spans_eq]) hfree
        rwa [PlacementMemory.freeSet, hsame.spans_eq] at hbefore
      · rcases hcut.freeSet (ih _ _ (hcut.bounded hs) hfree) with hbefore | ⟨hpos, -, -⟩
        · exact hbefore
        · exact absurd hpos (lt_irrefl 0)

/-- A full table stays full as long as no call starts where an area begins, and so no area can be cut in
two. -/
lemma mem_freeSet_of_full (hfull : s₀.freeMemoryAreaIndex = maxMemoryAreasSize)
    (starts : List UInt64) : ∀ (i : ℕ) (s : PlacementMemory), Bounded s → s.freeSet ⊆ s₀.freeSet →
    s.spans.map Span.lo = s₀.spans.map Span.lo →
    (∀ before start behind, starts = before ++ start :: behind → start.toNat ∈ s₀.freeSet →
      x < start.toNat → ∀ earlier ∈ before ++ [start], ∀ a ∈ s₀.spans, a.lo ≠ earlier.toNat) →
    x ∈ (reserveAll size starts i s).freeSet → x ∈ s₀.freeSet := by
  induction starts with
  | nil => exact fun i s _ hsub _ _ hfree => hsub hfree
  | cons start starts ih =>
      intro i s hs hsub hlos hstarts hfree
      -- the calls after the last one that could free the address are harmless
      by_cases hany : ∃ p ∈ start :: starts, x < p.toNat ∧ p.toNat ∈ s₀.freeSet
      · obtain ⟨p, hp, hlt, hin⟩ := hany
        obtain ⟨before, behind, hsplit⟩ := List.append_of_mem hp
        have hstart : start ∈ before ++ [p] := by
          cases before with
          | nil => exact List.mem_singleton.mpr (List.cons.inj hsplit).1
          | cons q before =>
              rw [(List.cons.inj hsplit).1]
              exact List.mem_cons_self
        have hno := hstarts before p behind hsplit hin hlt start hstart
        have hrest : ∀ before' start' behind', starts = before' ++ start' :: behind' →
            start'.toNat ∈ s₀.freeSet → x < start'.toNat → ∀ earlier ∈ before' ++ [start'],
            ∀ a ∈ s₀.spans, a.lo ≠ earlier.toNat := by
          intro before' start' behind' hsplit' hin' hlt' earlier hearlier
          exact hstarts (start :: before') start' behind' (by rw [hsplit', List.cons_append]) hin' hlt'
            earlier (List.mem_cons_of_mem start hearlier)
        have hlen : s.freeMemoryAreaIndex = s₀.freeMemoryAreaIndex := by
          have h := congrArg List.length hlos
          simpa using h
        have hno' : ∀ a ∈ s.spans, a.lo ≠ start.toNat := by
          intro a ha
          obtain ⟨b, hb, hab⟩ := List.mem_map.mp (hlos ▸ List.mem_map_of_mem (f := Span.lo) ha)
          rw [← hab]
          exact hno b hb
        rcases allocateArea_cut hs start (size i) with hsame | hcut
        · refine ih _ _ ?_ ?_ ?_ hrest hfree
          · rwa [Bounded, hsame.spans_eq]
          · rwa [PlacementMemory.freeSet, hsame.spans_eq]
          · rwa [hsame.spans_eq]
        · obtain ⟨hlos', hsub'⟩ := hcut.of_full (hlen.trans hfull) hno'
          exact ih _ _ (hcut.bounded hs) (hsub'.trans hsub) (hlos'.trans hlos) hrest hfree
      · push Not at hany
        exact mem_freeSet_of_reserveAll size (start :: starts) i s hs (fun y hy _ => hsub hy)
          hany hfree

end Safe

/-! ### The sizes that free an address -/

section Exposed

variable {x : ℕ}

/-- A call that starts in an area above the address, and can cut that area, frees the address with the
size that goes all the way round to it. -/
lemma exists_size_frees (hs : WellFormed s) (hin : start.toNat ∈ s.freeSet) (hx : 0 < x)
    (hlt : x < start.toNat)
    (hroom : s.freeMemoryAreaIndex < maxMemoryAreasSize ∨ ∃ a ∈ s.spans, a.lo = start.toNat) :
    ∃ size, x ∈ (s.allocateArea start size).2.freeSet := by
  have hstart := start.toNat_lt
  set size := UInt64.ofNat (2 ^ 64 + x - start.toNat) with hsize
  have hnat : size.toNat = 2 ^ 64 + x - start.toNat :=
    UInt64.toNat_ofNat_of_lt' (show _ < 2 ^ 64 by omega)
  have hw : Wraps start size := by
    rw [Wraps, hnat]
    omega
  have hround : start.toNat + size.toNat - 2 ^ 64 = x := by omega
  obtain ⟨a, ha, hlo, hhi⟩ := hin
  obtain ⟨k, hk, rfl⟩ := mem_spans.mp ha
  have hpiece : x ∈ (⟨x, (s.freeMemoryAreas k).span.hi⟩ : Span ℕ).toSet := ⟨le_rfl, lt_trans hlt hhi⟩
  refine ⟨size, ?_⟩
  rcases Nat.eq_or_lt_of_le hlo with heq | hbelow
  · have hspans := allocateArea_wrapped_start hs hw hk heq
    rw [hround] at hspans
    refine ⟨_, ?_, hpiece⟩
    rw [hspans]
    exact List.mem_append_right _ List.mem_cons_self
  · rcases allocateArea_wrapped_inside hs hw hk hbelow hhi with ⟨hfull, -⟩ | ⟨-, hspans⟩
    · -- the area that begins with the start would be another one that holds it
      obtain ⟨b, hb, hblo⟩ := hroom.resolve_left (by omega)
      obtain ⟨j, hj, rfl⟩ := mem_spans.mp hb
      have hbhi := (hs.valid hj).lo_lt_hi
      rcases lt_trichotomy j k with hjk | rfl | hkj
      · have := hs.ordered hjk hk
        omega
      · omega
      · have := hs.ordered hkj hj
        omega
    · rw [hround] at hspans
      refine ⟨_, ?_, hpiece⟩
      rw [hspans]
      exact List.mem_append_right _ (List.mem_cons_of_mem _ List.mem_cons_self)

/-- A call takes the beginning of an area, up to any address of it. -/
lemma allocateArea_beginning (hs : WellFormed s) {k : ℕ} (hk : k < s.freeMemoryAreaIndex)
    (hlo : (s.freeMemoryAreas k).span.lo = start.toNat) {stop : ℕ} (hlt : start.toNat < stop)
    (hle : stop ≤ (s.freeMemoryAreas k).span.hi) :
    let t := (s.allocateArea start (UInt64.ofNat (stop - start.toNat))).2
    WellFormed t ∧ t.spans = carve start.toNat stop s.spans := by
  have ha : (s.freeMemoryAreas k).span ∈ s.spans := mem_spans.mpr ⟨k, hk, rfl⟩
  have hbound := hs.bounded _ ha
  set size := UInt64.ofNat (stop - start.toNat) with hsize
  have hnat : size.toNat = stop - start.toNat := by
    have hsmall := (s.freeMemoryAreas k).size.toNat_lt
    have hhi := MemoryArea.span_hi (s.freeMemoryAreas k)
    rw [← MemoryArea.span_lo, hlo] at hhi
    exact UInt64.toNat_ofNat_of_lt' (show _ < 2 ^ 64 by omega)
  set r : MemoryArea := ⟨start, size⟩ with hr
  have hrhi : r.span.hi = stop := by
    show start.toNat + size.toNat = stop
    rw [hnat]
    omega
  have hvr : r.Valid := by
    rw [MemoryArea.span_hi] at hrhi
    refine ⟨?_, by omega⟩
    rw [hr, hnat]
    omega
  have hfits : Fits s.spans r.span := ⟨_, ha, hlo.le, hrhi.trans_le hle, Or.inr (Or.inl hlo)⟩
  obtain ⟨-, -, hspans, hidx⟩ := (allocateArea_spec hs hvr).resolve_right fun h => h.1 hfits
  rw [hrhi] at hspans
  exact ⟨hs.of_carve hlt.le hspans hidx, hspans⟩

/-- A call that starts where an area begins can make room for a later one: it takes the whole area, or
the area up to the later start. -/
lemma exists_size_makes_room (hs : WellFormed s) {a : Span ℕ} (ha : a ∈ s.spans)
    (hlo : a.lo = start.toNat) {y : ℕ} (hy : y ∈ s.freeSet) (hne : y ≠ start.toNat) :
    ∃ size, let t := (s.allocateArea start size).2
      WellFormed t ∧ y ∈ t.freeSet ∧
      (t.freeMemoryAreaIndex < maxMemoryAreasSize ∨ ∃ b ∈ t.spans, b.lo = y) := by
  obtain ⟨k, hk, rfl⟩ := mem_spans.mp ha
  have hv := (hs.valid hk).lo_lt_hi
  rw [hlo] at hv
  by_cases hin : start.toNat < y ∧ y < (s.freeMemoryAreas k).span.hi
  · -- up to the later start, where the rest of the area begins
    obtain ⟨ht, hspans⟩ := allocateArea_beginning hs hk hlo hin.1 hin.2.le
    have hrest : (⟨y, (s.freeMemoryAreas k).span.hi⟩ : Span ℕ) ∈ carve start.toNat y s.spans := by
      refine List.mem_flatMap.mpr ⟨_, ha, ?_⟩
      rw [Span.minus_start hlo.ge (hlo.trans_le hin.1.le) hin.2]
      exact List.mem_singleton_self _
    rw [← hspans] at hrest
    exact ⟨_, ht, ⟨_, hrest, le_rfl, hin.2⟩, Or.inr ⟨_, hrest, rfl⟩⟩
  · -- the whole area, and so there is one area less
    obtain ⟨ht, hspans⟩ := allocateArea_beginning hs hk hlo hv le_rfl
    refine ⟨_, ht, ?_, Or.inl ?_⟩
    · rw [PlacementMemory.freeSet, hspans, addresses_carve]
      refine ⟨hy, fun h => hin ⟨?_, h.2⟩⟩
      exact lt_of_le_of_ne h.1 hne.symm
    · have hsep := hs.separated
      have hle := hs.index_le
      rw [← length_spans, hspans]
      rw [s.spans_eq hk] at hsep ⊢
      rw [hsep.carve_middle hv.le hlo.le le_rfl, Span.minus_all hlo.ge le_rfl,
        List.append_nil, List.length_append, List.length_take, List.length_drop, length_spans]
      omega

/-- The calls before the one that frees the address are empty, but for one that may have to make room. -/
lemma exists_leads_frees (hs : WellFormed s) {before : List UInt64} (behind : List UInt64)
    (hin : start.toNat ∈ s.freeSet) (hx : 0 < x) (hlt : x < start.toNat)
    (hroom : s.freeMemoryAreaIndex < maxMemoryAreasSize ∨
      ∃ earlier ∈ before ++ [start], ∃ a ∈ s.spans, a.lo = earlier.toNat) :
    ∃ t, Leads (before ++ start :: behind) 0 s t ∧ x ∈ t.freeSet := by
  by_cases hready : s.freeMemoryAreaIndex < maxMemoryAreasSize ∨ ∃ a ∈ s.spans, a.lo = start.toNat
  · obtain ⟨size, hfree⟩ := exists_size_frees hs hin hx hlt hready
    exact ⟨_, (Leads.refl before 0 s).append (Leads.cons size (Leads.refl behind _ _)), hfree⟩
  · push Not at hready
    obtain ⟨hfull, hno⟩ := hready
    obtain ⟨earlier, hmem, a, ha, hlo⟩ := hroom.resolve_left (not_lt.mpr hfull)
    have hne : start.toNat ≠ earlier.toNat := fun h => hno a ha (hlo.trans h.symm)
    have hbefore : earlier ∈ before := by
      rcases List.mem_append.mp hmem with h | h
      · exact h
      · exact absurd (congrArg UInt64.toNat (List.mem_singleton.mp h)).symm hne
    obtain ⟨l₁, l₂, rfl⟩ := List.append_of_mem hbefore
    obtain ⟨size₁, ht, hin', hroom'⟩ := exists_size_makes_room hs ha hlo hin hne
    obtain ⟨size₂, hfree⟩ := exists_size_frees ht hin' hx hlt hroom'
    refine ⟨_, ?_, hfree⟩
    rw [List.append_assoc, List.cons_append]
    exact (Leads.refl l₁ 0 s).append (Leads.cons size₁ ((Leads.refl l₂ _ _).append
      (Leads.cons size₂ (Leads.refl behind _ _))))

/-- **Where the sizes are left open**, an address is free afterwards iff it was before or can become
so. -/
theorem exists_reserveAll_iff (hs : WellFormed s) (starts : List UInt64) (x : ℕ) :
    (∃ size, x ∈ (reserveAll size starts 0 s).freeSet) ↔ x ∈ s.freeSet ∨ CanFree s starts x := by
  constructor
  · rintro ⟨size, hfree⟩
    by_contra hnot
    push Not at hnot
    obtain ⟨hnotin, hcan⟩ := hnot
    rcases Nat.eq_zero_or_pos x with rfl | hx
    · exact hnotin (zero_mem_freeSet_of_reserveAll size starts 0 s hs.toBounded hfree)
    rcases Nat.lt_or_ge s.freeMemoryAreaIndex maxMemoryAreasSize with hroom | hfull
    · refine hnotin (mem_freeSet_of_reserveAll size starts 0 s hs.toBounded (fun y hy _ => hy)
        (fun start hmem hlt hin => hcan ?_) hfree)
      obtain ⟨before, behind, rfl⟩ := List.append_of_mem hmem
      exact ⟨before, start, behind, rfl, hin, ⟨hx, hlt⟩, Or.inl hroom⟩
    · refine hnotin (mem_freeSet_of_full size (le_antisymm hs.index_le hfull) starts 0 s
        hs.toBounded subset_rfl rfl (fun before start behind hsplit hin hlt earlier hmem a ha heq => hcan ?_)
        hfree)
      exact ⟨before, start, behind, hsplit, hin, ⟨hx, hlt⟩, Or.inr ⟨earlier, hmem, a, ha, heq⟩⟩
  · rintro (hfree | ⟨before, start, behind, rfl, hin, ⟨hx, hlt⟩, hroom⟩)
    · obtain ⟨size, heq⟩ := Leads.refl starts 0 s
      exact ⟨size, heq.symm ▸ hfree⟩
    · obtain ⟨t, ⟨size, rfl⟩, hfree⟩ := exists_leads_frees hs behind hin hx hlt hroom
      exact ⟨size, hfree⟩

end Exposed

end PlacementMemory
end GrubKernel
