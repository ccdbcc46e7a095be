import Mathlib.Data.Set.Lattice
import Mathlib.Order.Interval.Set.Basic
import Mathlib.Tactic
import Mathlib.Order.CompletePartialOrder

/-!
# Lists of half-open ranges

A finite set of addresses is often kept as a list of half-open ranges in ascending order.  This
file develops such lists over an arbitrary linear order; nothing here knows what the ranges
are used for.

* `Span`, `addresses` — a range, and the set of points a list of ranges covers.
* `Separated` — the ranges are non-empty, ascending and pairwise disjoint.
* `Canonical` — separated, and no two ranges touch.  **`Canonical.eq_of_addresses_eq`**: a
  canonical list is determined by the set it covers.
* `carve` — the list with one range taken out of every span.  It keeps `Separated`
  (`Separated.carve`) and takes away exactly the range (`addresses_carve`).
-/

namespace RangeList

variable {α : Type*} [LinearOrder α]

/-! ## Spans and the points they cover -/

/-- The half-open range `[lo, hi)`. -/
@[ext] structure Span (α : Type*) where
  lo : α
  hi : α
deriving DecidableEq

/-- The points of one span. -/
def Span.toSet (a : Span α) : Set α := Set.Ico a.lo a.hi

@[simp] lemma Span.mem_toSet {a : Span α} {x : α} : x ∈ a.toSet ↔ a.lo ≤ x ∧ x < a.hi :=
  Iff.rfl

/-- Two spans that share an edge make one. -/
lemma Span.toSet_join {p a : Span α} (h : p.hi = a.lo) (hp : p.lo ≤ p.hi) (ha : a.lo ≤ a.hi) :
    (⟨p.lo, a.hi⟩ : Span α).toSet = p.toSet ∪ a.toSet := by
  rw [Span.toSet, Span.toSet, Span.toSet, ← h, Set.Ico_union_Ico_eq_Ico hp (h ▸ ha)]

/-- The points covered by a list of spans. -/
def addresses (l : List (Span α)) : Set α := {x | ∃ a ∈ l, x ∈ a.toSet}

lemma mem_addresses {l : List (Span α)} {x : α} :
    x ∈ addresses l ↔ ∃ a ∈ l, a.lo ≤ x ∧ x < a.hi := Iff.rfl

@[simp] lemma addresses_nil : addresses ([] : List (Span α)) = ∅ := by
  ext x; simp [mem_addresses]

@[simp] lemma addresses_cons (a : Span α) (l : List (Span α)) :
    addresses (a :: l) = a.toSet ∪ addresses l := by
  ext x; simp [mem_addresses]

@[simp] lemma addresses_append (l₁ l₂ : List (Span α)) :
    addresses (l₁ ++ l₂) = addresses l₁ ∪ addresses l₂ := by
  ext x
  simp only [mem_addresses, List.mem_append, Set.mem_union]
  constructor
  · rintro ⟨a, h | h, hx⟩
    · exact Or.inl ⟨a, h, hx⟩
    · exact Or.inr ⟨a, h, hx⟩
  · rintro (⟨a, h, hx⟩ | ⟨a, h, hx⟩)
    · exact ⟨a, Or.inl h, hx⟩
    · exact ⟨a, Or.inr h, hx⟩

/-! ## Separated and canonical lists -/

/-- Non-empty spans in ascending order, pairwise disjoint; they may touch. -/
def Separated (l : List (Span α)) : Prop :=
  (∀ a ∈ l, a.lo < a.hi) ∧ l.Pairwise fun a b => a.hi ≤ b.lo

instance (l : List (Span α)) : Decidable (Separated l) := inferInstanceAs (Decidable (_ ∧ _))

/-- Non-empty spans in ascending order with a gap between any two. -/
def Canonical (l : List (Span α)) : Prop :=
  (∀ a ∈ l, a.lo < a.hi) ∧ l.Pairwise fun a b => a.hi < b.lo

instance (l : List (Span α)) : Decidable (Canonical l) := inferInstanceAs (Decidable (_ ∧ _))

lemma Canonical.separated {l : List (Span α)} (h : Canonical l) : Separated l :=
  ⟨h.1, h.2.imp fun hab => hab.le⟩

@[simp] lemma separated_nil : Separated ([] : List (Span α)) := by simp [Separated]

@[simp] lemma canonical_nil : Canonical ([] : List (Span α)) := by simp [Canonical]

lemma separated_cons {a : Span α} {l : List (Span α)} :
    Separated (a :: l) ↔ a.lo < a.hi ∧ (∀ b ∈ l, a.hi ≤ b.lo) ∧ Separated l := by
  simp only [Separated, List.forall_mem_cons, List.pairwise_cons]
  tauto

lemma canonical_cons {a : Span α} {l : List (Span α)} :
    Canonical (a :: l) ↔ a.lo < a.hi ∧ (∀ b ∈ l, a.hi < b.lo) ∧ Canonical l := by
  simp only [Canonical, List.forall_mem_cons, List.pairwise_cons]
  tauto

lemma separated_append {l₁ l₂ : List (Span α)} :
    Separated (l₁ ++ l₂) ↔
      Separated l₁ ∧ Separated l₂ ∧ ∀ a ∈ l₁, ∀ b ∈ l₂, a.hi ≤ b.lo := by
  simp only [Separated, List.pairwise_append, List.forall_mem_append]
  tauto

lemma canonical_append {l₁ l₂ : List (Span α)} :
    Canonical (l₁ ++ l₂) ↔
      Canonical l₁ ∧ Canonical l₂ ∧ ∀ a ∈ l₁, ∀ b ∈ l₂, a.hi < b.lo := by
  simp only [Canonical, List.pairwise_append, List.forall_mem_append]
  tauto

/-- What surrounds a span of a separated list lies on its two sides. -/
lemma Separated.around {l₁ l₂ : List (Span α)} {a : Span α} (h : Separated (l₁ ++ a :: l₂)) :
    a.lo < a.hi ∧ (∀ b ∈ l₁, b.lo < b.hi ∧ b.hi ≤ a.lo) ∧ ∀ b ∈ l₂, a.hi ≤ b.lo ∧ b.lo < b.hi := by
  obtain ⟨h₁, h₂, h₁₂⟩ := separated_append.mp h
  obtain ⟨ha, hal, hl₂⟩ := separated_cons.mp h₂
  exact ⟨ha, fun b hb => ⟨h₁.1 b hb, h₁₂ b hb a List.mem_cons_self⟩,
    fun b hb => ⟨hal b hb, hl₂.1 b hb⟩⟩

/-- Replacing one span of a separated list by separated parts of it. -/
lemma Separated.replace {l₁ l₂ r : List (Span α)} {a : Span α} (h : Separated (l₁ ++ a :: l₂))
    (hr : Separated r) (hin : ∀ b ∈ r, a.lo ≤ b.lo ∧ b.hi ≤ a.hi) :
    Separated (l₁ ++ (r ++ l₂)) := by
  obtain ⟨-, h₁, h₂⟩ := h.around
  obtain ⟨hl₁, hal₂, hcross⟩ := separated_append.mp h
  have hl₂ := (separated_cons.mp hal₂).2.2
  have hr₂ : Separated (r ++ l₂) :=
    separated_append.mpr ⟨hr, hl₂, fun b hb c hc => (hin b hb).2.trans (h₂ c hc).1⟩
  refine separated_append.mpr ⟨hl₁, hr₂, fun b hb c hc => ?_⟩
  rcases List.mem_append.mp hc with hc | hc
  · exact (h₁ b hb).2.trans (hin c hc).1
  · exact hcross b hb c (List.mem_cons_of_mem _ hc)

/-- A span put between two canonical lists, with a gap on either side. -/
lemma Canonical.between {l₁ l₂ : List (Span α)} {a : Span α} (h₁ : Canonical l₁) (h₂ : Canonical l₂)
    (ha : a.lo < a.hi) (hbelow : ∀ b ∈ l₁, b.hi < a.lo) (habove : ∀ b ∈ l₂, a.hi < b.lo) :
    Canonical (l₁ ++ a :: l₂) := by
  refine canonical_append.mpr ⟨h₁, canonical_cons.mpr ⟨ha, habove, h₂⟩, fun b hb c hc => ?_⟩
  rcases List.mem_cons.mp hc with rfl | hc
  · exact hbelow b hb
  · exact (hbelow b hb).trans (ha.trans (habove c hc))

/-- A gap after the first span of a canonical list: its upper end is not covered. -/
lemma Canonical.hi_notMem {a : Span α} {l : List (Span α)} (h : Canonical (a :: l)) :
    a.hi ∉ addresses (a :: l) := by
  obtain ⟨-, hal, -⟩ := canonical_cons.mp h
  rintro ⟨b, hb, hlo, hhi⟩
  rcases List.mem_cons.mp hb with rfl | hb
  · exact lt_irrefl _ hhi
  · exact absurd hlo (not_le.mpr (hal b hb))

/-- The first span of a canonical list starts at the least covered point. -/
lemma Canonical.lo_le {a : Span α} {l : List (Span α)} (h : Canonical (a :: l)) {x : α}
    (hx : x ∈ addresses (a :: l)) : a.lo ≤ x := by
  obtain ⟨ha, hal, -⟩ := canonical_cons.mp h
  obtain ⟨b, hb, hlo, -⟩ := hx
  rcases List.mem_cons.mp hb with rfl | hb
  · exact hlo
  · exact (ha.trans (hal b hb)).le.trans hlo

/-- A covered point below the upper end of the first span lies in the first span, any other in
the rest. -/
lemma Canonical.mem_tail {a : Span α} {l : List (Span α)} (h : Canonical (a :: l)) (x : α) :
    x ∈ addresses l ↔ x ∈ addresses (a :: l) ∧ a.hi ≤ x := by
  obtain ⟨-, hal, -⟩ := canonical_cons.mp h
  rw [addresses_cons]
  constructor
  · rintro ⟨b, hb, hlo, hhi⟩
    exact ⟨Or.inr ⟨b, hb, hlo, hhi⟩, (hal b hb).le.trans hlo⟩
  · rintro ⟨⟨-, hhi⟩ | hx, hle⟩
    · exact absurd hhi (not_lt.mpr hle)
    · exact hx

/-- A covered interval lies in one span, because the spans do not touch. -/
lemma Canonical.exists_of_covered {l : List (Span α)} (h : Canonical l) {lo hi : α} (hlt : lo < hi)
    (hcovered : ∀ x, lo ≤ x → x < hi → x ∈ addresses l) : ∃ a ∈ l, a.lo ≤ lo ∧ hi ≤ a.hi := by
  obtain ⟨a, ha, halo, hahi⟩ := hcovered lo le_rfl hlt
  refine ⟨a, ha, halo, not_lt.mp fun hshort => ?_⟩
  -- the first point behind `a` is in another span, which touches `a`
  obtain ⟨b, hb, hblo, hbhi⟩ := hcovered a.hi hahi.le hshort
  have hne : a ≠ b := by
    rintro rfl
    exact lt_irrefl _ hbhi
  have hsymm : Std.Symm fun a b : Span α => a.hi < b.lo ∨ b.hi < a.lo := ⟨fun _ _ => Or.symm⟩
  have hapart : l.Pairwise fun a b => a.hi < b.lo ∨ b.hi < a.lo := h.2.imp Or.inl
  rcases hapart.forall ha hb hne with hab | hba
  · exact absurd hblo (not_le.mpr hab)
  · exact absurd (hbhi.trans hba) (not_lt.mpr (h.1 a ha).le)

/-- **A canonical list is determined by the set it covers.**  The first span starts at the least
covered point and ends at the first uncovered point after it; what is left is covered by the
rest. -/
theorem Canonical.eq_of_addresses_eq :
    ∀ {l₁ l₂ : List (Span α)}, Canonical l₁ → Canonical l₂ → addresses l₁ = addresses l₂ → l₁ = l₂
  | [], [], _, _, _ => rfl
  | [], b :: l₂, _, h₂, h => by
      have hb : b.lo ∈ addresses (b :: l₂) := ⟨b, List.mem_cons_self, le_rfl, h₂.1 b (by simp)⟩
      rw [← h, addresses_nil] at hb
      exact absurd hb (Set.notMem_empty _)
  | a :: l₁, [], h₁, _, h => by
      have ha : a.lo ∈ addresses (a :: l₁) := ⟨a, List.mem_cons_self, le_rfl, h₁.1 a (by simp)⟩
      rw [h, addresses_nil] at ha
      exact absurd ha (Set.notMem_empty _)
  | a :: l₁, b :: l₂, h₁, h₂, h => by
      have ha : a.lo < a.hi := h₁.1 a List.mem_cons_self
      have hb : b.lo < b.hi := h₂.1 b List.mem_cons_self
      have hlo : a.lo = b.lo := by
        refine le_antisymm (h₁.lo_le ?_) (h₂.lo_le ?_)
        · exact h ▸ ⟨b, List.mem_cons_self, le_rfl, hb⟩
        · exact h ▸ ⟨a, List.mem_cons_self, le_rfl, ha⟩
      -- the end of either span is uncovered, so it cannot fall inside the other one
      have hhi : a.hi = b.hi := by
        rcases lt_trichotomy a.hi b.hi with hlt | heq | hgt
        · refine absurd ?_ h₁.hi_notMem
          exact h ▸ ⟨b, List.mem_cons_self, hlo ▸ ha.le, hlt⟩
        · exact heq
        · refine absurd ?_ h₂.hi_notMem
          exact h ▸ ⟨a, List.mem_cons_self, hlo ▸ hb.le, hgt⟩
      have htail : addresses l₁ = addresses l₂ := by
        ext x
        rw [h₁.mem_tail, h₂.mem_tail, h, hhi]
      have hc₁ := (canonical_cons.mp h₁).2.2
      have hc₂ := (canonical_cons.mp h₂).2.2
      rw [hc₁.eq_of_addresses_eq hc₂ htail, Span.ext hlo hhi]

/-! ## Taking a range out -/

/-- What is left of a span once `[lo, hi)` is taken out: the part below and the part above. -/
def Span.minus (a : Span α) (lo hi : α) : List (Span α) :=
  (if a.lo < min a.hi lo then [⟨a.lo, min a.hi lo⟩] else []) ++
    (if max a.lo hi < a.hi then [⟨max a.lo hi, a.hi⟩] else [])

/-- The list with `[lo, hi)` taken out of every span. -/
def carve (lo hi : α) (l : List (Span α)) : List (Span α) := l.flatMap (·.minus lo hi)

@[simp] lemma carve_nil (lo hi : α) : carve lo hi ([] : List (Span α)) = [] := rfl

@[simp] lemma carve_cons (lo hi : α) (a : Span α) (l : List (Span α)) :
    carve lo hi (a :: l) = a.minus lo hi ++ carve lo hi l := by simp [carve]

@[simp] lemma carve_append (lo hi : α) (l₁ l₂ : List (Span α)) :
    carve lo hi (l₁ ++ l₂) = carve lo hi l₁ ++ carve lo hi l₂ := by simp [carve]

/-- A piece of `a.minus lo hi` is a non-empty part of `a`. -/
lemma Span.mem_minus {a b : Span α} {lo hi : α} (h : b ∈ a.minus lo hi) :
    b.lo < b.hi ∧ a.lo ≤ b.lo ∧ b.hi ≤ a.hi := by
  unfold Span.minus at h
  rcases List.mem_append.mp h with h | h
  · split_ifs at h with hc
    · obtain rfl := List.mem_singleton.mp h
      exact ⟨hc, le_rfl, min_le_left _ _⟩
    · simp at h
  · split_ifs at h with hc
    · obtain rfl := List.mem_singleton.mp h
      exact ⟨hc, le_max_left _ _, le_rfl⟩
    · simp at h

lemma Span.separated_minus (a : Span α) {lo hi : α} (h : lo ≤ hi) :
    Separated (a.minus lo hi) := by
  have hcut : min a.hi lo ≤ max a.lo hi := (min_le_right _ _).trans (h.trans (le_max_right _ _))
  unfold Span.minus
  split_ifs with h₁ h₂ h₂ <;> simp [separated_cons, *]

lemma Span.addresses_minus (a : Span α) (lo hi : α) :
    addresses (a.minus lo hi) = a.toSet \ Set.Ico lo hi := by
  ext x
  simp only [Span.minus, addresses_append, Set.mem_union, Set.mem_sdiff, Set.mem_Ico, Span.mem_toSet]
  constructor
  · rintro (h | h)
    · split_ifs at h <;> simp_all
    · split_ifs at h <;> simp_all
  · rintro ⟨⟨hlo, hhi⟩, hout⟩
    rcases lt_or_ge x lo with hx | hx
    · left
      have hlt : a.lo < min a.hi lo := lt_min (hlo.trans_lt hhi) (hlo.trans_lt hx)
      simp [hlt, hlo, hhi, hx]
    · right
      have hge : hi ≤ x := not_lt.mp fun hx' => hout ⟨hx, hx'⟩
      have hlt : max a.lo hi < a.hi := max_lt (hlo.trans_lt hhi) (hge.trans_lt hhi)
      simp [hlt, hlo, hhi, hge]

/-- **Carving takes away exactly the range.** -/
theorem addresses_carve (lo hi : α) (l : List (Span α)) :
    addresses (carve lo hi l) = addresses l \ Set.Ico lo hi := by
  induction l with
  | nil => simp
  | cons a l ih =>
      rw [carve_cons, addresses_append, addresses_cons, ih, Span.addresses_minus, Set.union_sdiff_distrib]

lemma mem_carve {lo hi : α} {l : List (Span α)} {b : Span α} (h : b ∈ carve lo hi l) :
    ∃ a ∈ l, b.lo < b.hi ∧ a.lo ≤ b.lo ∧ b.hi ≤ a.hi := by
  obtain ⟨a, ha, hb⟩ := List.mem_flatMap.mp h
  exact ⟨a, ha, Span.mem_minus hb⟩

/-- **Carving keeps a list separated.** -/
theorem Separated.carve {l : List (Span α)} (hl : Separated l) {lo hi : α} (h : lo ≤ hi) :
    Separated (carve lo hi l) := by
  induction l with
  | nil => simp
  | cons a l ih =>
      obtain ⟨-, hal, hsep⟩ := separated_cons.mp hl
      rw [carve_cons, separated_append]
      refine ⟨a.separated_minus h, ih hsep, fun b hb c hc => ?_⟩
      obtain ⟨-, -, hba⟩ := Span.mem_minus hb
      obtain ⟨d, hd, -, hdc, -⟩ := mem_carve hc
      exact hba.trans ((hal d hd).trans hdc)

lemma Span.minus_of_disjoint {a : Span α} {lo hi : α} (ha : a.lo < a.hi)
    (h : a.hi ≤ lo ∨ hi ≤ a.lo) (hlh : lo ≤ hi) : a.minus lo hi = [a] := by
  unfold Span.minus
  rcases h with h | h
  · have h₂ : ¬ max a.lo hi < a.hi := not_lt.mpr (h.trans (hlh.trans (le_max_right _ _)))
    simp [min_eq_left h, ha, h₂]
  · have h₁ : ¬ a.lo < min a.hi lo := not_lt.mpr ((min_le_right _ _).trans (hlh.trans h))
    simp [max_eq_left h, ha, h₁]

/-- Spans off the range are left alone. -/
lemma carve_of_disjoint {lo hi : α} (hlh : lo ≤ hi) {l : List (Span α)}
    (h : ∀ a ∈ l, a.lo < a.hi ∧ (a.hi ≤ lo ∨ hi ≤ a.lo)) : carve lo hi l = l := by
  induction l with
  | nil => rfl
  | cons a l ih =>
      obtain ⟨ha, hd⟩ := h a List.mem_cons_self
      rw [carve_cons, Span.minus_of_disjoint ha hd hlh, ih fun b hb => h b (List.mem_cons_of_mem _ hb)]
      rfl

/-- In a separated list, carving a range that lies inside one span changes that span only. -/
lemma Separated.carve_middle {l₁ l₂ : List (Span α)} {a : Span α} (h : Separated (l₁ ++ a :: l₂))
    {lo hi : α} (hlh : lo ≤ hi) (hlo : a.lo ≤ lo) (hhi : hi ≤ a.hi) :
    RangeList.carve lo hi (l₁ ++ a :: l₂) = l₁ ++ a.minus lo hi ++ l₂ := by
  obtain ⟨-, h₁, h₂⟩ := h.around
  rw [carve_append, carve_cons, carve_of_disjoint hlh, carve_of_disjoint hlh, List.append_assoc]
  · exact fun b hb => ⟨(h₂ b hb).2, Or.inr (hhi.trans (h₂ b hb).1)⟩
  · exact fun b hb => ⟨(h₁ b hb).1, Or.inl ((h₁ b hb).2.trans hlo)⟩

/-! ### The shapes of what is left of one span -/

lemma Span.minus_all {a : Span α} {lo hi : α} (hlo : lo ≤ a.lo) (hhi : a.hi ≤ hi) :
    a.minus lo hi = [] := by
  have h₁ : ¬ a.lo < min a.hi lo := not_lt.mpr ((min_le_right _ _).trans hlo)
  have h₂ : ¬ max a.lo hi < a.hi := not_lt.mpr (hhi.trans (le_max_right _ _))
  simp [Span.minus, h₁, h₂]

lemma Span.minus_start {a : Span α} {lo hi : α} (hlo : lo ≤ a.lo) (hin : a.lo ≤ hi) (hhi : hi < a.hi) :
    a.minus lo hi = [⟨hi, a.hi⟩] := by
  have h₁ : ¬ a.lo < min a.hi lo := not_lt.mpr ((min_le_right _ _).trans hlo)
  simp [Span.minus, h₁, max_eq_right hin, hhi]

lemma Span.minus_end {a : Span α} {lo hi : α} (hlo : a.lo < lo) (hin : lo ≤ a.hi) (hhi : a.hi ≤ hi) :
    a.minus lo hi = [⟨a.lo, lo⟩] := by
  have h₂ : ¬ max a.lo hi < a.hi := not_lt.mpr (hhi.trans (le_max_right _ _))
  simp [Span.minus, h₂, min_eq_right hin, hlo]

lemma Span.minus_inside {a : Span α} {lo hi : α} (hlo : a.lo < lo) (hlh : lo ≤ hi) (hhi : hi < a.hi) :
    a.minus lo hi = [⟨a.lo, lo⟩, ⟨hi, a.hi⟩] := by
  have hin : lo ≤ a.hi := hlh.trans hhi.le
  have hin' : a.lo ≤ hi := hlo.le.trans hlh
  simp [Span.minus, min_eq_right hin, max_eq_right hin', hlo, hhi]

end RangeList
