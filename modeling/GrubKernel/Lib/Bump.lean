import Mathlib.Algebra.Order.Floor.Div
import Mathlib.Data.Set.Lattice
import Mathlib.Order.Interval.Set.Disjoint
import Mathlib.Tactic
import Mathlib.Order.CompletePartialOrder

/-!
# Bump allocation

An allocator that keeps one pointer, moves it up to the next multiple of an alignment, grants the cells
from there on, and leaves the pointer behind them.

* `alignUp` — the next multiple; `isLeast_alignUp` says that it is the least one.
* `Grant`, `Chained` — what one call did, and calls one after the other.
* `Exact` — a call grants from the least multiple on, and moves the pointer behind the grant.
* **`Chained.bump`** — exact calls one after the other grant aligned and disjoint ranges, with less than
  one alignment between them.
-/

namespace Bump

/-- The least multiple of `a` that is not below `n`. -/
def alignUp (a n : ℕ) : ℕ := a * (n ⌈/⌉ a)

theorem isLeast_alignUp {a : ℕ} (ha : 0 < a) (n : ℕ) :
    IsLeast {m | a ∣ m ∧ n ≤ m} (alignUp a n) := by
  refine ⟨⟨Nat.dvd_mul_right a _, le_smul_ceilDiv ha⟩, ?_⟩
  rintro m ⟨⟨k, rfl⟩, hn⟩
  exact Nat.mul_le_mul_left a ((ceilDiv_le_iff_le_mul ha).mpr hn)

lemma alignUp_lt {a : ℕ} (ha : 0 < a) (n : ℕ) : alignUp a n < n + a := by
  have hle : a * ((n + a - 1) / a) ≤ n + a - 1 := Nat.mul_div_le (n + a - 1) a
  rw [alignUp, Nat.ceilDiv_eq_add_pred_div]
  omega

/-- One call: the pointer before, where the grant starts, its size, and the pointer after. -/
structure Grant where
  before : ℕ
  start : ℕ
  size : ℕ
  after : ℕ

namespace Grant

/-- The cells of a grant. -/
def range (g : Grant) : Set ℕ := Set.Ico g.start (g.start + g.size)

/-- The grant starts at the least multiple that is not below the pointer, and the pointer moves behind
it. -/
structure Exact (a : ℕ) (g : Grant) : Prop where
  least : IsLeast {m | a ∣ m ∧ g.before ≤ m} g.start
  moves : g.after = g.start + g.size

lemma exact_mk {a p s n q : ℕ} :
    Exact a ⟨p, s, n, q⟩ ↔ (a ∣ s ∧ p ≤ s) ∧ (∀ m, a ∣ m → p ≤ m → s ≤ m) ∧ q = s + n := by
  constructor
  · rintro ⟨⟨hmem, hleast⟩, hmoves⟩
    exact ⟨hmem, fun m hdvd hle => hleast ⟨hdvd, hle⟩, hmoves⟩
  · rintro ⟨hmem, hleast, hmoves⟩
    exact ⟨⟨hmem, fun m hm => hleast m hm.1 hm.2⟩, hmoves⟩

lemma Exact.start_eq {a : ℕ} {g : Grant} (ha : 0 < a) (h : g.Exact a) : g.start = alignUp a g.before :=
  h.least.unique (isLeast_alignUp ha g.before)

end Grant

/-- Calls one after the other, from a pointer on. -/
def Chained : ℕ → List Grant → Prop
  | _, [] => True
  | p, g :: gs => g.before = p ∧ Chained g.after gs

/-- A run of an exact allocator: aligned and disjoint grants, with less than one alignment between a
grant and the pointer before it. -/
structure IsBump (a : ℕ) (gs : List Grant) : Prop where
  exact_calls : ∀ g ∈ gs, g.Exact a
  aligned : ∀ g ∈ gs, a ∣ g.start
  disjoint : gs.Pairwise fun g g' => Disjoint g.range g'.range
  tight : ∀ g ∈ gs, g.start < g.before + a

variable {a : ℕ}

/-- The pointer never moves down. -/
lemma Chained.le_start {gs : List Grant} : ∀ {p : ℕ}, Chained p gs → (∀ g ∈ gs, g.Exact a) →
    ∀ g ∈ gs, p ≤ g.start := by
  induction gs with
  | nil =>
      intro p _ _ g hg
      exact absurd hg List.not_mem_nil
  | cons g₀ gs ih =>
      rintro p ⟨rfl, hchain⟩ hexact g hg
      have h₀ := hexact g₀ List.mem_cons_self
      cases hg with
      | head => exact h₀.least.1.2
      | tail _ hg =>
          have hrest := ih hchain (fun g' hg' => hexact g' (List.mem_cons_of_mem g₀ hg')) g hg
          have hmoves := h₀.moves
          have hstart := h₀.least.1.2
          omega

/-- **Exact calls bump.** -/
theorem Chained.bump (ha : 0 < a) {p : ℕ} {gs : List Grant} (hchain : Chained p gs)
    (hexact : ∀ g ∈ gs, g.Exact a) : IsBump a gs where
  exact_calls := hexact
  aligned := fun g hg => (hexact g hg).least.1.1
  disjoint := by
    induction gs generalizing p with
    | nil => exact List.Pairwise.nil
    | cons g gs ih =>
        have htail : ∀ g' ∈ gs, g'.Exact a := fun g' hg' => hexact g' (List.mem_cons_of_mem g hg')
        refine List.pairwise_cons.mpr ⟨fun g' hg' => ?_, ih hchain.2 htail⟩
        have hle := hchain.2.le_start htail g' hg'
        rw [(hexact g List.mem_cons_self).moves] at hle
        exact Set.Ico_disjoint_Ico_same.mono_right (Set.Ico_subset_Ico_left hle)
  tight := fun g hg => by
    rw [(hexact g hg).start_eq ha]
    exact alignUp_lt ha g.before

end Bump
