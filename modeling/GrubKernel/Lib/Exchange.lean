import Mathlib.Logic.Equiv.Basic
import Mathlib.Data.Finset.Card
import Mathlib.GroupTheory.Perm.Basic
import Mathlib.Order.Interval.Finset.Nat
import Mathlib.Tactic

/-!
# Rearranging a window of a memory

A memory is a function from positions to values.  Exchanging two positions again and again rearranges
the values; this file says where they may go.

* `Rearranged` — one memory is the other with the positions of a window permuted.
* `Rearranged.exchange`, `Rearranged.trans` — the steps and their composition.
* **`Rearranged.forall`** — what holds of all values in the window holds of all of them afterwards.
* **`Rearranged.le_of_sorted`** — two sorted arrangements of the same values agree.
-/

namespace Exchange

variable {α : Type*} {m m' m'' : ℕ → α} {first stop : ℕ}

/-- `m'` is `m` with the positions from `first` up to `stop` permuted. -/
def Rearranged (first stop : ℕ) (m m' : ℕ → α) : Prop :=
  ∃ σ : Equiv.Perm ℕ, (∀ i, i < first ∨ stop ≤ i → σ i = i) ∧ m' = m ∘ σ

lemma Rearranged.refl (first stop : ℕ) (m : ℕ → α) : Rearranged first stop m m :=
  ⟨1, fun _ _ => rfl, rfl⟩

lemma Rearranged.trans (h : Rearranged first stop m m') (h' : Rearranged first stop m' m'') :
    Rearranged first stop m m'' := by
  obtain ⟨σ, hσ, rfl⟩ := h
  obtain ⟨τ, hτ, rfl⟩ := h'
  refine ⟨σ * τ, fun i hi => ?_, ?_⟩
  · rw [Equiv.Perm.mul_apply, hτ i hi, hσ i hi]
  · rw [Equiv.Perm.coe_mul, Function.comp_assoc]

lemma Rearranged.symm (h : Rearranged first stop m m') : Rearranged first stop m' m := by
  obtain ⟨σ, hσ, rfl⟩ := h
  refine ⟨σ.symm, fun i hi => ?_, ?_⟩
  · rw [Equiv.symm_apply_eq, hσ i hi]
  · rw [Function.comp_assoc, Equiv.self_comp_symm, Function.comp_id]

/-- A wider window. -/
lemma Rearranged.mono {first' stop' : ℕ} (h : Rearranged first stop m m') (hfirst : first' ≤ first)
    (hstop : stop ≤ stop') : Rearranged first' stop' m m' := by
  obtain ⟨σ, hσ, hm⟩ := h
  exact ⟨σ, fun i hi => hσ i (by omega), hm⟩

/-- Exchanging two positions of the window. -/
lemma Rearranged.exchange {i j : ℕ} (hi : first ≤ i ∧ i < stop) (hj : first ≤ j ∧ j < stop) (m : ℕ → α) :
    Rearranged first stop m (m ∘ Equiv.swap i j) :=
  ⟨Equiv.swap i j, fun k hk => Equiv.swap_apply_of_ne_of_ne (by omega) (by omega), rfl⟩

/-- Nothing changes outside the window. -/
lemma Rearranged.off (h : Rearranged first stop m m') {i : ℕ} (hi : i < first ∨ stop ≤ i) :
    m' i = m i := by
  obtain ⟨σ, hσ, rfl⟩ := h
  rw [Function.comp_apply, hσ i hi]

/-- A permutation that fixes what lies outside a window keeps the window. -/
lemma mem_window {σ : Equiv.Perm ℕ} (hσ : ∀ i, i < first ∨ stop ≤ i → σ i = i) {i : ℕ}
    (hi : first ≤ i ∧ i < stop) : first ≤ σ i ∧ σ i < stop := by
  by_contra hout
  have hfix := hσ (σ i) (by omega)
  have heq := σ.injective hfix
  omega

/-- A value of the window comes from the window. -/
lemma Rearranged.source (h : Rearranged first stop m m') {i : ℕ} (hi : first ≤ i ∧ i < stop) :
    ∃ j, (first ≤ j ∧ j < stop) ∧ m' i = m j := by
  obtain ⟨σ, hσ, rfl⟩ := h
  exact ⟨σ i, mem_window hσ hi, rfl⟩

/-- **What holds of every value of the window still does.** -/
theorem Rearranged.forall {P : α → Prop} (h : Rearranged first stop m m')
    (hP : ∀ i, first ≤ i → i < stop → P (m i)) : ∀ i, first ≤ i → i < stop → P (m' i) := by
  intro i hfirst hstop
  obtain ⟨j, ⟨hjfirst, hjstop⟩, hj⟩ := h.source ⟨hfirst, hstop⟩
  rw [hj]
  exact hP j hjfirst hjstop

/-- As lists, the windows are permutations of each other. -/
theorem Rearranged.perm {n : ℕ} (h : Rearranged 0 n m m') :
    ((List.range n).map m').Perm ((List.range n).map m) := by
  obtain ⟨σ, hσ, rfl⟩ := h
  rw [← List.map_map]
  refine List.Perm.map m ?_
  refine (List.perm_ext_iff_of_nodup (List.nodup_range.map σ.injective) List.nodup_range).mpr fun i => ?_
  rw [List.mem_map, List.mem_range]
  constructor
  · rintro ⟨j, hj, rfl⟩
    exact (mem_window hσ ⟨Nat.zero_le j, List.mem_range.mp hj⟩).2
  · intro hi
    have hinv : ∀ k, k < 0 ∨ n ≤ k → σ.symm k = k := by
      intro k hk
      rw [Equiv.symm_apply_eq, hσ k hk]
    exact ⟨σ.symm i, List.mem_range.mpr (mem_window hinv ⟨Nat.zero_le i, hi⟩).2, σ.apply_symm_apply i⟩

/-- At or after a position there is one whose value came from that position or before it. -/
lemma exists_source_le {σ : Equiv.Perm ℕ} {n : ℕ} (hσ : ∀ i, i < 0 ∨ n ≤ i → σ i = i) {i : ℕ}
    (hi : i < n) : ∃ j, i ≤ j ∧ j < n ∧ σ j ≤ i := by
  by_contra hnone
  push Not at hnone
  -- otherwise `n - i` positions have their values from `n - i - 1` positions
  have hmaps : ∀ j ∈ Finset.Ico i n, σ j ∈ Finset.Ioo i n := by
    intro j hj
    obtain ⟨hij, hjn⟩ := Finset.mem_Ico.mp hj
    exact Finset.mem_Ioo.mpr ⟨hnone j hij hjn, (mem_window hσ ⟨Nat.zero_le j, hjn⟩).2⟩
  have hcard : (Finset.Ioo i n).card < (Finset.Ico i n).card := by
    rw [Nat.card_Ioo, Nat.card_Ico]
    omega
  obtain ⟨j, -, k, -, hne, heq⟩ := Finset.exists_ne_map_eq_of_card_lt_of_maps_to hcard hmaps
  exact hne (σ.injective heq)

/-- **Two sorted arrangements of the same values agree**, up to values that are below each other. -/
theorem Rearranged.le_of_sorted {n : ℕ} {r : α → α → Prop} (h : Rearranged 0 n m m')
    (htrans : ∀ x y z, r x y → r y z → r x z) (hsorted : ∀ i j, i ≤ j → j < n → r (m i) (m j))
    (hsorted' : ∀ i j, i ≤ j → j < n → r (m' i) (m' j)) {i : ℕ} (hi : i < n) : r (m' i) (m i) := by
  obtain ⟨σ, hσ, rfl⟩ := h
  obtain ⟨j, hij, hjn, hσj⟩ := exists_source_le hσ hi
  exact htrans _ _ _ (hsorted' i j hij hjn) (hsorted _ _ hσj hi)

end Exchange
