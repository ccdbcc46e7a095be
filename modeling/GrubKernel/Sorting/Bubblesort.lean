import GrubKernel.Sorting.Offsets

/-!
# Bubblesort

A pass carries the greatest of the first `n` elements to position `n - 1`, so after the pass everything
from there on is final.  Two neighbours are exchanged only when they compare in the wrong order, so two
elements are never out of their original order without being strictly ordered the new way round.

* `StablyRearranged` — the elements are permuted, and those out of their original order are strictly
  ascending.
* `Final` — everything from a position on is in its place.
* `bubblePass_spec`, `bubblesortFrom_spec` — one pass and all of them.
* `BubblesortStable`, `bubblesort_stable` — the array is sorted, and equal elements keep their order.
* `bubblesort_smallerLast` — where the offsets wrap, a smaller element at the end stays there.
* **`bubblesort_stable_iff`** — bubblesort sorts all arrays of an extent iff the offsets fit.
-/

namespace GrubKernel
namespace Sorting

open Loop

section Invariants

variable {α : Type*} {comparatorFptr : α → α → ℤ} {count n : ℕ} {data data' : ℕ → α}

/-! ## Stability -/

/-- `data'` is `data` permuted below `count`, where two elements that have changed their order are
strictly ascending. -/
def StablyRearranged (comparatorFptr : α → α → ℤ) (count : ℕ) (data data' : ℕ → α) : Prop :=
  ∃ σ : Equiv.Perm ℕ, (∀ i, count ≤ i → σ i = i) ∧ data' = data ∘ σ ∧
    ∀ i j, i < j → j < count → σ j < σ i → comparatorFptr (data' i) (data' j) < 0

lemma StablyRearranged.refl (comparatorFptr : α → α → ℤ) (count : ℕ) (data : ℕ → α) :
    StablyRearranged comparatorFptr count data data := by
  refine ⟨1, fun _ _ => rfl, rfl, fun i j hij _ hji => ?_⟩
  exact absurd hij (not_lt.mpr hji.le)

/-- Exchanging neighbours keeps the order of every other pair. -/
lemma swap_lt_swap {i p q : ℕ} (hpq : p < q) (hne : ¬ (p = i ∧ q = i + 1)) :
    Equiv.swap i (i + 1) p < Equiv.swap i (i + 1) q := by
  rw [Equiv.swap_apply_def, Equiv.swap_apply_def]
  split_ifs <;> omega

/-- Exchanging neighbours that are in the wrong order. -/
lemma StablyRearranged.exchange (hcmp : TotalPreorder comparatorFptr) {i : ℕ}
    (h : StablyRearranged comparatorFptr count data data') (hi : i + 1 < count)
    (hwrong : 0 < comparatorFptr (data' i) (data' (i + 1))) :
    StablyRearranged comparatorFptr count data (data' ∘ Equiv.swap i (i + 1)) := by
  obtain ⟨σ, hσ, hdata, hstable⟩ := h
  refine ⟨σ * Equiv.swap i (i + 1), fun k hk => ?_, ?_, fun p q hpq hq hout => ?_⟩
  · rw [Equiv.Perm.mul_apply, Equiv.swap_apply_of_ne_of_ne (by omega) (by omega), hσ k hk]
  · rw [hdata, Equiv.Perm.coe_mul, Function.comp_assoc]
  · rw [Function.comp_apply, Function.comp_apply]
    by_cases hpair : p = i ∧ q = i + 1
    · obtain ⟨rfl, rfl⟩ := hpair
      rw [Equiv.swap_apply_left, Equiv.swap_apply_right]
      exact (hcmp.sign _ _).mpr hwrong
    · have hlt : Equiv.swap i (i + 1) q < count := by
        rw [Equiv.swap_apply_def]
        split_ifs <;> omega
      exact hstable _ _ (swap_lt_swap hpq hpair) hlt hout

/-! ## The tail of the array -/

/-- From position `n` on every element is in its place. -/
def Final (comparatorFptr : α → α → ℤ) (n count : ℕ) (data : ℕ → α) : Prop :=
  ∀ i j, i < j → n ≤ j → j < count → comparatorFptr (data i) (data j) ≤ 0

/-- An exchange before position `n` does not touch the tail. -/
lemma Final.exchange {i : ℕ} (h : Final comparatorFptr n count data) (hi : i + 1 < n) :
    Final comparatorFptr n count (data ∘ Equiv.swap i (i + 1)) := by
  intro p q hpq hq hcount
  have hfix : Equiv.swap i (i + 1) q = q := Equiv.swap_apply_of_ne_of_ne (by omega) (by omega)
  have hlt : Equiv.swap i (i + 1) p < q := by
    rw [Equiv.swap_apply_def]
    split_ifs <;> omega
  rw [Function.comp_apply, Function.comp_apply, hfix]
  exact h _ q hlt hq hcount

/-- With the greatest of the first elements at their end the tail is longer. -/
lemma Final.extend (h : Final comparatorFptr (n + 1) count data)
    (hmax : ∀ k < n, comparatorFptr (data k) (data n) ≤ 0) : Final comparatorFptr n count data := by
  intro p q hpq hq hcount
  rcases Nat.eq_or_lt_of_le hq with rfl | hlt
  · exact hmax p hpq
  · exact h p q hpq hlt hcount

/-! ## One round -/

/-- What holds before round `i` of the pass over the first `n` elements. -/
structure PassInv (comparatorFptr : α → α → ℤ) (n count : ℕ) (data : ℕ → α) (i : ℕ) (s : State α) :
    Prop where
  stable : StablyRearranged comparatorFptr count data s.data
  final : Final comparatorFptr n count s.data
  max : ∀ k < i, comparatorFptr (s.data k) (s.data i) ≤ 0

/-- One round: the greater of two neighbours is behind the other. -/
lemma PassInv.exchange (hcmp : TotalPreorder comparatorFptr) {i : ℕ} {s s' : State α}
    (h : PassInv comparatorFptr n count data i s) (hi : i + 1 < n) (hn : n ≤ count)
    (hwrong : 0 < comparatorFptr (s.data i) (s.data (i + 1)))
    (hs' : s'.data = s.data ∘ Equiv.swap i (i + 1)) :
    PassInv comparatorFptr n count data (i + 1) s' := by
  refine ⟨?_, ?_, fun k hk => ?_⟩
  · rw [hs']
    exact h.stable.exchange hcmp (by omega) hwrong
  · rw [hs']
    exact h.final.exchange hi
  · rw [hs', Function.comp_apply, Function.comp_apply, Equiv.swap_apply_right]
    rcases Nat.lt_succ_iff_lt_or_eq.mp hk with hlt | rfl
    · rw [Equiv.swap_apply_of_ne_of_ne (by omega) (by omega)]
      exact h.max k hlt
    · rw [Equiv.swap_apply_left]
      exact ((hcmp.sign _ _).mpr hwrong).le

lemma PassInv.keep (hcmp : TotalPreorder comparatorFptr) {i : ℕ} {s s' : State α}
    (h : PassInv comparatorFptr n count data i s)
    (hright : ¬ 0 < comparatorFptr (s.data i) (s.data (i + 1))) (hs' : s'.data = s.data) :
    PassInv comparatorFptr n count data (i + 1) s' := by
  have hle : comparatorFptr (s.data i) (s.data (i + 1)) ≤ 0 := not_lt.mp hright
  refine ⟨hs' ▸ h.stable, hs' ▸ h.final, fun k hk => ?_⟩
  rw [hs']
  rcases Nat.lt_succ_iff_lt_or_eq.mp hk with hlt | rfl
  · exact hcmp.trans _ _ _ (h.max k hlt) hle
  · exact hle

end Invariants

/-! ## The loops -/

variable {a : Extent} {comparatorFptr : Element a.elementSize → Element a.elementSize → ℤ}
variable {swapFptr : (ℕ → Element a.elementSize) → ℕ → ℕ → ℕ → Element a.elementSize}
variable {n : ℕ} {data : ℕ → Element a.elementSize}

/-- **A pass makes the tail one longer.** -/
lemma bubblePass_spec (hfits : a.Fits) (hcmp : TotalPreorder comparatorFptr) (hswap : Exchanges swapFptr)
    (hn : n + 1 ≤ a.elementCount) {s : State (Element a.elementSize)}
    (hstable : StablyRearranged comparatorFptr a.elementCount data s.data)
    (hfinal : Final comparatorFptr (n + 1) a.elementCount s.data) :
    StablyRearranged comparatorFptr a.elementCount data
      (bubblePass a comparatorFptr swapFptr (n + 1) s).data ∧
    Final comparatorFptr n a.elementCount (bubblePass a comparatorFptr swapFptr (n + 1) s).data := by
  have hinv : PassInv comparatorFptr (n + 1) a.elementCount data (n + 1 - 1)
      (bubblePass a comparatorFptr swapFptr (n + 1) s) := by
    rw [bubblePass]
    refine forLoop_inv (PassInv comparatorFptr (n + 1) a.elementCount data) _ ?_ fun i hi t ht => ?_
    · exact ⟨hstable, hfinal, fun k hk => absurd hk (Nat.not_lt_zero k)⟩
    · dsimp only
      rw [compareAt_eq hfits (by omega) (by omega)]
      by_cases hwrong : comparatorFptr (t.data i) (t.data (i + 1)) > 0
      · rw [if_pos hwrong]
        exact ht.exchange hcmp (by omega) hn hwrong (hswap t.data i (i + 1))
      · rw [if_neg hwrong]
        exact ht.keep hcmp hwrong rfl
  rw [Nat.add_sub_cancel] at hinv
  exact ⟨hinv.stable, hinv.final.extend hinv.max⟩

/-- **All passes.** -/
lemma bubblesortFrom_spec (hfits : a.Fits) (hcmp : TotalPreorder comparatorFptr)
    (hswap : Exchanges swapFptr) (n : ℕ) :
    ∀ s : State (Element a.elementSize), n ≤ a.elementCount →
      StablyRearranged comparatorFptr a.elementCount data s.data →
      Final comparatorFptr n a.elementCount s.data →
      StablyRearranged comparatorFptr a.elementCount data
        (bubblesortFrom a comparatorFptr swapFptr n s).data ∧
      Final comparatorFptr 1 a.elementCount (bubblesortFrom a comparatorFptr swapFptr n s).data := by
  induction n with
  | zero =>
      intro s _ hstable hfinal
      exact ⟨hstable, fun i j hij _ hj => hfinal i j hij (Nat.zero_le j) hj⟩
  | succ n ih =>
      intro s hn hstable hfinal
      rw [bubblesortFrom]
      by_cases hmore : n + 1 > 1
      · rw [if_pos hmore]
        obtain ⟨hstable', hfinal'⟩ := bubblePass_spec hfits hcmp hswap hn hstable hfinal
        exact ih _ (by omega) hstable' hfinal'
      · rw [if_neg hmore]
        obtain rfl : n = 0 := by omega
        exact ⟨hstable, hfinal⟩

/-- Bubblesort permutes the elements within the array, into ascending order, and those that compare equal
stay in the order they had. -/
def BubblesortStable (a : Extent) (comparatorFptr : Element a.elementSize → Element a.elementSize → ℤ)
    (swapFptr : (ℕ → Element a.elementSize) → ℕ → ℕ → ℕ → Element a.elementSize)
    (data : ℕ → Element a.elementSize) : Prop :=
  ∃ σ : Equiv.Perm ℕ, (∀ i, a.elementCount ≤ i → σ i = i) ∧
    (bubblesort a comparatorFptr swapFptr ⟨data, []⟩).data = data ∘ σ ∧
    ∀ i j, i < j → j < a.elementCount →
      comparatorFptr (data (σ i)) (data (σ j)) ≤ 0 ∧
      (comparatorFptr (data (σ i)) (data (σ j)) = 0 → σ i < σ j)

/-- Where the offsets fit, bubblesort is a stable sort. -/
lemma bubblesort_stable (hfits : a.Fits) (hcmp : TotalPreorder comparatorFptr)
    (hswap : Exchanges swapFptr) (data : ℕ → Element a.elementSize) :
    BubblesortStable a comparatorFptr swapFptr data := by
  obtain ⟨⟨σ, hσ, hdata, hstable⟩, hfinal⟩ := bubblesortFrom_spec hfits hcmp hswap a.elementCount
    ⟨data, []⟩ le_rfl (StablyRearranged.refl comparatorFptr a.elementCount data)
    fun i j _ hle hlt => absurd hlt (not_lt.mpr hle)
  rw [hdata] at hstable hfinal
  refine ⟨σ, hσ, hdata, fun i j hij hj => ⟨hfinal i j hij (by omega) hj, fun heq => ?_⟩⟩
  by_contra hnot
  have hne : σ i ≠ σ j := fun h => hij.ne (σ.injective h)
  have hlt := hstable i j hij hj (by omega)
  rw [Function.comp_apply, Function.comp_apply, heq] at hlt
  exact lt_irrefl 0 hlt

/-! ## Offsets that wrap -/

/-- Where no comparison sees the last element, nothing is exchanged. -/
lemma bubblesort_smallerLast (hfits : ¬ a.Fits) (n : ℕ) :
    ∀ s : State (Element a.elementSize), s.data = smallerLast a →
      (bubblesortFrom a (compareFirst a) swapFptr n s).data = smallerLast a := by
  induction n with
  | zero => exact fun s hs => hs
  | succ n ih =>
      intro s hs
      have hpass : (bubblePass a (compareFirst a) swapFptr (n + 1) s).data = smallerLast a := by
        rw [bubblePass]
        refine forLoop_inv (fun _ (t : State (Element a.elementSize)) => t.data = smallerLast a) _ hs
          fun i _ t ht => ?_
        obtain ⟨heven, hdata⟩ := compareAt_smallerLast hfits ht i (i + 1)
        dsimp only
        rw [heven, if_neg (lt_irrefl 0)]
        exact hdata
      rw [bubblesortFrom]
      split_ifs
      · exact ih _ hpass
      · exact hs

lemma not_bubblesortStable_smallerLast (hfits : ¬ a.Fits) :
    ¬ BubblesortStable a (compareFirst a) swapFptr (smallerLast a) := by
  rintro ⟨σ, -, hdata, hasc⟩
  obtain ⟨hpos, hwrong⟩ := not_le_smallerLast hfits
  rw [bubblesort, bubblesort_smallerLast hfits _ _ rfl] at hdata
  have hle := (hasc 0 (a.elementCount - 1) hpos (by omega)).1
  have hat : ∀ i, smallerLast a (σ i) = smallerLast a i := fun i => (congrFun hdata i).symm
  rw [hat, hat] at hle
  exact hwrong hle

/-- **Bubblesort is a stable sort** of all arrays of an extent, with every comparison that is a total
preorder and every function that exchanges two elements, if and only if the offsets of all elements are
below 4 GiB. -/
theorem bubblesort_stable_iff (a : Extent) :
    (∀ comparatorFptr, TotalPreorder comparatorFptr → ∀ swapFptr, Exchanges swapFptr → ∀ data,
      BubblesortStable a comparatorFptr swapFptr data) ↔ a.Fits := by
  constructor
  · intro hall
    by_contra hfits
    exact not_bubblesortStable_smallerLast hfits (hall (compareFirst a) (compareFirst_totalPreorder a)
      (fun data i j => data ∘ Equiv.swap i j) (fun _ _ _ => rfl) (smallerLast a))
  · intro hfits comparatorFptr hcmp swapFptr hswap data
    exact bubblesort_stable hfits hcmp hswap data

/-- Three integers, two of them equal. -/
theorem bubblesort_stable_iff_three :
    BubblesortStable threeInts intComparator intSwap
      fun i => if i = 1 then ![0, 0, 0, 0] else ![5, 0, 0, 0] :=
  (bubblesort_stable_iff threeInts).mpr (by decide) intComparator
    intComparator_totalPreorder intSwap intSwap_exchanges _

/-- Three elements of 2 GiB, the last of which is smaller than the other two: it stays at the end. -/
theorem not_bubblesortStable :
    ∃ a : Extent, a.elementCount = 3 ∧ a.elementSize = 2 ^ 31 ∧
      ∃ comparatorFptr, TotalPreorder comparatorFptr ∧ ∃ swapFptr, Exchanges swapFptr ∧
        ¬ BubblesortStable a comparatorFptr swapFptr fun i _ => if i < 2 then 1 else 0 := by
  refine ⟨⟨3, 2 ^ 31, by decide, by decide, by decide⟩, rfl, rfl, _, compareFirst_totalPreorder _,
    fun data i j => data ∘ Equiv.swap i j, fun _ _ _ => rfl, ?_⟩
  exact not_bubblesortStable_smallerLast (by decide)

end Sorting
end GrubKernel
