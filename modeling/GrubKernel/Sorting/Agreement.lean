import GrubKernel.Sorting.Bubblesort
import GrubKernel.Sorting.Quicksort
import GrubKernel.Sorting.Random

/-!
# The two sorts agree

The tests shuffle an array and sort it again.  Sorting forgets the order of the elements, and it does not
matter which of the two functions sorts.

* `bubblesort_sorted` — bubblesort, like quicksort, leaves a rearrangement that is in order.
* **`sorts_agree`** — one sort after `shuffle` agrees with the other one without it.
-/

namespace GrubKernel
namespace Sorting

open CInt Exchange Loop

/-- Two rearrangements of an array, both in order, agree but for elements that compare equal. -/
lemma agree_of_ascending {α : Type*} {comparatorFptr : α → α → ℤ} (hcmp : TotalPreorder comparatorFptr)
    {n : ℕ} {data d₁ d₂ : ℕ → α} (h₁ : Rearranged 0 n data d₁) (h₂ : Rearranged 0 n data d₂)
    (hasc₁ : Ascending comparatorFptr 0 n d₁)
    (hasc₂ : Ascending comparatorFptr 0 n d₂) {i : ℕ} (hi : i < n) :
    comparatorFptr (d₁ i) (d₂ i) = 0 := by
  have hsorted : ∀ d : ℕ → α, Ascending comparatorFptr 0 n d →
      ∀ i j, i ≤ j → j < n → comparatorFptr (d i) (d j) ≤ 0 := by
    intro d hasc i j hij hj
    rcases Nat.eq_or_lt_of_le hij with rfl | hlt
    · exact hcmp.self_le _
    · exact hasc i j (Nat.zero_le i) hlt hj
  have hle := (h₂.symm.trans h₁).le_of_sorted hcmp.trans (hsorted d₂ hasc₂) (hsorted d₁ hasc₁) hi
  have hge := (h₁.symm.trans h₂).le_of_sorted hcmp.trans (hsorted d₁ hasc₁) (hsorted d₂ hasc₂) hi
  have hsign := hcmp.sign (d₁ i) (d₂ i)
  omega

variable {a : Extent} {comparatorFptr : Element a.elementSize → Element a.elementSize → ℤ}
variable {swapFptr : (ℕ → Element a.elementSize) → ℕ → ℕ → ℕ → Element a.elementSize}

/-- Bubblesort rearranges the array and leaves it in order. -/
lemma bubblesort_sorted (hfits : a.Fits) (hcmp : TotalPreorder comparatorFptr) (hswap : Exchanges swapFptr)
    (data : ℕ → Element a.elementSize) :
    Rearranged 0 a.elementCount data (bubblesort a comparatorFptr swapFptr ⟨data, []⟩).data ∧
      Ascending comparatorFptr 0 a.elementCount (bubblesort a comparatorFptr swapFptr ⟨data, []⟩).data := by
  obtain ⟨σ, hσ, hdata, hasc⟩ := bubblesort_stable hfits hcmp hswap data
  refine ⟨⟨σ, fun i hi => hσ i (by omega), hdata⟩, fun i j _ hij hj => ?_⟩
  rw [hdata]
  exact (hasc i j hij hj).1

/-- **Sorting forgets the shuffle, and the two sorts agree.**  Shuffle an array with a seed that keeps
the exchanges inside it and sort it with quicksort; and sort the array as it was with bubblesort.
Quicksort returns, and the results compare equal at every index. -/
theorem sorts_agree (hfits : a.Fits) (hcmp : TotalPreorder comparatorFptr) (hswap : Exchanges swapFptr)
    (hcount : a.elementCount ≤ 2 ^ 31 - 1) {rdrandAvailable : Bool} {rdrand : UInt32} {shuffleCount : ℤ}
    {data : ℕ → Element a.elementSize}
    (hinside : KeepsInside floatIndex swapFptr rdrandAvailable rdrand shuffleCount a.elementCount data)
    {fuel : ℕ} (hfuel : 2 * a.elementCount + 1 ≤ fuel) :
    ∃ s, quicksort a comparatorFptr swapFptr fuel
        ⟨(shuffle floatIndex swapFptr rdrandAvailable rdrand shuffleCount a.elementCount
          ⟨data, []⟩).2.data, []⟩ = some s ∧
      ∀ i < a.elementCount,
        comparatorFptr (s.data i) ((bubblesort a comparatorFptr swapFptr ⟨data, []⟩).data i) = 0 := by
  obtain ⟨-, hshuffled⟩ := hinside
  rw [Int.toNat_natCast] at hshuffled
  obtain ⟨s, hs, hconf, hasc⟩ := quicksort_spec hfits hcmp hswap hcount
    (shuffle floatIndex swapFptr rdrandAvailable rdrand shuffleCount a.elementCount ⟨data, []⟩).2.data hfuel
  obtain ⟨hbubble, hasc'⟩ := bubblesort_sorted hfits hcmp hswap data
  exact ⟨s, hs, fun i hi =>
    agree_of_ascending hcmp (hshuffled.trans hconf.rearranged) hbubble hasc hasc' hi⟩

/-- The integers 2, 0 and 0. -/
def twoFirst (i : ℕ) : Element 4 := if i = 0 then ![2, 0, 0, 0] else ![0, 0, 0, 0]

/-- Three integers, shuffled once from the seed `0`: the sorted arrays are the same. -/
theorem sorts_agree_three :
    ∃ s : State (Element 4), quicksort threeInts intComparator intSwap 7
        ⟨(shuffle floatIndex intSwap true 0 1 3 ⟨twoFirst, []⟩).2.data, []⟩ = some s ∧
      ∀ i < 3, intComparator (s.data i)
        ((bubblesort threeInts intComparator intSwap ⟨twoFirst, []⟩).data i) = 0 := by
  have hinside : KeepsInside floatIndex intSwap true 0 1 3 twoFirst := by
    refine (keepsInside_iff_draws intSwap_exchanges 0 1 (by decide) (by decide) _).mpr fun k hk hk' => ?_
    rcases (show k = 2 ∨ k = 3 by rw [Int.toNat_one] at hk'; omega) with rfl | rfl
    · decide
    · decide
  exact sorts_agree (a := threeInts) (by decide) intComparator_totalPreorder intSwap_exchanges (by decide)
    hinside (show 2 * 3 + 1 ≤ 7 by decide)

end Sorting
end GrubKernel
