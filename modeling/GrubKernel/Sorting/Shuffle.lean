import GrubKernel.Lib.CongruentialGenerator
import GrubKernel.Sorting.Model
import Mathlib.Algebra.Order.Floor.Semifield

/-!
# Shuffle

`shuffle` draws two random numbers a round, scales each to an index of the array and exchanges the
elements there.  The numbers are divided by `0xFFFFFFFF`, the greatest number there is, so without
rounding that number alone is scaled to the number of elements, which is no index.

* `nextRandom_eq_next`, `nextRandom_iterate` — the generator is one of the library's, and the numbers
  drawn.
* `scaledIndex_lt_iff` — the one number that is scaled behind the array.
* `Shuffled`, `shuffle_shuffled` — the exchanges made, however the numbers are scaled.
* **`shuffle_keepsInside_iff`** — `shuffle` exchanges elements of the array only if and only if it does
  not draw that number, a condition on the seed.
-/

namespace GrubKernel
namespace Sorting

open CInt CongruentialGenerator Exchange Loop

/-! ## The generator -/

/-- One step of the generator, from one `unsigned int` to the next. -/
def nextRandom (x : ℕ) : ℕ := retrievePseudoRandom (toInt x)

/-- The generator of `random.c`.  The sign of the `int` parameter does not matter. -/
lemma nextRandom_eq_next : nextRandom = next 1103515245 12345 32 := by
  funext x
  have hcast := toInt_emod x
  rw [nextRandom, retrievePseudoRandom, next]
  omega

lemma nextRandom_iterate_lt {seed : ℕ} (h : seed < 2 ^ 32) (k : ℕ) : nextRandom^[k] seed < 2 ^ 32 := by
  rw [nextRandom_eq_next]
  exact iterate_lt h k

/-- **The number drawn after `k` steps.** -/
theorem nextRandom_iterate {seed : ℕ} (h : seed < 2 ^ 32) (k : ℕ) :
    nextRandom^[k] seed
      = (1103515245 ^ k * seed + 12345 * ∑ j ∈ Finset.range k, 1103515245 ^ j) % 2 ^ 32 := by
  have hmod : (next 1103515245 12345 32)^[k] seed
      ≡ 1103515245 ^ k * seed + 12345 * ∑ j ∈ Finset.range k, 1103515245 ^ j [MOD 2 ^ 32] :=
    iterate_modEq seed k
  rw [← nextRandom_eq_next, Nat.ModEq, Nat.mod_eq_of_lt (nextRandom_iterate_lt h k)] at hmod
  exact hmod

/-! ## Scaling -/

lemma scaledIndex_eq (x : ℕ) {elementCount : ℤ} (h : 0 ≤ elementCount) :
    scaledIndex x elementCount = x * elementCount.toNat / 0xFFFFFFFF := by
  have hcount : (elementCount : ℚ) = ((elementCount.toNat : ℕ) : ℚ) := by
    rw [← Int.cast_natCast, Int.toNat_of_nonneg h]
  have hquot : (x : ℚ) / 0xFFFFFFFF * elementCount
      = ((x * elementCount.toNat : ℕ) : ℚ) / ((0xFFFFFFFF : ℕ) : ℚ) := by
    rw [hcount, Nat.cast_mul]
    push_cast
    ring
  rw [scaledIndex, hquot, Nat.floor_div_eq_div]

/-- **Only the greatest number is scaled behind the array.** -/
theorem scaledIndex_lt_iff {x : ℕ} (hx : x < 2 ^ 32) {elementCount : ℤ} (h : 1 ≤ elementCount) :
    (scaledIndex x elementCount : ℤ) < elementCount ↔ x ≠ 2 ^ 32 - 1 := by
  have hcount : (elementCount.toNat : ℤ) = elementCount := Int.toNat_of_nonneg (by omega)
  have hpos : 0 < elementCount.toNat := by omega
  rw [scaledIndex_eq x (by omega)]
  have hlt : x * elementCount.toNat / 0xFFFFFFFF < elementCount.toNat ↔ x < 0xFFFFFFFF := by
    rw [Nat.div_lt_iff_lt_mul (by decide), Nat.mul_comm elementCount.toNat]
    exact Nat.mul_lt_mul_right hpos
  omega

/-! ## The rounds -/

variable {α : Type*} {indexOf : ℕ → ℤ → ℕ} {swapFptr : (ℕ → α) → ℕ → ℕ → ℕ → α}

/-- Every index that `shuffle` exchanges is one of the array, and the array ends as a permutation of
what it was. -/
def KeepsInside (indexOf : ℕ → ℤ → ℕ) (swapFptr : (ℕ → α) → ℕ → ℕ → ℕ → α) (rdrandAvailable : Bool)
    (rdrand : UInt32) (shuffleCount elementCount : ℤ) (data : ℕ → α) : Prop :=
  let s := (shuffle indexOf swapFptr rdrandAvailable rdrand shuffleCount elementCount ⟨data, []⟩).2
  (∀ i ∈ s.touched, (i : ℤ) < elementCount) ∧ Rearranged 0 elementCount.toNat data s.data

/-- What holds after `n` rounds: the numbers drawn so far are the second to the `2 * n + 1`-th, and the
indices exchanged are theirs. -/
structure Shuffled (indexOf : ℕ → ℤ → ℕ) (elementCount : ℤ) (seed : ℕ) (data : ℕ → α) (n x0 : ℕ)
    (s : State α) : Prop where
  drawn : x0 = nextRandom^[2 * n + 1] seed
  touched : ∀ i, i ∈ s.touched ↔
    ∃ k, 2 ≤ k ∧ k ≤ 2 * n + 1 ∧ i = indexOf (nextRandom^[k] seed) elementCount
  rearranged : (∀ i ∈ s.touched, (i : ℤ) < elementCount) →
    Rearranged 0 elementCount.toNat data s.data

/-- One round. -/
lemma Shuffled.round (hswap : Exchanges swapFptr) {elementCount : ℤ} {seed n x0 : ℕ} {data : ℕ → α}
    {s : State α} (h : Shuffled indexOf elementCount seed data n x0 s) :
    Shuffled indexOf elementCount seed data (n + 1) (nextRandom (nextRandom x0))
      (swapAt swapFptr s (indexOf (nextRandom x0) elementCount)
        (indexOf (nextRandom (nextRandom x0)) elementCount)) := by
  have hone : nextRandom x0 = nextRandom^[2 * n + 2] seed := by
    rw [h.drawn]
    exact (Function.iterate_succ_apply' nextRandom _ _).symm
  have htwo : nextRandom (nextRandom x0) = nextRandom^[2 * n + 3] seed := by
    rw [hone]
    exact (Function.iterate_succ_apply' nextRandom _ _).symm
  refine ⟨htwo, fun i => ?_, fun hall => ?_⟩
  · rw [swapAt, hone, ← Function.iterate_succ_apply' nextRandom]
    simp only [List.mem_append, List.mem_cons, List.not_mem_nil, or_false, h.touched]
    constructor
    · rintro (⟨k, hk, hk', rfl⟩ | rfl | rfl)
      · exact ⟨k, hk, by omega, rfl⟩
      · exact ⟨2 * n + 2, by omega, by omega, rfl⟩
      · exact ⟨2 * n + 3, by omega, by omega, rfl⟩
    · rintro ⟨k, hk, hk', rfl⟩
      rcases Nat.lt_or_ge k (2 * n + 2) with hlt | hge
      · exact Or.inl ⟨k, hk, by omega, rfl⟩
      · rcases Nat.eq_or_lt_of_le hge with rfl | hgt
        · exact Or.inr (Or.inl rfl)
        · obtain rfl : k = 2 * n + 3 := by omega
          exact Or.inr (Or.inr rfl)
  · have hbefore : ∀ i ∈ s.touched, (i : ℤ) < elementCount := fun i hi =>
      hall i (List.mem_append_left _ hi)
    have hfirst := hall (indexOf (nextRandom x0) elementCount)
      (List.mem_append_right _ (by simp))
    have hsecond := hall (indexOf (nextRandom (nextRandom x0)) elementCount)
      (List.mem_append_right _ (by simp))
    refine (h.rearranged hbefore).trans ?_
    rw [swapAt]
    dsimp only
    rw [hswap]
    exact Rearranged.exchange (by omega) (by omega) s.data

variable (indexOf) in
/-- **All rounds.** -/
lemma shuffle_shuffled (hswap : Exchanges swapFptr) (rdrand : UInt32) (shuffleCount elementCount : ℤ)
    (data : ℕ → α) :
    ∃ x0, Shuffled indexOf elementCount rdrand.toNat data shuffleCount.toNat x0
      (shuffle indexOf swapFptr true rdrand shuffleCount elementCount ⟨data, []⟩).2 := by
  refine ⟨_, forLoop_inv (fun n (p : ℕ × State α) =>
    Shuffled indexOf elementCount rdrand.toNat data n p.1 p.2) shuffleCount.toNat ?_ fun n _ p hp => ?_⟩
  · refine ⟨?_, fun i => ?_, fun _ => Rearranged.refl _ _ data⟩
    · rw [Nat.mul_zero, Nat.zero_add, Function.iterate_one]
      rfl
    · constructor
      · intro hi
        simp at hi
      · rintro ⟨k, hk, hk', -⟩
        omega
  · obtain ⟨x0, s⟩ := p
    exact hp.round hswap

/-- `shuffle` stays inside the array iff the indices of the numbers it draws are. -/
lemma keepsInside_iff_indices (hswap : Exchanges swapFptr) (rdrand : UInt32)
    (shuffleCount elementCount : ℤ) (data : ℕ → α) :
    KeepsInside indexOf swapFptr true rdrand shuffleCount elementCount data ↔
      ∀ k, 2 ≤ k → k ≤ 2 * shuffleCount.toNat + 1 →
        (indexOf (nextRandom^[k] rdrand.toNat) elementCount : ℤ) < elementCount := by
  obtain ⟨x0, hs⟩ := shuffle_shuffled indexOf hswap rdrand shuffleCount elementCount data
  constructor
  · rintro ⟨hinside, -⟩ k hk hk'
    exact hinside _ ((hs.touched _).mpr ⟨k, hk, hk', rfl⟩)
  · intro hindices
    have hinside : ∀ i ∈ (shuffle indexOf swapFptr true rdrand shuffleCount elementCount
        ⟨data, []⟩).2.touched, (i : ℤ) < elementCount := by
      intro i hi
      obtain ⟨k, hk, hk', rfl⟩ := (hs.touched i).mp hi
      exact hindices k hk hk'
    exact ⟨hinside, hs.rearranged hinside⟩

/-- **`shuffle` stays inside the array** if and only if none of the numbers it draws is the greatest one.
The `k`-th number is the residue of an affine function of the seed, so this is a condition on the seed
and the number of rounds. -/
theorem shuffle_keepsInside_iff (hswap : Exchanges swapFptr) (rdrandAvailable : Bool) (rdrand : UInt32)
    (shuffleCount : ℤ) {elementCount : ℤ} (h : 1 ≤ elementCount) (data : ℕ → α) :
    KeepsInside scaledIndex swapFptr rdrandAvailable rdrand shuffleCount elementCount data ↔
      rdrandAvailable = false ∨
      ∀ k, 2 ≤ k → k ≤ 2 * shuffleCount.toNat + 1 →
        (1103515245 ^ k * rdrand.toNat + 12345 * ∑ j ∈ Finset.range k, 1103515245 ^ j) % 2 ^ 32
          ≠ 2 ^ 32 - 1 := by
  cases rdrandAvailable with
  | false =>
      refine ⟨fun _ => Or.inl rfl, fun _ => ⟨fun i hi => ?_, Rearranged.refl _ _ data⟩⟩
      simp [shuffle] at hi
  | true =>
      have hdrawn : ∀ k, (scaledIndex (nextRandom^[k] rdrand.toNat) elementCount : ℤ) < elementCount
          ↔ (1103515245 ^ k * rdrand.toNat + 12345 * ∑ j ∈ Finset.range k, 1103515245 ^ j) % 2 ^ 32
              ≠ 2 ^ 32 - 1 := by
        intro k
        rw [nextRandom_iterate rdrand.toNat_lt]
        exact scaledIndex_lt_iff (Nat.mod_lt _ (by decide)) h
      rw [keepsInside_iff_indices hswap, or_iff_right (by decide)]
      simp only [hdrawn]

/-- One round from the seed `0`, on three elements. -/
theorem shuffle_keepsInside_zero : KeepsInside scaledIndex intSwap true 0 1 3 fun i => (i : ℤ) := by
  refine (shuffle_keepsInside_iff intSwap_exchanges true 0 1 (by decide) _).mpr (Or.inr ?_)
  intro k hk hk'
  have hcases : k = 2 ∨ k = 3 := by
    simp only [Int.toNat_one] at hk'
    omega
  rcases hcases with rfl | rfl
  · decide
  · decide

/-- One round from the seed that the greatest number is two steps from, on three elements. -/
theorem not_keepsInside : ¬ KeepsInside scaledIndex intSwap true 2948924249 1 3 fun i => (i : ℤ) := by
  rw [keepsInside_iff_indices intSwap_exchanges]
  intro hall
  have hlt := hall 2 le_rfl (by decide)
  rw [nextRandom_iterate (by decide), scaledIndex_eq _ (by decide)] at hlt
  exact absurd hlt (by decide)

end Sorting
end GrubKernel
