import GrubKernel.Sorting.Shuffle
import Mathlib.Data.Set.Card.Arithmetic

/-!
# The random numbers

`retrieve_pseudo_random` is a linear congruential generator modulo `2 ^ 32`, with a multiplier that is
one more than a multiple of four and an odd increment.  So its period is as long as can be, and the low
bits have short periods of their own.  `shuffle` scales the numbers with operations of the type `float`,
which round the greatest 128 numbers up to `2 ^ 32` and so to an index behind the array; the seeds on
which it draws one of them can be counted.

* **`nextRandom_period`** — the periods of the numbers and of their low bits.
* `nextRandom_bijOn` — a number of steps permutes the 32-bit numbers.
* `floatIndex_lt_iff` — the numbers that are scaled behind the array.
* `badDraws_ncard` — each draw is one of them for 128 seeds.
* **`shuffle_badSeeds`** — when `shuffle` leaves the array, and on how many seeds.
-/

namespace GrubKernel
namespace Sorting

open CInt CongruentialGenerator Exchange Loop Rounding

lemma nextRandom_iterate_eq_iff {seed : ℕ} (h : seed < 2 ^ 32) (k l : ℕ) :
    nextRandom^[k] seed = nextRandom^[l] seed ↔ k ≡ l [MOD 2 ^ 32] := by
  rw [nextRandom_eq_next]
  exact iterate_eq_iff (by decide) (by decide) h k l

/-- **The period of the generator.**  From every seed, the low `e` bits of the `k`-th and of the `l`-th
number agree iff `k` and `l` agree modulo `2 ^ e`; and every 32-bit number is drawn exactly once in the
first `2 ^ 32` steps. -/
theorem nextRandom_period (seed : UInt32) :
    (∀ e ≤ 32, ∀ k l, nextRandom^[k] seed.toNat ≡ nextRandom^[l] seed.toNat [MOD 2 ^ e] ↔
      k ≡ l [MOD 2 ^ e]) ∧
    ∀ y < 2 ^ 32, ∃! k, k < 2 ^ 32 ∧ nextRandom^[k] seed.toNat = y := by
  refine ⟨fun e he k l => ?_, fun y hy => ?_⟩
  · rw [nextRandom_eq_next]
    exact iterate_modEq_iff (by decide) (by decide) he _ k l
  · obtain ⟨k, hk, hdrawn⟩ := exists_iterate_eq (show 1103515245 % 4 = 1 by decide)
      (show 12345 % 2 = 1 by decide) seed.toNat_lt hy
    rw [← nextRandom_eq_next] at hdrawn
    refine ⟨k, ⟨hk, hdrawn⟩, fun l ⟨hl, hdrawn'⟩ => ?_⟩
    have hmod := (nextRandom_iterate_eq_iff seed.toNat_lt l k).mp (hdrawn'.trans hdrawn.symm)
    rwa [Nat.ModEq, Nat.mod_eq_of_lt hl, Nat.mod_eq_of_lt hk] at hmod

/-- From the seed `0`: every second number is even. -/
theorem nextRandom_period_parity : nextRandom^[2] 0 ≡ nextRandom^[4] 0 [MOD 2 ^ 1] :=
  ((nextRandom_period 0).1 1 (by decide) 2 4).mpr (by decide)

/-- From every number on the whole period is run through. -/
lemma nextRandom_iterate_period {x : ℕ} (hx : x < 2 ^ 32) (m : ℕ) : nextRandom^[2 ^ 32 * m] x = x :=
  (nextRandom_iterate_eq_iff hx (2 ^ 32 * m) 0).mpr (Nat.mul_mod_right _ _)

/-- The number that comes `k` steps before another. -/
lemma nextRandom_iterate_back {x : ℕ} (hx : x < 2 ^ 32) (k : ℕ) :
    nextRandom^[k] (nextRandom^[2 ^ 32 * k - k] x) = x := by
  rw [← Function.iterate_add_apply, Nat.add_sub_cancel' (Nat.le_mul_of_pos_left k (by decide)),
    nextRandom_iterate_period hx]

/-- **A number of steps permutes the 32-bit numbers.** -/
lemma nextRandom_bijOn (k : ℕ) : Set.BijOn nextRandom^[k] (Set.Iio (2 ^ 32)) (Set.Iio (2 ^ 32)) := by
  refine ⟨fun x hx => nextRandom_iterate_lt hx k, fun x hx y hy heq => ?_, fun y hy => ?_⟩
  · have hsame : nextRandom^[2 ^ 32 * k - k] (nextRandom^[k] x)
        = nextRandom^[2 ^ 32 * k - k] (nextRandom^[k] y) := by rw [heq]
    have hperiod : 2 ^ 32 * k - k + k = 2 ^ 32 * k :=
      Nat.sub_add_cancel (Nat.le_mul_of_pos_left k (by decide))
    rwa [← Function.iterate_add_apply, ← Function.iterate_add_apply, hperiod,
      nextRandom_iterate_period hx, nextRandom_iterate_period hy] at hsame
  · exact ⟨nextRandom^[2 ^ 32 * k - k] y, nextRandom_iterate_lt hy _, nextRandom_iterate_back hy k⟩

/-! ## Scaling with rounding -/

/-- The greatest 128 numbers are rounded to `2 ^ 32`. -/
lemma toFloat_top {x : ℕ} (hlo : 2 ^ 32 - 128 ≤ x) (hhi : x < 2 ^ 32) : toFloat x = 2 ^ 32 := by
  have hlo' : (2 : ℚ) ^ 32 - 128 ≤ x := by
    have h : ((2 ^ 32 - 128 : ℕ) : ℚ) ≤ x := Nat.cast_le.mpr hlo
    norm_num at h ⊢
    exact h
  have hhi' : (x : ℚ) < 2 ^ 32 := by exact_mod_cast hhi
  have h := roundTo_eq_two_zpow (p := 24) (by decide) (e := 32) (x := x)
    (by norm_num at hlo' ⊢; exact hlo') (by norm_num at hhi' ⊢; exact hhi')
  rw [toFloat, h]
  norm_num

/-- All others are rounded to a number below, by at least its last bit. -/
lemma toFloat_le {x : ℕ} (h : x < 2 ^ 32 - 128) : toFloat x ≤ 2 ^ 32 - 256 := by
  have h' : (x : ℚ) < 2 ^ 32 - 128 := by
    have hcast : (x : ℚ) < ((2 ^ 32 - 128 : ℕ) : ℚ) := Nat.cast_lt.mpr h
    norm_num at hcast ⊢
    exact hcast
  have hle := roundTo_le_pred (p := 24) (by decide) (e := 32) (x := x) (Nat.cast_nonneg x)
    (by norm_num at h' ⊢; exact h')
  rw [toFloat]
  norm_num at hle ⊢
  exact hle

/-- The divisor is `2 ^ 32` as a `float`. -/
lemma toFloat_max : toFloat 0xFFFFFFFF = 2 ^ 32 := by
  exact_mod_cast toFloat_top (x := 0xFFFFFFFF) (by decide) (by decide)

lemma toFloat_natCast {n : ℕ} (h : n ≤ 2 ^ 24) : toFloat n = n := roundTo_natCast (by decide) h

/-- The quotient of a number that is not one of the greatest stays below one, by at least its
last bit. -/
lemma toFloat_quotient_le {x : ℕ} (h : x < 2 ^ 32 - 128) :
    toFloat (toFloat x / 2 ^ 32) ≤ 1 - 2 ^ (-24 : ℤ) := by
  have hle := toFloat_le h
  have hnonneg : 0 ≤ toFloat x := roundTo_nonneg (Nat.cast_nonneg x)
  have hquot : toFloat x / 2 ^ 32 < (2 : ℚ) ^ (0 : ℤ) - 2 ^ ((0 : ℤ) - (24 : ℕ) - 1) := by
    rw [div_lt_iff₀ (by norm_num)]
    norm_num at hle ⊢
    linarith
  have hpred := roundTo_le_pred (p := 24) (by decide) (div_nonneg hnonneg (by norm_num)) hquot
  rw [toFloat]
  norm_num at hpred ⊢
  exact hpred

/-- **The numbers that are scaled behind the array**: the greatest 128. -/
theorem floatIndex_lt_iff {x : ℕ} (hx : x < 2 ^ 32) {elementCount : ℤ} (h : 1 ≤ elementCount)
    (h' : elementCount ≤ 2 ^ 24) : (floatIndex x elementCount : ℤ) < elementCount ↔ x < 2 ^ 32 - 128 := by
  obtain ⟨n, rfl⟩ := Int.eq_ofNat_of_zero_le (show 0 ≤ elementCount by omega)
  have hn : toFloat n = n := toFloat_natCast (by omega)
  have hpos : (1 : ℚ) ≤ n := by exact_mod_cast h
  rw [floatIndex, toFloat_max, Int.cast_natCast, hn, Nat.cast_lt]
  constructor
  · intro hlt
    by_contra htop
    rw [toFloat_top (not_lt.mp htop) hx, div_self (by norm_num)] at hlt
    have hone : toFloat 1 = 1 := by exact_mod_cast toFloat_natCast (n := 1) (by decide)
    rw [hone, one_mul, hn, Nat.floor_natCast] at hlt
    exact lt_irrefl n hlt
  · intro hlow
    have hquot := toFloat_quotient_le hlow
    set u := toFloat (toFloat x / 2 ^ 32) with hu
    have hnonneg : 0 ≤ u := roundTo_nonneg (div_nonneg (roundTo_nonneg (Nat.cast_nonneg x)) (by norm_num))
    refine (Nat.floor_lt' (by omega)).mpr ?_
    calc toFloat (u * n) ≤ u * n * (1 + 2 ^ (-((24 : ℕ) : ℤ))) := roundTo_le (by positivity)
      _ ≤ (1 - 2 ^ (-24 : ℤ)) * n * (1 + 2 ^ (-((24 : ℕ) : ℤ))) := by gcongr
      _ < n := by
          norm_num
          linarith

/-! ## The seeds of `shuffle` -/

variable {α : Type*} {swapFptr : (ℕ → α) → ℕ → ℕ → ℕ → α}

/-- `shuffle` stays inside the array iff it draws none of the greatest 128 numbers. -/
lemma keepsInside_iff_draws (hswap : Exchanges swapFptr) (rdrand : UInt32) (shuffleCount : ℤ)
    {elementCount : ℤ} (h : 1 ≤ elementCount) (h' : elementCount ≤ 2 ^ 24) (data : ℕ → α) :
    KeepsInside floatIndex swapFptr true rdrand shuffleCount elementCount data ↔
      ∀ k, 2 ≤ k → k ≤ 2 * shuffleCount.toNat + 1 → nextRandom^[k] rdrand.toNat < 2 ^ 32 - 128 := by
  rw [keepsInside_iff_indices hswap]
  have hdrawn : ∀ k, (floatIndex (nextRandom^[k] rdrand.toNat) elementCount : ℤ) < elementCount ↔
      nextRandom^[k] rdrand.toNat < 2 ^ 32 - 128 := fun k =>
    floatIndex_lt_iff (nextRandom_iterate_lt rdrand.toNat_lt k) h h'
  simp only [hdrawn]

/-- The seeds from which the `k`-th number is one of the greatest 128. -/
def badDraws (k : ℕ) : Set ℕ := {r | r < 2 ^ 32 ∧ 2 ^ 32 - 128 ≤ nextRandom^[k] r}

/-- **Each draw leads out of the array from 128 seeds.** -/
lemma badDraws_ncard (k : ℕ) : (badDraws k).ncard = 128 := by
  obtain ⟨-, hinj, hsurj⟩ := nextRandom_bijOn k
  have himage : nextRandom^[k] '' badDraws k = Set.Ico (2 ^ 32 - 128) (2 ^ 32) := by
    ext y
    constructor
    · rintro ⟨r, ⟨hr, htop⟩, rfl⟩
      exact ⟨htop, nextRandom_iterate_lt hr k⟩
    · rintro ⟨htop, hy⟩
      obtain ⟨r, hr, rfl⟩ := hsurj hy
      exact ⟨r, ⟨hr, htop⟩, rfl⟩
  have hcard := (hinj.mono fun r hr => hr.1 : Set.InjOn nextRandom^[k] (badDraws k)).ncard_image
  rw [himage, ← Finset.coe_Ico, Set.ncard_coe_finset, Nat.card_Ico] at hcard
  omega

/-- The seeds on which `shuffle` leaves the array. -/
def badSeeds (swapFptr : (ℕ → α) → ℕ → ℕ → ℕ → α) (shuffleCount elementCount : ℤ) (data : ℕ → α) :
    Set ℕ :=
  {r | r < 2 ^ 32 ∧
    ¬ KeepsInside floatIndex swapFptr true (UInt32.ofNat r) shuffleCount elementCount data}

lemma badSeeds_eq (hswap : Exchanges swapFptr) (shuffleCount : ℤ) {elementCount : ℤ}
    (h : 1 ≤ elementCount) (h' : elementCount ≤ 2 ^ 24) (data : ℕ → α) :
    badSeeds swapFptr shuffleCount elementCount data
      = ⋃ k ∈ Finset.Icc 2 (2 * shuffleCount.toNat + 1), badDraws k := by
  ext r
  rw [badSeeds, Set.mem_ofPred_eq, keepsInside_iff_draws hswap _ shuffleCount h h' data]
  simp only [Set.mem_iUnion, Finset.mem_Icc, exists_prop, badDraws, Set.mem_ofPred_eq]
  constructor
  · rintro ⟨hr, hbad⟩
    push Not at hbad
    obtain ⟨k, hk, hk', hdrawn⟩ := hbad
    rw [UInt32.toNat_ofNat_of_lt' hr] at hdrawn
    exact ⟨k, ⟨hk, hk'⟩, hr, hdrawn⟩
  · rintro ⟨k, ⟨hk, hk'⟩, hr, htop⟩
    refine ⟨hr, fun hall => ?_⟩
    have hlt := hall k hk hk'
    rw [UInt32.toNat_ofNat_of_lt' hr] at hlt
    omega

/-- Already the greatest number is drawn from two seeds in each round, until all seeds draw it. -/
lemma le_badDraws_ncard (n : ℕ) :
    min (2 * n) (2 ^ 32) ≤ (⋃ k ∈ Finset.Icc 2 (2 * n + 1), badDraws k).ncard := by
  set m := min (2 * n) (2 ^ 32) with hm
  have htop : 2 ^ 32 - 1 < 2 ^ 32 := by decide
  set before : ℕ → ℕ := fun k => nextRandom^[2 ^ 32 * k - k] (2 ^ 32 - 1) with hbefore
  have hsub : before '' Set.Ico 2 (m + 2) ⊆ ⋃ k ∈ Finset.Icc 2 (2 * n + 1), badDraws k := by
    rintro _ ⟨k, ⟨hk, hk'⟩, rfl⟩
    simp only [Set.mem_iUnion, Finset.mem_Icc, exists_prop]
    refine ⟨k, ⟨hk, by omega⟩, nextRandom_iterate_lt htop _, ?_⟩
    rw [hbefore, nextRandom_iterate_back htop]
    decide
  have hinj : Set.InjOn before (Set.Ico 2 (m + 2)) := by
    rintro k ⟨hk, hk'⟩ l ⟨hl, hl'⟩ heq
    have hmod := (nextRandom_iterate_eq_iff htop _ _).mp heq
    unfold Nat.ModEq at hmod
    omega
  have hfinite : (⋃ k ∈ Finset.Icc 2 (2 * n + 1), badDraws k).Finite :=
    Set.Finite.biUnion (Finset.finite_toSet _) fun k _ =>
      (Set.finite_Iio (2 ^ 32)).subset fun r hr => hr.1
  have hle := Set.ncard_le_ncard hsub hfinite
  rwa [hinj.ncard_image, ← Finset.coe_Ico, Set.ncard_coe_finset, Nat.card_Ico, Nat.add_sub_cancel] at hle

/-- **When `shuffle` leaves the array, and on how many seeds.**  On an array of at most `2 ^ 24`
elements it does if and only if one of the numbers it draws is among the greatest 128.  Each draw is for
128 seeds, so at least two and at most 256 seeds for each round lead out of the array, until all of them
do. -/
theorem shuffle_badSeeds (hswap : Exchanges swapFptr) (shuffleCount : ℤ) {elementCount : ℤ}
    (h : 1 ≤ elementCount) (h' : elementCount ≤ 2 ^ 24) (data : ℕ → α) :
    (∀ rdrand : UInt32, KeepsInside floatIndex swapFptr true rdrand shuffleCount elementCount data ↔
      ∀ k, 2 ≤ k → k ≤ 2 * shuffleCount.toNat + 1 → nextRandom^[k] rdrand.toNat < 2 ^ 32 - 128) ∧
    (∀ k, (badDraws k).ncard = 128) ∧
    min (2 * shuffleCount.toNat) (2 ^ 32) ≤ (badSeeds swapFptr shuffleCount elementCount data).ncard ∧
    (badSeeds swapFptr shuffleCount elementCount data).ncard
      ≤ min (256 * shuffleCount.toNat) (2 ^ 32) := by
  refine ⟨fun rdrand => keepsInside_iff_draws hswap rdrand shuffleCount h h' data, badDraws_ncard, ?_, ?_⟩
  · rw [badSeeds_eq hswap shuffleCount h h' data]
    exact le_badDraws_ncard _
  · refine le_min ?_ ?_
    · rw [badSeeds_eq hswap shuffleCount h h' data]
      refine (Finset.set_ncard_biUnion_le _ badDraws).trans ?_
      simp only [badDraws_ncard, Finset.sum_const, Nat.card_Icc, smul_eq_mul]
      omega
    · have hsub : badSeeds swapFptr shuffleCount elementCount data ⊆ Set.Iio (2 ^ 32) := fun r hr => hr.1
      have hle := Set.ncard_le_ncard hsub (Set.finite_Iio _)
      rwa [← Finset.coe_Iio, Set.ncard_coe_finset, Nat.card_Iio] at hle

/-- One round on three elements: at least two seeds. -/
theorem shuffle_badSeeds_one : 2 ≤ (badSeeds intSwap 1 3 fun i => (i : ℤ)).ncard :=
  (shuffle_badSeeds intSwap_exchanges 1 (by decide) (by decide) _).2.2.1

end Sorting
end GrubKernel
