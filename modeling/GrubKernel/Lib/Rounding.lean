import Mathlib.Algebra.Order.Archimedean.Basic
import Mathlib.Data.Int.Log
import Mathlib.Data.Rat.Floor
import Mathlib.Tactic

/-!
# Rounding to binary floating point

A binary floating-point number with `p` significant bits, as a rational number, and rounding to the
nearest one, with ties to the even one.  The exponent is not bounded, so there is no overflow and
nothing is subnormal.

* `nearestEven`, `roundTo` — rounding to an integer and to `p` significant bits.
* **`roundTo_le`** — the relative error is at most `2 ^ (-p)`.
* **`roundTo_natCast`** — integers of at most `p` bits stay what they are.
* `roundTo_of_mem_binade` — between two powers of two the numbers are equally spaced.
* **`roundTo_eq_two_zpow`, `roundTo_le_pred`** — what is rounded up to a power of two, and what stays
  below.
-/

namespace Rounding

/-! ## To an integer -/

/-- The integer nearest to `q`, and of two such the even one. -/
def nearestEven (q : ℚ) : ℤ :=
  let below := ⌊q⌋
  if q - below < 1 / 2 then below
  else if 1 / 2 < q - below then below + 1
  else if below % 2 = 0 then below
  else below + 1

lemma nearestEven_intCast (n : ℤ) : nearestEven n = n := by
  rw [nearestEven, Int.floor_intCast]
  simp

lemma nearestEven_nonneg {q : ℚ} (h : 0 ≤ q) : 0 ≤ nearestEven q := by
  have hfloor : 0 ≤ ⌊q⌋ := Int.floor_nonneg.mpr h
  rw [nearestEven]
  split_ifs <;> omega

lemma nearestEven_le (q : ℚ) : (nearestEven q : ℚ) ≤ q + 1 / 2 := by
  have hfloor := Int.floor_le q
  rw [nearestEven]
  split_ifs
  · linarith
  · push_cast
    linarith
  · linarith
  · push_cast
    linarith

/-- Below the middle between `n` and `n + 1` it is at most `n`. -/
lemma nearestEven_le_of_lt {q : ℚ} {n : ℤ} (h : q < n + 1 / 2) : nearestEven q ≤ n := by
  have hle := nearestEven_le q
  have hlt : (nearestEven q : ℚ) < ((n + 1 : ℤ) : ℚ) := by
    push_cast
    linarith
  exact Int.lt_add_one_iff.mp (Int.cast_lt.mp hlt)

/-- From the middle between an odd `n` and `n + 1` on it is at least `n + 1`. -/
lemma lt_nearestEven_of_odd {q : ℚ} {n : ℤ} (hodd : n % 2 = 1) (h : n + 1 / 2 ≤ q) :
    n < nearestEven q := by
  have hfloor := Int.lt_floor_add_one q
  have hle : n ≤ ⌊q⌋ := Int.le_floor.mpr (by linarith)
  rcases Int.lt_or_eq_of_le hle with hlt | heq
  · rw [nearestEven]
    split_ifs <;> omega
  · have hhalf : ¬ q - ⌊q⌋ < 1 / 2 := by
      rw [← heq]
      linarith
    rw [nearestEven, if_neg hhalf, if_neg (show ¬ ⌊q⌋ % 2 = 0 by omega)]
    split_ifs <;> omega

/-! ## To `p` significant bits -/

/-- What the last of the `p` significant bits of `x` stands for. -/
def ulp (p : ℕ) (x : ℚ) : ℚ := 2 ^ (Int.log 2 |x| - p + 1)

/-- The number with `p` significant bits that is nearest to `x`. -/
def roundTo (p : ℕ) (x : ℚ) : ℚ := nearestEven (x / ulp p x) * ulp p x

variable {p : ℕ} {x : ℚ}

lemma ulp_pos (p : ℕ) (x : ℚ) : 0 < ulp p x := zpow_pos (by norm_num) _

lemma roundTo_zero (p : ℕ) : roundTo p 0 = 0 := by
  have h := nearestEven_intCast 0
  rw [Int.cast_zero] at h
  rw [roundTo, zero_div, h, Int.cast_zero, zero_mul]

lemma roundTo_nonneg (hx : 0 ≤ x) : 0 ≤ roundTo p x := by
  have hulp := ulp_pos p x
  have hquot : 0 ≤ nearestEven (x / ulp p x) := nearestEven_nonneg (div_nonneg hx hulp.le)
  exact mul_nonneg (Int.cast_nonneg hquot) hulp.le

/-- Half of the last bit is a small part of the number. -/
lemma ulp_le (hx : 0 < x) : ulp p x / 2 ≤ x * 2 ^ (-(p : ℤ)) := by
  have hlog : (2 : ℚ) ^ Int.log 2 x ≤ x := by
    have h := Int.zpow_log_le_self (b := 2) (by decide) hx
    exact_mod_cast h
  have hulp : ulp p x = 2 * (2 ^ Int.log 2 x * 2 ^ (-(p : ℤ))) := by
    rw [ulp, abs_of_pos hx, ← zpow_add₀ (by norm_num), zpow_add_one₀ (by norm_num), mul_comm,
      sub_eq_add_neg]
  have hscale : (0 : ℚ) < 2 ^ (-(p : ℤ)) := zpow_pos (by norm_num) _
  have hmul := mul_le_mul_of_nonneg_right hlog hscale.le
  rw [hulp]
  linarith

/-- **The relative error of rounding up.** -/
theorem roundTo_le (hx : 0 ≤ x) : roundTo p x ≤ x * (1 + 2 ^ (-(p : ℤ))) := by
  rcases hx.eq_or_lt with rfl | hpos
  · rw [roundTo_zero, zero_mul]
  · have hulp := ulp_pos p x
    calc roundTo p x ≤ (x / ulp p x + 1 / 2) * ulp p x :=
          mul_le_mul_of_nonneg_right (nearestEven_le _) hulp.le
      _ = x + ulp p x / 2 := by field_simp
      _ ≤ x * (1 + 2 ^ (-(p : ℤ))) := by linarith [ulp_le (p := p) hpos]

/-- Between two powers of two the numbers with `p` significant bits are the multiples of one number. -/
lemma roundTo_of_mem_binade {e : ℤ} (hlo : 2 ^ e ≤ x) (hhi : x < 2 ^ (e + 1)) :
    roundTo p x = nearestEven (x / 2 ^ (e - p + 1)) * 2 ^ (e - p + 1) := by
  have hx : 0 < x := lt_of_lt_of_le (zpow_pos (by norm_num) e) hlo
  have hlog : Int.log 2 x = e := by
    have hle : e ≤ Int.log 2 x := (Int.zpow_le_iff_le_log (by decide) hx).mp (by exact_mod_cast hlo)
    have hlt : Int.log 2 x < e + 1 := (Int.lt_zpow_iff_log_lt (by decide) hx).mp (by exact_mod_cast hhi)
    omega
  rw [roundTo, ulp, abs_of_pos hx, hlog]

/-- A multiple of the last bit stays what it is. -/
lemma roundTo_of_dvd (n : ℤ) (h : x / ulp p x = n) : roundTo p x = x := by
  have hulp := ulp_pos p x
  rw [roundTo, h, nearestEven_intCast, ← h]
  field_simp

/-- **Powers of two are exact.** -/
theorem roundTo_two_zpow (hp : 0 < p) (e : ℤ) : roundTo p (2 ^ e) = 2 ^ e := by
  have hpos : (0 : ℚ) < 2 ^ e := zpow_pos (by norm_num) e
  have hlog : Int.log 2 ((2 : ℚ) ^ e) = e := by
    exact_mod_cast Int.log_zpow (R := ℚ) (show 1 < 2 by decide) e
  refine roundTo_of_dvd (2 ^ (p - 1)) ?_
  have hexp : e - (e - p + 1) = ((p - 1 : ℕ) : ℤ) := by omega
  rw [ulp, abs_of_pos hpos, hlog, ← zpow_sub₀ (by norm_num), hexp, zpow_natCast]
  norm_cast

/-- **Short integers are exact.** -/
theorem roundTo_natCast (hp : 0 < p) {n : ℕ} (h : n ≤ 2 ^ p) : roundTo p (n : ℚ) = n := by
  rcases Nat.eq_or_lt_of_le h with rfl | hlt
  · exact_mod_cast roundTo_two_zpow hp p
  · rcases Nat.eq_zero_or_pos n with rfl | hpos
    · exact_mod_cast roundTo_zero p
    · have hlog : Nat.log 2 n < p := Nat.log_lt_of_lt_pow (by omega) hlt
      refine roundTo_of_dvd (n * 2 ^ (p - 1 - Nat.log 2 n)) ?_
      have hexp : -((Nat.log 2 n : ℤ) - p + 1) = ((p - 1 - Nat.log 2 n : ℕ) : ℤ) := by omega
      rw [ulp, Nat.abs_cast, Int.log_natCast, div_eq_mul_inv, ← zpow_neg, hexp, zpow_natCast]
      norm_cast

/-! ## Below a power of two -/

lemma two_zpow_eq (p : ℕ) (e : ℤ) : (2 : ℚ) ^ p * 2 ^ (e - p) = 2 ^ e := by
  rw [← zpow_natCast, ← zpow_add₀ (by norm_num)]
  congr 1
  omega

/-- The middle between the greatest number below a power of two and that power, in units of its last
bit. -/
lemma middle_div (p : ℕ) (e : ℤ) : ((2 : ℚ) ^ e - 2 ^ (e - p - 1)) / 2 ^ (e - p) = 2 ^ p - 1 / 2 := by
  have hhalf : (2 : ℚ) ^ (e - p - 1) = 2 ^ (e - p) / 2 := zpow_sub_one₀ (by norm_num) _
  have hunit : (2 : ℚ) ^ (e - p) ≠ 0 := zpow_ne_zero _ (by norm_num)
  rw [← two_zpow_eq p e, hhalf]
  field_simp

/-- The multiples of the last bit in the binade below `2 ^ e`. -/
lemma roundTo_below {e : ℤ} (hlo : 2 ^ (e - 1) ≤ x) (hhi : x < 2 ^ e) :
    roundTo p x = nearestEven (x / 2 ^ (e - p)) * 2 ^ (e - p) := by
  have h := roundTo_of_mem_binade (p := p) hlo (by rwa [Int.sub_add_cancel])
  rwa [show e - 1 - p + 1 = e - p by omega] at h

/-- **From the middle on it is rounded up to the power of two**, which is even. -/
theorem roundTo_eq_two_zpow (hp : 0 < p) {e : ℤ} (hlo : 2 ^ e - 2 ^ (e - p - 1) ≤ x) (hhi : x < 2 ^ e) :
    roundTo p x = 2 ^ e := by
  have hunit : (0 : ℚ) < 2 ^ (e - p) := zpow_pos (by norm_num) _
  have hhalf : (2 : ℚ) ^ (e - 1) = 2 ^ e / 2 := zpow_sub_one₀ (by norm_num) _
  have hmiddle : (2 : ℚ) ^ (e - p - 1) ≤ 2 ^ (e - 1) := zpow_le_zpow_right₀ (by norm_num) (by omega)
  have hge : ((2 ^ p - 1 : ℤ) : ℚ) + 1 / 2 ≤ x / 2 ^ (e - p) := by
    have h := div_le_div_of_nonneg_right hlo hunit.le
    rw [middle_div] at h
    push_cast
    linarith
  have hlt : x / 2 ^ (e - p) < ((2 ^ p : ℤ) : ℚ) + 1 / 2 := by
    have h := div_lt_div_of_pos_right hhi hunit
    rw [← two_zpow_eq p e, mul_div_cancel_right₀ _ hunit.ne'] at h
    push_cast
    linarith
  have hodd : (2 ^ p - 1 : ℤ) % 2 = 1 := by
    obtain ⟨k, rfl⟩ := Nat.exists_eq_succ_of_ne_zero hp.ne'
    rw [pow_succ]
    omega
  have heq : nearestEven (x / 2 ^ (e - p)) = 2 ^ p := by
    have hup := lt_nearestEven_of_odd hodd hge
    have hdown := nearestEven_le_of_lt hlt
    omega
  rw [roundTo_below (by linarith) hhi, heq]
  push_cast
  exact two_zpow_eq p e

/-- **Before the middle it stays below the power of two.** -/
theorem roundTo_le_pred (hp : 2 ≤ p) {e : ℤ} (hx : 0 ≤ x) (h : x < 2 ^ e - 2 ^ (e - p - 1)) :
    roundTo p x ≤ 2 ^ e - 2 ^ (e - p) := by
  have hunit : (0 : ℚ) < 2 ^ (e - p) := zpow_pos (by norm_num) _
  have hhalf : (2 : ℚ) ^ (e - 1) = 2 ^ e / 2 := zpow_sub_one₀ (by norm_num) _
  rcases lt_or_ge x (2 ^ (e - 1)) with hlow | hlow
  · have hfour : (4 : ℚ) * 2 ^ (e - p) ≤ 2 ^ e := by
      have hle : (2 : ℚ) ^ (2 + (e - p)) ≤ 2 ^ e := zpow_le_zpow_right₀ (by norm_num) (by omega)
      rw [zpow_add₀ (by norm_num)] at hle
      linarith
    have hneg : (2 : ℚ) ^ e * 2 ^ (-(p : ℤ)) = 2 ^ (e - p) := by
      rw [← zpow_add₀ (by norm_num), sub_eq_add_neg]
    have hscale : (0 : ℚ) < 2 ^ (-(p : ℤ)) := zpow_pos (by norm_num) _
    calc roundTo p x ≤ x * (1 + 2 ^ (-(p : ℤ))) := roundTo_le hx
      _ ≤ 2 ^ (e - 1) * (1 + 2 ^ (-(p : ℤ))) := mul_le_mul_of_nonneg_right hlow.le (by linarith)
      _ = 2 ^ e / 2 + 2 ^ (e - p) / 2 := by rw [hhalf, ← hneg]; ring
      _ ≤ 2 ^ e - 2 ^ (e - p) := by linarith
  · have hhi : x < 2 ^ e := lt_trans h (sub_lt_self _ (zpow_pos (by norm_num) _))
    have hlt : x / 2 ^ (e - p) < ((2 ^ p - 1 : ℤ) : ℚ) + 1 / 2 := by
      have hdiv := div_lt_div_of_pos_right h hunit
      rw [middle_div] at hdiv
      push_cast
      linarith
    have hle : (nearestEven (x / 2 ^ (e - p)) : ℚ) ≤ ((2 ^ p - 1 : ℤ) : ℚ) :=
      Int.cast_le.mpr (nearestEven_le_of_lt hlt)
    rw [roundTo_below hlow hhi]
    calc (nearestEven (x / 2 ^ (e - p)) : ℚ) * 2 ^ (e - p)
        ≤ ((2 ^ p - 1 : ℤ) : ℚ) * 2 ^ (e - p) := mul_le_mul_of_nonneg_right hle hunit.le
      _ = 2 ^ e - 2 ^ (e - p) := by
          push_cast
          rw [sub_mul, two_zpow_eq, one_mul]

end Rounding
