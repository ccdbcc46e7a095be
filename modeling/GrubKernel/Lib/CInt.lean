import Mathlib.Tactic

/-!
# The integers of C

The conversions between `int` and `unsigned int`, both of 32 bits, on integers and natural numbers.

* `toInt` — the `int` that an integer becomes.
* `toUnsigned` — the `unsigned int` that an integer becomes.
* `int32_emod` — a word read as `int` and as `unsigned int`.
-/

namespace CInt

/-- Conversion to `int`. -/
def toInt (z : ℤ) : ℤ := z.bmod (2 ^ 32)

/-- Conversion to `unsigned int`. -/
def toUnsigned (z : ℤ) : ℕ := (z % 2 ^ 32).toNat

/-- An integer in the range of `int` stays what it is. -/
lemma toInt_eq {z : ℤ} (hlo : -2 ^ 31 ≤ z) (hhi : z < 2 ^ 31) : toInt z = z :=
  Int.bmod_eq_of_le (by omega) (by omega)

/-- A natural number in the range of `unsigned int` stays what it is. -/
lemma toUnsigned_natCast {n : ℕ} (h : n < 2 ^ 32) : toUnsigned n = n := by
  rw [toUnsigned]
  omega

/-- The residue of an `int` is that of the integer it came from. -/
lemma toInt_emod (z : ℤ) : toInt z % 2 ^ 32 = z % 2 ^ 32 := Int.bmod_emod

/-- The two readings of a word agree modulo `2 ^ 32`. -/
lemma int32_emod (x : Int32) : x.toInt % 2 ^ 32 = x.toUInt32.toNat := by
  have h := x.toBitVec.isLt
  show x.toBitVec.toInt % 2 ^ 32 = (x.toBitVec.toNat : ℤ)
  rw [BitVec.toInt_eq_toNat_bmod]
  exact (toInt_emod _).trans (by omega)

end CInt
