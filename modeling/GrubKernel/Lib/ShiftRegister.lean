import Mathlib.Data.Nat.Bitwise
import Mathlib.Tactic.Ring

/-!
# Shift registers

A number goes over one wire, bit by bit, and is put together on the other side.

* `msbFirst` — the last bits of a number, the most significant one first.
* `shiftIn` — what a register holds after it has shifted in some bits.
* **`shiftIn_msbFirst`** — the bits of a number, shifted in, are the number.
-/

namespace ShiftRegister

/-- The last `k` bits of `n`, the most significant one first. -/
def msbFirst (n : ℕ) : ℕ → List Bool
  | 0 => []
  | k + 1 => n.testBit k :: msbFirst n k

/-- A register that holds `acc` shifts in some bits. -/
def shiftIn (acc : ℕ) (bits : List Bool) : ℕ := bits.foldl (fun acc bit => 2 * acc + bit.toNat) acc

@[simp] lemma msbFirst_zero (n : ℕ) : msbFirst n 0 = [] := rfl

lemma msbFirst_succ (n k : ℕ) : msbFirst n (k + 1) = n.testBit k :: msbFirst n k := rfl

@[simp] lemma length_msbFirst (n k : ℕ) : (msbFirst n k).length = k := by
  induction k with
  | zero => rfl
  | succ k ih => rw [msbFirst_succ, List.length_cons, ih]

@[simp] lemma shiftIn_nil (acc : ℕ) : shiftIn acc [] = acc := rfl

@[simp] lemma shiftIn_cons (acc : ℕ) (bit : Bool) (bits : List Bool) :
    shiftIn acc (bit :: bits) = shiftIn (2 * acc + bit.toNat) bits := rfl

/-- **What is shifted in is what was shifted out.** -/
theorem shiftIn_msbFirst (acc n k : ℕ) : shiftIn acc (msbFirst n k) = acc * 2 ^ k + n % 2 ^ k := by
  induction k generalizing acc with
  | zero => rw [msbFirst_zero, shiftIn_nil, pow_zero, mul_one, Nat.mod_one, add_zero]
  | succ k ih =>
    calc shiftIn acc (msbFirst n (k + 1))
        = (2 * acc + (n.testBit k).toNat) * 2 ^ k + n % 2 ^ k := by rw [msbFirst_succ, shiftIn_cons, ih]
      _ = acc * 2 ^ (k + 1) + (n % 2 ^ k + 2 ^ k * (n.testBit k).toNat) := by ring
      _ = acc * 2 ^ (k + 1) + n % 2 ^ (k + 1) := by rw [Nat.toNat_testBit, Nat.mod_pow_succ]

/-- Only the last bits count. -/
lemma msbFirst_congr {m n : ℕ} (k : ℕ) (h : ∀ i < k, m.testBit i = n.testBit i) :
    msbFirst m k = msbFirst n k := by
  induction k with
  | zero => rfl
  | succ k ih =>
    rw [msbFirst_succ, msbFirst_succ, h k (Nat.lt_succ_self k), ih fun i hi => h i (Nat.lt_succ_of_lt hi)]

end ShiftRegister
