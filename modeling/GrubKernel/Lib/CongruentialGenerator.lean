import Mathlib.Algebra.Order.Ring.GeomSum
import Mathlib.NumberTheory.Multiplicity
import Mathlib.Tactic

/-!
# Linear congruential generators modulo a power of two

The generator `x ↦ (a * x + c) % 2 ^ bits`.  With `a` one more than a multiple of four and `c` odd its
period is as long as can be, for every seed and for the low bits as well.

* `next` — one step.
* `iterate_modEq` — the number after `k` steps.
* `two_pow_dvd_geomSum_iff` — the powers of two in a geometric sum.
* **`iterate_modEq_iff`** — the low `e` bits have the period `2 ^ e`.
* **`exists_iterate_eq`** — every number is drawn.
-/

namespace CongruentialGenerator

/-- One step of the generator. -/
def next (a c bits x : ℕ) : ℕ := (a * x + c) % 2 ^ bits

variable {a c bits : ℕ}

lemma next_lt (x : ℕ) : next a c bits x < 2 ^ bits := Nat.mod_lt _ (Nat.two_pow_pos bits)

lemma iterate_lt {x : ℕ} (hx : x < 2 ^ bits) (k : ℕ) : (next a c bits)^[k] x < 2 ^ bits := by
  cases k with
  | zero => exact hx
  | succ k =>
      rw [Function.iterate_succ_apply']
      exact next_lt _

/-- **The number after `k` steps.** -/
theorem iterate_modEq (x k : ℕ) :
    (next a c bits)^[k] x ≡ a ^ k * x + c * ∑ j ∈ Finset.range k, a ^ j [MOD 2 ^ bits] := by
  induction k with
  | zero => simp [Nat.ModEq]
  | succ k ih =>
      rw [Function.iterate_succ_apply']
      have hnext : next a c bits ((next a c bits)^[k] x)
          ≡ a * (a ^ k * x + c * ∑ j ∈ Finset.range k, a ^ j) + c [MOD 2 ^ bits] :=
        (Nat.mod_modEq _ _).trans ((ih.mul_left a).add_right c)
      have hsum : a * (a ^ k * x + c * ∑ j ∈ Finset.range k, a ^ j) + c
          = a ^ (k + 1) * x + c * ∑ j ∈ Finset.range (k + 1), a ^ j := by
        rw [Finset.sum_range_succ', pow_zero]
        simp only [pow_succ', ← Finset.mul_sum]
        ring
      rwa [hsum] at hnext

/-- **The powers of two in a geometric sum** are those in the number of its terms. -/
theorem two_pow_dvd_geomSum_iff (ha : a % 4 = 1) (e n : ℕ) :
    2 ^ e ∣ ∑ j ∈ Finset.range n, a ^ j ↔ 2 ^ e ∣ n := by
  rcases Nat.eq_or_lt_of_le (show 1 ≤ a by omega) with rfl | hone
  · simp
  · have hfour : (4 : ℤ) ∣ (a : ℤ) - 1 := by omega
    have hodd : ¬ (2 : ℤ) ∣ (a : ℤ) := by omega
    have hgeom : (∑ j ∈ Finset.range n, (a : ℤ) ^ j) * ((a : ℤ) - 1) = (a : ℤ) ^ n - 1 ^ n := by
      rw [one_pow]
      exact geom_sum_mul (a : ℤ) n
    have hfinite : FiniteMultiplicity (2 : ℤ) ((a : ℤ) - 1) :=
      Int.finiteMultiplicity_iff.mpr ⟨by decide, by omega⟩
    have hmultiplicity : emultiplicity (2 : ℤ) (∑ j ∈ Finset.range n, (a : ℤ) ^ j)
        = emultiplicity (2 : ℤ) n := by
      have hlift := Int.two_pow_sub_pow' n hfour hodd
      rw [← hgeom, emultiplicity_mul Int.prime_two, add_comm] at hlift
      exact ENat.add_right_injective_of_ne_top
        (finiteMultiplicity_iff_emultiplicity_ne_top.mp hfinite) hlift
    rw [← Int.natCast_dvd_natCast, ← Int.natCast_dvd_natCast]
    push_cast
    rw [pow_dvd_iff_le_emultiplicity, pow_dvd_iff_le_emultiplicity, hmultiplicity]

section FullPeriod

variable (ha : a % 4 = 1) (hc : c % 2 = 1) {e : ℕ} (he : e ≤ bits)
include ha hc he

/-- After `n` steps the low bits are back iff `n` is a multiple of their period. -/
lemma iterate_modEq_self_iff (x n : ℕ) :
    (next a c bits)^[n] x ≡ x [MOD 2 ^ e] ↔ 2 ^ e ∣ n := by
  have hiterate :
      (next a c bits)^[n] x ≡ a ^ n * x + c * ∑ j ∈ Finset.range n, a ^ j [MOD 2 ^ e] :=
    (iterate_modEq x n).of_dvd (pow_dvd_pow 2 he)
  have hgeom : a ^ n = 1 + (a - 1) * ∑ j ∈ Finset.range n, a ^ j := by
    have hsucc := geom_sum_mul_add (a - 1) n
    rw [Nat.sub_add_cancel (show 1 ≤ a by omega)] at hsucc
    rw [← hsucc]
    ring
  have hexpand : a ^ n * x + c * ∑ j ∈ Finset.range n, a ^ j
      = x + ((a - 1) * x + c) * ∑ j ∈ Finset.range n, a ^ j := by
    rw [hgeom]
    ring
  have hcoprime : Nat.Coprime (2 ^ e) ((a - 1) * x + c) := by
    refine Nat.Coprime.pow_left e ((Nat.coprime_two_left).mpr (Nat.odd_iff.mpr ?_))
    have heven : (a - 1) * x % 2 = 0 := by
      rw [Nat.mul_mod, show (a - 1) % 2 = 0 by omega, Nat.zero_mul, Nat.zero_mod]
    omega
  rw [hexpand] at hiterate
  rw [← two_pow_dvd_geomSum_iff ha e n, ← hcoprime.dvd_mul_left]
  constructor
  · intro hback
    have hsame := (hiterate.symm.trans hback).symm
    rwa [Nat.modEq_iff_dvd' (Nat.le_add_right _ _), Nat.add_sub_cancel_left] at hsame
  · intro hdvd
    refine hiterate.trans ?_
    have hsame : x ≡ x + ((a - 1) * x + c) * ∑ j ∈ Finset.range n, a ^ j [MOD 2 ^ e] := by
      rwa [Nat.modEq_iff_dvd' (Nat.le_add_right _ _), Nat.add_sub_cancel_left]
    exact hsame.symm

/-- **The low `e` bits have the period `2 ^ e`**, for every seed. -/
theorem iterate_modEq_iff (x k l : ℕ) :
    (next a c bits)^[k] x ≡ (next a c bits)^[l] x [MOD 2 ^ e] ↔ k ≡ l [MOD 2 ^ e] := by
  wlog hkl : k ≤ l generalizing k l with hswap
  · rw [Nat.ModEq.comm, Nat.ModEq.comm (a := k)]
    exact hswap l k (by omega)
  · have hsplit : (next a c bits)^[l] x = (next a c bits)^[l - k] ((next a c bits)^[k] x) := by
      rw [← Function.iterate_add_apply, Nat.sub_add_cancel hkl]
    rw [Nat.ModEq.comm, hsplit, iterate_modEq_self_iff ha hc he, Nat.modEq_iff_dvd' hkl]

end FullPeriod

/-- Two numbers of a run are the same iff their positions agree modulo the period. -/
lemma iterate_eq_iff (ha : a % 4 = 1) (hc : c % 2 = 1) {x : ℕ} (hx : x < 2 ^ bits) (k l : ℕ) :
    (next a c bits)^[k] x = (next a c bits)^[l] x ↔ k ≡ l [MOD 2 ^ bits] := by
  rw [← iterate_modEq_iff ha hc le_rfl x k l, Nat.ModEq, Nat.mod_eq_of_lt (iterate_lt hx k),
    Nat.mod_eq_of_lt (iterate_lt hx l)]

/-- **Every number is drawn**, because a period has as many numbers as there are. -/
theorem exists_iterate_eq (ha : a % 4 = 1) (hc : c % 2 = 1) {x y : ℕ} (hx : x < 2 ^ bits)
    (hy : y < 2 ^ bits) : ∃ k < 2 ^ bits, (next a c bits)^[k] x = y := by
  have hmaps : ∀ k ∈ Finset.range (2 ^ bits), (next a c bits)^[k] x ∈ Finset.range (2 ^ bits) :=
    fun k _ => Finset.mem_range.mpr (iterate_lt hx k)
  have hinj : Set.InjOn (fun k => (next a c bits)^[k] x) (Finset.range (2 ^ bits)) := by
    intro k hk l hl heq
    have hmod := (iterate_eq_iff ha hc hx k l).mp heq
    rwa [Nat.ModEq, Nat.mod_eq_of_lt (Finset.mem_range.mp hk),
      Nat.mod_eq_of_lt (Finset.mem_range.mp hl)] at hmod
  obtain ⟨k, hk, heq⟩ := Finset.surj_on_of_inj_on_of_card_le (fun k _ => (next a c bits)^[k] x) hmaps
    (fun k l hk hl heq => hinj hk hl heq) le_rfl y (Finset.mem_range.mpr hy)
  exact ⟨k, Finset.mem_range.mp hk, heq.symm⟩

end CongruentialGenerator
