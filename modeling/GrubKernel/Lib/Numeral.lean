import Mathlib.Data.Nat.Digits.Lemmas
import Mathlib.Tactic

/-!
# Numerals

Numbers written in a base as ASCII digits, most significant first, and read back.

* `numeral`, `value` — writing and reading in a base of at most 36; `signed`, `signedValue` — the same in
  base ten with a minus sign.
* `IsNumeral`, `IsSigned` — the canonical numerals: no leading zeros, no minus sign before zero.
* **`value_numeral`, `signedValue_signed`** — reading back what is written.
* `digitsOf_eq` — the digits by repeated division, least significant first.
-/

namespace Numeral

/-! ## Digits -/

/-- The code of a digit. -/
def digitByte (r : ℕ) : UInt8 := if r < 10 then UInt8.ofNat (48 + r) else UInt8.ofNat (87 + r)

/-- The digit of a code. -/
def digitValue (c : UInt8) : ℕ := if c.toNat < 58 then c.toNat - 48 else c.toNat - 87

/-- The codes of the digits of a base. -/
def IsDigit (b : ℕ) (c : UInt8) : Prop := ∃ r < b, c = digitByte r

lemma toNat_digitByte {r : ℕ} (h : r < 36) :
    (digitByte r).toNat = if r < 10 then 48 + r else 87 + r := by
  rw [digitByte]
  split_ifs with hr
  · rw [UInt8.toNat_ofNat']
    omega
  · rw [UInt8.toNat_ofNat']
    omega

lemma digitValue_digitByte {r : ℕ} (h : r < 36) : digitValue (digitByte r) = r := by
  rw [digitValue, toNat_digitByte h]
  split_ifs with hr hlow
  · omega
  · omega
  · omega
  · omega

/-- A digit is no NUL and no minus sign, and zero has the code `48`. -/
lemma digitByte_eq_zero_iff {r : ℕ} (h : r < 36) : digitByte r = 48 ↔ r = 0 := by
  have hcode : (48 : UInt8).toNat = 48 := rfl
  rw [← UInt8.toNat_inj, toNat_digitByte h, hcode]
  split_ifs with hr
  · omega
  · omega

lemma IsDigit.code_ge {b : ℕ} (hb : b ≤ 36) {c : UInt8} (h : IsDigit b c) : 48 ≤ c.toNat := by
  obtain ⟨r, hr, rfl⟩ := h
  rw [toNat_digitByte (hr.trans_le hb)]
  split_ifs with hlow
  · omega
  · omega

/-! ## Digits by division -/

/-- The digits, least significant first; zero has one. -/
def digitsOf (b n : ℕ) : List ℕ := if n = 0 then [0] else b.digits n

lemma digitsOf_eq {b : ℕ} (hb : 1 < b) (n : ℕ) :
    digitsOf b n = if n / b = 0 then [n % b] else n % b :: digitsOf b (n / b) := by
  by_cases hn : n = 0
  · subst hn
    simp [digitsOf]
  · rw [digitsOf, if_neg hn, Nat.digits_def' hb (Nat.pos_of_ne_zero hn)]
    split_ifs with hdiv
    · rw [hdiv, Nat.digits_zero]
    · rw [digitsOf, if_neg hdiv]

lemma digitsOf_lt {b : ℕ} (hb : 1 < b) {n r : ℕ} (h : r ∈ digitsOf b n) : r < b := by
  rw [digitsOf] at h
  split_ifs at h with hn
  · obtain rfl := List.mem_singleton.mp h
    omega
  · exact Nat.digits_lt_base hb h

lemma digitsOf_ne_nil (b n : ℕ) : digitsOf b n ≠ [] := by
  rw [digitsOf]
  split_ifs with hn
  · exact List.cons_ne_nil 0 []
  · exact Nat.digits_ne_nil_iff_ne_zero.mpr hn

lemma length_digitsOf_le {b k n : ℕ} (hb : 1 < b) (hk : 0 < k) (h : n < b ^ k) :
    (digitsOf b n).length ≤ k := by
  rw [digitsOf]
  split_ifs with hn
  · exact hk
  · exact (Nat.digits_length_le_iff hb n).mpr h

lemma ofDigits_digitsOf (b n : ℕ) : Nat.ofDigits b (digitsOf b n) = n := by
  rw [digitsOf]
  split_ifs with hn
  · simp [hn]
  · exact Nat.ofDigits_digits b n

/-- The most significant digit is zero for zero only. -/
lemma getLast_digitsOf {b n : ℕ} (h : (digitsOf b n).getLast (digitsOf_ne_nil b n) = 0) : n = 0 := by
  by_contra hn
  have hlast := Nat.getLast_digit_ne_zero b hn
  simp only [digitsOf, if_neg hn] at h
  exact hlast h

/-! ## Numerals -/

/-- A number in a base. -/
def numeral (b n : ℕ) : List UInt8 := ((digitsOf b n).map digitByte).reverse

/-- The number that a numeral stands for. -/
def value (b : ℕ) (s : List UInt8) : ℕ := s.foldl (fun n c => digitValue c + b * n) 0

/-- The canonical numerals of a base. -/
structure IsNumeral (b : ℕ) (s : List UInt8) : Prop where
  nonempty : s ≠ []
  digits : ∀ c ∈ s, IsDigit b c
  noLeadingZero : s.head? = some 48 → s = [48]

section Base

variable {b : ℕ} (hb : 1 < b) (hbound : b ≤ 36)
include hb

lemma length_numeral_le {k n : ℕ} (hk : 0 < k) (h : n < b ^ k) : (numeral b n).length ≤ k := by
  rw [numeral, List.length_reverse, List.length_map]
  exact length_digitsOf_le hb hk h

lemma numeral_digits (n : ℕ) : ∀ c ∈ numeral b n, IsDigit b c := by
  intro c hc
  obtain ⟨r, hr, rfl⟩ := List.mem_map.mp (List.mem_reverse.mp hc)
  exact ⟨r, digitsOf_lt hb hr, rfl⟩

include hbound

/-- **Numerals are canonical.** -/
theorem isNumeral_numeral (n : ℕ) : IsNumeral b (numeral b n) where
  nonempty := by
    rw [numeral, ne_eq, List.reverse_eq_nil_iff, List.map_eq_nil_iff]
    exact digitsOf_ne_nil b n
  digits := numeral_digits hb n
  noLeadingZero := by
    intro h
    rw [numeral, List.head?_reverse, List.getLast?_map,
      List.getLast?_eq_getLast_of_ne_nil (digitsOf_ne_nil b n)] at h
    have hlast : (digitsOf b n).getLast (digitsOf_ne_nil b n) < 36 :=
      (digitsOf_lt hb (List.getLast_mem _)).trans_le hbound
    have hzero := (digitByte_eq_zero_iff hlast).mp (Option.some_inj.mp h)
    rw [getLast_digitsOf hzero]
    rfl

/-- **Reading a numeral back.** -/
theorem value_numeral (n : ℕ) : value b (numeral b n) = n := by
  have hdigits : ∀ l : List ℕ, (∀ r ∈ l, r < b) →
      (l.map digitByte).foldr (fun c n => digitValue c + b * n) 0 = Nat.ofDigits b l := by
    intro l hl
    induction l with
    | nil => rfl
    | cons r l ih =>
        have hr := digitValue_digitByte ((hl r List.mem_cons_self).trans_le hbound)
        have htail := ih fun r' hr' => hl r' (List.mem_cons_of_mem r hr')
        simp only [List.map_cons, List.foldr_cons, hr, htail, Nat.ofDigits_cons]
  rw [value, numeral, List.foldl_reverse, hdigits _ fun r hr => digitsOf_lt hb hr]
  exact ofDigits_digitsOf b n

end Base

/-! ## Signed numerals -/

/-- An integer in base ten. -/
def signed (z : ℤ) : List UInt8 :=
  if z < 0 then 45 :: numeral 10 z.natAbs else numeral 10 z.natAbs

/-- The integer that a signed numeral stands for. -/
def signedValue (s : List UInt8) : ℤ :=
  if s.head? = some 45 then -(value 10 s.tail : ℤ) else value 10 s

/-- The canonical signed numerals. -/
def IsSigned (s : List UInt8) : Prop :=
  IsNumeral 10 s ∨ ∃ t, s = 45 :: t ∧ IsNumeral 10 t ∧ t ≠ [48]

theorem isSigned_signed (z : ℤ) : IsSigned (signed z) := by
  rw [signed]
  split_ifs with hz
  · refine Or.inr ⟨_, rfl, isNumeral_numeral (by decide) (by decide) _, ?_⟩
    intro hzero
    have hvalue := value_numeral (b := 10) (by decide) (by decide) z.natAbs
    rw [hzero] at hvalue
    have hnat : z.natAbs = 0 := hvalue.symm
    omega
  · exact Or.inl (isNumeral_numeral (by decide) (by decide) _)

/-- **Reading a signed numeral back.** -/
theorem signedValue_signed (z : ℤ) : signedValue (signed z) = z := by
  have hvalue := value_numeral (b := 10) (by decide) (by decide) z.natAbs
  rw [signed]
  split_ifs with hz
  · rw [signedValue, List.head?_cons, if_pos rfl, List.tail_cons, hvalue]
    omega
  · have hhead : (numeral 10 z.natAbs).head? ≠ some 45 := by
      intro h
      have hdigit := numeral_digits (b := 10) (by decide) z.natAbs 45 (List.mem_of_mem_head? h)
      exact absurd (hdigit.code_ge (by decide)) (by decide)
    rw [signedValue, if_neg hhead, hvalue]
    omega

lemma length_signed_le {z : ℤ} {k : ℕ} (hk : 0 < k) (h : z.natAbs < 10 ^ k) :
    (signed z).length ≤ k + 1 := by
  have hlen := length_numeral_le (b := 10) (by decide) hk h
  rw [signed]
  split_ifs with hz
  · rw [List.length_cons]
    omega
  · omega

end Numeral
