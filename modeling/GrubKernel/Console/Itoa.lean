import GrubKernel.Lib.CInt
import GrubKernel.Lib.CString
import GrubKernel.Lib.Fuel
import GrubKernel.Lib.Numeral

/-!
# Printing numbers

`k_itoa` writes a number into a buffer: the digits by repeated division, which gives the last one first,
then the NUL, and then the digits are turned around in place.

* `Buffer` — the bytes behind the pointer `buf`, and how many of them were accessed.
* `divideLoop`, `reverseLoop`, `kItoa` — the function, with offsets into the buffer as pointers.
* `NumberBase` — the three bases, `NumberBase.rendering` — what they should print.
* `kItoa_eq`, `kItoa_spec` — the buffer after a call.
* **`kItoa_roundtrip`** — the numeral is canonical and reads back as the number.
-/

namespace GrubKernel

open CInt CString Fuel Numeral

/-- A character constant, which is an `int`. -/
def code (c : Char) : Int32 := Int32.ofNat c.toNat

/-- A buffer of characters, and the number of its bytes up to the last one that was accessed. -/
structure Buffer where
  bytes : ℕ → UInt8
  used : ℕ

namespace Buffer

/-- `buf[i] = c`. -/
def store (buf : Buffer) (i : ℕ) (c : UInt8) : Buffer :=
  ⟨Function.update buf.bytes i c, max buf.used (i + 1)⟩

/-- `buf[i]`. -/
def load (buf : Buffer) (i : ℕ) : UInt8 × Buffer := (buf.bytes i, { buf with used := max buf.used (i + 1) })

end Buffer

/-- `(remainder < 10) ? remainder + '0' : remainder + 'a' - 10`, as a `char`. -/
def digitChar (remainder : UInt32) : UInt8 :=
  if remainder < 10 then (remainder + 48).toUInt8 else (remainder + 97 - 10).toUInt8

/-- The loop that divides: the next offset, and the buffer. -/
def divideLoop (divisor : UInt32) : ℕ → UInt32 → ℕ → Buffer → Option (ℕ × Buffer)
  | 0, _, _, _ => none
  | fuel + 1, ud, p, buf =>
      let remainder := ud % divisor
      let buf := buf.store p (digitChar remainder)
      let ud := ud / divisor
      if ud ≠ 0 then divideLoop divisor fuel ud (p + 1) buf else some (p + 1, buf)

/-- The loop that turns the digits around. -/
def reverseLoop : ℕ → ℕ → ℕ → Buffer → Option Buffer
  | 0, _, _, _ => none
  | fuel + 1, p1, p2, buf =>
      if p1 < p2 then
        let tmp := buf.load p1
        let last := tmp.2.load p2
        reverseLoop fuel (p1 + 1) (p2 - 1) ((last.2.store p1 last.1).store p2 tmp.1)
      else some buf

/-- `k_itoa`, from the two loops on, with the digits from offset `start` on. -/
def convert (fuel : ℕ) (buf : Buffer) (start : ℕ) (ud divisor : UInt32) : Option Buffer :=
  (divideLoop divisor fuel ud start buf).bind fun r =>
    reverseLoop fuel start (r.1 - 1) (r.2.store r.1 0)

/-- `k_itoa`. -/
def kItoa (fuel : ℕ) (buf : Buffer) (base d : Int32) : Option Buffer :=
  if base = code 'd' ∧ d < 0 then convert fuel (buf.store 0 45) 1 (-d).toUInt32 10
  else if base = code 'x' then convert fuel buf 0 d.toUInt32 16
  else convert fuel buf 0 d.toUInt32 10

/-! ## The loops -/

/-- The code of a digit. -/
lemma digitChar_eq {r : UInt32} (h : r.toNat < 16) : digitChar r = digitByte r.toNat := by
  have hlt : r < 10 ↔ r.toNat < 10 := UInt32.lt_iff_toNat_lt
  rw [← UInt8.toNat_inj, toNat_digitByte (by omega), digitChar]
  by_cases hr : r.toNat < 10
  · have hcode : (48 : UInt32).toNat = 48 := rfl
    rw [if_pos (hlt.mpr hr), if_pos hr, UInt32.toNat_toUInt8, UInt32.toNat_add, hcode]
    omega
  · have hcode : (97 : UInt32).toNat = 97 := rfl
    have hten : (10 : UInt32).toNat = 10 := rfl
    rw [if_neg (mt hlt.mp hr), if_neg hr, UInt32.toNat_toUInt8, UInt32.toNat_sub, UInt32.toNat_add, hcode,
      hten]
    omega

section Loops

variable {divisor : UInt32} (hb : 1 < divisor.toNat) (hbound : divisor.toNat ≤ 16)
include hb hbound

/-- The digits by division, one after the other. -/
lemma divideLoop_spec (fuel : ℕ) : ∀ (ud : UInt32) (p : ℕ) (buf : Buffer),
    (digitsOf divisor.toNat ud.toNat).length ≤ fuel →
    divideLoop divisor fuel ud p buf = some (p + (digitsOf divisor.toNat ud.toNat).length,
      ⟨storeAll p ((digitsOf divisor.toNat ud.toNat).map digitByte) buf.bytes,
        max buf.used (p + (digitsOf divisor.toNat ud.toNat).length)⟩) := by
  induction fuel with
  | zero =>
      intro ud p buf h
      exact absurd (List.length_eq_zero_iff.mp (Nat.le_zero.mp h)) (digitsOf_ne_nil _ _)
  | succ fuel ih =>
      intro ud p buf h
      have hdiv : (ud / divisor).toNat = ud.toNat / divisor.toNat := UInt32.toNat_div ud divisor
      have hmod : (ud % divisor).toNat = ud.toNat % divisor.toNat := UInt32.toNat_mod ud divisor
      have hlt : ud.toNat % divisor.toNat < divisor.toNat := Nat.mod_lt _ (by omega)
      have hchar : digitChar (ud % divisor) = digitByte (ud.toNat % divisor.toNat) := by
        rw [digitChar_eq (by omega), hmod]
      have hzero : ud / divisor = 0 ↔ ud.toNat / divisor.toNat = 0 := by
        rw [← UInt32.toNat_inj, hdiv, UInt32.toNat_zero]
      rw [divideLoop]
      rw [digitsOf_eq hb] at h ⊢
      by_cases hlast : ud.toNat / divisor.toNat = 0
      · simp only [if_pos hlast, if_neg (not_not.mpr (hzero.mpr hlast)), hchar]
        rfl
      · rw [if_neg hlast, List.length_cons] at h
        have hrest := ih (ud / divisor) (p + 1) (buf.store p (digitChar (ud % divisor)))
          (by rw [hdiv]; omega)
        rw [hdiv, hchar] at hrest
        rw [if_pos (mt hzero.mp hlast), hchar, hrest, if_neg hlast]
        have hlen : p + 1 + (digitsOf divisor.toNat (ud.toNat / divisor.toNat)).length
            = p + ((digitsOf divisor.toNat (ud.toNat / divisor.toNat)).length + 1) := by omega
        have hused : max (max buf.used (p + 1))
            (p + ((digitsOf divisor.toNat (ud.toNat / divisor.toNat)).length + 1))
            = max buf.used (p + ((digitsOf divisor.toNat (ud.toNat / divisor.toNat)).length + 1)) := by
          omega
        rw [List.length_cons, List.map_cons, hlen]
        dsimp only [Buffer.store]
        rw [hused]
        rfl

omit hb hbound in
/-- The loop that turns around, inside the part that was used. -/
lemma reverseLoop_spec (fuel : ℕ) : ∀ (p1 p2 : ℕ) (buf : Buffer), p2 ≤ p1 + 2 * fuel → p2 < buf.used →
    reverseLoop (fuel + 1) p1 p2 buf = some ⟨mirror p1 p2 buf.bytes, buf.used⟩ := by
  induction fuel with
  | zero =>
      intro p1 p2 buf h _
      rw [reverseLoop, if_neg (by omega), mirror_of_le (by omega)]
  | succ fuel ih =>
      intro p1 p2 buf h hused
      rw [reverseLoop]
      by_cases hlt : p1 < p2
      · rw [if_pos hlt]
        have hsame : max (max (max (max buf.used (p1 + 1)) (p2 + 1)) (p1 + 1)) (p2 + 1) = buf.used := by
          omega
        dsimp only [Buffer.load, Buffer.store]
        rw [hsame, ih _ _ _ (by omega) (by dsimp only; omega), mirror_step hlt]
      · rw [if_neg hlt, mirror_of_le (by omega)]

/-- The buffer after the loops: from `start` on the numeral and NUL. -/
lemma convert_spec {fuel : ℕ} (buf : Buffer) (start : ℕ) (ud : UInt32)
    (hfuel : (numeral divisor.toNat ud.toNat).length < fuel) :
    convert fuel buf start ud divisor = some
      ⟨storeAll start (numeral divisor.toNat ud.toNat ++ [0]) buf.bytes,
        max buf.used (start + (numeral divisor.toNat ud.toNat).length + 1)⟩ := by
  rw [numeral, List.length_reverse, List.length_map] at hfuel ⊢
  have hne : (digitsOf divisor.toNat ud.toNat).map digitByte ≠ [] :=
    mt List.map_eq_nil_iff.mp (digitsOf_ne_nil _ _)
  have hpos := List.length_pos_of_ne_nil (digitsOf_ne_nil divisor.toNat ud.toNat)
  have hturned := mirror_storeAll hne start buf.bytes
  rw [List.length_map] at hturned
  obtain ⟨fuel, rfl⟩ : ∃ f, fuel = f + 1 := ⟨fuel - 1, by omega⟩
  rw [convert, divideLoop_spec hb hbound (fuel + 1) ud start buf (by omega), Option.bind_some]
  dsimp only [Buffer.store]
  rw [reverseLoop_spec fuel _ _ _ (by omega) (by dsimp only; omega)]
  dsimp only
  rw [hturned]
  congr 2
  omega

end Loops

/-! ## The three bases -/

/-- The bases that `k_itoa` is called with. -/
inductive NumberBase
  | d
  | u
  | x

namespace NumberBase

/-- The character that selects a base. -/
def char : NumberBase → Int32
  | d => code 'd'
  | u => code 'u'
  | x => code 'x'

/-- The numeral that a base asks for. -/
def rendering (n : Int32) : NumberBase → List UInt8
  | d => signed n.toInt
  | u => numeral 10 n.toUInt32.toNat
  | x => numeral 16 n.toUInt32.toNat

/-- A canonical numeral, in the sense of a base, that reads back as the number. -/
def Reads (n : Int32) (s : List UInt8) : NumberBase → Prop
  | d => IsSigned s ∧ signedValue s = n.toInt
  | u => IsNumeral 10 s ∧ value 10 s = n.toUInt32.toNat
  | x => IsNumeral 16 s ∧ value 16 s = n.toUInt32.toNat

lemma rendering_reads (n : Int32) (base : NumberBase) : base.Reads n (base.rendering n) := by
  cases base with
  | d => exact ⟨isSigned_signed _, signedValue_signed _⟩
  | u => exact ⟨isNumeral_numeral (by decide) (by decide) _, value_numeral (by decide) (by decide) _⟩
  | x => exact ⟨isNumeral_numeral (by decide) (by decide) _, value_numeral (by decide) (by decide) _⟩

/-- A sign and ten digits at most. -/
lemma length_rendering_le (n : Int32) (base : NumberBase) : (base.rendering n).length ≤ 11 := by
  have hword := n.toUInt32.toNat_lt
  cases base with
  | d =>
      have hlo := n.le_toInt
      have hhi := n.toInt_lt
      exact length_signed_le (by decide) (by omega)
  | u => exact length_numeral_le (by decide) (by decide) (by omega)
  | x => exact length_numeral_le (by decide) (by decide) (by omega)

/-- No NUL among the characters. -/
lemma zero_notMem_rendering (n : Int32) (base : NumberBase) : (0 : UInt8) ∉ base.rendering n := by
  have hdigits : ∀ b, 1 < b → b ≤ 36 → ∀ m, (0 : UInt8) ∉ numeral b m := by
    intro b hb hbound m hmem
    exact absurd ((numeral_digits hb m 0 hmem).code_ge hbound) (by decide)
  cases base with
  | d =>
      show (0 : UInt8) ∉ signed n.toInt
      rw [signed]
      split_ifs with hneg
      · intro hmem
        rcases List.mem_cons.mp hmem with hsign | hmem
        · exact absurd hsign (by decide)
        · exact hdigits 10 (by decide) (by decide) _ hmem
      · exact hdigits 10 (by decide) (by decide) _
  | u => exact hdigits 10 (by decide) (by decide) _
  | x => exact hdigits 16 (by decide) (by decide) _

end NumberBase

/-- The word of the negation of a negative number is its distance from zero, also for the least one. -/
lemma toNat_neg_toUInt32 {n : Int32} (h : n < 0) : (-n).toUInt32.toNat = n.toInt.natAbs := by
  have hneg := Int32.lt_iff_toInt_lt.mp h
  have hmod := int32_emod (-n)
  have hlo := n.le_toInt
  have hhi := (-n).toUInt32.toNat_lt
  rw [Int32.toInt_zero] at hneg
  rw [Int32.toInt_neg] at hmod
  have hsame := (toInt_emod (-n.toInt)).symm.trans hmod
  omega

/-- **The buffer after `k_itoa`.** -/
lemma kItoa_eq {fuel : ℕ} (hfuel : 12 ≤ fuel) (buf : Buffer) (base : NumberBase) (n : Int32) :
    kItoa fuel buf base.char n = some ⟨storeAll 0 (base.rendering n ++ [0]) buf.bytes,
      max buf.used ((base.rendering n).length + 1)⟩ := by
  have hlen := base.length_rendering_le n
  have hten : (10 : UInt32).toNat = 10 := rfl
  have hsixteen : (16 : UInt32).toNat = 16 := rfl
  cases base with
  | d =>
      by_cases hneg : n < 0
      · have hsigned : NumberBase.d.rendering n = 45 :: numeral 10 n.toInt.natAbs := by
          have hint := Int32.lt_iff_toInt_lt.mp hneg
          exact if_pos hint
        have hword := toNat_neg_toUInt32 hneg
        rw [hsigned, List.length_cons] at hlen
        have hroom : (numeral (10 : UInt32).toNat (-n).toUInt32.toNat).length < fuel := by
          rw [hword, hten]
          omega
        have hbuf := convert_spec (by decide) (by decide) (buf.store 0 45) 1 (-n).toUInt32 hroom
        rw [kItoa, if_pos ⟨rfl, hneg⟩, hbuf, hten, hword, hsigned]
        congr 2
        show max (max buf.used (0 + 1)) _ = _
        rw [List.length_cons]
        omega
      · have hsigned : NumberBase.d.rendering n = numeral 10 n.toUInt32.toNat := by
          have hint := mt Int32.lt_iff_toInt_lt.mpr hneg
          have hmod := int32_emod n
          have hhi := n.toInt_lt
          rw [Int32.toInt_zero] at hint
          have habs : n.toInt.natAbs = n.toUInt32.toNat := by omega
          rw [← habs]
          exact if_neg hint
        rw [hsigned] at hlen ⊢
        have hroom : (numeral (10 : UInt32).toNat n.toUInt32.toNat).length < fuel := by
          rw [hten]
          omega
        have hbuf := convert_spec (by decide) (by decide) buf 0 n.toUInt32 hroom
        rw [hten, Nat.zero_add] at hbuf
        rw [kItoa, if_neg fun h => hneg h.2, if_neg (by decide), hbuf]
  | u =>
      have hroom : (numeral (10 : UInt32).toNat n.toUInt32.toNat).length < fuel := by
        rw [hten]
        exact hlen.trans_lt hfuel
      have hbuf := convert_spec (by decide) (by decide) buf 0 n.toUInt32 hroom
      rw [hten, Nat.zero_add] at hbuf
      rw [kItoa, if_neg fun h => absurd h.1 (by decide), if_neg (by decide), hbuf]
      rfl
  | x =>
      have hroom : (numeral (16 : UInt32).toNat n.toUInt32.toNat).length < fuel := by
        rw [hsixteen]
        exact hlen.trans_lt hfuel
      have hbuf := convert_spec (by decide) (by decide) buf 0 n.toUInt32 hroom
      rw [hsixteen, Nat.zero_add] at hbuf
      rw [kItoa, if_neg fun h => absurd h.1 (by decide), NumberBase.char, if_pos rfl, hbuf]
      rfl

/-- With enough fuel `k_itoa` leaves the numeral and its NUL, and uses no more of the buffer. -/
lemma kItoa_spec (buf : Buffer) (base : NumberBase) (n : Int32) :
    ∃ buf' : Buffer, Returns (fun fuel => kItoa fuel buf base.char n) buf' ∧
      IsCString buf'.bytes (base.rendering n) ∧
      buf'.used = max buf.used ((base.rendering n).length + 1) := by
  have hstring := isCString_storeAll (base.zero_notMem_rendering n) 0 buf.bytes
  simp only [Nat.zero_add] at hstring
  exact ⟨_, Returns.of_le 12 fun fuel hfuel => kItoa_eq hfuel buf base n, hstring, rfl⟩

/-- **`k_itoa` round-trips.**  For every base and every number, and whatever the buffer holds: the call
returns, and leaves a string of at most eleven characters that is a canonical numeral and reads back as
the number, signed for `d` and modulo `2 ^ 32` for `u` and `x`. -/
theorem kItoa_roundtrip (buf : Buffer) (base : NumberBase) (n : Int32) :
    ∃ buf' : Buffer, Returns (fun fuel => kItoa fuel buf base.char n) buf' ∧
      ∃ s, IsCString buf'.bytes s ∧ s.length ≤ 11 ∧ base.Reads n s := by
  obtain ⟨buf', hreturns, hstring, -⟩ := kItoa_spec buf base n
  exact ⟨buf', hreturns, base.rendering n, hstring, base.length_rendering_le n, base.rendering_reads n⟩

/-- The most negative number. -/
example : (kItoa 12 ⟨fun _ => 0xCC, 0⟩ (code 'd') (-2147483648)).map
    (fun buf => (List.range 13).map buf.bytes)
      = some [45, 50, 49, 52, 55, 52, 56, 51, 54, 52, 56, 0, 0xCC] := by decide

end GrubKernel
