import GrubKernel.Lib.ShiftRegister
import GrubKernel.Pci.Nic
import GrubKernel.Pci.Scan

/-!
# The serial EEPROM

The MAC address is in an EEPROM behind three wires: select, clock and data.  The driver sets them through
the register `Cfg9346` and sees the answer in the last bit of this register.  A command has a start bit,
two bits of an opcode and six bits of an address, and the answer to a read comes after it, one bit with
each clock.

* `Wires`, `drive` — the wires, and what has gone over the data wire since the chip was selected.
* `reply` — what the chip answers to what it has got.
* `SerialEeprom` — a card with such a chip behind one of its ports.
* **`readEeprom_sends`** — `read_eeprom` sends the command, most significant bit first.
* **`readEeprom_reads`** — what it returns is the word.
-/

namespace GrubKernel
namespace Nic

open ShiftRegister

/-! ## The chip -/

/-- The select wire, the clock, and the bits that have been clocked in since the chip was selected. -/
structure Wires where
  select : Bool
  clock : Bool
  bits : List Bool

/-- A write to the register sets the wires.  The selected chip takes the bit on the data wire when the
clock rises. -/
def Wires.drive (w : Wires) (value : UInt8) : Wires :=
  let select := decide (value &&& eeCs ≠ 0)
  let clock := decide (value &&& eeShiftClk ≠ 0)
  let data := decide (value &&& eeDataWrite ≠ 0)
  let bits :=
    if select = true then
      if w.select = false then [] else if clock = true ∧ w.clock = false then w.bits ++ [data] else w.bits
    else w.bits
  ⟨select, clock, bits⟩

/-- The answer of the chip, where the protocol fixes it: after a start bit, the opcode `10` and an address,
a zero and then the word at the address. -/
def reply (words : ℕ → UInt16) (bits : List Bool) : Option Bool :=
  match bits.dropWhile (fun bit => !bit) with
  | _ :: true :: false :: rest =>
    if rest.length < 6 then none
    else if rest.length = 6 then some false
    else if rest.length ≤ 22 then
      some ((words (shiftIn 0 (rest.take 6))).toNat.testBit (22 - rest.length))
    else none
  | _ => none

/-- A card with an EEPROM behind the register `Cfg9346` at a port.  The register drives the wires in its
programming mode, which the two first bits select. -/
structure SerialEeprom {σ : Type*} (nic : Nic σ) (port : UInt16) where
  words : ℕ → UInt16
  wires : σ → Wires
  outb_drive : ∀ card value, value &&& 0xC0 = 0x80 →
    wires (nic.outb card value port) = (wires card).drive value
  outb_keep : ∀ card value, value &&& 0xC0 ≠ 0x80 →
    (wires (nic.outb card value port)).bits = (wires card).bits
  inl_keep : ∀ card, wires (nic.inl card port).2 = wires card
  inb_keep : ∀ card, wires (nic.inb card port).2 = wires card
  inb_reply : ∀ card bit, (wires card).select = true → reply words (wires card).bits = some bit →
    ((nic.inb card port).1 &&& eeDataRead ≠ 0 ↔ bit = true)

/-! ## One access -/

lemma drive_select (w : Wires) : (w.drive (eeEnb &&& ~~~eeCs)).drive eeEnb = ⟨true, false, []⟩ := rfl

lemma drive_low (w : Wires) (h : w.select = true) {dataval : UInt8}
    (hdata : dataval = eeDataWrite ∨ dataval = 0) :
    w.drive (eeEnb ||| dataval) = ⟨true, false, w.bits⟩ := by
  cases w with
  | mk select clock bits =>
    cases h
    rcases hdata with rfl | rfl
    · rfl
    · rfl

lemma drive_rise (bits : List Bool) {dataval : UInt8} (hdata : dataval = eeDataWrite ∨ dataval = 0) :
    Wires.drive ⟨true, false, bits⟩ (eeEnb ||| dataval ||| eeShiftClk)
      = ⟨true, true, bits ++ [decide (dataval = eeDataWrite)]⟩ := by
  rcases hdata with rfl | rfl
  · rfl
  · rfl

section Reading

variable {σ : Type*} {nic : Nic σ} {port : UInt16} (eeprom : SerialEeprom nic port)

/-- The wires of the card of a machine. -/
def SerialEeprom.wiresOf (m : Machine σ) : Wires := eeprom.wires m.card

lemma wiresOf_outb (m : Machine σ) {value : UInt8} (h : value &&& 0xC0 = 0x80) :
    eeprom.wiresOf (m.outb nic value port) = (eeprom.wiresOf m).drive value :=
  eeprom.outb_drive m.card value h

lemma wiresOf_delay (m : Machine σ) : eeprom.wiresOf (eepromDelay nic port m) = eeprom.wiresOf m :=
  eeprom.inl_keep m.card

lemma wiresOf_inb (m : Machine σ) : eeprom.wiresOf (m.inb nic port).2 = eeprom.wiresOf m :=
  eeprom.inb_keep m.card

/-! ## The command -/

/-- The test of one bit of the command. -/
lemma and_bit_ne_zero_iff (n : UInt32) {i : ℕ} (hi : i < 32) :
    n &&& ((1 : UInt32) <<< UInt32.ofNat i) ≠ 0 ↔ n.toNat.testBit i = true := by
  have hpow : 2 ^ i < 2 ^ 32 := Nat.pow_lt_pow_right (by decide) hi
  have hshift : ((1 : UInt32) <<< UInt32.ofNat i).toNat = 2 ^ i * 1 :=
    Pci.toNat_shiftLeft32 rfl hi (by rwa [mul_one])
  have hpos : 0 < 2 ^ i := Nat.two_pow_pos i
  rw [Ne, ← UInt32.toNat_inj, UInt32.toNat_and, hshift, mul_one, Nat.and_two_pow, UInt32.toNat_zero]
  cases n.toNat.testBit i with
  | false => simp
  | true => simp

/-- What the driver puts on the data wire for one bit of the command. -/
lemma dataval_spec (readCmd : UInt32) {i : ℕ} (hi : i < 32) {dataval : UInt8}
    (h : dataval = if readCmd &&& ((1 : UInt32) <<< UInt32.ofNat i) ≠ 0 then eeDataWrite else 0) :
    (dataval = eeDataWrite ∨ dataval = 0) ∧ decide (dataval = eeDataWrite) = readCmd.toNat.testBit i := by
  have htest := and_bit_ne_zero_iff readCmd hi
  by_cases hset : readCmd &&& ((1 : UInt32) <<< UInt32.ofNat i) ≠ 0
  · rw [if_pos hset] at h
    rw [h, htest.mp hset]
    exact ⟨Or.inl rfl, rfl⟩
  · rw [if_neg hset] at h
    rw [h, Bool.eq_false_iff.mpr fun hbit => hset (htest.mpr hbit)]
    exact ⟨Or.inr rfl, rfl⟩

/-- One bit of the command: the clock falls, with the bit on the data wire, and rises. -/
lemma wiresOf_bit (m : Machine σ) (h : (eeprom.wiresOf m).select = true) {dataval : UInt8}
    (hdata : dataval = eeDataWrite ∨ dataval = 0) :
    eeprom.wiresOf (eepromDelay nic port ((eepromDelay nic port
        (m.outb nic (eeEnb ||| dataval) port)).outb nic (eeEnb ||| dataval ||| eeShiftClk) port))
      = ⟨true, true, (eeprom.wiresOf m).bits ++ [decide (dataval = eeDataWrite)]⟩ := by
  have hlow : (eeEnb ||| dataval) &&& 0xC0 = 0x80 := by
    rcases hdata with rfl | rfl <;> rfl
  have hhigh : (eeEnb ||| dataval ||| eeShiftClk) &&& 0xC0 = 0x80 := by
    rcases hdata with rfl | rfl <;> rfl
  rw [wiresOf_delay, wiresOf_outb eeprom _ hhigh, wiresOf_delay, wiresOf_outb eeprom m hlow,
    drive_low _ h hdata, drive_rise _ hdata]

/-- The loop that sends the command clocks its bits in, the most significant one first. -/
lemma wiresOf_shiftOut (readCmd : UInt32) {k : ℕ} (hk : k ≤ 32) (m : Machine σ)
    (h : (eeprom.wiresOf m).select = true) :
    (eeprom.wiresOf (shiftOut nic port readCmd k m)).select = true ∧
      (eeprom.wiresOf (shiftOut nic port readCmd k m)).bits
        = (eeprom.wiresOf m).bits ++ msbFirst readCmd.toNat k := by
  induction k generalizing m with
  | zero => exact ⟨h, (List.append_nil _).symm⟩
  | succ i ih =>
    obtain ⟨hdata, hbit⟩ := dataval_spec readCmd (show i < 32 by omega) rfl
    have hround := wiresOf_bit eeprom m h hdata
    rw [hbit] at hround
    obtain ⟨hselect, hbits⟩ := ih (by omega) _ (by rw [hround])
    refine ⟨hselect, ?_⟩
    rw [hround] at hbits
    rw [msbFirst_succ, List.append_cons]
    exact hbits

/-! ## The answer -/

/-- The clock rises while the driver reads: the chip takes a zero, and the register shows its answer. -/
lemma wiresOf_rise (m : Machine σ) {bits : List Bool} (h : eeprom.wiresOf m = ⟨true, false, bits⟩) :
    eeprom.wiresOf (eepromDelay nic port (m.outb nic (eeEnb ||| eeShiftClk) port))
      = ⟨true, true, bits ++ [false]⟩ := by
  rw [wiresOf_delay, wiresOf_outb eeprom m rfl, h]
  rfl

lemma wiresOf_fall (m : Machine σ) (h : (eeprom.wiresOf m).select = true) :
    eeprom.wiresOf (eepromDelay nic port (m.outb nic eeEnb port))
      = ⟨true, false, (eeprom.wiresOf m).bits⟩ := by
  rw [wiresOf_delay, wiresOf_outb eeprom m rfl]
  exact drive_low _ h (Or.inr rfl)

/-- A bit goes into the register of the driver. -/
lemma toNat_shiftBit {retval : UInt32} (h : 2 * (retval.toNat + 1) ≤ 2 ^ 32) (bit : Bool) :
    ((retval <<< 1) ||| (if bit = true then 1 else 0)).toNat = 2 * retval.toNat + bit.toNat := by
  have hshift : (retval <<< 1).toNat = 2 ^ 1 * retval.toNat :=
    Pci.toNat_shiftLeft32 (k := 1) rfl (by decide) (by omega)
  have hbit : (if bit = true then (1 : UInt32) else 0).toNat = bit.toNat := by
    cases bit with
    | false => rfl
    | true => rfl
  rw [UInt32.toNat_or, hshift, hbit, ← Nat.two_pow_add_eq_or_of_lt (Bool.toNat_lt bit), pow_one]

/-- The loop that reads the answer: it clocks in zeros, and if the chip answers with the last `k` bits of a
word, the driver gets these bits. -/
lemma shiftBack_spec (word : ℕ) {k : ℕ} (retval : UInt32) (m : Machine σ) {bits : List Bool}
    (h : eeprom.wiresOf m = ⟨true, false, bits⟩) (hfit : (retval.toNat + 1) * 2 ^ k ≤ 2 ^ 32) :
    (eeprom.wiresOf (shiftBack nic port k retval m).2).bits = bits ++ List.replicate k false ∧
      ((∀ j < k, reply eeprom.words (bits ++ List.replicate (j + 1) false)
          = some (word.testBit (k - 1 - j))) →
        (shiftBack nic port k retval m).1.toNat = shiftIn retval.toNat (msbFirst word k)) := by
  induction k generalizing retval m bits with
  | zero => exact ⟨by rw [shiftBack, h]; simp, fun _ => rfl⟩
  | succ i ih =>
    have hrise := wiresOf_rise eeprom m h
    set m₁ := eepromDelay nic port (m.outb nic (eeEnb ||| eeShiftClk) port) with hm₁
    set data := (m₁.inb nic port).1 with hdata
    set m₂ := (m₁.inb nic port).2 with hm₂
    set m₃ := eepromDelay nic port (m₂.outb nic eeEnb port) with hm₃
    set next : UInt32 := (retval <<< 1) ||| (if data &&& eeDataRead ≠ 0 then 1 else 0) with hnext
    have hround : shiftBack nic port (i + 1) retval m = shiftBack nic port i next m₃ := rfl
    have hkeep : eeprom.wiresOf m₂ = ⟨true, true, bits ++ [false]⟩ := by
      rw [hm₂, wiresOf_inb, hrise]
    have hfall : eeprom.wiresOf m₃ = ⟨true, false, bits ++ [false]⟩ := by
      rw [hm₃, wiresOf_fall eeprom m₂ (by rw [hkeep]), hkeep]
    have htwo : 2 * (retval.toNat + 1) * 2 ^ i ≤ 2 ^ 32 := by
      calc 2 * (retval.toNat + 1) * 2 ^ i = (retval.toNat + 1) * 2 ^ (i + 1) := by ring
        _ ≤ 2 ^ 32 := hfit
    have hroom : 2 * (retval.toNat + 1) ≤ 2 ^ 32 :=
      (Nat.le_mul_of_pos_right _ (Nat.two_pow_pos i)).trans htwo
    have hvalue : next.toNat = 2 * retval.toNat + (decide (data &&& eeDataRead ≠ 0)).toNat := by
      rw [← toNat_shiftBit hroom, hnext]
      simp only [decide_eq_true_eq]
    have hfit' : (next.toNat + 1) * 2 ^ i ≤ 2 ^ 32 := by
      have hbit := Bool.toNat_lt (decide (data &&& eeDataRead ≠ 0))
      exact (Nat.mul_le_mul_right (2 ^ i) (by omega)).trans htwo
    obtain ⟨hbits, hword⟩ := ih next m₃ hfall hfit'
    rw [hround]
    refine ⟨?_, fun hreply => ?_⟩
    · rw [hbits, List.append_assoc, List.singleton_append, List.replicate_succ]
    · have hanswer : data &&& eeDataRead ≠ 0 ↔ word.testBit i = true := by
        refine eeprom.inb_reply m₁.card _ ?_ ?_
        · rw [show eeprom.wires m₁.card = _ from hrise]
        · rw [show eeprom.wires m₁.card = _ from hrise]
          exact hreply 0 (Nat.succ_pos i)
      have hbit : decide (data &&& eeDataRead ≠ 0) = word.testBit i := by
        rw [Bool.eq_iff_iff, decide_eq_true_eq]
        exact hanswer
      rw [hword, hvalue, hbit, msbFirst_succ, shiftIn_cons]
      intro j hj
      rw [List.append_assoc, List.singleton_append, ← List.replicate_succ, hreply (j + 1) (by omega)]
      congr 2
      omega

/-! ## The read -/

/-- The command to read an address: the start bit, the opcode, the address. -/
lemma msbFirst_readCmd {location : UInt32} (h : location.toNat < 64) :
    msbFirst (location ||| eeReadCmd).toNat 11
      = [false, false, true, true, false] ++ msbFirst location.toNat 6 := by
  have hcmd : (location ||| eeReadCmd).toNat = location.toNat ||| 384 := UInt32.toNat_or location eeReadCmd
  have hhigh : ∀ i, 6 ≤ i → location.toNat.testBit i = false := fun i hi =>
    Nat.testBit_lt_two_pow (h.trans_le (Nat.pow_le_pow_right Nat.two_pos hi))
  have hlow : ∀ i < 6, (location.toNat ||| 384).testBit i = location.toNat.testBit i := by
    intro i hi
    have hzero : Nat.testBit 384 i = false := by
      interval_cases i <;> rfl
    rw [Nat.testBit_or, hzero, Bool.or_false]
  rw [hcmd]
  simp only [msbFirst_succ _ 10, msbFirst_succ _ 9, msbFirst_succ _ 8, msbFirst_succ _ 7,
    msbFirst_succ _ 6, msbFirst_congr 6 hlow, Nat.testBit_or, hhigh 10 (by decide), hhigh 9 (by decide),
    hhigh 8 (by decide), hhigh 7 (by decide), hhigh 6 (by decide)]
  rfl

/-- The answer to this command, bit by bit. -/
lemma reply_readCmd (words : ℕ → UInt16) {location : UInt32} (h : location.toNat < 64) {j : ℕ} (hj : j < 16) :
    reply words (msbFirst (location ||| eeReadCmd).toNat 11 ++ List.replicate (j + 1) false)
      = some ((words location.toNat).toNat.testBit (15 - j)) := by
  have haddress : shiftIn 0 (msbFirst location.toNat 6) = location.toNat := by
    rw [shiftIn_msbFirst, zero_mul, zero_add, Nat.mod_eq_of_lt (by simpa using h)]
  have hlength : (msbFirst location.toNat 6 ++ List.replicate (j + 1) false).length = 7 + j := by
    rw [List.length_append, length_msbFirst, List.length_replicate]
    omega
  have htake : (msbFirst location.toNat 6 ++ List.replicate (j + 1) false).take 6
      = msbFirst location.toNat 6 := List.take_left' (length_msbFirst _ _)
  have hindex : 22 - (7 + j) = 15 - j := by omega
  rw [msbFirst_readCmd h, List.append_assoc]
  set rest := msbFirst location.toNat 6 ++ List.replicate (j + 1) false
  have hreply : reply words ([false, false, true, true, false] ++ rest)
      = if rest.length < 6 then none else if rest.length = 6 then some false
        else if rest.length ≤ 22 then
          some ((words (shiftIn 0 (rest.take 6))).toNat.testBit (22 - rest.length))
        else none := rfl
  rw [hreply, hlength, if_neg (by omega), if_neg (by omega), if_pos (by omega), htake, haddress, hindex]

/-- The access up to the loop that reads: the chip is selected and has got the command. -/
lemma readEeprom_eq (ioaddr location : UInt32) (m : Machine σ)
    (eeprom : SerialEeprom nic (portOf ioaddr cfg9346)) :
    ∃ m₁ : Machine σ, eeprom.wiresOf m₁
        = ⟨true, false, msbFirst (location ||| eeReadCmd).toNat 11⟩ ∧
      (readEeprom nic ioaddr location m).1 = (shiftBack nic (portOf ioaddr cfg9346) 16 0 m₁).1 ∧
      (eeprom.wiresOf (readEeprom nic ioaddr location m).2).bits
        = (eeprom.wiresOf (shiftBack nic (portOf ioaddr cfg9346) 16 0 m₁).2).bits := by
  set mₛ := (m.outb nic (eeEnb &&& ~~~eeCs) (portOf ioaddr cfg9346)).outb nic eeEnb
    (portOf ioaddr cfg9346)
  have hstart : eeprom.wiresOf mₛ = ⟨true, false, []⟩ := by
    rw [wiresOf_outb eeprom _ rfl, wiresOf_outb eeprom _ rfl, drive_select]
  obtain ⟨hselect, hbits⟩ :=
    wiresOf_shiftOut eeprom (location ||| eeReadCmd) (k := 11) (by decide) mₛ (by rw [hstart])
  refine ⟨eepromDelay nic (portOf ioaddr cfg9346) ((shiftOut nic (portOf ioaddr cfg9346)
    (location ||| eeReadCmd) 11 mₛ).outb nic eeEnb (portOf ioaddr cfg9346)), ?_, rfl, ?_⟩
  · rw [wiresOf_fall eeprom _ hselect, hbits, hstart, List.nil_append]
  · have hmode : ~~~eeCs &&& 0xC0 ≠ 0x80 := by decide
    exact eeprom.outb_keep _ _ hmode

/-- **What `read_eeprom` sends.**  For every location the chip gets the 11 bits of the command, the most
significant one first, and then 16 zeros while the driver reads. -/
theorem readEeprom_sends (ioaddr location : UInt32) (m : Machine σ)
    (eeprom : SerialEeprom nic (portOf ioaddr cfg9346)) :
    (eeprom.wiresOf (readEeprom nic ioaddr location m).2).bits
      = msbFirst (location ||| eeReadCmd).toNat 11 ++ List.replicate 16 false := by
  obtain ⟨m₁, hwires, -, hbits⟩ := readEeprom_eq ioaddr location m eeprom
  rw [hbits]
  exact (shiftBack_spec eeprom 0 0 m₁ hwires (by decide)).1

/-- **What `read_eeprom` returns.**  It is the word of the location. -/
theorem readEeprom_reads (ioaddr location : UInt32) (h : location.toNat < 64) (m : Machine σ)
    (eeprom : SerialEeprom nic (portOf ioaddr cfg9346)) :
    (readEeprom nic ioaddr location m).1 = (eeprom.words location.toNat).toUInt32 := by
  obtain ⟨m₁, hwires, hvalue, -⟩ := readEeprom_eq ioaddr location m eeprom
  have hword := (shiftBack_spec eeprom (eeprom.words location.toNat).toNat 0 m₁ hwires (by decide)).2
    fun j hj => reply_readCmd eeprom.words h hj
  rw [hvalue, ← UInt32.toNat_inj, hword, shiftIn_msbFirst, UInt16.toNat_toUInt32, UInt32.toNat_zero,
    zero_mul, zero_add, Nat.mod_eq_of_lt (eeprom.words location.toNat).toNat_lt]

end Reading

end Nic
end GrubKernel
