import GrubKernel.Pci.Eeprom

/-!
# The MAC address

`init_pcilist` reads the MAC address from the EEPROM, or, if its first word is `0xffff`, from the registers
of the card.

* `HoldsAddress` — a card with the same six bytes in both places.
* `macSection_of_words`, `macSection_of_empty` — the two branches.  The second one drops what it reads.
* `card` — a card with given contents.
* **`mac_address_iff`** — the section gets the address iff it takes the first branch, or the address is
  zero.
-/

namespace GrubKernel
namespace Nic

open Loop ShiftRegister

/-- The card has the six bytes of the address in the words 7, 8 and 9 of its EEPROM, the low byte first, and
in its registers. -/
structure HoldsAddress {σ : Type*} (nic : Nic σ) (ioaddr : UInt32)
    (eeprom : SerialEeprom nic (portOf ioaddr cfg9346)) (bytes : ℕ → UInt8) : Prop where
  words : ∀ i < 3,
    (eeprom.words (i + 7)).toNat = (bytes (2 * i)).toNat + 2 ^ 8 * (bytes (2 * i + 1)).toNat
  registers : ∀ card, ∀ i < 6, (nic.inb card (portOf ioaddr (UInt32.ofNat i))).1 = bytes i

/-- What `mac_address` is to be. -/
def macOf (bytes : ℕ → UInt8) : List UInt32 := (List.range 6).map fun i => (bytes i).toUInt32

section Branches

variable {σ : Type*} {nic : Nic σ} {ioaddr : UInt32}
  (eeprom : SerialEeprom nic (portOf ioaddr cfg9346)) {bytes : ℕ → UInt8}

/-! ## The EEPROM -/

/-- The two bytes of a word. -/
lemma bytes_of_word {word : UInt16} {low high : UInt8} (h : word.toNat = low.toNat + 2 ^ 8 * high.toNat) :
    (word &&& 0xFF).toUInt32 = low.toUInt32 ∧ (word >>> 8).toUInt32 = high.toUInt32 := by
  have hlt := low.toNat_lt
  have hmask : (0xFF : UInt16).toNat = 2 ^ 8 - 1 := rfl
  have hshift : (8 : UInt16).toNat % 16 = 8 := rfl
  constructor
  · rw [← UInt32.toNat_inj, UInt16.toNat_toUInt32, UInt8.toNat_toUInt32, UInt16.toNat_and, hmask,
      Nat.and_two_pow_sub_one_eq_mod, h]
    omega
  · rw [← UInt32.toNat_inj, UInt16.toNat_toUInt32, UInt8.toNat_toUInt32, UInt16.toNat_shiftRight, hshift,
      Nat.shiftRight_eq_div_pow, h]
    omega

/-- The address as far as it has been read. -/
def partOf (bytes : ℕ → UInt8) (n : ℕ) : List UInt32 :=
  (List.range 6).map fun j => if j < n then (bytes j).toUInt32 else 0

lemma partOf_set (bytes : ℕ → UInt8) (n : ℕ) :
    (partOf bytes n).set n (bytes n).toUInt32 = partOf bytes (n + 1) := by
  refine List.ext_getElem (by simp [partOf]) fun j hj hj' => ?_
  simp only [partOf, List.getElem_set, List.getElem_map, List.getElem_range]
  by_cases h : n = j
  · rw [if_pos h, if_pos (by omega), h]
  · rw [if_neg h]
    exact if_congr (by omega) rfl rfl

lemma macFromEeprom_macAddress (i : ℕ) (s : MacState σ) :
    (macFromEeprom nic ioaddr i s).macAddress =
      (s.macAddress.set s.macAddressIndex
        ((readEeprom nic ioaddr (UInt32.ofNat i + 7) s.machine).1.toUInt16 &&& 0xFF).toUInt32).set
        (s.macAddressIndex + 1)
        ((readEeprom nic ioaddr (UInt32.ofNat i + 7) s.machine).1.toUInt16 >>> 8).toUInt32 := rfl

lemma macFromEeprom_macAddressIndex (i : ℕ) (s : MacState σ) :
    (macFromEeprom nic ioaddr i s).macAddressIndex = s.macAddressIndex + 2 := rfl

/-- A round of the first loop gets two bytes. -/
lemma macFromEeprom_step (h : HoldsAddress nic ioaddr eeprom bytes) {i : ℕ} (hi : i < 3) (s : MacState σ)
    (hs : s.macAddress = partOf bytes (2 * i) ∧ s.macAddressIndex = 2 * i) :
    (macFromEeprom nic ioaddr i s).macAddress = partOf bytes (2 * (i + 1)) ∧
      (macFromEeprom nic ioaddr i s).macAddressIndex = 2 * (i + 1) := by
  have hlocation : (UInt32.ofNat i + 7).toNat = i + 7 := by
    interval_cases i <;> rfl
  have hword := readEeprom_reads ioaddr (UInt32.ofNat i + 7) (by omega) s.machine eeprom
  obtain ⟨hlow, hhigh⟩ := bytes_of_word (h.words i hi)
  have hdata : (readEeprom nic ioaddr (UInt32.ofNat i + 7) s.machine).1.toUInt16 = eeprom.words (i + 7) := by
    rw [hword, hlocation, UInt16.toUInt16_toUInt32]
  have hnext : 2 * (i + 1) = 2 * i + 1 + 1 := by ring
  refine ⟨?_, ?_⟩
  · rw [macFromEeprom_macAddress, hdata, hlow, hhigh, hs.1, hs.2, partOf_set, partOf_set, hnext]
  · rw [macFromEeprom_macAddressIndex, hs.2, hnext]

/-- The address comes out of one of the two loops. -/
lemma macSection_fst (m : Machine σ) :
    (macSection nic ioaddr m).1 =
      (if (readEeprom nic ioaddr 0 m).1 ≠ 0xffff then
        forLoop 3 (macFromEeprom nic ioaddr) ⟨List.replicate 6 0, 0, (readEeprom nic ioaddr 0 m).2⟩
      else
        forLoop 6 (macFromRegisters nic ioaddr)
          ⟨List.replicate 6 0, 0, (readEeprom nic ioaddr 0 m).2⟩).macAddress := rfl

/-- The branch that reads the EEPROM. -/
lemma macSection_of_words (h : HoldsAddress nic ioaddr eeprom bytes) (hword : eeprom.words 0 ≠ 0xffff)
    (m : Machine σ) : (macSection nic ioaddr m).1 = macOf bytes := by
  have hbranch : (readEeprom nic ioaddr 0 m).1 ≠ 0xffff := by
    rw [readEeprom_reads ioaddr 0 (by decide) m eeprom]
    intro heq
    exact hword (UInt16.toUInt32_inj.mp heq)
  have hloop := forLoop_inv (s := ⟨List.replicate 6 0, 0, (readEeprom nic ioaddr 0 m).2⟩)
    (fun i s => s.macAddress = partOf bytes (2 * i) ∧ s.macAddressIndex = 2 * i) 3 ⟨rfl, rfl⟩
    fun i hi s hs => macFromEeprom_step eeprom h hi s hs
  rw [macSection_fst, if_pos hbranch, hloop.1]
  rfl

/-! ## The registers -/

/-- The branch that reads the registers leaves the array as it was. -/
lemma macSection_of_empty (hword : eeprom.words 0 = 0xffff) (m : Machine σ) :
    (macSection nic ioaddr m).1 = List.replicate 6 0 := by
  have hbranch : ¬ (readEeprom nic ioaddr 0 m).1 ≠ 0xffff := by
    rw [readEeprom_reads ioaddr 0 (by decide) m eeprom]
    show ¬ (eeprom.words 0).toUInt32 ≠ 0xffff
    rw [hword]
    exact not_not.mpr rfl
  have hround : ∀ i < 6, ∀ s : MacState σ, s.macAddress = List.replicate 6 0 →
      (macFromRegisters nic ioaddr i s).macAddress = List.replicate 6 0 := fun i _ s hs => hs
  rw [macSection_fst, if_neg hbranch]
  exact forLoop_inv (fun _ (s : MacState σ) => s.macAddress = List.replicate 6 0) 6 rfl hround

/-- The array of zeros is the address iff all bytes are zero. -/
lemma replicate_eq_macOf_iff : List.replicate 6 0 = macOf bytes ↔ ∀ i < 6, bytes i = 0 := by
  rw [eq_comm, List.eq_replicate_iff, macOf, List.length_map, List.length_range, and_iff_right rfl,
    List.forall_mem_map]
  simp only [List.mem_range]
  refine forall₂_congr fun i _ => ?_
  exact UInt8.toUInt32_inj (b := 0)

/-- `read_eeprom` goes over the wires as it should: it sends the command, the most significant bit first, and
returns the word of its location. -/
def ReadsWords (ioaddr : UInt32) (eeprom : SerialEeprom nic (portOf ioaddr cfg9346)) : Prop :=
  ∀ location : UInt32, ∀ m : Machine σ,
    (eeprom.wiresOf (readEeprom nic ioaddr location m).2).bits
        = msbFirst (location ||| eeReadCmd).toNat 11 ++ List.replicate 16 false ∧
      (location.toNat < 64 →
        (readEeprom nic ioaddr location m).1 = (eeprom.words location.toNat).toUInt32)

end Branches

/-! ## A card -/

/-- The card whose EEPROM and registers have given contents. -/
def card (ioaddr : UInt32) (words : ℕ → UInt16) (bytes : ℕ → UInt8) : Nic Wires where
  outb w value port :=
    if port = portOf ioaddr cfg9346 ∧ value &&& 0xC0 = 0x80 then w.drive value else w
  outw w _ _ := w
  outl w _ _ := w
  inb w port :=
    if port = portOf ioaddr cfg9346 then
      (if w.select = true ∧ reply words w.bits = some true then 1 else 0, w)
    else (bytes (port - portOf ioaddr 0).toNat, w)
  inl w _ := (0, w)

/-- Its EEPROM. -/
def cardEeprom (ioaddr : UInt32) (words : ℕ → UInt16) (bytes : ℕ → UInt8) :
    SerialEeprom (card ioaddr words bytes) (portOf ioaddr cfg9346) where
  words := words
  wires w := w
  outb_drive w value h := if_pos ⟨rfl, h⟩
  outb_keep w value h := by
    rw [card]
    exact congrArg Wires.bits (if_neg fun hmode => h hmode.2)
  inl_keep w := rfl
  inb_keep w := by
    rw [card]
    exact congrArg Prod.snd (if_pos rfl)
  inb_reply w bit hselect hreply := by
    have hdata : ((card ioaddr words bytes).inb w (portOf ioaddr cfg9346)).1
        = if w.select = true ∧ reply words w.bits = some true then 1 else 0 :=
      congrArg Prod.fst (if_pos rfl)
    rw [hdata, hreply, hselect]
    cases bit with
    | false => decide
    | true => decide

end Nic

open Nic

/-- **When the address is read.**  For every card with an EEPROM behind its port, with the same six bytes in
the EEPROM and in the registers, and from every state of it: the driver sends the commands and gets the
words as it should, and the MAC section fills `mac_address` with the six bytes, iff the first word of the
EEPROM is not `0xffff`, or the bytes are all zero.  The branch that reads the registers never stores
what it reads. -/
theorem mac_address_iff {σ : Type*} (nic : Nic σ) (ioaddr : UInt32)
    (eeprom : SerialEeprom nic (portOf ioaddr cfg9346)) (bytes : ℕ → UInt8)
    (h : HoldsAddress nic ioaddr eeprom bytes) (m : Machine σ) :
    ((macSection nic ioaddr m).1 = macOf bytes ∧ ReadsWords ioaddr eeprom) ↔
      eeprom.words 0 ≠ 0xffff ∨ ∀ i < 6, bytes i = 0 := by
  have hreads : ReadsWords ioaddr eeprom := fun location m =>
    ⟨readEeprom_sends ioaddr location m eeprom, fun hlocation =>
      readEeprom_reads ioaddr location hlocation m eeprom⟩
  rw [and_iff_left hreads]
  by_cases hword : eeprom.words 0 = 0xffff
  · rw [macSection_of_empty eeprom hword, replicate_eq_macOf_iff]
    exact (or_iff_right (not_not.mpr hword)).symm
  · exact iff_of_true (macSection_of_words eeprom h hword m) (Or.inl hword)

/-- The card of an emulator, with its EEPROM. -/
theorem mac_address_of_emulator :
    let words : ℕ → UInt16 := fun i => [0x8129, 0, 0, 0, 0, 0, 0, 0x5452, 0x1200, 0x5634].getD i 0
    let bytes : ℕ → UInt8 := fun i => [0x52, 0x54, 0x00, 0x12, 0x34, 0x56].getD i 0
    (macSection (card 0xc000 words bytes) 0xc000 ⟨⟨true, true, []⟩, []⟩).1 = macOf bytes ∧
      ReadsWords 0xc000 (cardEeprom 0xc000 words bytes) := by
  intro words bytes
  refine (mac_address_iff (card 0xc000 words bytes) 0xc000 (cardEeprom 0xc000 words bytes) bytes ⟨?_, ?_⟩
    _).mpr (Or.inl (by decide))
  · decide
  · intro w i hi
    interval_cases i <;> rfl

/-- The same card with an EEPROM whose first word is erased: the address stays zero. -/
theorem mac_address_missed :
    let words : ℕ → UInt16 := fun i => [0xffff, 0, 0, 0, 0, 0, 0, 0x5452, 0x1200, 0x5634].getD i 0
    let bytes : ℕ → UInt8 := fun i => [0x52, 0x54, 0x00, 0x12, 0x34, 0x56].getD i 0
    HoldsAddress (card 0xc000 words bytes) 0xc000 (cardEeprom 0xc000 words bytes) bytes ∧
      (macSection (card 0xc000 words bytes) 0xc000 ⟨⟨true, true, []⟩, []⟩).1 ≠ macOf bytes := by
  intro words bytes
  refine ⟨⟨by decide, fun w i hi => by interval_cases i <;> rfl⟩, ?_⟩
  rw [macSection_of_empty (cardEeprom 0xc000 words bytes) rfl]
  decide

end GrubKernel
