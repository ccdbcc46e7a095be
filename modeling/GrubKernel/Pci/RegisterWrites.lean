import GrubKernel.Pci.ConfigSpace

/-!
# Register writes to the configuration space

`w_pci_32` and `pcibios_write_config_dword` write a whole register, addressed by its number as in
`r_pci_32`.  `pciCheckVendor` looks whether there is a device in a slot.

* `wPci32`, `pcibiosWriteConfigDword`, `pciCheckVendor` — the functions.
* `dword_setDword` — the words of the space after a register is replaced.
* **`register_writes`** — a register that is written is read back, the other registers keep their words,
  and the write is the same as two writes of halfwords.
-/

namespace GrubKernel
namespace Pci
namespace Ports

/-- `w_pci_32`, which is declared with a result and returns none. -/
def wPci32 (p : Ports) (bus device func pcireg : UInt8) (value : UInt32) : Ports :=
  let p := p.outl (configAddress bus device func pcireg) 0xCF8
  p.outl value 0xCFC

/-- `pcibios_write_config_dword`. -/
def pcibiosWriteConfigDword (p : Ports) (bus device func pcireg : UInt8) (value : UInt32) : Ports :=
  let p := p.outl (configAddress bus device func pcireg) 0xCF8
  p.outl value 0xCFC

/-- The two functions have the same body. -/
lemma pcibiosWriteConfigDword_eq : pcibiosWriteConfigDword = wPci32 := rfl

/-- `pciCheckVendor`.  The device is read to a local variable, and from there goes nowhere. -/
def pciCheckVendor (p : Ports) (bus slot : UInt8) : UInt16 × Ports :=
  let (vendor, p) := p.pciConfigReadWord bus slot 0 0
  if vendor ≠ 0xFFFF then
    let (_device, p) := p.pciConfigReadWord bus slot 0 2
    (vendor, p)
  else (vendor, p)

end Ports

/-! ## Words of the space -/

lemma byte_setDword (space : Space) (b d f r : ℕ) (value : UInt32) {i : ℕ} (hi : i < 4) :
    (setDword space b d f r value b d f (4 * r + i)).toNat = value.toNat / 2 ^ (8 * i) % 2 ^ 8 := by
  have hreg : (4 * r + i) / 4 = r := by omega
  have hlane : (4 * r + i) % 4 = i := by omega
  rw [setDword, if_pos ⟨rfl, rfl, rfl, hreg⟩, UInt8.toNat_ofNat', hlane]

/-- **The words after a register is replaced.** -/
lemma dword_setDword (space : Space) (b d f r : ℕ) (value : UInt32) (b' d' f' r' : ℕ) :
    dword (setDword space b d f r value) b' d' f' r'
      = if b' = b ∧ d' = d ∧ f' = f ∧ r' = r then value else dword space b' d' f' r' := by
  by_cases hsel : b' = b ∧ d' = d ∧ f' = f ∧ r' = r
  · obtain ⟨rfl, rfl, rfl, rfl⟩ := hsel
    have hbyte := fun i (hi : i < 4) => byte_setDword space b' d' f' r' value hi
    have h₀ := hbyte 0 (by decide)
    have h₁ := hbyte 1 (by decide)
    have h₂ := hbyte 2 (by decide)
    have h₃ := hbyte 3 (by decide)
    have hlt := value.toNat_lt
    rw [if_pos ⟨rfl, rfl, rfl, rfl⟩, dword, ← UInt32.toNat_inj, UInt32.toNat_ofNat', h₁, h₂, h₃]
    rw [Nat.add_zero] at h₀
    rw [h₀]
    omega
  · have hoff : ∀ i < 4,
        setDword space b d f r value b' d' f' (4 * r' + i) = space b' d' f' (4 * r' + i) := by
      intro i hi
      rw [setDword, if_neg]
      rintro ⟨hb, hd, hf, hr⟩
      exact hsel ⟨hb, hd, hf, by omega⟩
    have h₀ := hoff 0 (by decide)
    rw [Nat.add_zero] at h₀
    rw [if_neg hsel, dword, dword, h₀, hoff 1 (by decide), hoff 2 (by decide), hoff 3 (by decide)]

section Writing

variable {b d f r : ℕ}

lemma wPci32_space (p : Ports) (hb : b < 256) (hd : d < 32) (hf : f < 8) (hr : r < 64) (value : UInt32) :
    (p.wPci32 (UInt8.ofNat b) (UInt8.ofNat d) (UInt8.ofNat f) (UInt8.ofNat r) value).space
      = setDword p.space b d f r value := by
  have haddress : (configAddress (UInt8.ofNat b) (UInt8.ofNat d) (UInt8.ofNat f) (UInt8.ofNat r)).toNat
      = addressOf b d f (4 * r) := by
    rw [toNat_configAddress hb hd hf hr, addressOf, Nat.mul_div_cancel_left r (by decide)]
  rw [Ports.wPci32]
  generalize configAddress (UInt8.ofNat b) (UInt8.ofNat d) (UInt8.ofNat f) (UInt8.ofNat r) = address
    at haddress ⊢
  obtain ⟨hbus, hdev, hfun, hreg, henabled⟩ :=
    address_reaches (p := ⟨address, p.space⟩) hb hd hf (show 4 * r < 256 by omega) haddress
  rw [outl_address, Ports.outl, if_neg (by decide), if_pos ⟨rfl, henabled⟩, hbus, hdev, hfun, hreg,
    Nat.mul_div_cancel_left r (by decide)]

lemma rPci32_fst (p : Ports) (hb : b < 256) (hd : d < 32) (hf : f < 8) (hr : r < 64) :
    (p.rPci32 (UInt8.ofNat b) (UInt8.ofNat d) (UInt8.ofNat f) (UInt8.ofNat r)).1
      = dword p.space b d f r := by
  rw [rPci32_eq_hostBridge p hb hd hf hr, rPci32_hostBridge (dword p.space) hb hd hf hr]

/-- The bytes of the two halfwords of a word are its bytes. -/
lemma byte_of_halfwords (value : UInt32) (o : ℕ) :
    UInt8.ofNat ((if o % 4 < 2 then value.toUInt16.toNat else (value >>> 16).toUInt16.toNat)
      / 2 ^ (8 * (o % 2))) = UInt8.ofNat (value.toNat / 2 ^ (8 * (o % 4))) := by
  have hshift : (16 : UInt32).toNat % 32 = 16 := rfl
  have hlow : value.toUInt16.toNat = value.toNat % 2 ^ 16 := UInt32.toNat_toUInt16 value
  have hhigh : (value >>> 16).toUInt16.toNat = value.toNat / 2 ^ 16 % 2 ^ 16 := by
    rw [UInt32.toNat_toUInt16, UInt32.toNat_shiftRight, hshift, Nat.shiftRight_eq_div_pow]
  refine ofNat_eq_of_mod_eq ?_
  by_cases hlane : o % 4 < 2
  · have hodd : o % 4 = o % 2 := by omega
    rw [if_pos hlane, hlow, hodd]
    exact byte_of_halfword _ (by omega)
  · have hodd : 8 * (o % 4) = 16 + 8 * (o % 2) := by omega
    rw [if_neg hlane, hhigh, hodd, pow_add, ← Nat.div_div_eq_div_mul]
    exact byte_of_halfword _ (by omega)

/-- Two writes of halfwords write a register. -/
lemma pciWriteWord_halfwords (p : Ports) (hb : b < 256) (hd : d < 32) (hf : f < 8) (hr : r < 64)
    (value : UInt32) :
    (((p.pciWriteWord (UInt16.ofNat b) (UInt16.ofNat d) (UInt16.ofNat f) (UInt16.ofNat (4 * r))
      value.toUInt16).2).pciWriteWord (UInt16.ofNat b) (UInt16.ofNat d) (UInt16.ofNat f)
      (UInt16.ofNat (4 * r + 2)) (value >>> 16).toUInt16).2.space = setDword p.space b d f r value := by
  funext b' d' f' o'
  have hbyte := byte_of_halfwords value o'
  rw [pciWriteWord_space _ hb hd hf (by omega), pciWriteWord_space _ hb hd hf (by omega), setDword]
  by_cases hsel : b' = b ∧ d' = d ∧ f' = f ∧ o' / 4 = r
  · obtain ⟨rfl, rfl, rfl, rfl⟩ := hsel
    by_cases hlane : o' % 4 < 2
    · rw [if_pos hlane] at hbyte
      rw [if_neg (by omega), if_pos ⟨rfl, rfl, rfl, by omega⟩, if_pos ⟨rfl, rfl, rfl, rfl⟩, hbyte]
    · rw [if_neg hlane] at hbyte
      rw [if_pos ⟨rfl, rfl, rfl, by omega⟩, if_pos ⟨rfl, rfl, rfl, rfl⟩, hbyte]
  · have hoff : ∀ o, o / 4 = r → ¬ (b' = b ∧ d' = d ∧ f' = f ∧ o' / 2 = o / 2) := by
      rintro o ho ⟨hb', hd', hf', hhalf⟩
      exact hsel ⟨hb', hd', hf', by omega⟩
    rw [if_neg (hoff (4 * r + 2) (by omega)), if_neg (hoff (4 * r) (by omega)), if_neg hsel]

/-- What `pciCheckVendor` returns. -/
lemma pciCheckVendor_fst (p : Ports) (hb : b < 256) (hd : d < 32) :
    (p.pciCheckVendor (UInt8.ofNat b) (UInt8.ofNat d)).1 = (dword p.space b d 0 0).toUInt16 := by
  have hword := pciConfigReadWord_spec p hb hd (show 0 < 8 by decide) (show 0 < 256 by decide)
  have hfst : (p.pciCheckVendor (UInt8.ofNat b) (UInt8.ofNat d)).1
      = (p.pciConfigReadWord (UInt8.ofNat b) (UInt8.ofNat d) 0 0).1 := by
    rw [Ports.pciCheckVendor]
    dsimp only
    split_ifs
    · rfl
    · rfl
  rw [hfst, ← UInt16.toNat_inj, UInt32.toNat_toUInt16]
  exact hword.trans (by simp)

end Writing

end Pci

open Pci

/-- **A register that is written.**  For every content of the space and whatever address is latched:
after `w_pci_32`, or `pcibios_write_config_dword`, `r_pci_32` returns the value for this register and
for each other one what it returned before; two calls of `pci_write_word` with the halves of the value
leave the same space; and `pciCheckVendor` shows another vendor only where register 0 of function 0 was
written. -/
theorem register_writes (p : Ports) {b d f r : ℕ} (hb : b < 256) (hd : d < 32) (hf : f < 8) (hr : r < 64)
    (value : UInt32) :
    let q := p.wPci32 (UInt8.ofNat b) (UInt8.ofNat d) (UInt8.ofNat f) (UInt8.ofNat r) value
    q = p.pcibiosWriteConfigDword (UInt8.ofNat b) (UInt8.ofNat d) (UInt8.ofNat f) (UInt8.ofNat r) value ∧
    (∀ b' < 256, ∀ d' < 32, ∀ f' < 8, ∀ r' < 64,
      (q.rPci32 (UInt8.ofNat b') (UInt8.ofNat d') (UInt8.ofNat f') (UInt8.ofNat r')).1
        = if b' = b ∧ d' = d ∧ f' = f ∧ r' = r then value
          else (p.rPci32 (UInt8.ofNat b') (UInt8.ofNat d') (UInt8.ofNat f') (UInt8.ofNat r')).1) ∧
    q.space = (((p.pciWriteWord (UInt16.ofNat b) (UInt16.ofNat d) (UInt16.ofNat f) (UInt16.ofNat (4 * r))
      value.toUInt16).2).pciWriteWord (UInt16.ofNat b) (UInt16.ofNat d) (UInt16.ofNat f)
      (UInt16.ofNat (4 * r + 2)) (value >>> 16).toUInt16).2.space ∧
    ∀ b' < 256, ∀ d' < 32, (q.pciCheckVendor (UInt8.ofNat b') (UInt8.ofNat d')).1
      = if b' = b ∧ d' = d ∧ f = 0 ∧ r = 0 then value.toUInt16
        else (p.pciCheckVendor (UInt8.ofNat b') (UInt8.ofNat d')).1 := by
  intro q
  have hspace : q.space = setDword p.space b d f r value := wPci32_space p hb hd hf hr value
  refine ⟨by rw [Ports.pcibiosWriteConfigDword_eq], fun b' hb' d' hd' f' hf' r' hr' => ?_, ?_,
    fun b' hb' d' hd' => ?_⟩
  · rw [rPci32_fst q hb' hd' hf' hr', rPci32_fst p hb' hd' hf' hr', hspace, dword_setDword]
  · rw [hspace, pciWriteWord_halfwords p hb hd hf hr value]
  · rw [pciCheckVendor_fst q hb' hd', pciCheckVendor_fst p hb' hd', hspace, dword_setDword]
    by_cases hsel : b' = b ∧ d' = d ∧ f = 0 ∧ r = 0
    · obtain ⟨hb₀, hd₀, hf₀, hr₀⟩ := hsel
      rw [if_pos ⟨hb₀, hd₀, hf₀.symm, hr₀.symm⟩, if_pos ⟨hb₀, hd₀, hf₀, hr₀⟩]
    · rw [if_neg hsel, if_neg]
      rintro ⟨hb₀, hd₀, hf₀, hr₀⟩
      exact hsel ⟨hb₀, hd₀, hf₀.symm, hr₀.symm⟩

/-- The vendor and device of function 0:4.0, written and read back. -/
theorem register_writes_example :
    let q := Ports.wPci32 ⟨0, fun _ _ _ _ => 0xFF⟩ (UInt8.ofNat 0) (UInt8.ofNat 4) (UInt8.ofNat 0)
      (UInt8.ofNat 0) 0x813910ec
    (q.pciCheckVendor (UInt8.ofNat 0) (UInt8.ofNat 4)).1 = 0x10ec := by
  intro q
  exact (register_writes ⟨0, fun _ _ _ _ => 0xFF⟩ (by decide) (by decide) (by decide) (by decide)
    0x813910ec).2.2.2 0 (by decide) 4 (by decide)

end GrubKernel
