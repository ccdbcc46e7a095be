import GrubKernel.Pci.ConfigSpace

/-!
# Byte writes to the configuration space

`pci.c` has two functions that write one byte.  `pcibios_write_config_byte` selects the register of the
byte and writes to the data port of its lane; `w_pci_8` selects the same register and always writes to
the first lane (the line that adds the lane is commented out).

* `outb` — the instruction, over the ports of the configuration space.
* `wPci8`, `configCmd`, `pcibiosWriteConfigByte` — the functions.
* `Writes` — an access writes one byte: a following read shows it, and no other byte changes.
* **`byte_writes_agree_iff`** — both functions write the addressed byte iff it lies on the first lane,
  or the two bytes in question hold the value already.
-/

namespace GrubKernel
namespace Pci

/-- The space with one byte replaced. -/
def setByte (space : Space) (bus device func offset : ℕ) (value : UInt8) : Space :=
  fun b d f o => if b = bus ∧ d = device ∧ f = func ∧ o = offset then value else space b d f o

lemma setByte_self (space : Space) (b d f o : ℕ) (value : UInt8) :
    setByte space b d f o value b d f o = value := if_pos ⟨rfl, rfl, rfl, rfl⟩

lemma setByte_other (space : Space) {b d f o b' d' f' o' : ℕ} (value : UInt8)
    (h : ¬ (b' = b ∧ d' = d ∧ f' = f ∧ o' = o)) :
    setByte space b d f o value b' d' f' o' = space b' d' f' o' := if_neg h

namespace Ports

/-- `outb`. -/
def outb (p : Ports) (value : UInt8) (port : UInt16) : Ports :=
  if 0xCFC ≤ port.toNat ∧ port.toNat ≤ 0xCFF ∧ p.Enabled then
    { p with space := setByte p.space p.bus p.device p.func (4 * p.reg + (port.toNat - 0xCFC)) value }
  else p

/-- `w_pci_8`. -/
def wPci8 (p : Ports) (bus device func pcireg value : UInt8) : Ports :=
  let index := pciEnableBit ||| (bus.toUInt32 <<< 16) ||| (device.toUInt32 <<< 11) |||
    (func.toUInt32 <<< 8) ||| (pcireg.toUInt32 &&& ~~~3)
  let p := p.outl index 0xCF8
  p.outb value 0xCFC

/-- `config_cmd`. -/
def configCmd (bus : UInt8) (devfn where_ : UInt32) : UInt32 :=
  (0x80000000 : UInt32) ||| (bus.toUInt32 <<< 16) ||| (devfn <<< 8) ||| (where_ &&& ~~~3)

/-- `pcibios_write_config_byte`. -/
def pcibiosWriteConfigByte (p : Ports) (bus : UInt8) (devfn where_ : UInt32) (value : UInt8) : Ports :=
  let p := p.outl (configCmd bus devfn where_) 0xCF8
  p.outb value (0xCFC + (where_ &&& 3)).toUInt16

/-- The step from `p` to `q` writes one byte: `pcibios_read_config_byte` returns it, and every other byte
is what it was. -/
def Writes (p q : Ports) (b d f o : ℕ) (value : UInt8) : Prop :=
  (q.pcibiosReadConfigByte (UInt32.ofNat b) (UInt32.ofNat d) (UInt32.ofNat f) (UInt32.ofNat o)).1
    = value ∧
  ∀ b' d' f' o', ¬ (b' = b ∧ d' = d ∧ f' = f ∧ o' = o) → q.space b' d' f' o' = p.space b' d' f' o'

end Ports

section Writing

variable {b d f o : ℕ}

/-- The address of `w_pci_8`. -/
lemma toNat_writeByteAddress (hb : b < 256) (hd : d < 32) (hf : f < 8) (ho : o < 256) :
    (pciEnableBit ||| ((UInt8.ofNat b).toUInt32 <<< 16) ||| ((UInt8.ofNat d).toUInt32 <<< 11) |||
      ((UInt8.ofNat f).toUInt32 <<< 8) ||| ((UInt8.ofNat o).toUInt32 &&& ~~~3)).toNat
      = addressOf b d f o := by
  obtain ⟨hbus, hdev, hfun⟩ := toNat_fields hb hd hf
  exact toNat_packed hb hd hf (by omega) hbus hdev hfun (toNat_registerOffset (toNat_byte ho) ho)

/-- The address of `config_cmd`, which gets the device and the function in one number. -/
lemma toNat_configCmd (hb : b < 256) (hd : d < 32) (hf : f < 8) (ho : o < 256) :
    (Ports.configCmd (UInt8.ofNat b) (UInt32.ofNat (d * 8 + f)) (UInt32.ofNat o)).toNat
      = addressOf b d f o := by
  have hword : ∀ n < 2 ^ 32, (UInt32.ofNat n).toNat = n := fun _ => UInt32.toNat_ofNat_of_lt'
  have hbus : ((UInt8.ofNat b).toUInt32 <<< 16).toNat = 2 ^ 16 * b := (toNat_fields hb hd hf).1
  have hdevfn : (UInt32.ofNat (d * 8 + f) <<< 8).toNat = 2 ^ 11 * d ||| 2 ^ 8 * f := by
    have hshift : (UInt32.ofNat (d * 8 + f) <<< 8).toNat = 2 ^ 8 * (d * 8 + f) :=
      toNat_shiftLeft32 (k := 8) (hword _ (by omega)) (by decide) (by omega)
    rw [hshift, ← Nat.two_pow_add_eq_or_of_lt (by omega)]
    omega
  have hoff : (UInt32.ofNat o &&& ~~~3).toNat = 2 ^ 2 * (o / 4) :=
    toNat_registerOffset (hword o (by omega)) ho
  have henable : (0x80000000 : UInt32).toNat = 2 ^ 31 := rfl
  rw [Ports.configCmd, UInt32.toNat_or, UInt32.toNat_or, UInt32.toNat_or, henable, hbus, hdevfn, hoff,
    addressOf, ← packed_enable_first hb hd hf (by omega)]
  simp only [Nat.lor_assoc]

/-- A byte that is written to a lane of the data port, after an address of a byte is latched. -/
lemma outb_selected (p : Ports) {address : UInt32} (value : UInt8) {port : UInt16} (lane : ℕ)
    (hb : b < 256) (hd : d < 32) (hf : f < 8) (ho : o < 256) (h : address.toNat = addressOf b d f o)
    (hlane : lane < 4) (hport : port.toNat = 0xCFC + lane) :
    ((p.outl address 0xCF8).outb value port).space
      = setByte p.space b d f (4 * (o / 4) + lane) value := by
  obtain ⟨hbus, hdev, hfun, hreg, henabled⟩ :=
    address_reaches (p := ⟨address, p.space⟩) hb hd hf ho h
  rw [outl_address, Ports.outb, if_pos ⟨by omega, by omega, henabled⟩, hbus, hdev, hfun, hreg, hport,
    Nat.add_sub_cancel_left]

/-- `w_pci_8` writes the first byte of the register. -/
lemma wPci8_space (p : Ports) (hb : b < 256) (hd : d < 32) (hf : f < 8) (ho : o < 256) (value : UInt8) :
    (p.wPci8 (UInt8.ofNat b) (UInt8.ofNat d) (UInt8.ofNat f) (UInt8.ofNat o) value).space
      = setByte p.space b d f (4 * (o / 4)) value :=
  outb_selected p value 0 hb hd hf ho (toNat_writeByteAddress hb hd hf ho) (by decide) rfl

/-- `pcibios_write_config_byte` writes the addressed byte. -/
lemma pcibiosWriteConfigByte_space (p : Ports) (hb : b < 256) (hd : d < 32) (hf : f < 8) (ho : o < 256)
    (value : UInt8) :
    (p.pcibiosWriteConfigByte (UInt8.ofNat b) (UInt32.ofNat (d * 8 + f)) (UInt32.ofNat o) value).space
      = setByte p.space b d f o value := by
  have hplace : 4 * (o / 4) + o % 4 = o := Nat.div_add_mod o 4
  have hspace := outb_selected p value (o % 4) hb hd hf ho (toNat_configCmd hb hd hf ho)
    (Nat.mod_lt o (by decide)) (toNat_lanePort ho)
  rwa [hplace] at hspace

/-- Reading the byte back goes to the space. -/
lemma writes_iff (p q : Ports) (hb : b < 256) (hd : d < 32) (hf : f < 8) (ho : o < 256) (value : UInt8) :
    p.Writes q b d f o value ↔ q.space = setByte p.space b d f o value := by
  rw [Ports.Writes, pcibiosReadConfigByte_spec q hb hd hf ho]
  constructor
  · rintro ⟨hbyte, hrest⟩
    funext b' d' f' o'
    by_cases h : b' = b ∧ d' = d ∧ f' = f ∧ o' = o
    · obtain ⟨rfl, rfl, rfl, rfl⟩ := h
      rw [hbyte, setByte_self]
    · rw [hrest b' d' f' o' h, setByte_other p.space value h]
  · intro h
    rw [h]
    exact ⟨setByte_self p.space b d f o value, fun b' d' f' o' h' => setByte_other p.space value h'⟩

/-- The first byte of a register, written instead of a byte of the register. -/
lemma setByte_first_eq_iff (space : Space) (value : UInt8) :
    setByte space b d f (4 * (o / 4)) value = setByte space b d f o value ↔
      o % 4 = 0 ∨ (space b d f o = value ∧ space b d f (4 * (o / 4)) = value) := by
  by_cases hlane : o % 4 = 0
  · have hplace : 4 * (o / 4) = o := by omega
    rw [hplace]
    exact iff_of_true rfl (Or.inl hlane)
  · have hne : 4 * (o / 4) ≠ o := by omega
    constructor
    · intro h
      have hbyte := congrFun (congrFun (congrFun (congrFun h b) d) f) o
      have hfirst := congrFun (congrFun (congrFun (congrFun h b) d) f) (4 * (o / 4))
      rw [setByte_other space value fun hall => hne hall.2.2.2.symm, setByte_self] at hbyte
      rw [setByte_self, setByte_other space value fun hall => hne hall.2.2.2] at hfirst
      exact Or.inr ⟨hbyte, hfirst.symm⟩
    · rintro (hzero | ⟨hbyte, hfirst⟩)
      · exact absurd hzero hlane
      · -- both writes store what is there
        have hkeep : ∀ o', space b d f o' = value → setByte space b d f o' value = space := by
          intro o' ho'
          funext b₁ d₁ f₁ o₁
          by_cases h : b₁ = b ∧ d₁ = d ∧ f₁ = f ∧ o₁ = o'
          · obtain ⟨rfl, rfl, rfl, rfl⟩ := h
            rw [setByte_self, ho']
          · rw [setByte_other space value h]
        rw [hkeep _ hfirst, hkeep _ hbyte]

end Writing

end Pci

open Pci

/-- **When the two byte writes agree.**  For every content of the space, every byte of every function and
every value, both functions write the addressed byte, and so leave the same space, iff the byte lies on
the first lane of its register, or it and the byte on the first lane hold the value already.  On the
other lanes `w_pci_8` writes the byte of the first lane instead. -/
theorem byte_writes_agree_iff (p : Ports) {b d f o : ℕ} (hb : b < 256) (hd : d < 32) (hf : f < 8)
    (ho : o < 256) (value : UInt8) :
    (p.Writes (p.wPci8 (UInt8.ofNat b) (UInt8.ofNat d) (UInt8.ofNat f) (UInt8.ofNat o) value) b d f o
        value ∧
      p.Writes (p.pcibiosWriteConfigByte (UInt8.ofNat b) (UInt32.ofNat (d * 8 + f)) (UInt32.ofNat o)
        value) b d f o value) ↔
    o % 4 = 0 ∨ (p.space b d f o = value ∧ p.space b d f (4 * (o / 4)) = value) := by
  have hright : p.Writes (p.pcibiosWriteConfigByte (UInt8.ofNat b) (UInt32.ofNat (d * 8 + f))
      (UInt32.ofNat o) value) b d f o value :=
    (writes_iff p _ hb hd hf ho value).mpr (pcibiosWriteConfigByte_space p hb hd hf ho value)
  rw [and_iff_left hright, writes_iff p _ hb hd hf ho value, wPci8_space p hb hd hf ho value]
  exact setByte_first_eq_iff p.space value

/-- The interrupt line of function 3:0.1. -/
theorem byte_writes_agree_interrupt_line :
    let p : Ports := ⟨0, fun _ _ _ _ => 0xFF⟩
    p.Writes (p.wPci8 (UInt8.ofNat 3) (UInt8.ofNat 0) (UInt8.ofNat 1) (UInt8.ofNat 0x3c) 11) 3 0 1 0x3c
      11 := by
  intro p
  exact ((byte_writes_agree_iff p (b := 3) (d := 0) (f := 1) (o := 0x3c) (by decide) (by decide)
    (by decide) (by decide) 11).mpr (Or.inl rfl)).1

/-- Writing `64` to the latency timer of device 0, over a space of zeros, leaves the timer at zero. -/
theorem wPci8_misses_latency_timer :
    let p : Ports := ⟨0, fun _ _ _ _ => 0⟩
    ¬ (p.Writes (p.wPci8 (UInt8.ofNat 0) (UInt8.ofNat 0) (UInt8.ofNat 0) (UInt8.ofNat 0x0d) 64) 0 0 0
        0x0d 64 ∧
      p.Writes (p.pcibiosWriteConfigByte (UInt8.ofNat 0) (UInt32.ofNat (0 * 8 + 0)) (UInt32.ofNat 0x0d)
        64) 0 0 0 0x0d 64) := by
  rintro p ⟨⟨hread, -⟩, -⟩
  revert hread
  decide

end GrubKernel
