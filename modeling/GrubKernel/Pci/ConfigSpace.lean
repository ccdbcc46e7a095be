import GrubKernel.Pci.Scan

/-!
# The configuration space

Behind the two ports lies a memory of bytes, 256 for each function of each device.  `pci.c` reaches it in
five ways that pack the same address in different widths and units.  This file translates them over
the ports, with the memory plain: a register keeps what is written to it.

* `Ports` — the latched address and the memory; `outl`, `inl`, `inb` — the instructions.
* `rPci32`, `pciReadWord`, `pciConfigReadWord`, `pcibiosReadConfigByte`, `pciWriteWord` — the accesses.
* `addressOf` — the address of a byte; `address_reaches` says that it selects the register of the byte.
* **`configuration_space`** — the write replaces one halfword, and the reads agree on every byte.
-/

namespace GrubKernel
namespace Pci

/-- The bytes: by bus, device, function and offset. -/
abbrev Space := ℕ → ℕ → ℕ → ℕ → UInt8

/-- The address in port `0xCF8`, and the bytes. -/
structure Ports where
  address : UInt32
  space : Space

/-! ## The instructions -/

/-- Four bytes of a function as the word at an offset. -/
def dword (space : Space) (bus device func reg : ℕ) : UInt32 :=
  UInt32.ofNat ((space bus device func (4 * reg)).toNat
    + 2 ^ 8 * (space bus device func (4 * reg + 1)).toNat
    + 2 ^ 16 * (space bus device func (4 * reg + 2)).toNat
    + 2 ^ 24 * (space bus device func (4 * reg + 3)).toNat)

/-- The space with the word of one register replaced. -/
def setDword (space : Space) (bus device func reg : ℕ) (value : UInt32) : Space :=
  fun b d f o =>
    if b = bus ∧ d = device ∧ f = func ∧ o / 4 = reg then UInt8.ofNat (value.toNat / 2 ^ (8 * (o % 4)))
    else space b d f o

namespace Ports

/-- The fields of the latched address. -/
def bus (p : Ports) : ℕ := p.address.toNat / 2 ^ 16 % 256

def device (p : Ports) : ℕ := p.address.toNat / 2 ^ 11 % 32

def func (p : Ports) : ℕ := p.address.toNat / 2 ^ 8 % 8

def reg (p : Ports) : ℕ := p.address.toNat / 4 % 64

/-- The enable bit of the latched address. -/
def Enabled (p : Ports) : Prop := p.address.toNat / 2 ^ 31 = 1

instance (p : Ports) : Decidable p.Enabled := inferInstanceAs (Decidable (_ = _))

/-- `outl`. -/
def outl (p : Ports) (value : UInt32) (port : UInt16) : Ports :=
  if port = 0xCF8 then { p with address := value }
  else if port = 0xCFC ∧ p.Enabled then
    { p with space := setDword p.space p.bus p.device p.func p.reg value }
  else p

/-- `inl`. -/
def inl (p : Ports) (port : UInt16) : UInt32 :=
  if port = 0xCF8 then p.address
  else if port = 0xCFC ∧ p.Enabled then dword p.space p.bus p.device p.func p.reg
  else 0xFFFFFFFF

/-- `inb`. -/
def inb (p : Ports) (port : UInt16) : UInt8 :=
  if 0xCFC ≤ port.toNat ∧ port.toNat ≤ 0xCFF ∧ p.Enabled then
    p.space p.bus p.device p.func (4 * p.reg + (port.toNat - 0xCFC))
  else 0xFF

/-! ## The accesses of `pci.c` -/

/-- `r_pci_32`. -/
def rPci32 (p : Ports) (bus device func pcireg : UInt8) : UInt32 × Ports :=
  let p := p.outl (configAddress bus device func pcireg) 0xCF8
  (p.inl 0xCFC, p)

/-- `pciConfigReadWord`. -/
def pciConfigReadWord (p : Ports) (bus slot func offset : UInt8) : UInt16 × Ports :=
  let lbus := bus.toUInt32
  let lslot := slot.toUInt32
  let lfunc := func.toUInt32
  let address := (lbus <<< 16) ||| (lslot <<< 11) ||| (lfunc <<< 8) ||| (offset.toUInt32 &&& 0xfc) |||
    0x80000000
  let p := p.outl address 0xCF8
  (((p.inl 0xCFC >>> ((offset.toUInt32 &&& 2) * 8)) &&& 0xffff).toUInt16, p)

/-- `pcibios_read_config_byte`. -/
def pcibiosReadConfigByte (p : Ports) (bus device deviceFn where_ : UInt32) : UInt8 × Ports :=
  let index := pciEnableBit ||| (bus <<< 16) ||| (device <<< 11) ||| (deviceFn <<< 8) |||
    (where_ &&& ~~~3)
  let p := p.outl index 0xCF8
  (p.inb (0xCFC + (where_ &&& 3)).toUInt16, p)

/-- The address that `pci_read_word` and `pci_write_word` compute in 64 bits. -/
def wordAddress (bus slot func offset : UInt16) : UInt64 :=
  let lbus := bus.toUInt64
  let lslot := slot.toUInt64
  let lfunc := func.toUInt64
  (lbus <<< 16) ||| (lslot <<< 11) ||| (lfunc <<< 8) ||| (offset.toUInt64 &&& 0xfc) |||
    pciEnableBit.toUInt64

/-- `pci_read_word`. -/
def pciReadWord (p : Ports) (bus slot func offset : UInt16) : UInt16 × Ports :=
  let address := wordAddress bus slot func offset
  let p := p.outl address.toUInt32 0xCF8
  (((p.inl 0xCFC >>> ((offset.toUInt32 &&& 2) * 8)) &&& 0xffff).toUInt16, p)

/-- `pci_write_word`. -/
def pciWriteWord (p : Ports) (bus slot func offset data : UInt16) : UInt16 × Ports :=
  let address := wordAddress bus slot func offset
  let p := p.outl address.toUInt32 0xCF8
  let tmp := p.inl 0xCFC
  let tmp := tmp &&& ~~~(0xFFFF <<< ((offset.toUInt32 &&& 2) * 8))
  let tmp := tmp ||| (data.toUInt32 <<< ((offset.toUInt32 &&& 2) * 8))
  let p := p.outl address.toUInt32 0xCF8
  let p := p.outl tmp 0xCFC
  p.pciReadWord bus slot func offset

end Ports

/-! ## Addresses -/

/-- The address of a byte of a function, on the boundary of its register. -/
def addressOf (b d f o : ℕ) : ℕ := 2 ^ 31 + 2 ^ 16 * b + 2 ^ 11 * d + 2 ^ 8 * f + 2 ^ 2 * (o / 4)

/-- Masking the last two bits away. -/
lemma and_mask_four {w o : ℕ} (hw : 2 ≤ w) (ho : o < 2 ^ w) : o &&& (2 ^ w - 4) = 2 ^ 2 * (o / 4) := by
  have hpow : 2 ^ 2 ≤ 2 ^ w := Nat.pow_le_pow_right (by decide) hw
  refine Nat.eq_of_testBit_eq fun i => ?_
  rw [Nat.testBit_and, show 2 ^ w - 4 = 2 ^ w - (3 + 1) from rfl,
    Nat.testBit_two_pow_sub_succ (by omega), show 3 = 2 ^ 2 - 1 from rfl, Nat.testBit_two_pow_sub_one,
    show 2 ^ 2 * (o / 4) = 2 ^ 2 * (o / 2 ^ 2) from rfl, Nat.testBit_two_pow_mul, Nat.testBit_div_two_pow]
  by_cases hi : 2 ≤ i
  · have hlow : ¬ i < 2 := by omega
    rw [Nat.sub_add_cancel hi]
    by_cases hw : i < w
    · simp [hi, hlow, hw]
    · have hout : o.testBit i = false :=
        Nat.testBit_lt_two_pow (ho.trans_le (Nat.pow_le_pow_right (by decide) (not_lt.mp hw)))
      simp [hout]
  · have hlow : i < 2 := by omega
    simp [hi, hlow]

/-- A field that is shifted into place, in 64 bits. -/
lemma toNat_shiftLeft64 {x : UInt64} {k n : ℕ} (hx : x.toNat = n) (hk : k < 64)
    (hn : 2 ^ k * n < 2 ^ 64) : (x <<< UInt64.ofNat k).toNat = 2 ^ k * n := by
  have hshift : (UInt64.ofNat k).toNat % 64 = k := by
    rw [UInt64.toNat_ofNat']
    omega
  rw [UInt64.toNat_shiftLeft, hshift, hx, Nat.shiftLeft_eq, Nat.mul_comm]
  exact Nat.mod_eq_of_lt hn

section Addresses

variable {b d f o : ℕ}

/-- The address of `pciConfigReadWord`. -/
lemma toNat_readWordAddress (hb : b < 256) (hd : d < 32) (hf : f < 8) (ho : o < 256) :
    (((UInt8.ofNat b).toUInt32 <<< 16) ||| ((UInt8.ofNat d).toUInt32 <<< 11) |||
      ((UInt8.ofNat f).toUInt32 <<< 8) ||| ((UInt8.ofNat o).toUInt32 &&& 0xfc) ||| 0x80000000).toNat
      = addressOf b d f o := by
  obtain ⟨hbus, hdev, hfun⟩ := toNat_fields hb hd hf
  have hoff : ((UInt8.ofNat o).toUInt32 &&& 0xfc).toNat = 2 ^ 2 * (o / 4) := by
    rw [UInt32.toNat_and, toNat_byte ho]
    exact and_mask_four (w := 8) (by decide) ho
  have henable : (0x80000000 : UInt32).toNat = 2 ^ 31 := rfl
  rw [UInt32.toNat_or, UInt32.toNat_or, UInt32.toNat_or, UInt32.toNat_or, hbus, hdev, hfun, hoff,
    henable, packed hb hd hf (by omega), addressOf]

/-- An offset without its lane. -/
lemma toNat_registerOffset {x : UInt32} (hx : x.toNat = o) (ho : o < 256) :
    (x &&& ~~~3).toNat = 2 ^ 2 * (o / 4) := by
  rw [UInt32.toNat_and, hx]
  exact and_mask_four (w := 32) (by decide) (by omega)

/-- The port of the lane of a byte. -/
lemma toNat_lanePort (ho : o < 256) :
    (0xCFC + (UInt32.ofNat o &&& 3)).toUInt16.toNat = 0xCFC + o % 4 := by
  have hlow : (UInt32.ofNat o &&& 3).toNat = o % 4 := by
    have hthree : (3 : UInt32).toNat = 2 ^ 2 - 1 := rfl
    rw [UInt32.toNat_and, UInt32.toNat_ofNat_of_lt' (show o < 2 ^ 32 by omega), hthree,
      Nat.and_two_pow_sub_one_eq_mod]
  have hbase : (0xCFC : UInt32).toNat = 0xCFC := rfl
  rw [UInt32.toNat_toUInt16, UInt32.toNat_add, hlow, hbase]
  omega

/-- The address of `pcibios_read_config_byte`. -/
lemma toNat_readByteAddress (hb : b < 256) (hd : d < 32) (hf : f < 8) (ho : o < 256) :
    (pciEnableBit ||| (UInt32.ofNat b <<< 16) ||| (UInt32.ofNat d <<< 11) ||| (UInt32.ofNat f <<< 8) |||
      (UInt32.ofNat o &&& ~~~3)).toNat = addressOf b d f o := by
  have hword : ∀ n < 2 ^ 32, (UInt32.ofNat n).toNat = n := fun _ => UInt32.toNat_ofNat_of_lt'
  have hbus : (UInt32.ofNat b <<< 16).toNat = 2 ^ 16 * b :=
    toNat_shiftLeft32 (k := 16) (hword b (by omega)) (by decide) (by omega)
  have hdev : (UInt32.ofNat d <<< 11).toNat = 2 ^ 11 * d :=
    toNat_shiftLeft32 (k := 11) (hword d (by omega)) (by decide) (by omega)
  have hfun : (UInt32.ofNat f <<< 8).toNat = 2 ^ 8 * f :=
    toNat_shiftLeft32 (k := 8) (hword f (by omega)) (by decide) (by omega)
  exact toNat_packed hb hd hf (by omega) hbus hdev hfun (toNat_registerOffset (hword o (by omega)) ho)

/-- The address of `pci_read_word` and `pci_write_word`, as `outl` gets it. -/
lemma toNat_wordAddress (hb : b < 256) (hd : d < 32) (hf : f < 8) (ho : o < 256) :
    (Ports.wordAddress (UInt16.ofNat b) (UInt16.ofNat d) (UInt16.ofNat f)
      (UInt16.ofNat o)).toUInt32.toNat = addressOf b d f o := by
  have hword : ∀ n < 2 ^ 16, (UInt16.ofNat n).toUInt64.toNat = n := by
    intro n hn
    rw [UInt16.toNat_toUInt64, UInt16.toNat_ofNat']
    exact Nat.mod_eq_of_lt hn
  have hbus : ((UInt16.ofNat b).toUInt64 <<< 16).toNat = 2 ^ 16 * b :=
    toNat_shiftLeft64 (k := 16) (hword b (by omega)) (by decide) (by omega)
  have hdev : ((UInt16.ofNat d).toUInt64 <<< 11).toNat = 2 ^ 11 * d :=
    toNat_shiftLeft64 (k := 11) (hword d (by omega)) (by decide) (by omega)
  have hfun : ((UInt16.ofNat f).toUInt64 <<< 8).toNat = 2 ^ 8 * f :=
    toNat_shiftLeft64 (k := 8) (hword f (by omega)) (by decide) (by omega)
  have hoff : ((UInt16.ofNat o).toUInt64 &&& 0xfc).toNat = 2 ^ 2 * (o / 4) := by
    rw [UInt64.toNat_and, hword o (by omega)]
    exact and_mask_four (w := 8) (by decide) ho
  have henable : pciEnableBit.toUInt64.toNat = 2 ^ 31 := rfl
  rw [UInt64.toNat_toUInt32, Ports.wordAddress, UInt64.toNat_or, UInt64.toNat_or, UInt64.toNat_or,
    UInt64.toNat_or, hbus, hdev, hfun, hoff, henable, packed hb hd hf (by omega), addressOf]
  exact Nat.mod_eq_of_lt (by omega)

/-- The address of `r_pci_32`, where the register is that of the offset. -/
lemma toNat_registerAddress (hb : b < 256) (hd : d < 32) (hf : f < 8) (ho : o < 256) :
    (configAddress (UInt8.ofNat b) (UInt8.ofNat d) (UInt8.ofNat f) (UInt8.ofNat (o / 4))).toNat
      = addressOf b d f o :=
  toNat_configAddress hb hd hf (by omega)

/-- **The address of a byte selects its register.** -/
lemma address_reaches {p : Ports} (hb : b < 256) (hd : d < 32) (hf : f < 8) (ho : o < 256)
    (h : p.address.toNat = addressOf b d f o) :
    p.bus = b ∧ p.device = d ∧ p.func = f ∧ p.reg = o / 4 ∧ p.Enabled := by
  rw [addressOf] at h
  unfold Ports.bus Ports.device Ports.func Ports.reg Ports.Enabled
  rw [h]
  omega

end Addresses

/-! ## Reading -/

section Reading

variable {b d f o : ℕ}

/-- Port `0xCF8` latches. -/
lemma outl_address (p : Ports) (address : UInt32) : p.outl address 0xCF8 = ⟨address, p.space⟩ := by
  rw [Ports.outl, if_pos rfl]

/-- The word that port `0xCFC` shows after an address of a byte is latched. -/
lemma inl_selected (p : Ports) {address : UInt32} (hb : b < 256) (hd : d < 32) (hf : f < 8)
    (ho : o < 256) (h : address.toNat = addressOf b d f o) :
    (p.outl address 0xCF8).inl 0xCFC = dword p.space b d f (o / 4) := by
  obtain ⟨hbus, hdev, hfun, hreg, henabled⟩ :=
    address_reaches (p := ⟨address, p.space⟩) hb hd hf ho h
  rw [outl_address, Ports.inl, if_neg (by decide), if_pos ⟨rfl, henabled⟩, hbus, hdev, hfun, hreg]

/-- The byte of a function in the word of its register. -/
lemma dword_byte (space : Space) (b d f o : ℕ) :
    (dword space b d f (o / 4)).toNat / 2 ^ (8 * (o % 4)) % 2 ^ 8 = (space b d f o).toNat := by
  have h₀ := (space b d f (4 * (o / 4))).toNat_lt
  have h₁ := (space b d f (4 * (o / 4) + 1)).toNat_lt
  have h₂ := (space b d f (4 * (o / 4) + 2)).toNat_lt
  have h₃ := (space b d f (4 * (o / 4) + 3)).toNat_lt
  have hplace : o = 4 * (o / 4) + o % 4 := (Nat.div_add_mod o 4).symm
  rw [dword, UInt32.toNat_ofNat']
  have hcases : o % 4 = 0 ∨ o % 4 = 1 ∨ o % 4 = 2 ∨ o % 4 = 3 := by omega
  rcases hcases with hmod | hmod | hmod | hmod
  · rw [hmod] at hplace ⊢
    rw [Nat.add_zero] at hplace
    rw [← hplace] at h₀ ⊢
    omega
  · rw [hmod] at hplace ⊢
    rw [← hplace] at h₁ ⊢
    omega
  · rw [hmod] at hplace ⊢
    rw [← hplace] at h₂ ⊢
    omega
  · rw [hmod] at hplace ⊢
    rw [← hplace] at h₃ ⊢
    omega

/-- The shift that selects a halfword. -/
lemma halfword_shift {x : UInt32} (hx : x.toNat = o) :
    (x &&& 2) * 8 = UInt32.ofNat (16 * (o / 2 % 2)) := by
  have hbit : o &&& 2 = 2 * (o / 2 % 2) := by
    have htest : (o.testBit 1).toNat = o / 2 % 2 := by
      rw [Nat.testBit_eq_decide_div_mod_eq, pow_one]
      rcases Nat.mod_two_eq_zero_or_one (o / 2) with hzero | hone
      · simp [hzero]
      · simp [hone]
    calc o &&& 2 = o &&& 2 ^ 1 := rfl
      _ = (o.testBit 1).toNat * 2 ^ 1 := Nat.and_two_pow o 1
      _ = 2 * (o / 2 % 2) := by rw [htest, pow_one, Nat.mul_comm]
  have htwo : (2 : UInt32).toNat = 2 := rfl
  have height : (8 : UInt32).toNat = 8 := rfl
  rw [← UInt32.toNat_inj, UInt32.toNat_mul, UInt32.toNat_and, hx, htwo, height, hbit,
    UInt32.toNat_ofNat']
  omega

/-- The halfword that the two word reads cut out. -/
lemma toNat_halfword (x : UInt32) {h : ℕ} (hh : h < 2) :
    ((x >>> UInt32.ofNat (16 * h)) &&& 0xffff).toUInt16.toNat = x.toNat / 2 ^ (16 * h) % 2 ^ 16 := by
  have hshift : (UInt32.ofNat (16 * h)).toNat % 32 = 16 * h := by
    rw [UInt32.toNat_ofNat']
    omega
  have hmask : (0xffff : UInt32).toNat = 2 ^ 16 - 1 := rfl
  rw [UInt32.toNat_toUInt16, UInt32.toNat_and, UInt32.toNat_shiftRight, hshift,
    Nat.shiftRight_eq_div_pow, hmask, Nat.and_two_pow_sub_one_eq_mod, Nat.mod_mod]

/-- A byte of a halfword. -/
lemma byte_of_halfword (x : ℕ) {k : ℕ} (hk : k < 2) :
    x % 2 ^ 16 / 2 ^ (8 * k) % 2 ^ 8 = x / 2 ^ (8 * k) % 2 ^ 8 := by
  have hcases : k = 0 ∨ k = 1 := by omega
  rcases hcases with rfl | rfl
  · omega
  · omega

/-- The byte of a function in a halfword of its register. -/
lemma halfword_byte (space : Space) (b d f o : ℕ) :
    (dword space b d f (o / 4)).toNat / 2 ^ (16 * (o / 2 % 2)) % 2 ^ 16 / 2 ^ (8 * (o % 2)) % 2 ^ 8
      = (space b d f o).toNat := by
  have hplace : 16 * (o / 2 % 2) + 8 * (o % 2) = 8 * (o % 4) := by omega
  rw [byte_of_halfword _ (by omega), Nat.div_div_eq_div_mul, ← pow_add, hplace]
  exact dword_byte space b d f o

end Reading

/-! ## Writing -/

/-- The bits of a word with one halfword replaced. -/
lemma testBit_replaced (tmp : UInt32) (data : UInt16) {h n : ℕ} (hh : h < 2) (hn : n < 32) :
    ((tmp &&& ~~~(0xFFFF <<< UInt32.ofNat (16 * h))) |||
      (data.toUInt32 <<< UInt32.ofNat (16 * h))).toNat.testBit n
      = if n / 16 = h then data.toNat.testBit (n - 16 * h) else tmp.toNat.testBit n := by
  have hshift : (UInt32.ofNat (16 * h)).toNat % 32 = 16 * h := by
    rw [UInt32.toNat_ofNat']
    omega
  have hmask : (0xFFFF : UInt32).toNat = 2 ^ 16 - 1 := rfl
  have hlow : (0xFFFF <<< UInt32.ofNat (16 * h) : UInt32).toNat.testBit n = decide (n / 16 = h) := by
    rw [UInt32.toNat_shiftLeft, hshift, hmask, Nat.testBit_mod_two_pow, Nat.testBit_shiftLeft,
      Nat.testBit_two_pow_sub_one]
    by_cases hin : n / 16 = h
    · have hge : 16 * h ≤ n := by omega
      have hlt : n - 16 * h < 16 := by omega
      simp [hin, hn, hge, hlt]
    · by_cases hge : 16 * h ≤ n
      · have hlt : ¬ n - 16 * h < 16 := by omega
        simp [hin, hlt]
      · simp [hin, hge]
  have hdata : (data.toUInt32 <<< UInt32.ofNat (16 * h)).toNat.testBit n
      = (decide (n / 16 = h) && data.toNat.testBit (n - 16 * h)) := by
    rw [UInt32.toNat_shiftLeft, hshift, UInt16.toNat_toUInt32, Nat.testBit_mod_two_pow,
      Nat.testBit_shiftLeft]
    by_cases hin : n / 16 = h
    · have hge : 16 * h ≤ n := by omega
      simp [hin, hn, hge]
    · by_cases hge : 16 * h ≤ n
      · have hout : data.toNat.testBit (n - 16 * h) = false :=
          Nat.testBit_lt_two_pow (data.toNat_lt.trans_le (Nat.pow_le_pow_right (by decide) (by omega)))
        simp [hin, hout]
      · simp [hin, hge]
  rw [UInt32.toNat_or, Nat.testBit_or, UInt32.toNat_and, Nat.testBit_and, UInt32.toNat_not,
    UInt32.size, show 4294967296 - 1 - (0xFFFF <<< UInt32.ofNat (16 * h) : UInt32).toNat
      = 2 ^ 32 - ((0xFFFF <<< UInt32.ofNat (16 * h) : UInt32).toNat + 1) by omega,
    Nat.testBit_two_pow_sub_succ (UInt32.toNat_lt _), hlow, hdata]
  by_cases hin : n / 16 = h
  · simp [hin]
  · simp [hin, hn]

/-- The bytes of a word with one halfword replaced. -/
lemma byte_replaced (tmp : UInt32) (data : UInt16) {h i : ℕ} (hh : h < 2) (hi : i < 4) :
    ((tmp &&& ~~~(0xFFFF <<< UInt32.ofNat (16 * h))) |||
      (data.toUInt32 <<< UInt32.ofNat (16 * h))).toNat / 2 ^ (8 * i) % 2 ^ 8
      = if i / 2 = h then data.toNat / 2 ^ (8 * (i % 2)) % 2 ^ 8 else tmp.toNat / 2 ^ (8 * i) % 2 ^ 8 := by
  refine Nat.eq_of_testBit_eq fun k => ?_
  by_cases hk : k < 8
  · rw [Nat.testBit_mod_two_pow, Nat.testBit_div_two_pow, testBit_replaced tmp data hh (by omega)]
    by_cases hin : i / 2 = h
    · have hbit : k + 8 * i - 16 * h = k + 8 * (i % 2) := by omega
      rw [if_pos (by omega), if_pos hin, hbit, Nat.testBit_mod_two_pow, Nat.testBit_div_two_pow]
    · rw [if_neg (by omega), if_neg hin, Nat.testBit_mod_two_pow, Nat.testBit_div_two_pow]
  · rw [Nat.testBit_mod_two_pow]
    by_cases hin : i / 2 = h
    · rw [if_pos hin, Nat.testBit_mod_two_pow]
      simp [hk]
    · rw [if_neg hin, Nat.testBit_mod_two_pow]
      simp [hk]

lemma ofNat_eq_of_mod_eq {m n : ℕ} (h : m % 2 ^ 8 = n % 2 ^ 8) : UInt8.ofNat m = UInt8.ofNat n := by
  rw [← UInt8.toNat_inj, UInt8.toNat_ofNat', UInt8.toNat_ofNat', h]

/-- **Replacing a halfword of a register changes its two bytes.** -/
lemma setDword_replaced (space : Space) (data : UInt16) {b d f o : ℕ} (b' d' f' o' : ℕ) :
    setDword space b d f (o / 4)
      ((dword space b d f (o / 4) &&& ~~~(0xFFFF <<< UInt32.ofNat (16 * (o / 2 % 2)))) |||
        (data.toUInt32 <<< UInt32.ofNat (16 * (o / 2 % 2)))) b' d' f' o'
      = if b' = b ∧ d' = d ∧ f' = f ∧ o' / 2 = o / 2 then UInt8.ofNat (data.toNat / 2 ^ (8 * (o' % 2)))
        else space b' d' f' o' := by
  rw [setDword]
  by_cases hreg : b' = b ∧ d' = d ∧ f' = f ∧ o' / 4 = o / 4
  · obtain ⟨rfl, rfl, rfl, ho⟩ := hreg
    have hbyte := byte_replaced (dword space b' d' f' (o / 4)) data (h := o / 2 % 2) (i := o' % 4)
      (by omega) (by omega)
    rw [if_pos ⟨rfl, rfl, rfl, ho⟩]
    by_cases hhalf : o' / 2 = o / 2
    · rw [if_pos ⟨rfl, rfl, rfl, hhalf⟩]
      have hodd : o' % 4 % 2 = o' % 2 := by omega
      rw [if_pos (by omega), hodd] at hbyte
      exact ofNat_eq_of_mod_eq hbyte
    · rw [if_neg fun hall => hhalf hall.2.2.2]
      rw [if_neg (by omega), ← ho, dword_byte] at hbyte
      rw [← ho, ofNat_eq_of_mod_eq (n := (space b' d' f' o').toNat) ?_, UInt8.ofNat_toNat]
      rw [hbyte]
      exact (Nat.mod_eq_of_lt (UInt8.toNat_lt _)).symm
  · rw [if_neg hreg, if_neg]
    rintro ⟨hb, hd, hf, hhalf⟩
    exact hreg ⟨hb, hd, hf, by omega⟩

/-! ## The accesses -/

section Accesses

variable {b d f o : ℕ}

lemma outl_address_space (p : Ports) (address : UInt32) : (p.outl address 0xCF8).space = p.space := by
  rw [outl_address]

lemma toNat_offset16 (ho : o < 256) : (UInt16.ofNat o).toUInt32.toNat = o := by
  rw [UInt16.toNat_toUInt32, UInt16.toNat_ofNat']
  exact Nat.mod_eq_of_lt (by omega)

lemma rPci32_spec (p : Ports) (hb : b < 256) (hd : d < 32) (hf : f < 8) (ho : o < 256) :
    p.rPci32 (UInt8.ofNat b) (UInt8.ofNat d) (UInt8.ofNat f) (UInt8.ofNat (o / 4))
      = (dword p.space b d f (o / 4), p.outl (configAddress (UInt8.ofNat b) (UInt8.ofNat d)
        (UInt8.ofNat f) (UInt8.ofNat (o / 4))) 0xCF8) := by
  rw [Ports.rPci32, inl_selected p hb hd hf ho (toNat_registerAddress hb hd hf ho)]

/-- The registers that the scan reads are the words of the space. -/
lemma rPci32_eq_hostBridge (p : Ports) {r : ℕ} (hb : b < 256) (hd : d < 32) (hf : f < 8)
    (hr : r < 64) :
    (p.rPci32 (UInt8.ofNat b) (UInt8.ofNat d) (UInt8.ofNat f) (UInt8.ofNat r)).1
      = rPci32 (hostBridge (dword p.space)) (UInt8.ofNat b) (UInt8.ofNat d) (UInt8.ofNat f)
        (UInt8.ofNat r) := by
  have hread := rPci32_spec p hb hd hf (show 4 * r < 256 by omega)
  rw [Nat.mul_div_cancel_left r (by decide)] at hread
  rw [hread, rPci32_hostBridge (dword p.space) hb hd hf hr]

lemma pciReadWord_spec (p : Ports) (hb : b < 256) (hd : d < 32) (hf : f < 8) (ho : o < 256) :
    (p.pciReadWord (UInt16.ofNat b) (UInt16.ofNat d) (UInt16.ofNat f) (UInt16.ofNat o)).1.toNat
      = (dword p.space b d f (o / 4)).toNat / 2 ^ (16 * (o / 2 % 2)) % 2 ^ 16 := by
  rw [Ports.pciReadWord]
  dsimp only
  rw [inl_selected p hb hd hf ho (toNat_wordAddress hb hd hf ho), halfword_shift (toNat_offset16 ho),
    toNat_halfword _ (by omega)]

lemma pciConfigReadWord_spec (p : Ports) (hb : b < 256) (hd : d < 32) (hf : f < 8) (ho : o < 256) :
    (p.pciConfigReadWord (UInt8.ofNat b) (UInt8.ofNat d) (UInt8.ofNat f) (UInt8.ofNat o)).1.toNat
      = (dword p.space b d f (o / 4)).toNat / 2 ^ (16 * (o / 2 % 2)) % 2 ^ 16 := by
  rw [Ports.pciConfigReadWord]
  dsimp only
  rw [inl_selected p hb hd hf ho (toNat_readWordAddress hb hd hf ho), halfword_shift (toNat_byte ho),
    toNat_halfword _ (by omega)]

lemma pcibiosReadConfigByte_spec (p : Ports) (hb : b < 256) (hd : d < 32) (hf : f < 8) (ho : o < 256) :
    (p.pcibiosReadConfigByte (UInt32.ofNat b) (UInt32.ofNat d) (UInt32.ofNat f) (UInt32.ofNat o)).1
      = p.space b d f o := by
  have haddress := toNat_readByteAddress hb hd hf ho
  rw [Ports.pcibiosReadConfigByte]
  dsimp only
  generalize pciEnableBit ||| (UInt32.ofNat b <<< 16) ||| (UInt32.ofNat d <<< 11) |||
    (UInt32.ofNat f <<< 8) ||| (UInt32.ofNat o &&& ~~~3) = address at haddress ⊢
  obtain ⟨hbus, hdev, hfun, hreg, henabled⟩ :=
    address_reaches (p := ⟨address, p.space⟩) hb hd hf ho haddress
  have hplace : 4 * (o / 4) + (0xCFC + o % 4 - 0xCFC) = o := by omega
  rw [outl_address, Ports.inb, toNat_lanePort ho, if_pos ⟨by omega, by omega, henabled⟩, hbus, hdev, hfun,
    hreg, hplace]

/-- The space after `pci_write_word`. -/
lemma pciWriteWord_space (p : Ports) (hb : b < 256) (hd : d < 32) (hf : f < 8) (ho : o < 256)
    (data : UInt16) (b' d' f' o' : ℕ) :
    (p.pciWriteWord (UInt16.ofNat b) (UInt16.ofNat d) (UInt16.ofNat f) (UInt16.ofNat o) data).2.space
      b' d' f' o'
      = if b' = b ∧ d' = d ∧ f' = f ∧ o' / 2 = o / 2 then UInt8.ofNat (data.toNat / 2 ^ (8 * (o' % 2)))
        else p.space b' d' f' o' := by
  have haddress := toNat_wordAddress hb hd hf ho
  rw [Ports.pciWriteWord, Ports.pciReadWord]
  dsimp only
  rw [outl_address_space, inl_selected p hb hd hf ho haddress, halfword_shift (toNat_offset16 ho)]
  generalize (Ports.wordAddress (UInt16.ofNat b) (UInt16.ofNat d) (UInt16.ofNat f)
    (UInt16.ofNat o)).toUInt32 = address at haddress ⊢
  obtain ⟨hbus, hdev, hfun, hreg, henabled⟩ :=
    address_reaches (p := ⟨address, p.space⟩) hb hd hf ho haddress
  rw [outl_address p, outl_address ⟨address, p.space⟩, Ports.outl, if_neg (by decide), if_pos ⟨rfl, henabled⟩,
    hbus, hdev, hfun, hreg]
  exact setDword_replaced p.space data b' d' f' o'

/-- `pci_write_word` returns what it wrote. -/
lemma pciWriteWord_fst (p : Ports) (hb : b < 256) (hd : d < 32) (hf : f < 8) (ho : o < 256)
    (data : UInt16) :
    (p.pciWriteWord (UInt16.ofNat b) (UInt16.ofNat d) (UInt16.ofNat f) (UInt16.ofNat o) data).1
      = data := by
  have hspace := pciWriteWord_space p hb hd hf ho data
  rw [Ports.pciWriteWord] at hspace ⊢
  set q := ((p.outl (Ports.wordAddress (UInt16.ofNat b) (UInt16.ofNat d) (UInt16.ofNat f)
    (UInt16.ofNat o)).toUInt32 0xCF8).outl (Ports.wordAddress (UInt16.ofNat b) (UInt16.ofNat d)
    (UInt16.ofNat f) (UInt16.ofNat o)).toUInt32 0xCF8).outl _ 0xCFC
  have hread : (q.pciReadWord (UInt16.ofNat b) (UInt16.ofNat d) (UInt16.ofNat f)
      (UInt16.ofNat o)).2.space = q.space := by
    rw [Ports.pciReadWord, outl_address_space]
  rw [hread] at hspace
  have hword := pciReadWord_spec q hb hd hf ho
  -- its two bytes are the bytes of the halfword
  have hbyte : ∀ o', o' / 2 = o / 2 →
      (dword q.space b d f (o / 4)).toNat / 2 ^ (16 * (o / 2 % 2)) % 2 ^ 16 / 2 ^ (8 * (o' % 2)) % 2 ^ 8
        = data.toNat / 2 ^ (8 * (o' % 2)) % 2 ^ 8 := by
    intro o' ho'
    have hread' := halfword_byte q.space b d f o'
    have hreg : o' / 4 = o / 4 := by omega
    rw [hreg, ho', hspace b d f o', if_pos ⟨rfl, rfl, rfl, ho'⟩, UInt8.toNat_ofNat'] at hread'
    exact hread'
  have hlow := hbyte (2 * (o / 2)) (by omega)
  have hhigh := hbyte (2 * (o / 2) + 1) (by omega)
  have hdata := data.toNat_lt
  have heven : 2 * (o / 2) % 2 = 0 := by omega
  have hodd : (2 * (o / 2) + 1) % 2 = 1 := by omega
  rw [heven] at hlow
  rw [hodd] at hhigh
  rw [← UInt16.toNat_inj, hword]
  omega

end Accesses

end Pci

open Pci

/-- **One byte-addressed configuration space.**  For every content of the space and whatever address is
latched: `pci_write_word` replaces the aligned halfword that contains the offset, returns the data, and
changes no other byte of any function; and for every byte the four reads show that byte, at its place
in the word or the halfword that they return, and change no byte. -/
theorem configuration_space (p : Ports) {b d f o : ℕ} (hb : b < 256) (hd : d < 32) (hf : f < 8)
    (ho : o < 256) :
    (∀ data : UInt16,
      let r := p.pciWriteWord (UInt16.ofNat b) (UInt16.ofNat d) (UInt16.ofNat f) (UInt16.ofNat o) data
      r.1 = data ∧ ∀ b' d' f' o', r.2.space b' d' f' o'
        = if b' = b ∧ d' = d ∧ f' = f ∧ o' / 2 = o / 2 then UInt8.ofNat (data.toNat / 2 ^ (8 * (o' % 2)))
          else p.space b' d' f' o') ∧
    (let r := p.rPci32 (UInt8.ofNat b) (UInt8.ofNat d) (UInt8.ofNat f) (UInt8.ofNat (o / 4));
      r.1.toNat / 2 ^ (8 * (o % 4)) % 2 ^ 8 = (p.space b d f o).toNat ∧ r.2.space = p.space) ∧
    (let r := p.pciReadWord (UInt16.ofNat b) (UInt16.ofNat d) (UInt16.ofNat f) (UInt16.ofNat o);
      r.1.toNat / 2 ^ (8 * (o % 2)) % 2 ^ 8 = (p.space b d f o).toNat ∧ r.2.space = p.space) ∧
    (let r := p.pciConfigReadWord (UInt8.ofNat b) (UInt8.ofNat d) (UInt8.ofNat f) (UInt8.ofNat o);
      r.1.toNat / 2 ^ (8 * (o % 2)) % 2 ^ 8 = (p.space b d f o).toNat ∧ r.2.space = p.space) ∧
    (let r := p.pcibiosReadConfigByte (UInt32.ofNat b) (UInt32.ofNat d) (UInt32.ofNat f) (UInt32.ofNat o);
      r.1 = p.space b d f o ∧ r.2.space = p.space) := by
  refine ⟨fun data => ⟨pciWriteWord_fst p hb hd hf ho data, pciWriteWord_space p hb hd hf ho data⟩,
    ⟨?_, outl_address_space p _⟩, ⟨?_, outl_address_space p _⟩, ⟨?_, outl_address_space p _⟩,
    pcibiosReadConfigByte_spec p hb hd hf ho, outl_address_space p _⟩
  · rw [rPci32_spec p hb hd hf ho]
    exact dword_byte p.space b d f o
  · rw [pciReadWord_spec p hb hd hf ho]
    exact halfword_byte p.space b d f o
  · rw [pciConfigReadWord_spec p hb hd hf ho]
    exact halfword_byte p.space b d f o

/-- The interrupt line and pin of function 3:0.1. -/
theorem configuration_space_example :
    let p : Ports := ⟨0, fun _ _ _ _ => 0xFF⟩
    (p.pciWriteWord (UInt16.ofNat 3) (UInt16.ofNat 0) (UInt16.ofNat 1) (UInt16.ofNat 0x3c) 0x10b).1
      = 0x10b := by
  intro p
  exact ((configuration_space p (b := 3) (d := 0) (f := 1) (o := 0x3c) (by decide) (by decide)
    (by decide) (by decide)).1 0x10b).1

end GrubKernel
