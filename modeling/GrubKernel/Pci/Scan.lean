import GrubKernel.Lib.Loop
import Mathlib.Data.Nat.Bitwise
import Mathlib.Data.UInt

/-!
# The PCI scan

`init_pcilist` reads the vendor and device of every function of the PCI bus and looks for the RTL8139
network card.  This file translates the scanning loops, with the configuration mechanism behind the two
ports as the assignment of a word to each function and register.

* `rPci32`, `hostBridge` — the read of a register, and the decoding of its address.
* `scan` — the loops.
* `ScanInv` — what holds after the first `n` functions.
* **`scan_finds_card_iff`** — the result is right iff there is no card, or the last function that is
  present on the buses `0` to `254` is one.
-/

namespace GrubKernel

open Loop

namespace Pci

/-! ## The configuration mechanism -/

/-- `PCI_ENABLE_BIT`. -/
def pciEnableBit : UInt32 := 0x80000000

/-- The address that `r_pci_32` writes to `PCI_CONFIG_ADDRESS`. -/
def configAddress (bus device func pcireg : UInt8) : UInt32 :=
  pciEnableBit ||| (bus.toUInt32 <<< 16) ||| (device.toUInt32 <<< 11) ||| (func.toUInt32 <<< 8) |||
    (pcireg.toUInt32 <<< 2)

/-- `r_pci_32`, where `port` is what `PCI_CONFIG_DATA` shows for an address. -/
def rPci32 (port : UInt32 → UInt32) (bus device func pcireg : UInt8) : UInt32 :=
  port (configAddress bus device func pcireg)

/-- The registers of the functions: by bus, device, function and number of the register. -/
abbrev Config := ℕ → ℕ → ℕ → ℕ → UInt32

/-- The host bridge decodes an address and shows the register. -/
def hostBridge (config : Config) (address : UInt32) : UInt32 :=
  config (address.toNat / 2 ^ 16 % 256) (address.toNat / 2 ^ 11 % 32) (address.toNat / 2 ^ 8 % 8)
    (address.toNat / 4 % 64)

/-! ## The scan -/

/-- The variables of the scan. -/
structure Scan where
  realtek8319Found : ℤ
  pciBus : UInt8
  pciDevice : UInt8
  pciDeviceFn : UInt8

/-- Vendor `0x10ec`, device `0x8139`. -/
def IsRtl8139 (data : UInt32) : Prop := data &&& 0xFFFF = 0x10ec ∧ data >>> 16 = 0x8139

instance (data : UInt32) : Decidable (IsRtl8139 data) := inferInstanceAs (Decidable (_ ∧ _))

/-- The body of the loops of `init_pcilist`. -/
def visit (port : UInt32 → UInt32) (bus device func : UInt8) (s : Scan) : Scan :=
  let data := rPci32 port bus device func 0
  if data ≠ 0xffffffff then
    if IsRtl8139 data then ⟨1, bus, device, func⟩ else { s with realtek8319Found := 0 }
  else s

/-- The loops of `init_pcilist`.  The loop over the buses ends at `bus == 0xff`, so it makes 255
rounds. -/
def scan (port : UInt32 → UInt32) : Scan :=
  forLoop 255 (fun bus => forLoop 32 fun device => forLoop 8 fun func =>
    visit port (UInt8.ofNat bus) (UInt8.ofNat device) (UInt8.ofNat func)) ⟨0, 0, 0, 0⟩

/-! ## Addresses -/

/-- A field that is shifted into place. -/
lemma toNat_shiftLeft32 {x : UInt32} {k n : ℕ} (hx : x.toNat = n) (hk : k < 32)
    (hn : 2 ^ k * n < 2 ^ 32) : (x <<< UInt32.ofNat k).toNat = 2 ^ k * n := by
  have hshift : (UInt32.ofNat k).toNat % 32 = k := by
    rw [UInt32.toNat_ofNat']
    omega
  rw [UInt32.toNat_shiftLeft, hshift, hx, Nat.shiftLeft_eq, Nat.mul_comm]
  exact Nat.mod_eq_of_lt hn

lemma toNat_byte {n : ℕ} (hn : n < 256) : (UInt8.ofNat n).toUInt32.toNat = n := by
  rw [UInt8.toNat_toUInt32, UInt8.toNat_ofNat']
  exact Nat.mod_eq_of_lt hn

/-- The fields of an address do not overlap. -/
lemma packed {b d f r : ℕ} (hb : b < 256) (hd : d < 32) (hf : f < 8) (hr : r < 64) :
    2 ^ 16 * b ||| 2 ^ 11 * d ||| 2 ^ 8 * f ||| 2 ^ 2 * r ||| 2 ^ 31
      = 2 ^ 31 + 2 ^ 16 * b + 2 ^ 11 * d + 2 ^ 8 * f + 2 ^ 2 * r := by
  have h₁ : 2 ^ 16 * b ||| 2 ^ 11 * d = 2 ^ 11 * (2 ^ 5 * b + d) := by
    rw [← Nat.two_pow_add_eq_or_of_lt (by omega)]
    omega
  have h₂ : 2 ^ 11 * (2 ^ 5 * b + d) ||| 2 ^ 8 * f = 2 ^ 8 * (2 ^ 8 * b + 2 ^ 3 * d + f) := by
    rw [← Nat.two_pow_add_eq_or_of_lt (by omega)]
    omega
  have h₃ : 2 ^ 8 * (2 ^ 8 * b + 2 ^ 3 * d + f) ||| 2 ^ 2 * r
      = 2 ^ 16 * b + 2 ^ 11 * d + 2 ^ 8 * f + 2 ^ 2 * r := by
    rw [← Nat.two_pow_add_eq_or_of_lt (by omega)]
    omega
  have h₄ : (2 ^ 16 * b + 2 ^ 11 * d + 2 ^ 8 * f + 2 ^ 2 * r) ||| 2 ^ 31 * 1
      = 2 ^ 31 + 2 ^ 16 * b + 2 ^ 11 * d + 2 ^ 8 * f + 2 ^ 2 * r := by
    rw [Nat.lor_comm, ← Nat.two_pow_add_eq_or_of_lt (by omega)]
    omega
  rw [h₁, h₂, h₃, ← h₄, Nat.mul_one]

/-- The same with the enable bit first. -/
lemma packed_enable_first {b d f r : ℕ} (hb : b < 256) (hd : d < 32) (hf : f < 8) (hr : r < 64) :
    2 ^ 31 ||| 2 ^ 16 * b ||| 2 ^ 11 * d ||| 2 ^ 8 * f ||| 2 ^ 2 * r
      = 2 ^ 31 + 2 ^ 16 * b + 2 ^ 11 * d + 2 ^ 8 * f + 2 ^ 2 * r := by
  rw [← packed hb hd hf hr, Nat.lor_comm (2 ^ 16 * b ||| 2 ^ 11 * d ||| 2 ^ 8 * f ||| 2 ^ 2 * r)]
  simp only [Nat.lor_assoc]

/-- The fields of an address, shifted into place. -/
lemma toNat_fields {b d f : ℕ} (hb : b < 256) (hd : d < 32) (hf : f < 8) :
    ((UInt8.ofNat b).toUInt32 <<< 16).toNat = 2 ^ 16 * b ∧
    ((UInt8.ofNat d).toUInt32 <<< 11).toNat = 2 ^ 11 * d ∧
    ((UInt8.ofNat f).toUInt32 <<< 8).toNat = 2 ^ 8 * f :=
  ⟨toNat_shiftLeft32 (k := 16) (toNat_byte hb) (by decide) (by omega),
    toNat_shiftLeft32 (k := 11) (toNat_byte (by omega)) (by decide) (by omega),
    toNat_shiftLeft32 (k := 8) (toNat_byte (by omega)) (by decide) (by omega)⟩

/-- The enable bit and the fields as one word. -/
lemma toNat_packed {b d f r : ℕ} (hb : b < 256) (hd : d < 32) (hf : f < 8) (hr : r < 64)
    {bus device func reg : UInt32} (hbus : bus.toNat = 2 ^ 16 * b) (hdev : device.toNat = 2 ^ 11 * d)
    (hfun : func.toNat = 2 ^ 8 * f) (hreg : reg.toNat = 2 ^ 2 * r) :
    (pciEnableBit ||| bus ||| device ||| func ||| reg).toNat
      = 2 ^ 31 + 2 ^ 16 * b + 2 ^ 11 * d + 2 ^ 8 * f + 2 ^ 2 * r := by
  have henable : pciEnableBit.toNat = 2 ^ 31 := rfl
  rw [UInt32.toNat_or, UInt32.toNat_or, UInt32.toNat_or, UInt32.toNat_or, henable, hbus, hdev, hfun,
    hreg, packed_enable_first hb hd hf hr]

/-- The address that `r_pci_32` writes. -/
lemma toNat_configAddress {b d f r : ℕ} (hb : b < 256) (hd : d < 32) (hf : f < 8) (hr : r < 64) :
    (configAddress (UInt8.ofNat b) (UInt8.ofNat d) (UInt8.ofNat f) (UInt8.ofNat r)).toNat
      = 2 ^ 31 + 2 ^ 16 * b + 2 ^ 11 * d + 2 ^ 8 * f + 2 ^ 2 * r := by
  obtain ⟨hbus, hdev, hfun⟩ := toNat_fields hb hd hf
  have hreg : ((UInt8.ofNat r).toUInt32 <<< 2).toNat = 2 ^ 2 * r :=
    toNat_shiftLeft32 (k := 2) (toNat_byte (by omega)) (by decide) (by omega)
  rw [configAddress]
  exact toNat_packed hb hd hf hr hbus hdev hfun hreg

/-- **A read reaches its register.** -/
theorem rPci32_hostBridge (config : Config) {b d f r : ℕ} (hb : b < 256) (hd : d < 32) (hf : f < 8)
    (hr : r < 64) :
    rPci32 (hostBridge config) (UInt8.ofNat b) (UInt8.ofNat d) (UInt8.ofNat f) (UInt8.ofNat r)
      = config b d f r := by
  unfold rPci32 hostBridge
  rw [toNat_configAddress hb hd hf hr]
  have hbus : (2 ^ 31 + 2 ^ 16 * b + 2 ^ 11 * d + 2 ^ 8 * f + 2 ^ 2 * r) / 2 ^ 16 % 256 = b := by omega
  have hdev : (2 ^ 31 + 2 ^ 16 * b + 2 ^ 11 * d + 2 ^ 8 * f + 2 ^ 2 * r) / 2 ^ 11 % 32 = d := by omega
  have hfun : (2 ^ 31 + 2 ^ 16 * b + 2 ^ 11 * d + 2 ^ 8 * f + 2 ^ 2 * r) / 2 ^ 8 % 8 = f := by omega
  have hreg : (2 ^ 31 + 2 ^ 16 * b + 2 ^ 11 * d + 2 ^ 8 * f + 2 ^ 2 * r) / 4 % 64 = r := by omega
  rw [hbus, hdev, hfun, hreg]

/-! ## The functions in the order of the scan -/

/-- The place of a function in the order of the scan. -/
def position (b d f : ℕ) : ℕ := b * 256 + (d * 8 + f)

lemma position_spec {b d f : ℕ} (hd : d < 32) (hf : f < 8) :
    position b d f / 256 = b ∧ position b d f / 8 % 32 = d ∧ position b d f % 8 = f := by
  unfold position
  omega

/-- The vendor and device word of the function at a place. -/
def word (config : Config) (n : ℕ) : UInt32 := config (n / 256) (n / 8 % 32) (n % 8) 0

lemma word_position (config : Config) {b d f : ℕ} (hd : d < 32) (hf : f < 8) :
    word config (position b d f) = config b d f 0 := by
  obtain ⟨hbus, hdev, hfun⟩ := position_spec (b := b) hd hf
  rw [word, hbus, hdev, hfun]

/-- The scan at a place. -/
def visitAt (config : Config) (n : ℕ) (s : Scan) : Scan :=
  if word config n ≠ 0xffffffff then
    if IsRtl8139 (word config n) then
      ⟨1, UInt8.ofNat (n / 256), UInt8.ofNat (n / 8 % 32), UInt8.ofNat (n % 8)⟩
    else { s with realtek8319Found := 0 }
  else s

/-- The three loops are one. -/
lemma scan_eq (config : Config) :
    scan (hostBridge config) = forLoop (255 * 256) (visitAt config) ⟨0, 0, 0, 0⟩ := by
  have hvisit : ∀ b < 255, ∀ d < 32, ∀ f < 8,
      visit (hostBridge config) (UInt8.ofNat b) (UInt8.ofNat d) (UInt8.ofNat f)
        = visitAt config (position b d f) := by
    intro b hb d hd f hf
    obtain ⟨hbus, hdev, hfun⟩ := position_spec (b := b) hd hf
    have hread : rPci32 (hostBridge config) (UInt8.ofNat b) (UInt8.ofNat d) (UInt8.ofNat f) 0
        = word config (position b d f) := by
      rw [word_position config hd hf]
      exact rPci32_hostBridge config (by omega) hd hf (show 0 < 64 by decide)
    funext s
    unfold visit visitAt
    rw [hread, hbus, hdev, hfun]
  rw [forLoop_mul]
  refine forLoop_congr (fun b hb => ?_) _
  funext s
  show _ = forLoop (32 * 8) (fun m => visitAt config (b * 256 + m)) s
  rw [forLoop_mul]
  refine forLoop_congr (fun d hd => ?_) _
  funext t
  exact forLoop_congr (fun f hf => hvisit b hb d hd f hf) t

/-- Among the first `n` functions, the last one that is present is the card at place `k`. -/
def LastIsCard (config : Config) (n k : ℕ) : Prop :=
  k < n ∧ IsRtl8139 (word config k) ∧ ∀ j < n, k < j → word config j = 0xffffffff

/-- What holds after the first `n` functions. -/
structure ScanInv (config : Config) (n : ℕ) (s : Scan) : Prop where
  flag : s.realtek8319Found = 0 ∨ s.realtek8319Found = 1
  found : s.realtek8319Found = 1 ↔ ∃ k, LastIsCard config n k
  place : s.realtek8319Found = 1 → ∃ k < n, IsRtl8139 (word config k) ∧
    s.pciBus = UInt8.ofNat (k / 256) ∧ s.pciDevice = UInt8.ofNat (k / 8 % 32) ∧
    s.pciDeviceFn = UInt8.ofNat (k % 8)

lemma ne_absent_of_isRtl8139 {data : UInt32} (h : IsRtl8139 data) : data ≠ 0xffffffff := by
  rintro rfl
  exact absurd h (by decide)

/-- **One function.** -/
lemma ScanInv.visitAt {config : Config} {n : ℕ} {s : Scan} (h : ScanInv config n s) :
    ScanInv config (n + 1) (visitAt config n s) := by
  unfold Pci.visitAt
  by_cases hpresent : word config n ≠ 0xffffffff
  · rw [if_pos hpresent]
    by_cases hcard : IsRtl8139 (word config n)
    · rw [if_pos hcard]
      refine ⟨Or.inr rfl, iff_of_true rfl ⟨n, by omega, hcard, fun j hj hnj => by omega⟩,
        fun _ => ⟨n, by omega, hcard, rfl, rfl, rfl⟩⟩
    · rw [if_neg hcard]
      have hclear : (0 : ℤ) ≠ 1 := by decide
      refine ⟨Or.inl rfl, iff_of_false hclear ?_, fun hbad => absurd hbad hclear⟩
      rintro ⟨k, hk, hkcard, hlast⟩
      by_cases hkn : k = n
      · exact hcard (hkn ▸ hkcard)
      · exact hpresent (hlast n (by omega) (by omega))
  · rw [if_neg hpresent]
    have habsent : word config n = 0xffffffff := not_not.mp hpresent
    refine ⟨h.flag, h.found.trans ?_, fun hfound => ?_⟩
    · constructor
      · rintro ⟨k, hk, hkcard, hlast⟩
        refine ⟨k, by omega, hkcard, fun j hj hkj => ?_⟩
        by_cases hjn : j = n
        · rw [hjn, habsent]
        · exact hlast j (by omega) hkj
      · rintro ⟨k, hk, hkcard, hlast⟩
        have hkn : k ≠ n := fun heq => ne_absent_of_isRtl8139 hkcard (heq ▸ habsent)
        exact ⟨k, by omega, hkcard, fun j hj hkj => hlast j (by omega) hkj⟩
    · obtain ⟨k, hk, hrest⟩ := h.place hfound
      exact ⟨k, by omega, hrest⟩

/-- **The scan**, by induction on the functions. -/
theorem scan_inv (config : Config) : ScanInv config (255 * 256) (scan (hostBridge config)) := by
  rw [scan_eq]
  refine forLoop_inv (ScanInv config) (255 * 256) ⟨Or.inl rfl, iff_of_false (by decide) ?_, ?_⟩
    fun n _ s hs => hs.visitAt
  · rintro ⟨k, hk, -⟩
    omega
  · exact fun hbad => absurd hbad (by decide)

/-! ## The result -/

/-- Some function of the 256 buses is a card. -/
def HasCard (config : Config) : Prop :=
  ∃ b < 256, ∃ d < 32, ∃ f < 8, IsRtl8139 (config b d f 0)

/-- The scan finds the card: the flag is set iff there is one, and then the coordinates are those of
one. -/
def FindsCard (config : Config) (s : Scan) : Prop :=
  (s.realtek8319Found = 1 ↔ HasCard config) ∧
  (s.realtek8319Found = 1 →
    IsRtl8139 (config s.pciBus.toNat s.pciDevice.toNat s.pciDeviceFn.toNat 0))

/-- The last function that is present on the buses `0` to `254` is a card. -/
def EndsAtCard (config : Config) : Prop :=
  ∃ b < 255, ∃ d < 32, ∃ f < 8, IsRtl8139 (config b d f 0) ∧
    ∀ b' < 255, ∀ d' < 32, ∀ f' < 8, position b d f < position b' d' f' →
      config b' d' f' 0 = 0xffffffff

lemma endsAtCard_iff (config : Config) : EndsAtCard config ↔ ∃ k, LastIsCard config (255 * 256) k := by
  constructor
  · rintro ⟨b, hb, d, hd, f, hf, hcard, hlast⟩
    refine ⟨position b d f, ?_, ?_, fun j hj hkj => ?_⟩
    · unfold position
      omega
    · rwa [word_position config hd hf]
    · have hj' : position (j / 256) (j / 8 % 32) (j % 8) = j := by
        unfold position
        omega
      exact hlast (j / 256) (by omega) (j / 8 % 32) (by omega) (j % 8) (by omega) (by rwa [hj'])
  · rintro ⟨k, hk, hcard, hlast⟩
    have hk' : position (k / 256) (k / 8 % 32) (k % 8) = k := by
      unfold position
      omega
    refine ⟨k / 256, by omega, k / 8 % 32, by omega, k % 8, by omega, hcard,
      fun b hb d hd f hf hlt => ?_⟩
    rw [hk'] at hlt
    have hword := hlast (position b d f) (by unfold position; omega) hlt
    rwa [word_position config hd hf] at hword

end Pci

open Pci

/-- **The scan finds the card** iff there is none, or the last function that is present on the buses
`0` to `254` is one. -/
theorem scan_finds_card_iff (config : Config) :
    FindsCard config (scan (hostBridge config)) ↔ ¬ HasCard config ∨ EndsAtCard config := by
  have hinv := scan_inv config
  have hfound := hinv.found.trans (endsAtCard_iff config).symm
  have hhas : EndsAtCard config → HasCard config := by
    rintro ⟨b, hb, d, hd, f, hf, hcard, -⟩
    exact ⟨b, by omega, d, hd, f, hf, hcard⟩
  constructor
  · rintro ⟨hiff, -⟩
    by_cases hcard : HasCard config
    · exact Or.inr (hfound.mp (hiff.mpr hcard))
    · exact Or.inl hcard
  · intro hcond
    refine ⟨hfound.trans ⟨hhas, fun hcard => ?_⟩, fun hflag => ?_⟩
    · rcases hcond with hnone | hends
      · exact absurd hcard hnone
      · exact hends
    · obtain ⟨k, hk, hcard, hbus, hdev, hfun⟩ := hinv.place hflag
      rw [hbus, hdev, hfun, UInt8.toNat_ofNat', UInt8.toNat_ofNat', UInt8.toNat_ofNat',
        Nat.mod_eq_of_lt (show k / 256 < 2 ^ 8 by omega),
        Nat.mod_eq_of_lt (show k / 8 % 32 < 2 ^ 8 by omega),
        Nat.mod_eq_of_lt (show k % 8 < 2 ^ 8 by omega)]
      exact hcard

/-- A card with another device behind it on the bus, and a card on the last bus: neither is found. -/
theorem card_not_found :
    (let config : Config := fun b d f _ =>
      if b = 0 ∧ d = 3 ∧ f = 0 then 0x813910ec
      else if b = 0 ∧ d = 4 ∧ f = 0 then 0x100e8086 else 0xffffffff
    HasCard config ∧ (scan (hostBridge config)).realtek8319Found = 0 ∧
      ¬ FindsCard config (scan (hostBridge config))) ∧
    (let config : Config := fun b d f _ =>
      if b = 255 ∧ d = 0 ∧ f = 0 then 0x813910ec else 0xffffffff
    HasCard config ∧ (scan (hostBridge config)).realtek8319Found = 0 ∧
      ¬ FindsCard config (scan (hostBridge config))) := by
  -- with the flag not set it is enough that there is a card
  have hmissed : ∀ config : Config, HasCard config → ¬ EndsAtCard config →
      HasCard config ∧ (scan (hostBridge config)).realtek8319Found = 0 ∧
        ¬ FindsCard config (scan (hostBridge config)) := by
    intro config hcard hends
    have hinv := scan_inv config
    have hflag : (scan (hostBridge config)).realtek8319Found ≠ 1 :=
      fun hone => hends ((endsAtCard_iff config).mpr (hinv.found.mp hone))
    refine ⟨hcard, ?_, fun hfinds => hflag (hfinds.1.mpr hcard)⟩
    rcases hinv.flag with hzero | hone
    · exact hzero
    · exact absurd hone hflag
  constructor
  · refine hmissed _ ⟨0, by decide, 3, by decide, 0, by decide, by decide⟩ ?_
    rintro ⟨b, hb, d, hd, f, hf, hcard, hlast⟩
    have hplace : b = 0 ∧ d = 3 ∧ f = 0 := by
      by_contra hne
      dsimp only at hcard
      rw [if_neg hne] at hcard
      split_ifs at hcard
      · exact absurd hcard (by decide)
      · exact absurd hcard (by decide)
    obtain ⟨rfl, rfl, rfl⟩ := hplace
    exact absurd (hlast 0 (by decide) 4 (by decide) 0 (by decide) (by decide)) (by decide)
  · refine hmissed _ ⟨255, by decide, 0, by decide, 0, by decide, by decide⟩ ?_
    rintro ⟨b, hb, d, hd, f, hf, hcard, -⟩
    have hne : ¬ (b = 255 ∧ d = 0 ∧ f = 0) := by omega
    dsimp only at hcard
    rw [if_neg hne] at hcard
    exact absurd hcard (by decide)

end GrubKernel
