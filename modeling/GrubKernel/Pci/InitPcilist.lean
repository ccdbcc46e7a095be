import GrubKernel.Pci.ByteWrites
import GrubKernel.Pci.Waiting
import Mathlib.Logic.Relation

/-!
# The whole of `init_pcilist`

The scan, the bus mastering and the driver of the network card run on one computer, whose instructions
reach the configuration space behind two ports and the card behind the ports of its base address.  This
file puts the parts together and follows a whole run through all ports.

* `Computer` — what the instructions do, with the configuration space behind its ports; `wired` builds
  one from any card.
* `Machine.scan`, `initPcilist` — the function, with every access in the trace.
* `CardStep` — one access to the card; `CardRun` — what the driver does is a run of these.
* **`initPcilist_confined`** — a run reads the configuration space, writes one bit of the card that the
  scan has found, and otherwise keeps to the 84 ports of that card.
-/

namespace GrubKernel

open Loop

namespace Pci

/-! ## The computer -/

/-- An access at this port does not meet the eight ports of the configuration mechanism. -/
def Elsewhere (port : UInt16) : Prop := port.toNat + 4 ≤ 0xCF8 ∨ 0xD00 ≤ port.toNat

instance (port : UInt16) : Decidable (Elsewhere port) := inferInstanceAs (Decidable (_ ∨ _))

/-- A computer: what the instructions that access ports do, where the configuration space is behind the
two ports and an access elsewhere does not reach it. -/
structure Computer (σ : Type*) extends Nic σ where
  ports : σ → Ports
  outl_address : ∀ s value, ports (outl s value 0xCF8) = (ports s).outl value 0xCF8
  outl_data : ∀ s value, ports (outl s value 0xCFC) = (ports s).outl value 0xCFC
  inl_data : ∀ s, (inl s 0xCFC).1 = (ports s).inl 0xCFC ∧ ports (inl s 0xCFC).2 = ports s
  outb_elsewhere : ∀ s value port, Elsewhere port → ports (outb s value port) = ports s
  outw_elsewhere : ∀ s value port, Elsewhere port → ports (outw s value port) = ports s
  outl_elsewhere : ∀ s value port, Elsewhere port → ports (outl s value port) = ports s
  inb_elsewhere : ∀ s port, Elsewhere port → ports (inb s port).2 = ports s
  inl_elsewhere : ∀ s port, Elsewhere port → ports (inl s port).2 = ports s

/-- Any card as a part of a computer.  A halfword is written to the configuration space by its bytes. -/
def wired {σ : Type*} (nic : Nic σ) : Computer (Ports × σ) where
  outb s value port :=
    if Elsewhere port then (s.1, nic.outb s.2 value port) else (s.1.outb value port, s.2)
  outw s value port :=
    if Elsewhere port then (s.1, nic.outw s.2 value port)
    else ((s.1.outb value.toUInt8 port).outb (value >>> 8).toUInt8 (port + 1), s.2)
  outl s value port :=
    if Elsewhere port then (s.1, nic.outl s.2 value port) else (s.1.outl value port, s.2)
  inb s port :=
    if Elsewhere port then
      let (value, card) := nic.inb s.2 port
      (value, s.1, card)
    else (s.1.inb port, s)
  inl s port :=
    if Elsewhere port then
      let (value, card) := nic.inl s.2 port
      (value, s.1, card)
    else (s.1.inl port, s)
  ports := Prod.fst
  outl_address s value := by rw [if_neg (by decide)]
  outl_data s value := by rw [if_neg (by decide)]
  inl_data s := by
    rw [if_neg (by decide)]
    exact ⟨rfl, rfl⟩
  outb_elsewhere s value port h := by rw [if_pos h]
  outw_elsewhere s value port h := by rw [if_pos h]
  outl_elsewhere s value port h := by rw [if_pos h]
  inb_elsewhere s port h := by rw [if_pos h]
  inl_elsewhere s port h := by rw [if_pos h]

end Pci

open Pci

namespace Nic

variable {σ : Type*}

/-- `Config1`. -/
def config1 : UInt32 := 0x52

namespace Machine

/-! ## The accesses to the configuration space -/

/-- `r_pci_32`. -/
def rPci32 (nic : Nic σ) (m : Machine σ) (bus device func pcireg : UInt8) : UInt32 × Machine σ :=
  let m := m.outl nic (configAddress bus device func pcireg) 0xCF8
  m.inl nic 0xCFC

/-- `pci_read_word`. -/
def pciReadWord (nic : Nic σ) (m : Machine σ) (bus slot func offset : UInt16) : UInt16 × Machine σ :=
  let address := Ports.wordAddress bus slot func offset
  let m := m.outl nic address.toUInt32 0xCF8
  let (data, m) := m.inl nic 0xCFC
  (((data >>> ((offset.toUInt32 &&& 2) * 8)) &&& 0xffff).toUInt16, m)

/-- `pci_write_word`. -/
def pciWriteWord (nic : Nic σ) (m : Machine σ) (bus slot func offset data : UInt16) :
    UInt16 × Machine σ :=
  let address := Ports.wordAddress bus slot func offset
  let m := m.outl nic address.toUInt32 0xCF8
  let (tmp, m) := m.inl nic 0xCFC
  let tmp := tmp &&& ~~~(0xFFFF <<< ((offset.toUInt32 &&& 2) * 8))
  let tmp := tmp ||| (data.toUInt32 <<< ((offset.toUInt32 &&& 2) * 8))
  let m := m.outl nic address.toUInt32 0xCF8
  let m := m.outl nic tmp 0xCFC
  m.pciReadWord nic bus slot func offset

/-! ## The function -/

/-- The body of the loops, with the lines on the screen. -/
def visit (nic : Nic σ) (bus device func : UInt8) (s : Scan × Machine σ) : Scan × Machine σ :=
  let (data, m) := s.2.rPci32 nic bus device func 0
  if data ≠ 0xffffffff then
    if IsRtl8139 data then
      let m := m.kPrintf "RTL8139 found! bus: %d" [bus.toUInt32]
      let m := m.kPrintf " device: %d" [device.toUInt32]
      (⟨1, bus, device, func⟩, m.kPrintf " func: %d \n" [func.toUInt32])
    else ({ s.1 with realtek8319Found := 0 }, m)
  else (s.1, m)

/-- The loops. -/
def scan (nic : Nic σ) (m : Machine σ) : Scan × Machine σ :=
  forLoop 255 (fun bus => forLoop 32 fun device => forLoop 8 fun func =>
    visit nic (UInt8.ofNat bus) (UInt8.ofNat device) (UInt8.ofNat func)) (⟨0, 0, 0, 0⟩, m)

/-- Bus mastering is turned on in the command register. -/
def busMastering (nic : Nic σ) (s : Scan) (m : Machine σ) : Machine σ :=
  let bus := s.pciBus.toUInt16
  let device := s.pciDevice.toUInt16
  let func := s.pciDeviceFn.toUInt16
  let m := m.kPrintf "BUS mastering ...\n" []
  let (commandRegister, m) := m.pciReadWord nic bus device func 0x04
  let m := m.kPrintf "BUS mastering command_register = %x\n" [commandRegister.toUInt32]
  let commandRegister := commandRegister ||| 0x04
  let (_, m) := m.pciWriteWord nic bus device func 0x04 commandRegister
  let (commandRegister, m) := m.pciReadWord nic bus device func 0x04
  m.kPrintf "BUS mastering command_register = %x\n" [commandRegister.toUInt32]

/-- The interrupt line and the base address of the card. -/
def locate (nic : Nic σ) (s : Scan) (m : Machine σ) : UInt32 × Machine σ :=
  let (pciIrqLine, m) := m.rPci32 nic s.pciBus s.pciDevice s.pciDeviceFn 0x0F
  let irq := pciIrqLine &&& 0xFF
  let m := m.kPrintf "irq: 0x%x (%dd)\n" [irq, irq]
  let (pciIoaddr, m) := m.rPci32 nic s.pciBus s.pciDevice s.pciDeviceFn 4
  let m := m.kPrintf "pci_ioaddr: 0x%x \n" [pciIoaddr]
  let ioaddr := pciIoaddr &&& ~~~3
  (ioaddr, m.kPrintf "ioaddr: 0x%x \n" [ioaddr])

end Machine

/-- The part of `init_pcilist` behind the scan, for the card that it has found. -/
def startCard (nic : Nic σ) (rxBuffer txBuffer : UInt32) (fuel : ℕ) (s : Scan) (m : Machine σ) :
    Except (Machine σ) (Machine σ) :=
  let (ioaddr, m) := m.locate nic s
  let m := m.outb nic 0x00 (portOf ioaddr config1)
  let m := m.kPrintf "starting chip done.\n" []
  let m := m.busMastering nic s
  let (_macAddress, m) := macSection nic ioaddr m
  resetAndSend nic ioaddr rxBuffer txBuffer fuel m

/-- `init_pcilist`, with the two buffers of the stack at the addresses `rxBuffer` and `txBuffer`. -/
def initPcilist (nic : Nic σ) (rxBuffer txBuffer : UInt32) (fuel : ℕ) (m : Machine σ) :
    Except (Machine σ) (Machine σ) :=
  let (s, m) := m.scan nic
  if s.realtek8319Found ≠ 0 then startCard nic rxBuffer txBuffer fuel s m else .ok m

/-- The machine, whether the run has come to its end or not. -/
def stateOf : Except (Machine σ) (Machine σ) → Machine σ
  | .error m => m
  | .ok m => m

/-! ## Events -/

/-- An access that selects or reads a register of the configuration space, or a line on the screen. -/
def ReadsConfig : Event → Prop
  | .outl _ port => port = 0xCF8
  | .inl port _ => port = 0xCFC
  | .kPrintf _ _ => True
  | _ => False

/-- An access that writes a register of the configuration space. -/
def WritesConfig : Event → Prop
  | .outl _ port => port = 0xCFC
  | _ => False

/-- An access to one of the 84 ports at a base address, or a line on the screen. -/
def InWindow (ioaddr : UInt32) : Event → Prop
  | .outb _ port | .outw _ port | .outl _ port | .inb port _ | .inl port _ =>
    ∃ r : UInt32, r.toNat < 0x54 ∧ port = portOf ioaddr r
  | .kPrintf _ _ => True

/-- From one machine to the other, only events of a kind happen. -/
def Emits (P : Event → Prop) (m t : Machine σ) : Prop :=
  ∃ events, t.trace = m.trace ++ events ∧ ∀ e ∈ events, P e

section Emitting

variable {P Q : Event → Prop} {m t u : Machine σ}

lemma Emits.refl (P : Event → Prop) (m : Machine σ) : Emits P m m :=
  ⟨[], (List.append_nil _).symm, fun _ he => absurd he List.not_mem_nil⟩

lemma Emits.one {e : Event} (h : t.trace = m.trace ++ [e]) (he : P e) : Emits P m t := by
  refine ⟨[e], h, fun e' he' => ?_⟩
  rwa [List.mem_singleton.mp he']

lemma Emits.trans (h₁ : Emits P m t) (h₂ : Emits P t u) : Emits P m u := by
  obtain ⟨es₁, ht, hes₁⟩ := h₁
  obtain ⟨es₂, hu, hes₂⟩ := h₂
  refine ⟨es₁ ++ es₂, by rw [hu, ht, List.append_assoc], fun e he => ?_⟩
  rcases List.mem_append.mp he with he | he
  · exact hes₁ e he
  · exact hes₂ e he

lemma Emits.mono (h : Emits P m t) (hPQ : ∀ e, P e → Q e) : Emits Q m t := by
  obtain ⟨es, ht, hes⟩ := h
  exact ⟨es, ht, fun e he => hPQ e (hes e he)⟩

lemma Emits.of_start {card : σ} (h : Emits P ⟨card, []⟩ t) : ∀ e ∈ t.trace, P e := by
  obtain ⟨es, ht, hes⟩ := h
  rwa [ht]

lemma Emits.kPrintf (h : Emits ReadsConfig m t) (format : String) (args : List UInt32) :
    Emits ReadsConfig m (t.kPrintf format args) :=
  h.trans (Emits.one rfl trivial)

end Emitting

/-! ## Reading and writing the configuration space -/

lemma kPrintf_card (m : Machine σ) (format : String) (args : List UInt32) :
    (m.kPrintf format args).card = m.card := rfl

section Configuration

variable (c : Computer σ) (m : Machine σ)

/-- An address is latched, and the data port is read. -/
lemma select_spec (address : UInt32) :
    ((m.outl c.toNic address 0xCF8).inl c.toNic 0xCFC).1
        = ((c.ports m.card).outl address 0xCF8).inl 0xCFC ∧
      c.ports ((m.outl c.toNic address 0xCF8).inl c.toNic 0xCFC).2.card
        = (c.ports m.card).outl address 0xCF8 ∧
      Emits ReadsConfig m ((m.outl c.toNic address 0xCF8).inl c.toNic 0xCFC).2 := by
  obtain ⟨hdata, hports⟩ := c.inl_data (c.outl m.card address 0xCF8)
  rw [c.outl_address] at hdata hports
  have hlatch : Emits ReadsConfig m (m.outl c.toNic address 0xCF8) := Emits.one rfl rfl
  exact ⟨hdata, hports, hlatch.trans (Emits.one rfl rfl)⟩

lemma rPci32_run (bus device func pcireg : UInt8) :
    (m.rPci32 c.toNic bus device func pcireg).1 = ((c.ports m.card).rPci32 bus device func pcireg).1 ∧
      (c.ports (m.rPci32 c.toNic bus device func pcireg).2.card).space = (c.ports m.card).space ∧
      Emits ReadsConfig m (m.rPci32 c.toNic bus device func pcireg).2 := by
  obtain ⟨hdata, hports, htrace⟩ := select_spec c m (configAddress bus device func pcireg)
  refine ⟨hdata, ?_, htrace⟩
  rw [Machine.rPci32, hports, outl_address_space]

lemma pciReadWord_run (bus slot func offset : UInt16) :
    (m.pciReadWord c.toNic bus slot func offset).1
        = ((c.ports m.card).pciReadWord bus slot func offset).1 ∧
      c.ports (m.pciReadWord c.toNic bus slot func offset).2.card
        = ((c.ports m.card).pciReadWord bus slot func offset).2 ∧
      Emits ReadsConfig m (m.pciReadWord c.toNic bus slot func offset).2 := by
  obtain ⟨hdata, hports, htrace⟩ := select_spec c m (Ports.wordAddress bus slot func offset).toUInt32
  refine ⟨?_, hports, htrace⟩
  rw [Machine.pciReadWord, Ports.pciReadWord]
  dsimp only
  rw [hdata]

lemma pciWriteWord_run (bus slot func offset data : UInt16) :
    c.ports (m.pciWriteWord c.toNic bus slot func offset data).2.card
        = ((c.ports m.card).pciWriteWord bus slot func offset data).2 ∧
      Emits (fun e => ReadsConfig e ∨ WritesConfig e) m
        (m.pciWriteWord c.toNic bus slot func offset data).2 := by
  obtain ⟨hdata, hports, htrace⟩ := select_spec c m (Ports.wordAddress bus slot func offset).toUInt32
  rw [Machine.pciWriteWord, Ports.pciWriteWord]
  dsimp only
  rw [hdata]
  generalize (m.outl c.toNic (Ports.wordAddress bus slot func offset).toUInt32 0xCF8).inl c.toNic 0xCFC
    = r at hports htrace ⊢
  generalize (_ ||| _ : UInt32) = tmp
  set t := (r.2.outl c.toNic (Ports.wordAddress bus slot func offset).toUInt32 0xCF8).outl c.toNic tmp
    0xCFC with ht
  have hwritten : c.ports t.card = (((c.ports m.card).outl
      (Ports.wordAddress bus slot func offset).toUInt32 0xCF8).outl
      (Ports.wordAddress bus slot func offset).toUInt32 0xCF8).outl tmp 0xCFC := by
    rw [← hports, ← c.outl_address, ← c.outl_data]
    rfl
  obtain ⟨-, hread, hback⟩ := pciReadWord_run c t bus slot func offset
  rw [hwritten] at hread
  have hlatch : Emits ReadsConfig r.2
    (r.2.outl c.toNic (Ports.wordAddress bus slot func offset).toUInt32 0xCF8) := Emits.one rfl rfl
  have hwrite : Emits (fun e => ReadsConfig e ∨ WritesConfig e)
    (r.2.outl c.toNic (Ports.wordAddress bus slot func offset).toUInt32 0xCF8) t :=
    Emits.one rfl (Or.inr rfl)
  exact ⟨hread, (((htrace.trans hlatch).mono fun _ => Or.inl).trans hwrite).trans
    (hback.mono fun _ => Or.inl)⟩

end Configuration

/-! ## The scan -/

/-- The loops over the machine, and over the words of the configuration space. -/
structure Scanning (c : Computer σ) (m : Machine σ) (u : Scan × Machine σ) (s : Scan) : Prop where
  result : u.1 = s
  space : (c.ports u.2.card).space = (c.ports m.card).space
  trace : Emits ReadsConfig m u.2

lemma Scanning.visit {c : Computer σ} {m : Machine σ} {u : Scan × Machine σ} {s : Scan} {b d f : ℕ}
    (h : Scanning c m u s) (hb : b < 256) (hd : d < 32) (hf : f < 8) :
    Scanning c m (Machine.visit c.toNic (UInt8.ofNat b) (UInt8.ofNat d) (UInt8.ofNat f) u)
      (Pci.visit (hostBridge (dword (c.ports m.card).space)) (UInt8.ofNat b) (UInt8.ofNat d)
        (UInt8.ofNat f) s) := by
  obtain ⟨hdata, hspace, htrace⟩ := rPci32_run c u.2 (UInt8.ofNat b) (UInt8.ofNat d) (UInt8.ofNat f) 0
  have hread : ((c.ports u.2.card).rPci32 (UInt8.ofNat b) (UInt8.ofNat d) (UInt8.ofNat f) 0).1
      = Pci.rPci32 (hostBridge (dword (c.ports u.2.card).space)) (UInt8.ofNat b) (UInt8.ofNat d)
        (UInt8.ofNat f) 0 := rPci32_eq_hostBridge (c.ports u.2.card) hb hd hf (show 0 < 64 by decide)
  rw [h.space] at hread hspace
  rw [Machine.visit, Pci.visit]
  dsimp only
  rw [hdata.trans hread]
  generalize Pci.rPci32 (hostBridge (dword (c.ports m.card).space)) (UInt8.ofNat b) (UInt8.ofNat d)
    (UInt8.ofNat f) 0 = data
  have htrace' := h.trace.trans htrace
  by_cases hpresent : data ≠ 0xffffffff
  · rw [if_pos hpresent, if_pos hpresent]
    by_cases hcard : IsRtl8139 data
    · rw [if_pos hcard, if_pos hcard]
      exact ⟨rfl, hspace, ((htrace'.kPrintf _ _).kPrintf _ _).kPrintf _ _⟩
    · rw [if_neg hcard, if_neg hcard, h.result]
      exact ⟨rfl, hspace, htrace'⟩
  · rw [if_neg hpresent, if_neg hpresent]
    exact ⟨h.result, hspace, htrace'⟩

/-- **The scan** over the machine finds what the scan over the words finds, and only reads. -/
lemma scan_run (c : Computer σ) (m : Machine σ) :
    Scanning c m (m.scan c.toNic) (Pci.scan (hostBridge (dword (c.ports m.card).space))) := by
  refine forLoop_sim (Scanning c m) 255 ⟨rfl, rfl, Emits.refl _ m⟩ fun b hb u s h => ?_
  refine forLoop_sim (Scanning c m) 32 h fun d hd u s h => ?_
  exact forLoop_sim (Scanning c m) 8 h fun f hf u s h => h.visit (by omega) hd hf

/-! ## The card that was found -/

/-- The variables of the scan name a card. -/
structure Located (space : Space) (s : Scan) : Prop where
  device : s.pciDevice.toNat < 32
  func : s.pciDeviceFn.toNat < 8
  card : IsRtl8139 (dword space s.pciBus.toNat s.pciDevice.toNat s.pciDeviceFn.toNat 0)

lemma located_of_found {space : Space}
    (h : (Pci.scan (hostBridge (dword space))).realtek8319Found = 1) :
    Located space (Pci.scan (hostBridge (dword space))) := by
  obtain ⟨k, hk, hcard, hbus, hdev, hfun⟩ := (scan_inv (dword space)).place h
  have hb : (UInt8.ofNat (k / 256)).toNat = k / 256 := by
    rw [UInt8.toNat_ofNat', Nat.mod_eq_of_lt (by omega)]
  have hd : (UInt8.ofNat (k / 8 % 32)).toNat = k / 8 % 32 := by
    rw [UInt8.toNat_ofNat', Nat.mod_eq_of_lt (by omega)]
  have hf : (UInt8.ofNat (k % 8)).toNat = k % 8 := by
    rw [UInt8.toNat_ofNat', Nat.mod_eq_of_lt (by omega)]
  refine ⟨?_, ?_, ?_⟩
  · rw [hdev, hd]
    omega
  · rw [hfun, hf]
    omega
  · rw [hbus, hdev, hfun, hb, hd, hf]
    exact hcard

lemma toUInt16_eq (x : UInt8) : x.toUInt16 = UInt16.ofNat x.toNat := by
  have hlt := x.toNat_lt
  rw [← UInt16.toNat_inj, UInt8.toNat_toUInt16, UInt16.toNat_ofNat', Nat.mod_eq_of_lt (by omega)]

/-- A bit of the low byte of a word is set. -/
lemma toNat_or_four (w : UInt16) :
    UInt8.ofNat (w ||| 4).toNat = UInt8.ofNat w.toNat ||| 4 ∧
      (w ||| 4).toNat / 2 ^ 8 = w.toNat / 2 ^ 8 := by
  have hfour : (4 : UInt16).toNat = 4 := rfl
  have hfour' : (4 : UInt8).toNat = 4 := rfl
  rw [UInt16.toNat_or, hfour]
  constructor
  · rw [← UInt8.toNat_inj, UInt8.toNat_ofNat', UInt8.toNat_or, UInt8.toNat_ofNat', hfour',
      Nat.or_mod_two_pow]
  · rw [← Nat.shiftRight_eq_div_pow, ← Nat.shiftRight_eq_div_pow, Nat.shiftRight_or_distrib,
      show 4 >>> 8 = 0 from rfl, Nat.or_zero]

/-- **Bus mastering** sets one bit of the command register. -/
lemma pciWriteWord_mastering (p : Ports) {q : Ports} (hq : q.space = p.space) {b d f : ℕ} (hb : b < 256)
    (hd : d < 32) (hf : f < 8) :
    (q.pciWriteWord (UInt16.ofNat b) (UInt16.ofNat d) (UInt16.ofNat f) (UInt16.ofNat 4)
        ((p.pciReadWord (UInt16.ofNat b) (UInt16.ofNat d) (UInt16.ofNat f) (UInt16.ofNat 4)).1 |||
          4)).2.space
      = setByte p.space b d f 4 (p.space b d f 4 ||| 4) := by
  have hword := pciReadWord_spec p hb hd hf (show 4 < 256 by decide)
  generalize (p.pciReadWord (UInt16.ofNat b) (UInt16.ofNat d) (UInt16.ofNat f) (UInt16.ofNat 4)).1 = w
    at hword ⊢
  obtain ⟨hlow, hhigh⟩ := toNat_or_four w
  have hbyte : ∀ o, o / 2 = 4 / 2 → UInt8.ofNat (w.toNat / 2 ^ (8 * (o % 2))) = p.space b d f o := by
    intro o ho
    have hread := halfword_byte p.space b d f o
    rw [show o / 4 = 4 / 4 by omega, ho, ← hword] at hread
    rw [← UInt8.toNat_inj, UInt8.toNat_ofNat', hread]
  funext b' d' f' o'
  rw [pciWriteWord_space q hb hd hf (by decide), setByte, hq]
  by_cases hsel : b' = b ∧ d' = d ∧ f' = f ∧ o' / 2 = 4 / 2
  · obtain ⟨rfl, rfl, rfl, ho⟩ := hsel
    rw [if_pos ⟨rfl, rfl, rfl, ho⟩]
    have hcases : o' = 4 ∨ o' = 5 := by omega
    rcases hcases with rfl | rfl
    · rw [if_pos ⟨rfl, rfl, rfl, rfl⟩]
      have hread := hbyte 4 rfl
      rw [show 8 * (4 % 2) = 0 from rfl, pow_zero, Nat.div_one] at hread ⊢
      rw [hlow, hread]
    · have hread := hbyte 5 rfl
      rw [show 8 * (5 % 2) = 8 from rfl] at hread ⊢
      rw [if_neg (by omega), hhigh, hread]
  · rw [if_neg hsel, if_neg]
    rintro ⟨hb', hd', hf', ho⟩
    exact hsel ⟨hb', hd', hf', by omega⟩

/-- The base address of a card. -/
def ioaddrOf (space : Space) (s : Scan) : UInt32 :=
  dword space s.pciBus.toNat s.pciDevice.toNat s.pciDeviceFn.toNat 4 &&& ~~~3

/-- The space with the bus mastering of a card turned on. -/
def mastered (space : Space) (s : Scan) : Space :=
  setByte space s.pciBus.toNat s.pciDevice.toNat s.pciDeviceFn.toNat 4
    (space s.pciBus.toNat s.pciDevice.toNat s.pciDeviceFn.toNat 4 ||| 4)

section Found

variable {c : Computer σ} {m : Machine σ} {s : Scan}

lemma locate_run (h : Located (c.ports m.card).space s) :
    (m.locate c.toNic s).1 = ioaddrOf (c.ports m.card).space s ∧
      (c.ports (m.locate c.toNic s).2.card).space = (c.ports m.card).space ∧
      Emits ReadsConfig m (m.locate c.toNic s).2 := by
  obtain ⟨-, hspace₁, htrace₁⟩ := rPci32_run c m s.pciBus s.pciDevice s.pciDeviceFn 0x0F
  rw [Machine.locate]
  dsimp only
  generalize m.rPci32 c.toNic s.pciBus s.pciDevice s.pciDeviceFn 0x0F = r at hspace₁ htrace₁ ⊢
  have htrace₂ := htrace₁.kPrintf "irq: 0x%x (%dd)\n" [r.1 &&& 0xFF, r.1 &&& 0xFF]
  rw [← kPrintf_card r.2] at hspace₁
  generalize r.2.kPrintf _ _ = t at hspace₁ htrace₂ ⊢
  obtain ⟨hdata, hspace₃, htrace₃⟩ := rPci32_run c t s.pciBus s.pciDevice s.pciDeviceFn 4
  have hword := rPci32_spec (c.ports t.card) s.pciBus.toNat_lt h.device h.func (show 16 < 256 by decide)
  rw [UInt8.ofNat_toNat, UInt8.ofNat_toNat, UInt8.ofNat_toNat, hspace₁] at hword
  refine ⟨?_, hspace₃.trans hspace₁, ((htrace₂.trans htrace₃).kPrintf _ _).kPrintf _ _⟩
  rw [hdata, ioaddrOf]
  exact congrArg (fun r => r.1 &&& ~~~3) hword

variable (c m s) in
/-- Bus mastering over the machine does what it does over the ports. -/
lemma busMastering_ports :
    (c.ports (m.busMastering c.toNic s).card).space
        = (((c.ports m.card).pciReadWord s.pciBus.toUInt16 s.pciDevice.toUInt16
            s.pciDeviceFn.toUInt16 4).2.pciWriteWord s.pciBus.toUInt16 s.pciDevice.toUInt16
            s.pciDeviceFn.toUInt16 4 (((c.ports m.card).pciReadWord s.pciBus.toUInt16
            s.pciDevice.toUInt16 s.pciDeviceFn.toUInt16 4).1 ||| 4)).2.space ∧
      Emits (fun e => ReadsConfig e ∨ WritesConfig e) m (m.busMastering c.toNic s) := by
  rw [Machine.busMastering]
  dsimp only
  generalize s.pciBus.toUInt16 = bus
  generalize s.pciDevice.toUInt16 = device
  generalize s.pciDeviceFn.toUInt16 = func
  -- the first read
  have htrace₁ := (Emits.refl ReadsConfig m).kPrintf "BUS mastering ...\n" []
  rw [← kPrintf_card m "BUS mastering ...\n" []]
  generalize m.kPrintf "BUS mastering ...\n" [] = m₁ at htrace₁ ⊢
  obtain ⟨hdata, hports₂, htrace₂⟩ := pciReadWord_run c m₁ bus device func 4
  generalize m₁.pciReadWord c.toNic bus device func 4 = r at hdata hports₂ htrace₂ ⊢
  rw [← hports₂, ← hdata]
  -- the write
  have htrace₂' := (htrace₁.trans htrace₂).kPrintf "BUS mastering command_register = %x\n" [r.1.toUInt32]
  rw [← kPrintf_card r.2 "BUS mastering command_register = %x\n" [r.1.toUInt32]]
  generalize r.2.kPrintf "BUS mastering command_register = %x\n" [r.1.toUInt32] = m₂ at htrace₂' ⊢
  obtain ⟨hports₃, htrace₃⟩ := pciWriteWord_run c m₂ bus device func 4 (r.1 ||| 4)
  generalize m₂.pciWriteWord c.toNic bus device func 4 (r.1 ||| 4) = w at hports₃ htrace₃ ⊢
  -- the second read
  obtain ⟨-, hports₄, htrace₄⟩ := pciReadWord_run c w.2 bus device func 4
  refine ⟨?_, ((htrace₂'.mono fun _ => Or.inl).trans htrace₃).trans
    ((htrace₄.kPrintf _ _).mono fun _ => Or.inl)⟩
  rw [kPrintf_card, hports₄, Ports.pciReadWord, outl_address_space, hports₃]

lemma busMastering_run (hd : s.pciDevice.toNat < 32) (hf : s.pciDeviceFn.toNat < 8) :
    (c.ports (m.busMastering c.toNic s).card).space = mastered (c.ports m.card).space s ∧
      Emits (fun e => ReadsConfig e ∨ WritesConfig e) m (m.busMastering c.toNic s) := by
  obtain ⟨hspace, htrace⟩ := busMastering_ports c m s
  rw [toUInt16_eq s.pciBus, toUInt16_eq s.pciDevice, toUInt16_eq s.pciDeviceFn,
    show 4 = UInt16.ofNat 4 from rfl] at hspace
  refine ⟨hspace.trans ?_, htrace⟩
  exact pciWriteWord_mastering (c.ports m.card) (outl_address_space _ _) s.pciBus.toNat_lt hd hf

end Found

/-! ## The driver -/

/-- One access to a port of the card, or a line on the screen. -/
inductive CardStep (nic : Nic σ) (ioaddr : UInt32) : Machine σ → Machine σ → Prop
  | outb (m : Machine σ) (value : UInt8) {r : UInt32} (hr : r.toNat < 0x54) :
      CardStep nic ioaddr m (m.outb nic value (portOf ioaddr r))
  | outw (m : Machine σ) (value : UInt16) {r : UInt32} (hr : r.toNat < 0x54) :
      CardStep nic ioaddr m (m.outw nic value (portOf ioaddr r))
  | outl (m : Machine σ) (value : UInt32) {r : UInt32} (hr : r.toNat < 0x54) :
      CardStep nic ioaddr m (m.outl nic value (portOf ioaddr r))
  | inb (m : Machine σ) {r : UInt32} (hr : r.toNat < 0x54) :
      CardStep nic ioaddr m (m.inb nic (portOf ioaddr r)).2
  | inl (m : Machine σ) {r : UInt32} (hr : r.toNat < 0x54) :
      CardStep nic ioaddr m (m.inl nic (portOf ioaddr r)).2
  | kPrintf (m : Machine σ) (format : String) (args : List UInt32) :
      CardStep nic ioaddr m (m.kPrintf format args)

/-- Accesses to the card, one after the other. -/
abbrev CardRun (nic : Nic σ) (ioaddr : UInt32) : Machine σ → Machine σ → Prop :=
  Relation.ReflTransGen (CardStep nic ioaddr)

/-- **One access** shows in the trace, within the window. -/
lemma CardStep.emits {nic : Nic σ} {ioaddr : UInt32} {m t : Machine σ} (h : CardStep nic ioaddr m t) :
    Emits (InWindow ioaddr) m t := by
  cases h with
  | outb value hr => exact Emits.one rfl ⟨_, hr, rfl⟩
  | outw value hr => exact Emits.one rfl ⟨_, hr, rfl⟩
  | outl value hr => exact Emits.one rfl ⟨_, hr, rfl⟩
  | inb hr => exact Emits.one rfl ⟨_, hr, rfl⟩
  | inl hr => exact Emits.one rfl ⟨_, hr, rfl⟩
  | kPrintf format args => exact Emits.one rfl trivial

/-- The window of a card is apart from the configuration mechanism. -/
def WindowApart (ioaddr : UInt32) : Prop := ∀ r : UInt32, r.toNat < 0x54 → Elsewhere (portOf ioaddr r)

/-- **One access** leaves the configuration space alone. -/
lemma CardStep.ports {c : Computer σ} {ioaddr : UInt32} (hapart : WindowApart ioaddr) {m t : Machine σ}
    (h : CardStep c.toNic ioaddr m t) : c.ports t.card = c.ports m.card := by
  cases h with
  | outb value hr => exact c.outb_elsewhere _ _ _ (hapart _ hr)
  | outw value hr => exact c.outw_elsewhere _ _ _ (hapart _ hr)
  | outl value hr => exact c.outl_elsewhere _ _ _ (hapart _ hr)
  | inb hr => exact c.inb_elsewhere _ _ (hapart _ hr)
  | inl hr => exact c.inl_elsewhere _ _ (hapart _ hr)
  | kPrintf format args => rfl

/-- **A run of accesses**, by induction on the run. -/
lemma CardRun.emits {nic : Nic σ} {ioaddr : UInt32} {m t : Machine σ} (h : CardRun nic ioaddr m t) :
    Emits (InWindow ioaddr) m t := by
  induction h with
  | refl => exact Emits.refl _ m
  | tail _ hstep ih => exact ih.trans hstep.emits

lemma CardRun.ports {c : Computer σ} {ioaddr : UInt32} (hapart : WindowApart ioaddr) {m t : Machine σ}
    (h : CardRun c.toNic ioaddr m t) : c.ports t.card = c.ports m.card := by
  induction h with
  | refl => rfl
  | tail _ hstep ih => rw [hstep.ports hapart, ih]

section Driver

variable {nic : Nic σ} {ioaddr : UInt32} {m₀ m : Machine σ}

lemma CardRun.outb (h : CardRun nic ioaddr m₀ m) (value : UInt8) {r : UInt32} (hr : r.toNat < 0x54) :
    CardRun nic ioaddr m₀ (m.outb nic value (portOf ioaddr r)) := h.tail (.outb m value hr)

lemma CardRun.outw (h : CardRun nic ioaddr m₀ m) (value : UInt16) {r : UInt32} (hr : r.toNat < 0x54) :
    CardRun nic ioaddr m₀ (m.outw nic value (portOf ioaddr r)) := h.tail (.outw m value hr)

lemma CardRun.outl (h : CardRun nic ioaddr m₀ m) (value : UInt32) {r : UInt32} (hr : r.toNat < 0x54) :
    CardRun nic ioaddr m₀ (m.outl nic value (portOf ioaddr r)) := h.tail (.outl m value hr)

lemma CardRun.inb (h : CardRun nic ioaddr m₀ m) {r : UInt32} (hr : r.toNat < 0x54) :
    CardRun nic ioaddr m₀ (m.inb nic (portOf ioaddr r)).2 := h.tail (.inb m hr)

lemma CardRun.inl (h : CardRun nic ioaddr m₀ m) {r : UInt32} (hr : r.toNat < 0x54) :
    CardRun nic ioaddr m₀ (m.inl nic (portOf ioaddr r)).2 := h.tail (.inl m hr)

lemma CardRun.kPrintf (h : CardRun nic ioaddr m₀ m) (format : String) (args : List UInt32) :
    CardRun nic ioaddr m₀ (m.kPrintf format args) := h.tail (.kPrintf m format args)

lemma cfg9346_lt : cfg9346.toNat < 0x54 := by decide

lemma chipCmd_lt : chipCmd.toNat < 0x54 := by decide

/-! ### The EEPROM and the MAC address -/

lemma CardRun.shiftOut (readCmd : UInt32) (i : ℕ) (h : CardRun nic ioaddr m₀ m) :
    CardRun nic ioaddr m₀ (shiftOut nic (portOf ioaddr cfg9346) readCmd i m) := by
  induction i generalizing m with
  | zero => exact h
  | succ i ih => exact ih ((((h.outb _ cfg9346_lt).inl cfg9346_lt).outb _ cfg9346_lt).inl cfg9346_lt)

lemma CardRun.shiftBack (i : ℕ) (retval : UInt32) (h : CardRun nic ioaddr m₀ m) :
    CardRun nic ioaddr m₀ (shiftBack nic (portOf ioaddr cfg9346) i retval m).2 := by
  induction i generalizing m retval with
  | zero => exact h
  | succ i ih =>
      have hclock := (h.outb (eeEnb ||| eeShiftClk) cfg9346_lt).inl cfg9346_lt
      exact ih _ (((hclock.inb cfg9346_lt).outb eeEnb cfg9346_lt).inl cfg9346_lt)

lemma CardRun.readEeprom (location : UInt32) (h : CardRun nic ioaddr m₀ m) :
    CardRun nic ioaddr m₀ (readEeprom nic ioaddr location m).2 := by
  have hselect := (h.outb (eeEnb &&& ~~~eeCs) cfg9346_lt).outb eeEnb cfg9346_lt
  have hout := hselect.shiftOut (location ||| eeReadCmd) 11
  exact (((hout.outb eeEnb cfg9346_lt).inl cfg9346_lt).shiftBack 16 0).outb (~~~eeCs) cfg9346_lt

lemma CardRun.printMac (macAddress : List UInt32) (h : CardRun nic ioaddr m₀ m) :
    CardRun nic ioaddr m₀ (printMac macAddress m) := by
  have hbytes := forLoop_inv (fun _ t => CardRun nic ioaddr m₀ t) 6 (h.kPrintf "MAC: " [])
    fun i _ t ht => ht.kPrintf "%x:" [macAddress.getD i 0]
  exact hbytes.kPrintf "\n" []

lemma CardRun.macFromEeprom (i : ℕ) {s : MacState σ} (h : CardRun nic ioaddr m₀ s.machine) :
    CardRun nic ioaddr m₀ (macFromEeprom nic ioaddr i s).machine := by
  rw [Nic.macFromEeprom]
  exact h.readEeprom (UInt32.ofNat i + 7)

lemma CardRun.macFromRegisters {i : ℕ} (hi : i < 6) {s : MacState σ}
    (h : CardRun nic ioaddr m₀ s.machine) :
    CardRun nic ioaddr m₀ (macFromRegisters nic ioaddr i s).machine := by
  have hr : (UInt32.ofNat i).toNat < 0x54 := by
    rw [UInt32.toNat_ofNat']
    omega
  rw [Nic.macFromRegisters]
  exact h.inb hr

lemma CardRun.macSection (h : CardRun nic ioaddr m₀ m) :
    CardRun nic ioaddr m₀ (macSection nic ioaddr m).2 := by
  have hfirst := h.readEeprom 0
  rw [Nic.macSection]
  dsimp only
  refine CardRun.printMac _ ?_
  by_cases hword : (Nic.readEeprom nic ioaddr 0 m).1 ≠ 0xffff
  · rw [if_pos hword]
    exact forLoop_inv (fun _ (s : MacState σ) => CardRun nic ioaddr m₀ s.machine) 3 hfirst
      fun i _ _ hs => hs.macFromEeprom i
  · rw [if_neg hword]
    exact forLoop_inv (fun _ (s : MacState σ) => CardRun nic ioaddr m₀ s.machine) 6 hfirst
      fun _ hi _ hs => hs.macFromRegisters hi

/-! ### Reset and transmission -/

lemma CardRun.waitReset (fuel : ℕ) (h : CardRun nic ioaddr m₀ m) :
    CardRun nic ioaddr m₀ (stateOf (waitReset nic ioaddr fuel m)) := by
  induction fuel generalizing m with
  | zero => exact h
  | succ fuel ih =>
      have hpoll := h.inb chipCmd_lt
      rw [Nic.waitReset]
      dsimp only
      by_cases hreset : (m.inb nic (portOf ioaddr chipCmd)).1 &&& 0x10 ≠ 0
      · rw [if_pos hreset]
        exact ih (hpoll.kPrintf _ _)
      · rw [if_neg hreset]
        exact hpoll

/-- What follows a part of the driver. -/
lemma stateOf_bind {P : Machine σ → Prop} {x : Except (Machine σ) (Machine σ)}
    {f : Machine σ → Except (Machine σ) (Machine σ)} (hx : P (stateOf x))
    (hf : ∀ t, P t → P (stateOf (f t))) : P (stateOf (x >>= f)) := by
  cases x with
  | error t => exact hx
  | ok t => exact hf t hx

lemma CardRun.resetChip (fuel : ℕ) (h : CardRun nic ioaddr m₀ m) :
    CardRun nic ioaddr m₀ (stateOf (resetChip nic ioaddr fuel m)) := by
  refine stateOf_bind ((h.outb 0x10 chipCmd_lt).waitReset fuel) fun t ht => ?_
  exact ((ht.kPrintf "Reset done.\n" []).outb 0x0C chipCmd_lt).kPrintf
    "Enable receiver and transmitter done.\n" []

lemma CardRun.configure (rxBuffer : UInt32) (h : CardRun nic ioaddr m₀ m) :
    CardRun nic ioaddr m₀ (configure nic ioaddr rxBuffer m) := by
  have htx := h.outl 0x03000700 (show txConfig.toNat < 0x54 by decide)
  have hrx := htx.outl 0x0000070a (show rxConfig.toNat < 0x54 by decide)
  have hbuf := hrx.outl rxBuffer (show rxBuf.toNat < 0x54 by decide)
  have hmask := hbuf.outw 0x0005 (show intrMask.toNat < 0x54 by decide)
  exact hmask.outl ((0xf : UInt32) ||| ((1 : UInt32) <<< 7))
    (show (0x44 : UInt32).toNat < 0x54 by decide)

lemma CardRun.transmit (txBuffer : UInt32) (fuel : ℕ) (h : CardRun nic ioaddr m₀ m) :
    CardRun nic ioaddr m₀ (stateOf (transmit nic ioaddr txBuffer fuel m)) := by
  have htsad : (0x20 : UInt32).toNat < 0x54 := by decide
  have htsd : (0x10 : UInt32).toNat < 0x54 := by decide
  have hstart := (h.kPrintf "Sending...\n" []).outl txBuffer htsad
  have hread := (hstart.outl (0 ||| ((256 : UInt32) &&& 0x1FFF)) htsd).inl htsd
  cases fuel with
  | zero => exact hread
  | succ fuel =>
      rw [Nic.transmit]
      dsimp only
      rw [waitTransmit_returns _ _ fuel.succ_ne_zero]
      exact (hread.kPrintf _ _).kPrintf _ _

lemma CardRun.resetAndSend (rxBuffer txBuffer : UInt32) (fuel : ℕ) (h : CardRun nic ioaddr m₀ m) :
    CardRun nic ioaddr m₀ (stateOf (resetAndSend nic ioaddr rxBuffer txBuffer fuel m)) :=
  stateOf_bind (h.resetChip fuel) fun _ ht => (ht.configure rxBuffer).transmit txBuffer fuel

end Driver

/-! ## The whole run -/

/-- What may happen once a card is found. -/
def Allowed (ioaddr : UInt32) (e : Event) : Prop := ReadsConfig e ∨ WritesConfig e ∨ InWindow ioaddr e

/-- **The card is started**: the driver keeps to its window and to the command register. -/
lemma startCard_run {c : Computer σ} {m : Machine σ} {s : Scan} (rxBuffer txBuffer : UInt32) (fuel : ℕ)
    (h : Located (c.ports m.card).space s) :
    Emits (Allowed (ioaddrOf (c.ports m.card).space s)) m
        (stateOf (startCard c.toNic rxBuffer txBuffer fuel s m)) ∧
      (WindowApart (ioaddrOf (c.ports m.card).space s) →
        (c.ports (stateOf (startCard c.toNic rxBuffer txBuffer fuel s m)).card).space
          = mastered (c.ports m.card).space s) := by
  obtain ⟨hioaddr, hspace₁, htrace₁⟩ := locate_run h
  rw [startCard]
  dsimp only
  rw [hioaddr]
  generalize ioaddrOf (c.ports m.card).space s = ioaddr
  generalize (m.locate c.toNic s).2 = l at hspace₁ htrace₁ ⊢
  -- the chip leaves its low-power mode
  have hchip : CardRun c.toNic ioaddr l
      ((l.outb c.toNic 0x00 (portOf ioaddr config1)).kPrintf "starting chip done.\n" []) :=
    (CardRun.outb .refl 0x00 (by decide)).kPrintf _ _
  generalize (l.outb c.toNic 0x00 (portOf ioaddr config1)).kPrintf "starting chip done.\n" [] = t
    at hchip ⊢
  -- bus mastering, and then the driver
  obtain ⟨hspace₂, htrace₂⟩ := busMastering_run (c := c) (m := t) h.device h.func
  generalize t.busMastering c.toNic s = u at hspace₂ htrace₂ ⊢
  have hdriver : CardRun c.toNic ioaddr u (stateOf (resetAndSend c.toNic ioaddr rxBuffer txBuffer fuel
      (macSection c.toNic ioaddr u).2)) := (CardRun.macSection .refl).resetAndSend rxBuffer txBuffer fuel
  generalize stateOf (resetAndSend c.toNic ioaddr rxBuffer txBuffer fuel
    (macSection c.toNic ioaddr u).2) = w at hdriver ⊢
  refine ⟨?_, fun hapart => ?_⟩
  · have hread : Emits (Allowed ioaddr) m l := htrace₁.mono fun _ => Or.inl
    have hmaster : Emits (Allowed ioaddr) t u := htrace₂.mono fun _ => Or.imp id Or.inl
    have hwindow : ∀ e, InWindow ioaddr e → Allowed ioaddr e := fun _ he => Or.inr (Or.inr he)
    exact ((hread.trans (hchip.emits.mono hwindow)).trans hmaster).trans (hdriver.emits.mono hwindow)
  · rw [hdriver.ports hapart, hspace₂, hchip.ports hapart, hspace₁]

end Nic

open Nic

/-- **`init_pcilist` keeps to the card that it has found.**  On every computer, whatever its card answers
and however far the run gets: without a card at the end of the scan the run only reads the configuration
space.  With one, each access reads or writes a register of the configuration space or is at one of the
84 ports at the base address of the card; and if these are apart from the ports of the configuration
space, of all bytes of all functions just the command byte of the card changes, by the bit for bus
mastering. -/
theorem initPcilist_confined {σ : Type*} (c : Computer σ) (rxBuffer txBuffer : UInt32) (fuel : ℕ)
    (card : σ) :
    let space := (c.ports card).space
    let s := scan (hostBridge (dword space))
    let m := stateOf (initPcilist c.toNic rxBuffer txBuffer fuel ⟨card, []⟩)
    (s.realtek8319Found = 0 → (c.ports m.card).space = space ∧ ∀ e ∈ m.trace, ReadsConfig e) ∧
    (s.realtek8319Found ≠ 0 →
      IsRtl8139 (dword space s.pciBus.toNat s.pciDevice.toNat s.pciDeviceFn.toNat 0) ∧
      (∀ e ∈ m.trace, Allowed (ioaddrOf space s) e) ∧
      (WindowApart (ioaddrOf space s) → (c.ports m.card).space = mastered space s)) := by
  obtain ⟨hresult, hspace, htrace⟩ := scan_run c ⟨card, []⟩
  rw [initPcilist]
  dsimp only at hresult hspace ⊢
  rw [hresult]
  have hinv := scan_inv (dword (c.ports card).space)
  have hloc := @located_of_found (c.ports card).space
  generalize Pci.scan (hostBridge (dword (c.ports card).space)) = s at hinv hloc ⊢
  generalize (Machine.scan c.toNic ⟨card, []⟩).2 = m at hspace htrace ⊢
  constructor
  · intro hnone
    rw [if_neg (not_not.mpr hnone)]
    exact ⟨hspace, htrace.of_start⟩
  · intro hfound
    rw [if_pos hfound]
    have hcard := hloc (hinv.flag.resolve_left hfound)
    obtain ⟨htrace', hspace'⟩ := startCard_run rxBuffer txBuffer fuel (hspace ▸ hcard)
    rw [hspace] at htrace' hspace'
    exact ⟨hcard.card, ((htrace.mono fun _ => Or.inl).trans htrace').of_start, hspace'⟩

/-- A card at 0:3.0, with its ports at `0xc000`. -/
def oneCard : Space := fun b d f o =>
  if b = 0 ∧ d = 3 ∧ f = 0 then
    [0xec, 0x10, 0x39, 0x81, 0x03, 0x01, 0, 0, 0, 0, 0, 0, 0, 0, 0, 0, 0x01, 0xc0].getD o 0
  else 0xFF

/-- The scan finds it. -/
lemma scan_oneCard : scan (hostBridge (dword oneCard)) = ⟨1, 0, 3, 0⟩ := by
  have hinv := scan_inv (dword oneCard)
  generalize scan (hostBridge (dword oneCard)) = s at hinv ⊢
  have habsent : ∀ k, k < 255 * 256 → k ≠ 24 → word (dword oneCard) k = 0xffffffff := by
    intro k hk hne
    have hoff : ¬ (k / 256 = 0 ∧ k / 8 % 32 = 3 ∧ k % 8 = 0) := by omega
    simp only [word, dword, oneCard, if_neg hoff]
    decide
  have hfound : s.realtek8319Found = 1 := hinv.found.mpr
    ⟨24, by decide, by decide, fun j hj h24 => habsent j hj (by omega)⟩
  obtain ⟨k, hk, hcard, hbus, hdev, hfun⟩ := hinv.place hfound
  have hk24 : k = 24 := by
    by_contra hne
    exact ne_absent_of_isRtl8139 hcard (habsent k hk hne)
  subst hk24
  obtain ⟨found, bus, device, func⟩ := s
  obtain rfl : found = 1 := hfound
  obtain rfl : bus = 0 := hbus
  obtain rfl : device = 3 := hdev
  obtain rfl : func = 0 := hfun
  rfl

/-- Its ports are apart from those of the configuration space. -/
lemma windowApart_oneCard : WindowApart (ioaddrOf oneCard ⟨1, 0, 3, 0⟩) := by
  intro r hr
  have hbase : (ioaddrOf oneCard ⟨1, 0, 3, 0⟩).toNat = 0xc000 := by decide
  right
  rw [portOf, UInt32.toNat_toUInt16, UInt32.toNat_add, hbase]
  omega

/-- Its command byte after the run, when it was 3 before. -/
theorem initPcilist_confined_oneCard :
    let c := wired (answering 0xc000 (fun _ => 0) fun _ => 0)
    (c.ports (stateOf (initPcilist c.toNic 0 0 1 ⟨(⟨0, oneCard⟩, (0, 0)), []⟩)).card).space 0 3 0 4
      = 0x07 := by
  intro c
  have hports : (c.ports (⟨0, oneCard⟩, (0, 0))).space = oneCard := rfl
  have hrun := (initPcilist_confined c 0 0 1 (⟨0, oneCard⟩, (0, 0))).2
  rw [hports, scan_oneCard] at hrun
  obtain ⟨-, -, hspace⟩ := hrun (by decide)
  rw [hspace windowApart_oneCard]
  decide

end GrubKernel
