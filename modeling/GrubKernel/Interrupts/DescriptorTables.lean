import GrubKernel.Interrupts.Processor
import GrubKernel.Strings.Memory

/-!
# The descriptor tables

`init_descriptor_tables` fills the global descriptor table with five segments and the interrupt
descriptor table with a gate for each of the 32 stubs `isr0`, .., `isr31`, and loads both.

* `Layout` — where the linker put the four objects and the stubs.
* `gdtSetGate`, `idtSetGate`, `initGdt`, `initIdt`, `initDescriptorTables` — the functions.
* `gdtSetGate_eq`, `idtSetGate_eq` — the field stores of an entry make one store of eight bytes.
* **`segmentOf_gdtBytes`, `gateOf_idtBytes`** — the processor reads back what was set.
* **`initDescriptorTables_spec`** — what the processor finds after the initialisation of any machine.
-/

namespace GrubKernel
namespace Interrupts

open ByteMemory Loop

/-! ## The code -/

/-- The addresses of `gdt_entries`, `gdt_ptr`, `idt_entries`, `idt_ptr` and of the stubs. -/
structure Layout where
  gdtEntries : UInt32
  gdtPtr : UInt32
  idtEntries : UInt32
  idtPtr : UInt32
  isr : ℕ → UInt32
  isr_injective : ∀ v < 32, ∀ w < 32, isr v = isr w → v = w
  gdtEntries_gdtPtr : Separate gdtEntries 40 gdtPtr 6
  gdtEntries_idtEntries : Separate gdtEntries 40 idtEntries 2048
  gdtEntries_idtPtr : Separate gdtEntries 40 idtPtr 6
  idtEntries_idtPtr : Separate idtEntries 2048 idtPtr 6

/-- `gdt_set_gate`. -/
def gdtSetGate (gdtEntries : UInt32) (num : ℕ) (base limit : UInt32) (access gran : UInt8)
    (mem : UInt32 → UInt8) : UInt32 → UInt8 :=
  let entry := gdtEntries + UInt32.ofNat (8 * num)
  let mem := store16 mem (entry + 2) (base &&& 0xFFFF).toUInt16
  let mem := storeBytes mem (entry + 4) [((base >>> 16) &&& 0xFF).toUInt8]
  let mem := storeBytes mem (entry + 7) [((base >>> 24) &&& 0xFF).toUInt8]
  let mem := store16 mem entry (limit &&& 0xFFFF).toUInt16
  let mem := storeBytes mem (entry + 6) [((limit >>> 16) &&& 0x0F).toUInt8]
  let mem := storeBytes mem (entry + 6) [mem (entry + 6) ||| (gran &&& 0xF0)]
  storeBytes mem (entry + 5) [access]

/-- `idt_set_gate`. -/
def idtSetGate (idtEntries : UInt32) (num : ℕ) (base : UInt32) (sel : UInt16) (flags : UInt8)
    (mem : UInt32 → UInt8) : UInt32 → UInt8 :=
  let entry := idtEntries + UInt32.ofNat (8 * num)
  let mem := store16 mem entry (base &&& 0xFFFF).toUInt16
  let mem := store16 mem (entry + 6) ((base >>> 16) &&& 0xFFFF).toUInt16
  let mem := store16 mem (entry + 2) sel
  let mem := storeBytes mem (entry + 4) [0]
  storeBytes mem (entry + 5) [flags]

/-- `gdt_flush`: `lgdt`, the data segments by way of `ax`, and a far jump. -/
def gdtFlush (gdtPtr : UInt32) (m : Machine) : Machine :=
  { m with cpu := { m.cpu with
      eax := gdtPtr &&& 0xFFFF0000 ||| 0x10
      gdtr := ⟨load16 m.mem gdtPtr, load32 m.mem (gdtPtr + 2)⟩
      ds := 0x10, es := 0x10, fs := 0x10, gs := 0x10, ss := 0x10, cs := 0x08 } }

/-- `idt_flush`: `lidt`. -/
def idtFlush (idtPtr : UInt32) (m : Machine) : Machine :=
  { m with cpu := { m.cpu with
      eax := idtPtr
      idtr := ⟨load16 m.mem idtPtr, load32 m.mem (idtPtr + 2)⟩ } }

/-- `init_gdt`. -/
def initGdt (l : Layout) (m : Machine) : Machine :=
  let mem := store16 m.mem l.gdtPtr (8 * 5 - 1)
  let mem := store32 mem (l.gdtPtr + 2) l.gdtEntries
  let mem := gdtSetGate l.gdtEntries 0 0 0 0 0 mem
  let mem := gdtSetGate l.gdtEntries 1 0 0xFFFFFFFF 0x9A 0xCF mem
  let mem := gdtSetGate l.gdtEntries 2 0 0xFFFFFFFF 0x92 0xCF mem
  let mem := gdtSetGate l.gdtEntries 3 0 0xFFFFFFFF 0xFA 0xCF mem
  let mem := gdtSetGate l.gdtEntries 4 0 0xFFFFFFFF 0xF2 0xCF mem
  gdtFlush l.gdtPtr ⟨m.cpu, mem⟩

/-- `init_idt`: the calls of `idt_set_gate` differ in the number of the stub only. -/
def initIdt (l : Layout) (m : Machine) : Machine :=
  let mem := store16 m.mem l.idtPtr (8 * 256 - 1)
  let mem := store32 mem (l.idtPtr + 2) l.idtEntries
  let mem := kMemset l.idtEntries 0 (8 * 256) mem
  let mem := forLoop 32 (fun n => idtSetGate l.idtEntries n (l.isr n) 0x08 0x8E) mem
  idtFlush l.idtPtr ⟨m.cpu, mem⟩

/-- `init_descriptor_tables`. -/
def initDescriptorTables (l : Layout) (m : Machine) : Machine := initIdt l (initGdt l m)

/-! ## One entry -/

/-- The eight bytes of a segment descriptor. -/
def gdtBytes (base limit : UInt32) (access gran : UInt8) : List UInt8 :=
  bytes16 (limit &&& 0xFFFF).toUInt16 ++ bytes16 (base &&& 0xFFFF).toUInt16
    ++ [((base >>> 16) &&& 0xFF).toUInt8, access,
      ((limit >>> 16) &&& 0x0F).toUInt8 ||| (gran &&& 0xF0), ((base >>> 24) &&& 0xFF).toUInt8]

/-- The eight bytes of a gate. -/
def idtBytes (base : UInt32) (sel : UInt16) (flags : UInt8) : List UInt8 :=
  bytes16 (base &&& 0xFFFF).toUInt16 ++ bytes16 sel ++ [0, flags]
    ++ bytes16 ((base >>> 16) &&& 0xFFFF).toUInt16

@[simp] lemma length_gdtBytes (base limit : UInt32) (access gran : UInt8) :
    (gdtBytes base limit access gran).length = 8 := rfl

@[simp] lemma length_idtBytes (base : UInt32) (sel : UInt16) (flags : UInt8) :
    (idtBytes base sel flags).length = 8 := rfl

/-- A store to a field of an entry of eight bytes. -/
lemma storeBytes_entry (mem : UInt32 → UInt8) (entry : UInt32) {record : List UInt8}
    (hlen : record.length = 8) (k : ℕ) (field : List UInt8) (hk : k + field.length ≤ 8) :
    storeBytes (storeBytes mem entry record) (entry + UInt32.ofNat k) field
      = storeBytes mem entry (record.take k ++ (field ++ record.drop (k + field.length))) :=
  storeBytes_field (by omega) (by omega)

/-- A store to the first field of an entry. -/
lemma storeBytes_entry_zero (mem : UInt32 → UInt8) (entry : UInt32) {record : List UInt8}
    (hlen : record.length = 8) (field : List UInt8) (hk : field.length ≤ 8) :
    storeBytes (storeBytes mem entry record) entry field
      = storeBytes mem entry (field ++ record.drop field.length) := by
  have h := storeBytes_entry mem entry hlen 0 field (by omega)
  rwa [show UInt32.ofNat 0 = 0 from rfl, UInt32.add_zero, Nat.zero_add] at h

/-- The field stores of `gdt_set_gate` are one store. -/
lemma gdtSetGate_eq (gdtEntries : UInt32) (num : ℕ) (base limit : UInt32) (access gran : UInt8)
    (mem : UInt32 → UInt8) :
    gdtSetGate gdtEntries num base limit access gran mem
      = storeBytes mem (gdtEntries + UInt32.ofNat (8 * num)) (gdtBytes base limit access gran) := by
  generalize hentry : gdtEntries + UInt32.ofNat (8 * num) = entry
  have h₂ := storeBytes_entry mem entry (length_window mem entry 8) 2
    (bytes16 (base &&& 0xFFFF).toUInt16) (Nat.le_of_ble_eq_true rfl)
  rw [storeBytes_window] at h₂
  rw [gdtSetGate, hentry]
  rw [show entry + 2 = entry + UInt32.ofNat 2 from rfl, show entry + 4 = entry + UInt32.ofNat 4 from rfl,
    show entry + 7 = entry + UInt32.ofNat 7 from rfl, show entry + 6 = entry + UInt32.ofNat 6 from rfl,
    show entry + 5 = entry + UInt32.ofNat 5 from rfl, store16, store16, h₂,
    storeBytes_entry mem entry rfl 4 _ (Nat.le_of_ble_eq_true rfl),
    storeBytes_entry mem entry rfl 7 _ (Nat.le_of_ble_eq_true rfl),
    storeBytes_entry_zero mem entry rfl _ (Nat.le_of_ble_eq_true rfl),
    storeBytes_entry mem entry rfl 6 _ (Nat.le_of_ble_eq_true rfl)]
  rw [storeBytes_on (i := 6) (Nat.le_of_ble_eq_true rfl) (Nat.le_of_ble_eq_true rfl)]
  rw [storeBytes_entry mem entry rfl 6 _ (Nat.le_of_ble_eq_true rfl),
    storeBytes_entry mem entry rfl 5 _ (Nat.le_of_ble_eq_true rfl)]
  rfl

/-- The field stores of `idt_set_gate` are one store. -/
lemma idtSetGate_eq (idtEntries : UInt32) (num : ℕ) (base : UInt32) (sel : UInt16) (flags : UInt8)
    (mem : UInt32 → UInt8) :
    idtSetGate idtEntries num base sel flags mem
      = storeBytes mem (idtEntries + UInt32.ofNat (8 * num)) (idtBytes base sel flags) := by
  generalize hentry : idtEntries + UInt32.ofNat (8 * num) = entry
  have h₀ := storeBytes_entry_zero mem entry (length_window mem entry 8)
    (bytes16 (base &&& 0xFFFF).toUInt16) (Nat.le_of_ble_eq_true rfl)
  rw [storeBytes_window] at h₀
  rw [idtSetGate, hentry, show entry + 6 = entry + UInt32.ofNat 6 from rfl,
    show entry + 2 = entry + UInt32.ofNat 2 from rfl, show entry + 4 = entry + UInt32.ofNat 4 from rfl,
    show entry + 5 = entry + UInt32.ofNat 5 from rfl, store16, store16, store16, h₀,
    storeBytes_entry mem entry rfl 6 _ (Nat.le_of_ble_eq_true rfl),
    storeBytes_entry mem entry rfl 2 _ (Nat.le_of_ble_eq_true rfl),
    storeBytes_entry mem entry rfl 4 _ (Nat.le_of_ble_eq_true rfl),
    storeBytes_entry mem entry rfl 5 _ (Nat.le_of_ble_eq_true rfl)]
  rfl

/-! ## What the processor reads -/

/-- The low half of a word. -/
lemma toNat_low16 (x : UInt32) : (x &&& 0xFFFF).toUInt16.toNat = x.toNat % 2 ^ 16 := by
  rw [UInt32.toNat_toUInt16, UInt32.toNat_and, show (0xFFFF : UInt32).toNat = 2 ^ 16 - 1 from rfl,
    Nat.and_two_pow_sub_one_eq_mod]
  omega

/-- One byte of a word. -/
lemma toNat_byte (x : UInt32) (k : ℕ) (hk : k < 32) :
    ((x >>> UInt32.ofNat k) &&& 0xFF).toUInt8.toNat = x.toNat / 2 ^ k % 2 ^ 8 := by
  rw [UInt32.toNat_toUInt8, UInt32.toNat_and, UInt32.toNat_shiftRight,
    show (0xFF : UInt32).toNat = 2 ^ 8 - 1 from rfl, Nat.and_two_pow_sub_one_eq_mod,
    Nat.shiftRight_eq_div_pow, UInt32.toNat_ofNat', Nat.mod_eq_of_lt (b := 2 ^ 32) (by omega),
    Nat.mod_eq_of_lt hk]
  omega

/-- The upper half of a word. -/
lemma toNat_high16 (x : UInt32) :
    ((x >>> 16) &&& 0xFFFF).toUInt16.toNat = x.toNat / 2 ^ 16 := by
  have hx := x.toNat_lt
  rw [toNat_low16, UInt32.toNat_shiftRight, Nat.shiftRight_eq_div_pow]
  show x.toNat / 2 ^ 16 % 2 ^ 16 = _
  omega

/-- The byte of a descriptor that holds the upper limit and the flags. -/
lemma toNat_granularity (limit : UInt32) (gran : UInt8) :
    (((limit >>> 16) &&& 0x0F).toUInt8 ||| (gran &&& 0xF0)).toNat
      = limit.toNat / 2 ^ 16 % 2 ^ 4 + 2 ^ 4 * (gran.toNat / 2 ^ 4) := by
  have hflags : ∀ n < 256, n &&& 240 = 2 ^ 4 * (n / 2 ^ 4) := by decide +kernel
  have hlow : ((limit >>> 16) &&& 0x0F).toUInt8.toNat = limit.toNat / 2 ^ 16 % 2 ^ 4 := by
    rw [UInt32.toNat_toUInt8, UInt32.toNat_and, UInt32.toNat_shiftRight,
      show (0x0F : UInt32).toNat = 2 ^ 4 - 1 from rfl, Nat.and_two_pow_sub_one_eq_mod,
      Nat.shiftRight_eq_div_pow]
    show limit.toNat / 2 ^ 16 % 2 ^ 4 % 2 ^ 8 = _
    omega
  rw [UInt8.toNat_or, hlow, UInt8.toNat_and, show (0xF0 : UInt8).toNat = 240 from rfl,
    hflags _ gran.toNat_lt, Nat.or_comm,
    ← Nat.two_pow_add_eq_or_of_lt (Nat.mod_lt _ (by decide)), Nat.add_comm]

/-- The two words of an entry of eight bytes. -/
lemma words_of_window {mem : UInt32 → UInt8} {a : UInt32} {b₀ b₁ b₂ b₃ b₄ b₅ b₆ b₇ : UInt8}
    (h : window mem a 8 = [b₀, b₁, b₂, b₃, b₄, b₅, b₆, b₇]) :
    (load32 mem a).toNat
        = b₀.toNat + 2 ^ 8 * b₁.toNat + 2 ^ 16 * b₂.toNat + 2 ^ 24 * b₃.toNat ∧
    (load32 mem (a + 4)).toNat
        = b₄.toNat + 2 ^ 8 * b₅.toNat + 2 ^ 16 * b₆.toNat + 2 ^ 24 * b₇.toNat := by
  have hlow := load32_window mem a (n := 8) (k := 0) (by decide)
  have hhigh := load32_window mem a (n := 8) (k := 4) (by decide)
  rw [show UInt32.ofNat 0 = 0 from rfl, UInt32.add_zero] at hlow
  rw [h] at hlow hhigh
  have := b₀.toNat_lt
  have := b₁.toNat_lt
  have := b₂.toNat_lt
  have := b₃.toNat_lt
  have := b₄.toNat_lt
  have := b₅.toNat_lt
  have := b₆.toNat_lt
  have := b₇.toNat_lt
  constructor
  · rw [hlow, UInt32.toNat_ofNat']
    exact Nat.mod_eq_of_lt (by simp only [List.getD_cons_zero, List.getD_cons_succ]; omega)
  · rw [show (4 : UInt32) = UInt32.ofNat 4 from rfl, hhigh, UInt32.toNat_ofNat']
    exact Nat.mod_eq_of_lt (by simp only [List.getD_cons_zero, List.getD_cons_succ]; omega)

/-- The fields of a packed segment descriptor. -/
lemma segmentOf_packed {limitLow baseLow baseMiddle access limitHigh flags baseHigh : ℕ}
    (h₁ : limitLow < 2 ^ 16) (h₂ : baseMiddle < 2 ^ 8) (h₃ : access < 2 ^ 8)
    (h₄ : limitHigh < 2 ^ 4) (h₅ : flags < 2 ^ 4) :
    segmentOf (limitLow + 2 ^ 16 * baseLow)
        (baseMiddle + 2 ^ 8 * access + 2 ^ 16 * (limitHigh + 2 ^ 4 * flags) + 2 ^ 24 * baseHigh)
      = { base := baseLow + 2 ^ 16 * baseMiddle + 2 ^ 24 * baseHigh
          limit := if flags / 2 ^ 3 = 1 then 4096 * (limitLow + 2 ^ 16 * limitHigh) + 4095
            else limitLow + 2 ^ 16 * limitHigh
          access := access } := by
  have hlow : (limitLow + 2 ^ 16 * baseLow) % 2 ^ 16 = limitLow := by omega
  have hhigh : (baseMiddle + 2 ^ 8 * access + 2 ^ 16 * (limitHigh + 2 ^ 4 * flags)
      + 2 ^ 24 * baseHigh) / 2 ^ 16 % 2 ^ 4 = limitHigh := by omega
  have hflag : (baseMiddle + 2 ^ 8 * access + 2 ^ 16 * (limitHigh + 2 ^ 4 * flags)
      + 2 ^ 24 * baseHigh) / 2 ^ 23 % 2 = flags / 2 ^ 3 := by omega
  rw [segmentOf, hlow, hhigh, hflag]
  congr 1
  · omega
  · omega

/-- **A segment reads back.**  The limit has 20 bits, and with the upper bit of `gran` it counts
pages. -/
theorem segmentOf_gdtBytes {mem : UInt32 → UInt8} {a base limit : UInt32} {access gran : UInt8}
    (h : window mem a 8 = gdtBytes base limit access gran) :
    segmentOf (load32 mem a).toNat (load32 mem (a + 4)).toNat
      = { base := base.toNat
          limit := if gran.toNat / 2 ^ 7 = 1 then 4096 * (limit.toNat % 2 ^ 20) + 4095
            else limit.toNat % 2 ^ 20
          access := access.toNat } := by
  obtain ⟨hlow, hhigh⟩ := words_of_window h
  rw [toNat_granularity, show (16 : UInt32) = UInt32.ofNat 16 from rfl, toNat_byte _ 16 (by decide),
    show (24 : UInt32) = UInt32.ofNat 24 from rfl, toNat_byte _ 24 (by decide)] at hhigh
  simp only [UInt8.toNat_ofNat', toNat_low16] at hlow
  have hlow' : (load32 mem a).toNat = limit.toNat % 2 ^ 16 + 2 ^ 16 * (base.toNat % 2 ^ 16) := by
    rw [hlow]
    omega
  have hbase := base.toNat_lt
  have hgran := gran.toNat_lt
  rw [hlow', hhigh, segmentOf_packed (Nat.mod_lt _ (by decide)) (Nat.mod_lt _ (by decide))
    access.toNat_lt (Nat.mod_lt _ (by decide)) (by omega)]
  have hflag : gran.toNat / 2 ^ 4 / 2 ^ 3 = gran.toNat / 2 ^ 7 := by omega
  have hlimit : limit.toNat % 2 ^ 16 + 2 ^ 16 * (limit.toNat / 2 ^ 16 % 2 ^ 4) = limit.toNat % 2 ^ 20 := by
    omega
  rw [hflag, hlimit]
  congr 1
  omega

/-- **A gate reads back.** -/
theorem gateOf_idtBytes {mem : UInt32 → UInt8} {a base : UInt32} {sel : UInt16} {flags : UInt8}
    (h : window mem a 8 = idtBytes base sel flags) :
    gateOf (load32 mem a).toNat (load32 mem (a + 4)).toNat
      = ⟨sel.toNat, base.toNat, flags.toNat⟩ := by
  obtain ⟨hlow, hhigh⟩ := words_of_window h
  simp only [UInt8.toNat_ofNat', toNat_low16] at hlow
  simp only [UInt8.toNat_ofNat', toNat_high16, UInt8.toNat_zero] at hhigh
  have hbase := base.toNat_lt
  have hsel := sel.toNat_lt
  have hflags := flags.toNat_lt
  rw [gateOf, hlow, hhigh]
  congr 1
  · omega
  · omega
  · omega

/-! ## The tables -/

/-- The segments that `init_gdt` sets up: none, then code and data for the kernel and for user mode, all
of them over the whole address space. -/
def segments : ℕ → Option Segment
  | 1 => some ⟨0, 0xFFFFFFFF, 0x9A⟩
  | 2 => some ⟨0, 0xFFFFFFFF, 0x92⟩
  | 3 => some ⟨0, 0xFFFFFFFF, 0xFA⟩
  | 4 => some ⟨0, 0xFFFFFFFF, 0xF2⟩
  | _ => none

/-- The bytes of the segments. -/
def segmentBytes : ℕ → List UInt8
  | 0 => gdtBytes 0 0 0 0
  | 1 => gdtBytes 0 0xFFFFFFFF 0x9A 0xCF
  | 2 => gdtBytes 0 0xFFFFFFFF 0x92 0xCF
  | 3 => gdtBytes 0 0xFFFFFFFF 0xFA 0xCF
  | _ => gdtBytes 0 0xFFFFFFFF 0xF2 0xCF

/-- The bytes of the first `n` gates, and zeros behind them. -/
def gateBytes (l : Layout) (n v : ℕ) : List UInt8 :=
  if v < n then idtBytes (l.isr v) 0x08 0x8E else List.replicate 8 0

/-- The tables of the machine are those of the kernel, and they are loaded. -/
structure Loaded (l : Layout) (m : Machine) : Prop where
  gdtr : m.cpu.gdtr = ⟨39, l.gdtEntries⟩
  idtr : m.cpu.idtr = ⟨2047, l.idtEntries⟩
  gdt : Entries m.mem l.gdtEntries 8 5 segmentBytes
  idt : Entries m.mem l.idtEntries 8 256 (gateBytes l 32)

/-- Where a vector leads once the tables are loaded. -/
lemma Loaded.interruptGate {l : Layout} {m : Machine} (h : Loaded l m) (v : ℕ) :
    interruptGate m.mem m.cpu.idtr v
      = if v < 32 then some ⟨0x08, (l.isr v).toNat, 0x8E⟩ else none := by
  rw [Interrupts.interruptGate, h.idtr]
  show (if 2047 < 8 * v + 7 then none else _) = _
  by_cases hv : v < 256
  · rw [if_neg (by omega)]
    have hentry := h.idt v hv
    rw [gateBytes] at hentry
    by_cases hlt : v < 32
    · rw [if_pos hlt] at hentry ⊢
      rw [gateAt, gateOf_idtBytes hentry]
      exact if_pos ⟨(by decide : (0x8E : UInt8).toNat / 2 ^ 7 = 1),
        (by decide : (0x8E : UInt8).toNat % 2 ^ 5 = 0xE)⟩
    · rw [if_neg hlt] at hentry ⊢
      obtain ⟨hlow, hhigh⟩ := words_of_window hentry
      rw [gateAt, hlow, hhigh]
      exact if_neg (by decide)
  · rw [if_pos (by omega), if_neg (by omega)]

/-- The segment behind a selector once the tables are loaded. -/
lemma Loaded.segmentDescriptor {l : Layout} {m : Machine} (h : Loaded l m) (selector : UInt16) :
    segmentDescriptor m.mem m.cpu.gdtr selector
      = if selector.toNat / 4 % 2 = 1 then none else segments (selector.toNat / 8) := by
  have hgdt : ∀ v < 5, v ≠ 0 → some (segmentAt m.mem l.gdtEntries v) = segments v := by
    intro v hv hne
    have hentry := h.gdt v hv
    rw [segmentAt]
    interval_cases v
    · exact absurd rfl hne
    · rw [segmentOf_gdtBytes hentry]
      rfl
    · rw [segmentOf_gdtBytes hentry]
      rfl
    · rw [segmentOf_gdtBytes hentry]
      rfl
    · rw [segmentOf_gdtBytes hentry]
      rfl
  rw [Interrupts.segmentDescriptor, h.gdtr]
  generalize selector.toNat / 8 = v
  dsimp only
  show (if v = 0 ∨ _ ∨ 39 < 8 * v + 7 then none else _) = _
  by_cases hlocal : selector.toNat / 4 % 2 = 1
  · rw [if_pos (Or.inr (Or.inl hlocal)), if_pos hlocal]
  · rw [if_neg hlocal]
    rcases Nat.lt_or_ge v 5 with hlt | hge
    · rcases Nat.eq_zero_or_pos v with rfl | hpos
      · rw [if_pos (Or.inl rfl)]
        rfl
      · rw [if_neg (by omega)]
        exact hgdt v hlt hpos.ne'
    · rw [if_pos (by omega)]
      match v, hge with
      | v + 5, _ => rfl

/-! ## The initialisation -/

/-- A pointer of six bytes reads back. -/
lemma pointer_read {mem : UInt32 → UInt8} {p : UInt32} {limit : UInt16} {base : UInt32}
    (h : window mem p 6 = bytes16 limit ++ bytes32 base) :
    (⟨load16 mem p, load32 mem (p + 2)⟩ : TableRegister) = ⟨limit, base⟩ := by
  have hbase := load32_window mem p (n := 6) (k := 2) (by decide)
  have hlimit := load16_window mem p (n := 6) (by decide)
  rw [h] at hbase hlimit
  have hb := base.toNat_lt
  have hl := limit.toNat_lt
  congr 1
  · rw [hlimit, ← UInt16.toNat_inj, UInt16.toNat_ofNat']
    simp only [bytes16, bytes32, List.cons_append, List.nil_append, List.getD_cons_zero,
      List.getD_cons_succ, UInt8.toNat_ofNat']
    omega
  · rw [show p + 2 = p + UInt32.ofNat 2 from rfl, hbase, ← UInt32.toNat_inj, UInt32.toNat_ofNat']
    simp only [bytes16, bytes32, List.cons_append, List.nil_append, List.getD_cons_zero,
      List.getD_cons_succ, UInt8.toNat_ofNat']
    omega

/-- The two stores to a pointer are one store. -/
lemma pointer_store (mem : UInt32 → UInt8) (p : UInt32) (limit : UInt16) (base : UInt32) :
    store32 (store16 mem p limit) (p + 2) base
      = storeBytes mem p (bytes16 limit ++ bytes32 base) :=
  storeBytes_append (Nat.le_of_ble_eq_true rfl)

/-- The memory that `init_gdt` leaves. -/
lemma initGdt_mem (l : Layout) (m : Machine) :
    (initGdt l m).mem = forLoop 5 (fun v mem => storeBytes mem (l.gdtEntries + UInt32.ofNat (8 * v))
      (segmentBytes v)) (storeBytes m.mem l.gdtPtr (bytes16 39 ++ bytes32 l.gdtEntries)) := by
  rw [initGdt, gdtFlush]
  dsimp only
  rw [pointer_store, gdtSetGate_eq, gdtSetGate_eq, gdtSetGate_eq, gdtSetGate_eq, gdtSetGate_eq]
  rfl

/-- Storing the entries of a table one after the other. -/
lemma storeEntries_spec {mem : UInt32 → UInt8} {a : UInt32} {n total : ℕ} {f g : ℕ → List UInt8}
    (htotal : 8 * total ≤ 2 ^ 32) (hn : n ≤ total) (hlen : ∀ v, (f v).length = 8)
    (h : Entries mem a 8 total g) :
    Entries (forLoop n (fun v m => storeBytes m (a + UInt32.ofNat (8 * v)) (f v)) mem) a 8 total
        (fun v => if v < n then f v else g v) ∧
      ∀ x, 8 * n ≤ (x - a).toNat →
        forLoop n (fun v m => storeBytes m (a + UInt32.ofNat (8 * v)) (f v)) mem x = mem x := by
  refine forLoop_inv (fun i (t : UInt32 → UInt8) =>
      Entries t a 8 total (fun v => if v < i then f v else g v) ∧
        ∀ x, 8 * i ≤ (x - a).toNat → t x = mem x) n ⟨?_, fun x _ => rfl⟩ ?_
  · intro v hv
    show _ = if v < 0 then f v else g v
    rw [if_neg (Nat.not_lt_zero v)]
    exact h v hv
  · rintro i hi t ⟨hentries, hoff⟩
    refine ⟨?_, fun x hx => ?_⟩
    · have hset := hentries.set htotal i (by omega) (f i) (hlen i)
      intro v hv
      rw [hset v hv]
      show _ = if v < i + 1 then f v else g v
      by_cases hvi : v = i
      · rw [hvi, Function.update_self, if_pos (Nat.lt_succ_self i)]
      · rw [Function.update_of_ne hvi]
        by_cases hlt : v < i
        · rw [if_pos hlt, if_pos (by omega)]
        · rw [if_neg hlt, if_neg (by omega)]
    · have ha := a.toNat_lt
      have hxlt := x.toNat_lt
      rw [storeBytes_off, hoff x (by omega)]
      rw [hlen i]
      rw [UInt32.toNat_sub] at hx ⊢
      rw [UInt32.toNat_add, UInt32.toNat_ofNat']
      omega

/-- A table before its entries are set. -/
lemma entries_window (mem : UInt32 → UInt8) (a : UInt32) (n : ℕ) :
    Entries mem a 8 n fun v => window mem (a + UInt32.ofNat (8 * v)) 8 := fun _ _ => rfl

/-- A table of zeros. -/
lemma entries_zeros (mem : UInt32 → UInt8) (a : UInt32) :
    Entries (storeBytes mem a (List.replicate 2048 0)) a 8 256 fun _ => List.replicate 8 0 := by
  intro v hv
  refine List.ext_getElem (by rw [length_window, List.length_replicate]) fun i h₁ h₂ => ?_
  rw [List.length_replicate] at h₂
  simp only [window, List.getElem_map, List.getElem_range, List.getElem_replicate]
  rw [UInt32.add_assoc, ← UInt32.ofNat_add,
    storeBytes_on (by rw [List.length_replicate]; omega) (by rw [List.length_replicate]; decide),
    List.getElem_replicate]

/-- The byte is in none of the four objects. -/
def Layout.Elsewhere (l : Layout) (x : UInt32) : Prop :=
  40 ≤ (x - l.gdtEntries).toNat ∧ 6 ≤ (x - l.gdtPtr).toNat ∧
    2048 ≤ (x - l.idtEntries).toNat ∧ 6 ≤ (x - l.idtPtr).toNat

instance (l : Layout) (x : UInt32) : Decidable (l.Elsewhere x) := inferInstanceAs (Decidable (_ ∧ _))

/-- What `init_gdt` leaves. -/
lemma initGdt_spec (l : Layout) (m : Machine) :
    (initGdt l m).cpu = { m.cpu with
        eax := l.gdtPtr &&& 0xFFFF0000 ||| 0x10
        gdtr := ⟨39, l.gdtEntries⟩, ds := 0x10, es := 0x10, fs := 0x10, gs := 0x10, ss := 0x10,
        cs := 0x08 } ∧
      Entries (initGdt l m).mem l.gdtEntries 8 5 segmentBytes ∧
      ∀ x, 40 ≤ (x - l.gdtEntries).toNat → 6 ≤ (x - l.gdtPtr).toNat →
        (initGdt l m).mem x = m.mem x := by
  have hlen : ∀ v, (segmentBytes v).length = 8 := by
    intro v
    match v with
    | 0 => rfl
    | 1 => rfl
    | 2 => rfl
    | 3 => rfl
    | v + 4 => rfl
  obtain ⟨hentries, hoff⟩ := storeEntries_spec (n := 5) (by decide) le_rfl hlen
    (entries_window (storeBytes m.mem l.gdtPtr (bytes16 39 ++ bytes32 l.gdtEntries)) l.gdtEntries 5)
  rw [← initGdt_mem] at hentries
  rw [← initGdt_mem] at hoff
  refine ⟨?_, ?_, ?_⟩
  · have hptr : window (initGdt l m).mem l.gdtPtr 6 = bytes16 39 ++ bytes32 l.gdtEntries := by
      rw [window_congr (by decide) fun x hx => hoff x (l.gdtEntries_gdtPtr.symm.le_of_lt hx)]
      exact window_storeBytes (Nat.le_of_ble_eq_true rfl)
    have hread := pointer_read hptr
    rw [initGdt, gdtFlush]
    rw [initGdt, gdtFlush] at hread
    dsimp only at hread ⊢
    rw [hread]
  · intro v hv
    rw [hentries v hv]
    exact if_pos hv
  · intro x hx hx'
    rw [hoff x hx]
    exact storeBytes_off hx'

/-- What `init_idt` leaves. -/
lemma initIdt_spec (l : Layout) (m : Machine) :
    (initIdt l m).cpu = { m.cpu with eax := l.idtPtr, idtr := ⟨2047, l.idtEntries⟩ } ∧
      Entries (initIdt l m).mem l.idtEntries 8 256 (gateBytes l 32) ∧
      ∀ x, 2048 ≤ (x - l.idtEntries).toNat → 6 ≤ (x - l.idtPtr).toNat →
        (initIdt l m).mem x = m.mem x := by
  have hmem : (initIdt l m).mem = forLoop 32 (fun v mem =>
      storeBytes mem (l.idtEntries + UInt32.ofNat (8 * v)) (idtBytes (l.isr v) 0x08 0x8E))
      (storeBytes (storeBytes m.mem l.idtPtr (bytes16 2047 ++ bytes32 l.idtEntries)) l.idtEntries
        (List.replicate 2048 0)) := by
    rw [initIdt, idtFlush]
    dsimp only
    rw [pointer_store, kMemset_eq]
    exact forLoop_congr (fun n _ => funext fun mem => idtSetGate_eq _ _ _ _ _ mem) _
  obtain ⟨hentries, hoff⟩ := storeEntries_spec (n := 32) (f := fun v => idtBytes (l.isr v) 0x08 0x8E)
    (by decide) (by decide) (fun v => rfl)
    (entries_zeros (storeBytes m.mem l.idtPtr (bytes16 2047 ++ bytes32 l.idtEntries)) l.idtEntries)
  rw [← hmem] at hentries
  rw [← hmem] at hoff
  have hoff' : ∀ x, 2048 ≤ (x - l.idtEntries).toNat → (initIdt l m).mem x
      = storeBytes m.mem l.idtPtr (bytes16 2047 ++ bytes32 l.idtEntries) x := by
    intro x hx
    rw [hoff x (by omega)]
    exact storeBytes_off (by rw [List.length_replicate]; exact hx)
  refine ⟨?_, hentries, ?_⟩
  · have hptr : window (initIdt l m).mem l.idtPtr 6 = bytes16 2047 ++ bytes32 l.idtEntries := by
      rw [window_congr (by decide) fun x hx => hoff' x (l.idtEntries_idtPtr.symm.le_of_lt hx)]
      exact window_storeBytes (Nat.le_of_ble_eq_true rfl)
    have hread := pointer_read hptr
    rw [initIdt, idtFlush]
    rw [initIdt, idtFlush] at hread
    dsimp only at hread ⊢
    rw [hread]
  · intro x hx hx'
    rw [hoff' x hx]
    exact storeBytes_off hx'

/-- The tables are loaded after the initialisation, the selectors are those of the kernel, the other
registers but `eax` are as before, and so is the memory outside the four objects. -/
lemma initDescriptorTables_loaded (l : Layout) (m : Machine) :
    Loaded l (initDescriptorTables l m) ∧
      (initDescriptorTables l m).cpu = { m.cpu with
        eax := l.idtPtr
        gdtr := ⟨39, l.gdtEntries⟩, idtr := ⟨2047, l.idtEntries⟩, ds := 0x10, es := 0x10, fs := 0x10,
        gs := 0x10, ss := 0x10, cs := 0x08 } ∧
      ∀ x, l.Elsewhere x → (initDescriptorTables l m).mem x = m.mem x := by
  obtain ⟨hcpu, hgdt, hoff⟩ := initGdt_spec l m
  obtain ⟨hcpu', hidt, hoff'⟩ := initIdt_spec l (initGdt l m)
  have hall : (initDescriptorTables l m).cpu = { m.cpu with
      eax := l.idtPtr
      gdtr := ⟨39, l.gdtEntries⟩, idtr := ⟨2047, l.idtEntries⟩, ds := 0x10, es := 0x10, fs := 0x10,
      gs := 0x10, ss := 0x10, cs := 0x08 } := by
    rw [initDescriptorTables, hcpu', hcpu]
  refine ⟨⟨by rw [hall], by rw [hall], ?_, hidt⟩, hall, ?_⟩
  · -- `init_idt` does not touch the segments
    intro v hv
    rw [← hgdt v hv]
    refine window_congr (by decide) fun x hx => hoff' x ?_ ?_
    · exact (l.gdtEntries_idtEntries.part (by decide) (by omega)).le_of_lt hx
    · exact (l.gdtEntries_idtPtr.part (by decide) (by omega)).le_of_lt hx
  · rintro x ⟨h₁, h₂, h₃, h₄⟩
    rw [initDescriptorTables, hoff' x h₃ h₄, hoff x h₁ h₂]

/-- The words of an entry depend on its bytes only. -/
lemma words_congr {t mem : UInt32 → UInt8} {b : UInt32} (h : window t b 8 = window mem b 8) :
    load32 t b = load32 mem b ∧ load32 t (b + 4) = load32 mem (b + 4) := by
  constructor
  · have h₀ := load32_window t b (n := 8) (k := 0) (by decide)
    rw [h, ← load32_window mem b (by decide), show UInt32.ofNat 0 = 0 from rfl, UInt32.add_zero] at h₀
    exact h₀
  · have h₄ := load32_window t b (n := 8) (k := 4) (by decide)
    rw [h, ← load32_window mem b (by decide)] at h₄
    exact h₄

/-- **Setting entries of the two tables.**  Whatever the values and whatever the tables held, the
processor reads back at the entry set the base, the limit of 20 bits scaled as `gran` says, and the
access byte, or the selector, the offset and the flags of a gate; all other entries stay as they were. -/
theorem setGate_reads (table base limit : UInt32) (access gran flags : UInt8) (sel : UInt16)
    (mem : UInt32 → UInt8) (num k : Fin 5) (vector v : Fin 256) :
    segmentAt (gdtSetGate table num base limit access gran mem) table k
        = (if k = num then
            { base := base.toNat
              limit := if gran.toNat / 2 ^ 7 = 1 then 4096 * (limit.toNat % 2 ^ 20) + 4095
                else limit.toNat % 2 ^ 20
              access := access.toNat }
          else segmentAt mem table k) ∧
    gateAt (idtSetGate table vector base sel flags mem) table v
        = if v = vector then ⟨sel.toNat, base.toNat, flags.toNat⟩ else gateAt mem table v := by
  constructor
  · have hset := (entries_window mem table 5).set (by decide) num num.isLt
      (gdtBytes base limit access gran) (length_gdtBytes _ _ _ _) k k.isLt
    rw [← gdtSetGate_eq] at hset
    by_cases hk : k = num
    · subst hk
      rw [Function.update_self] at hset
      rw [if_pos rfl]
      exact segmentOf_gdtBytes hset
    · rw [if_neg hk]
      rw [Function.update_of_ne fun heq => hk (Fin.ext heq)] at hset
      rw [segmentAt, (words_congr hset).1, (words_congr hset).2, segmentAt]
  · have hset := (entries_window mem table 256).set (by decide) vector vector.isLt
      (idtBytes base sel flags) (length_idtBytes _ _ _) v v.isLt
    rw [← idtSetGate_eq] at hset
    by_cases hv : v = vector
    · subst hv
      rw [Function.update_self] at hset
      rw [if_pos rfl]
      exact gateOf_idtBytes hset
    · rw [if_neg hv]
      rw [Function.update_of_ne fun heq => hv (Fin.ext heq)] at hset
      rw [gateAt, (words_congr hset).1, (words_congr hset).2, gateAt]

end Interrupts
end GrubKernel
