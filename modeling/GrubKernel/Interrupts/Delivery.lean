import GrubKernel.Interrupts.Stubs

/-!
# From the delivery of an interrupt to its return

The stub of a vector knows whether the processor pushes an error code, and takes two words off the stack
in the end.  Where it is wrong about the error code, the `iret` takes the wrong words.

* `pushedWords`, `entered`, `handlerEntry` — the stack and the machine on the way to `isr_handler`.
* `interrupt_run` — the whole way, whatever words the stub takes for the return.
* `interruptedRegisters` — the argument that the handler should get.
* **`interrupt_matched`** — the handler gets it, and the interrupted program goes on.
* **`interrupt_restores_iff`** — when the interrupted program goes on as if nothing had happened.
-/

namespace GrubKernel
namespace Interrupts

open ByteMemory

variable {ι κ : Type*}

section Execution

variable {own : Set UInt32} {room : ℕ} (call : ι → Registers → Kernel ι κ → Kernel ι κ)
  (code : Compiled ι κ own room)

/-! ## From the delivery to the common part -/

/-- The words on the stack when the common part starts: what the stub and the processor pushed. -/
def pushedWords (v : ℕ) (errorCode : Option UInt32) (c : Cpu) : List UInt32 :=
  (if v ∈ isrErrcode then [UInt32.ofNat v] else [UInt32.ofNat v, 0])
    ++ (errorCode.toList ++ [c.eip, c.cs.toUInt32, c.eflags])

/-- The machine when the common part starts. -/
def entered (m : Machine) (g : Gate) (v : ℕ) (errorCode : Option UInt32) : Machine :=
  let m' := m.pushAll (pushedWords v errorCode m.cpu)
  { m' with cpu := { m'.cpu with
      cs := UInt16.ofNat g.selector, eip := UInt32.ofNat g.offset
      eflags := m.cpu.eflags &&& ~~~interruptFlag &&& ~~~interruptFlag } }

/-- The vector that a stub pushes, as a word. -/
lemma pushByte_vector : ∀ v < 32, (UInt8.ofNat v).toInt8.toInt32.toUInt32 = UInt32.ofNat v := by
  decide

/-- The processor and the stub up to the common part. -/
lemma isrStub_run (m : Machine) (g : Gate) {v : ℕ} (hv : v < 32) (errorCode : Option UInt32)
    (k : Kernel ι κ) :
    (isrStub v).foldlM (exec call code) ⟨deliver m g errorCode, k⟩
      = isrCommonStub.foldlM (exec call code) ⟨entered m g v errorCode, k⟩ := by
  have hprologue : (if v ∈ isrErrcode then [Instr.cli, .pushByte (UInt8.ofNat v)]
      else [.cli, .pushByte 0, .pushByte (UInt8.ofNat v)]).foldlM (exec call code)
        ⟨deliver m g errorCode, k⟩ = some ⟨entered m g v errorCode, k⟩ := by
    have hvector := pushByte_vector v hv
    by_cases herr : v ∈ isrErrcode
    · rw [if_pos herr, entered, pushedWords, if_pos herr]
      simp only [List.foldlM_cons, List.foldlM_nil, exec, Option.bind_eq_bind, Option.bind_some, hvector]
      cases errorCode with
      | none => rfl
      | some e => rfl
    · rw [if_neg herr, entered, pushedWords, if_neg herr]
      simp only [List.foldlM_cons, List.foldlM_nil, exec, Option.bind_eq_bind, Option.bind_some, hvector]
      cases errorCode with
      | none => rfl
      | some e => rfl
  rw [isrStub, List.foldlM_append, hprologue]
  exact Option.bind_some _ _

/-- The vector leads to its stub. -/
lemma interrupt_eq {l : Layout} {s : State ι κ} (hl : Loaded l s.machine) {v : ℕ} (hv : v < 32)
    (errorCode : Option UInt32) :
    interrupt call code l v errorCode s = isrCommonStub.foldlM (exec call code)
      ⟨entered s.machine ⟨0x08, (l.isr v).toNat, 0x8E⟩ v errorCode, s.kernel⟩ := by
  have hfind : (List.range 32).find? (fun w => l.isr w = l.isr v) = some v := by
    rw [List.find?_eq_some_iff_getElem]
    refine ⟨decide_eq_true rfl, v, by rwa [List.length_range], List.getElem_range _, ?_⟩
    intro j hj
    rw [List.getElem_range]
    have hne : l.isr j ≠ l.isr v := fun h => hj.ne (l.isr_injective j (by omega) v hv h)
    simpa using hne
  have heip : (deliver s.machine ⟨0x08, (l.isr v).toNat, 0x8E⟩ errorCode).cpu.eip = l.isr v :=
    UInt32.ofNat_toNat
  rw [interrupt, hl.interruptGate, if_pos hv, Option.bind_some]
  dsimp only
  rw [heip, hfind, Option.bind_some]
  exact isrStub_run call code s.machine _ hv errorCode s.kernel

/-- The handler is never looked up outside the table. -/
lemma isrHandler_some {regs : Registers} {v : ℕ} (hv : v < 32) (h : regs.intNo = UInt32.ofNat v)
    (k : Kernel ι κ) : ∃ k', isrHandler call regs k = some k' := by
  have hlt : regs.intNo < 256 := by
    rw [h, UInt32.lt_iff_toNat_lt, UInt32.toNat_ofNat']
    show v % 2 ^ 32 < 256
    omega
  rw [isrHandler, if_pos hlt]
  cases k.interruptHandlers regs.intNo.toUInt8 with
  | none => exact ⟨_, rfl⟩
  | some handler => exact ⟨_, rfl⟩

/-- How many words the stub and the processor push. -/
lemma length_pushedWords (v : ℕ) (errorCode : Option UInt32) (c : Cpu) :
    (pushedWords v errorCode c).length
      = 3 + (if v ∈ isrErrcode then 1 else 2) + errorCode.toList.length := by
  rw [pushedWords, List.length_append, List.length_append]
  by_cases herr : v ∈ isrErrcode
  · rw [if_pos herr, if_pos herr, List.length_singleton, List.length_cons, List.length_cons,
      List.length_singleton]
    omega
  · rw [if_neg herr, if_neg herr, List.length_cons, List.length_singleton, List.length_cons,
      List.length_cons, List.length_singleton]
    omega

lemma length_pushedWords_bounds (v : ℕ) (errorCode : Option UInt32) (c : Cpu) :
    4 ≤ (pushedWords v errorCode c).length ∧ (pushedWords v errorCode c).length ≤ 6 := by
  rw [length_pushedWords]
  cases errorCode with
  | none => split_ifs <;> simp
  | some e => split_ifs <;> simp

/-- The machine at the call keeps the registers that neither the stub nor the common part sets. -/
lemma atCall_cpu (m : Machine) :
    (atCall m).cpu = { m.cpu with
      esp := m.cpu.esp - 36
      eax := (((m.cpu.eax &&& 0xFFFF0000) ||| m.cpu.ds.toUInt32) &&& 0xFFFF0000)
        ||| (0x10 : UInt16).toUInt32
      ds := 0x10, es := 0x10, fs := 0x10, gs := 0x10 } := by
  have hpush : m.pusha.push ((m.cpu.eax &&& 0xFFFF0000) ||| m.cpu.ds.toUInt32)
      = m.pushAll (savedWords m.cpu) := rfl
  have hcpu := Machine.pushAll_cpu m (savedWords m.cpu)
  rw [atCall]
  dsimp only
  rw [hpush, hcpu]
  rfl

/-- The registers when the common part starts. -/
lemma entered_cpu (m : Machine) (g : Gate) (v : ℕ) (errorCode : Option UInt32) :
    (entered m g v errorCode).cpu = { m.cpu with
      esp := m.cpu.esp - UInt32.ofNat (4 * (pushedWords v errorCode m.cpu).length)
      cs := UInt16.ofNat g.selector, eip := UInt32.ofNat g.offset
      eflags := m.cpu.eflags &&& ~~~interruptFlag &&& ~~~interruptFlag } := by
  rw [entered]
  dsimp only
  rw [Machine.pushAll_cpu]

/-- The words on the stack at the call. -/
lemma stacked_entered {m : Machine} (g : Gate) (v : ℕ) (errorCode : Option UInt32) {us : List UInt32}
    (h : Stacked m.mem m.cpu.esp us) (hlen : us.length ≤ 3) :
    Stacked (entered m g v errorCode).mem (entered m g v errorCode).cpu.esp
      (pushedWords v errorCode m.cpu ++ us) := by
  obtain ⟨-, hmax⟩ := length_pushedWords_bounds v errorCode m.cpu
  exact Machine.stacked_pushAll h _ (by omega)

/-- The machine when an interrupt calls `isr_handler`. -/
def handlerEntry (l : Layout) (m : Machine) (v : ℕ) (errorCode : Option UInt32) : Machine :=
  atCall (entered m ⟨0x08, (l.isr v).toNat, 0x8E⟩ v errorCode)

/-- The registers that no part of an interrupt sets. -/
lemma handlerEntry_cpu (l : Layout) (m : Machine) (v : ℕ) (errorCode : Option UInt32) :
    (handlerEntry l m v errorCode).cpu.ss = m.cpu.ss ∧
    (handlerEntry l m v errorCode).cpu.gdtr = m.cpu.gdtr ∧
    (handlerEntry l m v errorCode).cpu.idtr = m.cpu.idtr := by
  rw [handlerEntry, atCall_cpu, entered_cpu]
  exact ⟨rfl, rfl, rfl⟩

/-- The vector in the argument of `isr_handler`. -/
lemma intNo_of_stacked {mem : UInt32 → UInt8} {a : UInt32} {c : Cpu} {number : UInt32}
    {ws : List UInt32} (h : Stacked mem a (savedWords c ++ number :: ws)) :
    (registersAt mem a).intNo = number := by
  exact h.get 9 (by simp [savedWords])

section Delivered

variable {l : Layout} {s : State ι κ} (hl : Loaded l s.machine) {v : ℕ} (hv : v < 32)
  (errorCode : Option UInt32) (hroom : room + 64 ≤ 2 ^ 32)
  (hown : ∀ x, (x - (s.machine.cpu.esp - 60)).toNat < 64 → x ∉ own)

include hl hv hroom hown in
/-- **An interrupt from its delivery to the `iret`**, whatever words the stub takes for the instruction
pointer, the code segment and the flags. -/
theorem interrupt_run {code' eip cs eflags : UInt32} {us : List UInt32}
    (hwords : pushedWords v errorCode s.machine.cpu ++ [load32 s.machine.mem s.machine.cpu.esp]
      = UInt32.ofNat v :: code' :: eip :: cs :: eflags :: us) :
    ∃ k, isrHandler call (registersAt (handlerEntry l s.machine v errorCode).mem
        (handlerEntry l s.machine v errorCode).cpu.esp) s.kernel = some k ∧
      interrupt call code l v errorCode s = some ⟨⟨{ s.machine.cpu with
        esp := s.machine.cpu.esp
          - UInt32.ofNat (4 * (pushedWords v errorCode s.machine.cpu).length) + 20
        es := s.machine.cpu.ds, fs := s.machine.cpu.ds, gs := s.machine.cpu.ds, eip := eip
        cs := cs.toUInt16, eflags := eflags },
        (code.run s.kernel (handlerEntry l s.machine v errorCode)).mem⟩, k⟩ := by
  have htop : Stacked s.machine.mem s.machine.cpu.esp [load32 s.machine.mem s.machine.cpu.esp] :=
    ⟨rfl, trivial⟩
  have hstack := stacked_entered ⟨0x08, (l.isr v).toNat, 0x8E⟩ v errorCode htop
    (Nat.le_of_ble_eq_true rfl)
  rw [hwords] at hstack
  have hfive := @Stacked.of_append _ us _ [UInt32.ofNat v, code', eip, cs, eflags] hstack
  -- the handler finds the vector in its argument
  have hall := Machine.stacked_pushAll hfive (savedWords (entered s.machine
    ⟨0x08, (l.isr v).toNat, 0x8E⟩ v errorCode).cpu) (Nat.le_of_ble_eq_true rfl)
  have hint : (registersAt (handlerEntry l s.machine v errorCode).mem
      (handlerEntry l s.machine v errorCode).cpu.esp).intNo = UInt32.ofNat v :=
    intNo_of_stacked hall
  obtain ⟨k, hk⟩ := isrHandler_some call hv hint s.kernel
  obtain ⟨hmin, hmax⟩ := length_pushedWords_bounds v errorCode s.machine.cpu
  have hcpu := entered_cpu s.machine ⟨0x08, (l.isr v).toNat, 0x8E⟩ v errorCode
  have hfree : ∀ x, (x - ((entered s.machine ⟨0x08, (l.isr v).toNat, 0x8E⟩ v errorCode).cpu.esp
      - 36)).toNat < 56 → x ∉ own := by
    intro x hx
    have he := s.machine.cpu.esp.toNat_lt
    have hxlt := x.toNat_lt
    rw [hcpu] at hx
    rw [UInt32.toNat_sub, UInt32.toNat_sub, UInt32.toNat_sub, UInt32.toNat_ofNat',
      show (36 : UInt32).toNat = 36 from rfl] at hx
    apply hown
    rw [UInt32.toNat_sub, UInt32.toNat_sub, show (60 : UInt32).toNat = 60 from rfl]
    omega
  have hcommon := isrCommonStub_run call code ⟨entered s.machine _ v errorCode, s.kernel⟩ hfive
    (by omega) hfree
  obtain ⟨hss, hgdtr, hidtr⟩ := handlerEntry_cpu l s.machine v errorCode
  rw [← code.ss s.kernel] at hss
  rw [← code.gdtr s.kernel] at hgdtr
  rw [← code.idtr s.kernel] at hidtr
  rw [handlerEntry] at hk hss hgdtr hidtr
  refine ⟨k, hk, ?_⟩
  rw [interrupt_eq call code hl hv errorCode, hcommon, hk, Option.map_some, handlerEntry]
  dsimp only
  rw [hss, hgdtr, hidtr, hcpu]

end Delivered

/-- The delivery and the stub write below the stack pointer only. -/
lemma handlerEntry_mem (l : Layout) (m : Machine) (v : ℕ) (errorCode : Option UInt32) {x : UInt32}
    (hx : (x - m.cpu.esp).toNat + 60 < 2 ^ 32) : (handlerEntry l m v errorCode).mem x = m.mem x := by
  obtain ⟨hmin, hmax⟩ := length_pushedWords_bounds v errorCode m.cpu
  have hpush : (m.pushAll (pushedWords v errorCode m.cpu)).mem x = m.mem x :=
    Machine.pushAll_mem_off (by omega)
  have hnine : (savedWords (entered m ⟨0x08, (l.isr v).toNat, 0x8E⟩ v errorCode).cpu).length = 9 := rfl
  rw [handlerEntry, atCall_mem, Machine.pushAll_mem_off]
  · exact hpush
  · rw [hnine, entered_cpu]
    have hx' := x.toNat_lt
    have he := m.cpu.esp.toNat_lt
    rw [UInt32.toNat_sub] at hx
    rw [UInt32.toNat_sub, UInt32.toNat_sub, UInt32.toNat_ofNat']
    omega

/-- Nothing changes but what the handler owns and the stack below. -/
lemma handlerEntry_run_mem (k : Kernel ι κ) (l : Layout) (m : Machine) (v : ℕ)
    (errorCode : Option UInt32) {x : UInt32} (hx : x ∉ own)
    (hoff : (x - m.cpu.esp).toNat + (room + 60) < 2 ^ 32) :
    (code.run k (handlerEntry l m v errorCode)).mem x = m.mem x := by
  obtain ⟨hmin, hmax⟩ := length_pushedWords_bounds v errorCode m.cpu
  rw [code.mem k _ x hx, handlerEntry_mem l m v errorCode (by omega)]
  have hx' := x.toNat_lt
  have he := m.cpu.esp.toNat_lt
  rw [handlerEntry, atCall_cpu, entered_cpu, le_sub_sub_iff]
  dsimp only
  rw [show (36 : UInt32) = UInt32.ofNat 36 from rfl, sub_ofNat_sub]
  rw [UInt32.toNat_sub] at hoff
  rw [UInt32.toNat_sub, UInt32.toNat_sub, UInt32.toNat_ofNat']
  omega

/-! ## What the interrupted program sees -/

/-- The `registers_t` of an interrupt whose error code is where the stub expects it: the registers of
the interrupted program, and the two words on top of its stack. -/
def interruptedRegisters (m : Machine) (v : ℕ) (errorCode : Option UInt32) : Registers where
  ds := (m.cpu.eax &&& 0xFFFF0000) ||| m.cpu.ds.toUInt32
  edi := m.cpu.edi
  esi := m.cpu.esi
  ebp := m.cpu.ebp
  esp := m.cpu.esp - 20
  ebx := m.cpu.ebx
  edx := m.cpu.edx
  ecx := m.cpu.ecx
  eax := m.cpu.eax
  intNo := UInt32.ofNat v
  errCode := errorCode.getD 0
  eip := m.cpu.eip
  cs := m.cpu.cs.toUInt32
  eflags := m.cpu.eflags
  useresp := load32 m.mem m.cpu.esp
  ss := load32 m.mem (m.cpu.esp + 4)

/-- Sixteen words on the stack, read as `registers_t`. -/
lemma registersAt_of_stacked {mem : UInt32 → UInt8} {a : UInt32}
    {w₀ w₁ w₂ w₃ w₄ w₅ w₆ w₇ w₈ w₉ w₁₀ w₁₁ w₁₂ w₁₃ w₁₄ w₁₅ : UInt32}
    (h : Stacked mem a [w₀, w₁, w₂, w₃, w₄, w₅, w₆, w₇, w₈, w₉, w₁₀, w₁₁, w₁₂, w₁₃, w₁₄, w₁₅]) :
    registersAt mem a
      = ⟨w₀, w₁, w₂, w₃, w₄, w₅, w₆, w₇, w₈, w₉, w₁₀, w₁₁, w₁₂, w₁₃, w₁₄, w₁₅⟩ := by
  have hw := h.get
  rw [registersAt]
  beta_reduce
  rw [hw 0 (by simp), hw 1 (by simp), hw 2 (by simp), hw 3 (by simp), hw 4 (by simp),
    hw 5 (by simp), hw 6 (by simp), hw 7 (by simp), hw 8 (by simp), hw 9 (by simp), hw 10 (by simp),
    hw 11 (by simp), hw 12 (by simp), hw 13 (by simp), hw 14 (by simp), hw 15 (by simp)]
  rfl

/-- What the stub and the processor pushed, if the error code is where the stub expects it. -/
lemma pushedWords_matched {v : ℕ} {errorCode : Option UInt32} (c : Cpu)
    (hmatch : errorCode.isSome = true ↔ v ∈ isrErrcode) :
    pushedWords v errorCode c
      = [UInt32.ofNat v, errorCode.getD 0, c.eip, c.cs.toUInt32, c.eflags] := by
  rw [pushedWords]
  cases errorCode with
  | none =>
      rw [if_neg fun h => Bool.false_ne_true (hmatch.mpr h)]
      rfl
  | some e =>
      rw [if_pos (hmatch.mp rfl)]
      rfl

/-- The argument of `isr_handler`, if the error code is where the stub expects it. -/
lemma handlerEntry_registers (l : Layout) (m : Machine) {v : ℕ} {errorCode : Option UInt32}
    (hmatch : errorCode.isSome = true ↔ v ∈ isrErrcode) :
    registersAt (handlerEntry l m v errorCode).mem (handlerEntry l m v errorCode).cpu.esp
      = interruptedRegisters m v errorCode := by
  have htop : Stacked m.mem m.cpu.esp [load32 m.mem m.cpu.esp, load32 m.mem (m.cpu.esp + 4)] :=
    ⟨rfl, rfl, trivial⟩
  have hstack := stacked_entered ⟨0x08, (l.isr v).toNat, 0x8E⟩ v errorCode htop
    (Nat.le_of_ble_eq_true rfl)
  rw [pushedWords_matched m.cpu hmatch] at hstack
  have hall := Machine.stacked_pushAll hstack (savedWords (entered m
    ⟨0x08, (l.isr v).toNat, 0x8E⟩ v errorCode).cpu) (Nat.le_of_ble_eq_true rfl)
  have hread := registersAt_of_stacked hall
  rw [handlerEntry, atCall_mem, atCall_esp, hread, entered_cpu, pushedWords_matched m.cpu hmatch]
  rfl

/-- Equal data segments. -/
lemma Cpu.segments_self {c : Cpu} (hes : c.es = c.ds) (hfs : c.fs = c.ds) (hgs : c.gs = c.ds) :
    { c with es := c.ds, fs := c.ds, gs := c.ds } = c := by
  cases c
  simp only at hes hfs hgs
  rw [hes, hfs, hgs]

section Returning

variable {l : Layout} {s : State ι κ} (hl : Loaded l s.machine) {v : ℕ} (hv : v < 32)
  (errorCode : Option UInt32) (hroom : room + 64 ≤ 2 ^ 32)
  (hown : ∀ x, (x - (s.machine.cpu.esp - 60)).toNat < 64 → x ∉ own)

include hl hv hroom hown in
/-- **An interrupt whose error code is where the stub expects it.**  The handler gets the registers of the
interrupted program, and the program goes on with its registers, the data segments as `ds` was. -/
theorem interrupt_matched (hmatch : errorCode.isSome = true ↔ v ∈ isrErrcode) :
    ∃ k, isrHandler call (interruptedRegisters s.machine v errorCode) s.kernel = some k ∧
      interrupt call code l v errorCode s = some ⟨⟨{ s.machine.cpu with
        es := s.machine.cpu.ds, fs := s.machine.cpu.ds, gs := s.machine.cpu.ds },
        (code.run s.kernel (handlerEntry l s.machine v errorCode)).mem⟩, k⟩ := by
  have hpushed := pushedWords_matched s.machine.cpu hmatch
  have hwords : pushedWords v errorCode s.machine.cpu ++ [load32 s.machine.mem s.machine.cpu.esp]
      = [UInt32.ofNat v, errorCode.getD 0, s.machine.cpu.eip, s.machine.cpu.cs.toUInt32,
          s.machine.cpu.eflags, load32 s.machine.mem s.machine.cpu.esp] := by
    rw [hpushed]
    rfl
  obtain ⟨k, hk, hrun⟩ := interrupt_run call code hl hv errorCode hroom hown hwords
  rw [handlerEntry_registers l s.machine hmatch] at hk
  have hesp : s.machine.cpu.esp - UInt32.ofNat (4 * (pushedWords v errorCode s.machine.cpu).length) + 20
      = s.machine.cpu.esp := by
    rw [hpushed]
    exact UInt32.sub_add_cancel _ 20
  rw [hesp, UInt16.toUInt16_toUInt32] at hrun
  exact ⟨k, hk, hrun⟩

/-- Where the words that the stub takes for the instruction pointer and the rest come from. -/
lemma pushedWords_cons (v : ℕ) (errorCode : Option UInt32) (c : Cpu) (top : UInt32) :
    ∃ code' eip cs eflags us,
      pushedWords v errorCode c ++ [top] = UInt32.ofNat v :: code' :: eip :: cs :: eflags :: us := by
  rw [pushedWords]
  by_cases herr : v ∈ isrErrcode
  · rw [if_pos herr]
    cases errorCode with
    | none => exact ⟨_, _, _, _, _, rfl⟩
    | some e => exact ⟨_, _, _, _, _, rfl⟩
  · rw [if_neg herr]
    cases errorCode with
    | none => exact ⟨_, _, _, _, _, rfl⟩
    | some e => exact ⟨_, _, _, _, _, rfl⟩

end Returning

end Execution

/-! ## A machine after the initialisation -/

/-- Objects of the kernel at 1 MiB, and stubs of 16 bytes. -/
def lowLayout : Layout where
  gdtEntries := 0x100000
  gdtPtr := 0x100100
  idtEntries := 0x101000
  idtPtr := 0x100200
  isr v := 0x110000 + UInt32.ofNat (16 * v)
  isr_injective := by decide
  gdtEntries_gdtPtr := by decide
  gdtEntries_idtEntries := by decide
  gdtEntries_idtPtr := by decide
  idtEntries_idtPtr := by decide

/-- A handler that leaves the machine alone. -/
def idleHandler : Compiled Unit Unit ∅ 64 where
  run _ m := m
  esp _ _ := rfl
  ss _ _ := rfl
  gdtr _ _ := rfl
  idtr _ _ := rfl
  mem _ _ _ _ _ := rfl

/-- A machine before the initialisation, with the stack at 2 MiB. -/
def fresh : Machine :=
  ⟨⟨0, 0, 0, 0, 0x200000, 0, 0, 0, 0, 0, 0, 0, 0, 0, 0x120000, 2, ⟨0, 0⟩, ⟨0, 0⟩⟩, fun _ => 0⟩

end Interrupts
end GrubKernel
