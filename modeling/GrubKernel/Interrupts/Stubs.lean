import GrubKernel.Interrupts.DescriptorTables
import GrubKernel.Interrupts.Handlers

/-!
# The interrupt stubs

The processor pushes flags, code segment and instruction pointer, for some exceptions an error code,
and jumps to the stub of the vector.  The stub pushes a dummy where it expects no error code, and the
vector; `isr_common_stub` saves the other registers, calls `isr_handler` and restores them.

* `Instr`, `exec` — the instructions that the stubs use.
* `isrStub`, `isrCommonStub` — the code.
* `Compiled` — the machine code of `isr_handler`: it may use memory of its own and the stack below it.
* `interrupt` — a vector from its delivery to the `iret`.
* **`isrCommonStub_run`** — what the common part does with five words on the stack.
-/

namespace GrubKernel
namespace Interrupts

open ByteMemory

variable {ι κ : Type*}

/-! ## The instructions -/

/-- The data segment registers. -/
inductive Seg
  | ds
  | es
  | fs
  | gs
deriving DecidableEq

/-- The instructions of the stubs. -/
inductive Instr
  | cli
  | sti
  | pushByte (n : UInt8)
  | pusha
  | popa
  | movAxDs
  | pushEax
  | movAx (imm : UInt16)
  | movSegAx (s : Seg)
  | callIsrHandler
  | popEbx
  | movSegBx (s : Seg)
  | addEsp (n : UInt32)
  | iret
deriving DecidableEq

/-- Load a data segment register. -/
def Cpu.setSeg (c : Cpu) : Seg → UInt16 → Cpu
  | .ds, v => { c with ds := v }
  | .es, v => { c with es := v }
  | .fs, v => { c with fs := v }
  | .gs, v => { c with gs := v }

namespace Machine

/-- `pusha`: the value pushed for `esp` is the one before. -/
def pusha (m : Machine) : Machine :=
  ((((((((m.push m.cpu.eax).push m.cpu.ecx).push m.cpu.edx).push m.cpu.ebx).push m.cpu.esp).push
    m.cpu.ebp).push m.cpu.esi).push m.cpu.edi)

/-- `popa`: the word for `esp` is skipped. -/
def popa (m : Machine) : Machine :=
  let edi := m.pop
  let esi := edi.2.pop
  let ebp := esi.2.pop
  let skipped := ebp.2.pop
  let ebx := skipped.2.pop
  let edx := ebx.2.pop
  let ecx := edx.2.pop
  let eax := ecx.2.pop
  { eax.2 with cpu := { eax.2.cpu with
      edi := edi.1, esi := esi.1, ebp := ebp.1, ebx := ebx.1, edx := edx.1, ecx := ecx.1,
      eax := eax.1 } }

/-- `iret` without a change of privilege. -/
def iret (m : Machine) : Machine :=
  let eip := m.pop
  let cs := eip.2.pop
  let eflags := cs.2.pop
  { eflags.2 with cpu := { eflags.2.cpu with
      eip := eip.1, cs := cs.1.toUInt16, eflags := eflags.1 } }

end Machine

/-- The machine code of `isr_handler`.  It returns with the stack pointer, the stack segment and the
table registers as they were, and writes only to `own` and to the `room` bytes below the stack pointer:
the source never assigns to the argument. -/
structure Compiled (ι κ : Type*) (own : Set UInt32) (room : ℕ) where
  run : Kernel ι κ → Machine → Machine
  esp : ∀ k m, (run k m).cpu.esp = m.cpu.esp
  ss : ∀ k m, (run k m).cpu.ss = m.cpu.ss
  gdtr : ∀ k m, (run k m).cpu.gdtr = m.cpu.gdtr
  idtr : ∀ k m, (run k m).cpu.idtr = m.cpu.idtr
  mem : ∀ k m x, x ∉ own → room ≤ (x - (m.cpu.esp - UInt32.ofNat room)).toNat →
    (run k m).mem x = m.mem x

/-- The processor with the kernel. -/
structure State (ι κ : Type*) where
  machine : Machine
  kernel : Kernel ι κ

section Execution

variable {own : Set UInt32} {room : ℕ} (call : ι → Registers → Kernel ι κ → Kernel ι κ)
  (code : Compiled ι κ own room)

/-- One instruction. -/
def exec (s : State ι κ) : Instr → Option (State ι κ)
  | .cli => some { s with machine.cpu.eflags := s.machine.cpu.eflags &&& ~~~interruptFlag }
  | .sti => some { s with machine.cpu.eflags := s.machine.cpu.eflags ||| interruptFlag }
  | .pushByte n => some { s with machine := s.machine.push n.toInt8.toInt32.toUInt32 }
  | .pusha => some { s with machine := s.machine.pusha }
  | .popa => some { s with machine := s.machine.popa }
  | .movAxDs => some { s with
      machine.cpu.eax := (s.machine.cpu.eax &&& 0xFFFF0000) ||| s.machine.cpu.ds.toUInt32 }
  | .pushEax => some { s with machine := s.machine.push s.machine.cpu.eax }
  | .movAx imm => some { s with
      machine.cpu.eax := (s.machine.cpu.eax &&& 0xFFFF0000) ||| imm.toUInt32 }
  | .movSegAx seg => some { s with
      machine.cpu := s.machine.cpu.setSeg seg s.machine.cpu.eax.toUInt16 }
  | .callIsrHandler =>
      (isrHandler call (registersAt s.machine.mem s.machine.cpu.esp) s.kernel).map fun k =>
        ⟨code.run s.kernel s.machine, k⟩
  | .popEbx =>
      let ebx := s.machine.pop
      some { s with machine := { ebx.2 with cpu := { ebx.2.cpu with ebx := ebx.1 } } }
  | .movSegBx seg => some { s with
      machine.cpu := s.machine.cpu.setSeg seg s.machine.cpu.ebx.toUInt16 }
  | .addEsp n => some { s with machine.cpu.esp := s.machine.cpu.esp + n }
  | .iret => some { s with machine := s.machine.iret }

/-- `isr_common_stub`. -/
def isrCommonStub : List Instr :=
  [.pusha, .movAxDs, .pushEax, .movAx 0x10, .movSegAx .ds, .movSegAx .es, .movSegAx .fs, .movSegAx .gs,
    .callIsrHandler, .popEbx, .movSegBx .ds, .movSegBx .es, .movSegBx .fs, .movSegBx .gs, .popa,
    .addEsp 8, .sti, .iret]

/-- The vectors with `ISR_ERRCODE`. -/
def isrErrcode : List ℕ := [8, 10, 11, 12, 13, 14]

/-- `isr0`, .., `isr31`: `ISR_ERRCODE` or `ISR_NOERRCODE`, and the jump to the common part. -/
def isrStub (v : ℕ) : List Instr :=
  (if v ∈ isrErrcode then [.cli, .pushByte (UInt8.ofNat v)]
    else [.cli, .pushByte 0, .pushByte (UInt8.ofNat v)]) ++ isrCommonStub

/-- What the processor does first: it saves where it was, with the error code if there is one, and
enters the code behind the gate with interrupts off. -/
def deliver (m : Machine) (g : Gate) (errorCode : Option UInt32) : Machine :=
  let m' := ((m.push m.cpu.eflags).push m.cpu.cs.toUInt32).push m.cpu.eip
  let m' := match errorCode with
    | some e => m'.push e
    | none => m'
  { m' with cpu := { m'.cpu with
      cs := UInt16.ofNat g.selector, eip := UInt32.ofNat g.offset
      eflags := m'.cpu.eflags &&& ~~~interruptFlag } }

/-- An interrupt from its delivery to the `iret`; no result where the vector has no gate, or its gate
does not lead to a stub. -/
def interrupt (l : Layout) (v : ℕ) (errorCode : Option UInt32) (s : State ι κ) : Option (State ι κ) :=
  (interruptGate s.machine.mem s.machine.cpu.idtr v).bind fun g =>
    let m := deliver s.machine g errorCode
    ((List.range 32).find? fun w => l.isr w = m.cpu.eip).bind fun w =>
      (isrStub w).foldlM (exec call code) { s with machine := m }

/-! ## The common part -/

/-- The low half of a register after a 16-bit load. -/
lemma toUInt16_load (x : UInt32) (y : UInt16) :
    ((x &&& 0xFFFF0000) ||| y.toUInt32).toUInt16 = y := by
  have hy := y.toNat_lt
  apply UInt16.toNat_inj.mp
  rw [UInt32.toNat_toUInt16, UInt32.toNat_or, UInt32.toNat_and, UInt16.toNat_toUInt32]
  refine Nat.eq_of_testBit_eq fun i => ?_
  rw [Nat.testBit_mod_two_pow, Nat.testBit_or, Nat.testBit_and]
  by_cases hi : i < 16
  · have hzero : (0xFFFF0000 : UInt32).toNat.testBit i = false := by
      interval_cases i <;> rfl
    rw [hzero, Bool.and_false, Bool.false_or, decide_eq_true hi, Bool.true_and]
  · rw [decide_eq_false hi, Bool.false_and, Nat.testBit_lt_two_pow]
    exact lt_of_lt_of_le hy (Nat.pow_le_pow_right (by decide) (not_lt.mp hi))

/-- The machine when it calls `isr_handler`. -/
def atCall (m : Machine) : Machine :=
  let saved := (m.cpu.eax &&& 0xFFFF0000) ||| m.cpu.ds.toUInt32
  let m' := m.pusha.push saved
  { m' with cpu := { m'.cpu with
      eax := (saved &&& 0xFFFF0000) ||| (0x10 : UInt16).toUInt32
      ds := 0x10, es := 0x10, fs := 0x10, gs := 0x10 } }

/-- The words that the common part pushes. -/
def savedWords (c : Cpu) : List UInt32 :=
  [(c.eax &&& 0xFFFF0000) ||| c.ds.toUInt32, c.edi, c.esi, c.ebp, c.esp, c.ebx, c.edx, c.ecx, c.eax]

/-- The memory at the call. -/
lemma atCall_mem (m : Machine) : (atCall m).mem = (m.pushAll (savedWords m.cpu)).mem := rfl

/-- The stack pointer at the call. -/
lemma atCall_esp (m : Machine) : (atCall m).cpu.esp = (m.pushAll (savedWords m.cpu)).cpu.esp := rfl

/-- The machine code of the handler keeps the words on the stack. -/
lemma Compiled.stacked {own : Set UInt32} {room : ℕ} (code : Compiled ι κ own room)
    (k : Kernel ι κ) {m : Machine} {ws : List UInt32} (h : Stacked m.mem m.cpu.esp ws)
    (hlen : room + 4 * ws.length ≤ 2 ^ 32)
    (hown : ∀ x, (x - m.cpu.esp).toNat < 4 * ws.length → x ∉ own) :
    Stacked (code.run k m).mem m.cpu.esp ws := by
  refine h.congr (by omega) fun x hx => (code.mem k m x (hown x hx) ?_).symm
  have he := m.cpu.esp.toNat_lt
  have hxlt := x.toNat_lt
  rw [UInt32.toNat_sub] at hx
  rw [UInt32.toNat_sub, UInt32.toNat_sub, UInt32.toNat_ofNat']
  omega

/-- The part in front of the call. -/
lemma save_run (s : State ι κ) :
    (isrCommonStub.take 8).foldlM (exec call code) s = some { s with machine := atCall s.machine } := by
  have hax := toUInt16_load ((s.machine.cpu.eax &&& 0xFFFF0000) ||| s.machine.cpu.ds.toUInt32) 0x10
  show some _ = some _
  simp only [Cpu.setSeg, Machine.pusha, Machine.push, atCall, hax]

/-- The part behind the call. -/
lemma restore_run (s : State ι κ) {c : Cpu} {number code' eip cs eflags : UInt32} {e : UInt32}
    (hesp : s.machine.cpu.esp = e)
    (h : Stacked s.machine.mem e (savedWords c ++ [number, code', eip, cs, eflags])) :
    (isrCommonStub.drop 9).foldlM (exec call code) s
      = some { s with machine := { s.machine with cpu := { s.machine.cpu with
          eax := c.eax, ecx := c.ecx, edx := c.edx, ebx := c.ebx, ebp := c.ebp, esi := c.esi
          edi := c.edi, esp := e + 56, ds := c.ds, es := c.ds, fs := c.ds, gs := c.ds
          eip := eip, cs := cs.toUInt16, eflags := eflags } } } := by
  obtain ⟨h₀, h₁, h₂, h₃, h₄, h₅, h₆, h₇, h₈, -, -, h₁₁, h₁₂, h₁₃, -⟩ := h
  have hds := toUInt16_load c.eax c.ds
  have height : ∀ x : UInt32, x + 8 = x + 4 + 4 := fun x => by
    rw [UInt32.add_assoc]
    rfl
  have htotal : e + 56 = e + 4 + 4 + 4 + 4 + 4 + 4 + 4 + 4 + 4 + 4 + 4 + 4 + 4 + 4 := by
    simp only [UInt32.add_assoc]
    rfl
  show some _ = some _
  rw [htotal]
  simp only [Cpu.setSeg, Machine.popa, Machine.pop, Machine.iret, hesp, height, h₀, h₁, h₂, h₃, h₄, h₅,
    h₆, h₇, h₈, h₁₁, h₁₂, h₁₃, hds]

/-- **The common part.**  With five words on the stack it calls `isr_handler` on them and on the
registers, and leaves the registers as they were, all data segments as `ds` was, and the last three words
as instruction pointer, code segment and flags. -/
theorem isrCommonStub_run (s : State ι κ) {number code' eip cs eflags : UInt32}
    (h : Stacked s.machine.mem s.machine.cpu.esp [number, code', eip, cs, eflags])
    (hroom : room + 56 ≤ 2 ^ 32)
    (hown : ∀ x, (x - (s.machine.cpu.esp - 36)).toNat < 56 → x ∉ own) :
    isrCommonStub.foldlM (exec call code) s
      = (isrHandler call (registersAt (atCall s.machine).mem (atCall s.machine).cpu.esp) s.kernel).map
        fun k =>
          let m := code.run s.kernel (atCall s.machine)
          let c := s.machine.cpu
          ⟨{ m with cpu := { m.cpu with
              eax := c.eax, ecx := c.ecx, edx := c.edx, ebx := c.ebx, ebp := c.ebp, esi := c.esi
              edi := c.edi, esp := c.esp + 20, ds := c.ds, es := c.ds, fs := c.ds, gs := c.ds
              eip := eip, cs := cs.toUInt16, eflags := eflags } }, k⟩ := by
  have hsplit : isrCommonStub
      = isrCommonStub.take 8 ++ Instr.callIsrHandler :: isrCommonStub.drop 9 := rfl
  have hesp : (atCall s.machine).cpu.esp = s.machine.cpu.esp - 36 := by
    rw [atCall_esp, Machine.pushAll_cpu]
    rfl
  have hstack : Stacked (atCall s.machine).mem (atCall s.machine).cpu.esp
      (savedWords s.machine.cpu ++ [number, code', eip, cs, eflags]) :=
    Machine.stacked_pushAll h (savedWords s.machine.cpu) (Nat.le_of_ble_eq_true rfl)
  have hkept := code.stacked s.kernel hstack hroom (by rw [hesp]; exact hown)
  have hfinal : s.machine.cpu.esp - 36 + 56 = s.machine.cpu.esp + 20 := by
    have he := s.machine.cpu.esp.toNat_lt
    rw [← UInt32.toNat_inj, UInt32.toNat_add, UInt32.toNat_sub, UInt32.toNat_add,
      show (36 : UInt32).toNat = 36 from rfl, show (56 : UInt32).toNat = 56 from rfl,
      show (20 : UInt32).toNat = 20 from rfl]
    omega
  rw [hsplit, List.foldlM_append, save_run]
  simp only [Option.bind_eq_bind, Option.bind_some, List.foldlM_cons]
  rw [exec]
  cases isrHandler call (registersAt (atCall s.machine).mem (atCall s.machine).cpu.esp) s.kernel with
  | none => rw [Option.map_none, Option.map_none, Option.bind_none]
  | some k =>
      rw [Option.map_some, Option.map_some, Option.bind_some,
        restore_run call code ⟨code.run s.kernel (atCall s.machine), k⟩ (code.esp s.kernel _) hkept,
        hesp, hfinal]

end Execution

end Interrupts
end GrubKernel
