import GrubKernel.Interrupts.Processor

/-!
# The interrupt handlers

`isr_handler` looks up the handler of an interrupt in a table of 256 pointers, which
`register_interrupt_handler` fills.  The pointers are names here; what the functions behind them do is
a parameter of the results.

* `Registers` — the registers as the stub pushed them, read back from the stack by `registersAt`.
* `Kernel` — the table, the console, and what else the handlers work on.
* `isrHandler`, `registerInterruptHandler` — the functions.
* **`isrHandler_registerInterruptHandler`** — which handler runs after one is registered.
-/

namespace GrubKernel
namespace Interrupts

open ByteMemory

/-- `registers_t`. -/
structure Registers where
  ds : UInt32
  edi : UInt32
  esi : UInt32
  ebp : UInt32
  esp : UInt32
  ebx : UInt32
  edx : UInt32
  ecx : UInt32
  eax : UInt32
  intNo : UInt32
  errCode : UInt32
  eip : UInt32
  cs : UInt32
  eflags : UInt32
  useresp : UInt32
  ss : UInt32
deriving DecidableEq

/-- The argument of `isr_handler` on the stack. -/
def registersAt (mem : UInt32 → UInt8) (a : UInt32) : Registers :=
  let word (k : ℕ) := load32 mem (a + UInt32.ofNat (4 * k))
  ⟨word 0, word 1, word 2, word 3, word 4, word 5, word 6, word 7, word 8, word 9, word 10, word 11,
    word 12, word 13, word 14, word 15⟩

variable {ι κ : Type*}

/-- The kernel: `interrupt_handlers`, the output of `k_printf`, and the state of the handlers. -/
structure Kernel (ι κ : Type*) where
  interruptHandlers : UInt8 → Option ι
  console : List String
  rest : κ

/-- `register_interrupt_handler`. -/
def registerInterruptHandler (n : UInt8) (handler : Option ι) (k : Kernel ι κ) : Kernel ι κ :=
  { k with interruptHandlers := Function.update k.interruptHandlers n handler }

/-- `isr_handler`: no result where it reads outside the table. -/
def isrHandler (call : ι → Registers → Kernel ι κ → Kernel ι κ) (regs : Registers)
    (k : Kernel ι κ) : Option (Kernel ι κ) :=
  if regs.intNo < 256 then
    match k.interruptHandlers regs.intNo.toUInt8 with
    | some handler => some (call handler regs k)
    | none => some { k with console := k.console ++ ["I do not understand - isr.c - isr_handler()"] }
  else none

/-- **A registered handler gets the interrupts of its number**, and those of the other numbers go where
they went before. -/
theorem isrHandler_registerInterruptHandler (call : ι → Registers → Kernel ι κ → Kernel ι κ) (n : UInt8)
    (handler : ι) (regs : Registers) (hno : regs.intNo < 256) (k : Kernel ι κ) {handler' : ι}
    (h : if regs.intNo.toUInt8 = n then handler' = handler
      else k.interruptHandlers regs.intNo.toUInt8 = some handler') :
    isrHandler call regs (registerInterruptHandler n (some handler) k)
      = some (call handler' regs (registerInterruptHandler n (some handler) k)) := by
  have hlookup : (registerInterruptHandler n (some handler) k).interruptHandlers regs.intNo.toUInt8
      = some handler' := by
    show Function.update k.interruptHandlers n (some handler) regs.intNo.toUInt8 = some handler'
    by_cases hn : regs.intNo.toUInt8 = n
    · rw [if_pos hn] at h
      rw [hn, Function.update_self, h]
    · rw [if_neg hn] at h
      rw [Function.update_of_ne hn, h]
  rw [isrHandler, if_pos hno, hlookup]

end Interrupts
end GrubKernel
