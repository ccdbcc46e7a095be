import GrubKernel.Lib.ByteStore

/-!
# The processor

The part of the processor that the descriptor tables and the interrupt stubs rely on: the registers,
a byte memory with a stack, and how the processor reads a segment descriptor and an interrupt gate
from the tables that `lgdt` and `lidt` name.

* `Machine` — registers and memory; `push`, `pop`.
* `segmentDescriptor` — the segment behind a selector.
* `interruptGate` — where an interrupt vector leads.
-/

namespace GrubKernel
namespace Interrupts

open ByteMemory

/-- The memory operand of `lgdt` and `lidt`. -/
structure TableRegister where
  limit : UInt16
  base : UInt32
deriving DecidableEq

/-- The registers. -/
structure Cpu where
  eax : UInt32
  ecx : UInt32
  edx : UInt32
  ebx : UInt32
  esp : UInt32
  ebp : UInt32
  esi : UInt32
  edi : UInt32
  cs : UInt16
  ds : UInt16
  es : UInt16
  fs : UInt16
  gs : UInt16
  ss : UInt16
  eip : UInt32
  eflags : UInt32
  gdtr : TableRegister
  idtr : TableRegister
deriving DecidableEq

/-- The interrupt flag of `eflags`. -/
def interruptFlag : UInt32 := 0x200

/-- The processor and its memory. -/
structure Machine where
  cpu : Cpu
  mem : UInt32 → UInt8

namespace Machine

/-- `push`. -/
def push (m : Machine) (w : UInt32) : Machine :=
  ⟨{ m.cpu with esp := m.cpu.esp - 4 }, store32 m.mem (m.cpu.esp - 4) w⟩

/-- `pop`: the word, and the machine without it. -/
def pop (m : Machine) : UInt32 × Machine :=
  (load32 m.mem m.cpu.esp, { m with cpu.esp := m.cpu.esp + 4 })

@[simp] lemma push_cpu (m : Machine) (w : UInt32) :
    (m.push w).cpu = { m.cpu with esp := m.cpu.esp - 4 } := rfl

/-- Push words, the last one first. -/
def pushAll (m : Machine) (ws : List UInt32) : Machine := ws.foldr (fun w m => m.push w) m

lemma pushAll_cons (m : Machine) (w : UInt32) (ws : List UInt32) :
    m.pushAll (w :: ws) = (m.pushAll ws).push w := rfl

lemma pushAll_cpu (m : Machine) (ws : List UInt32) :
    (m.pushAll ws).cpu = { m.cpu with esp := m.cpu.esp - UInt32.ofNat (4 * ws.length) } := by
  induction ws with
  | nil =>
      show m.cpu = { m.cpu with esp := m.cpu.esp - UInt32.ofNat 0 }
      rw [show UInt32.ofNat 0 = 0 from rfl, UInt32.sub_zero]
  | cons w ws ih =>
      have hesp : m.cpu.esp - UInt32.ofNat (4 * ws.length) - 4
          = m.cpu.esp - UInt32.ofNat (4 * (w :: ws).length) := by
        have he := m.cpu.esp.toNat_lt
        rw [← UInt32.toNat_inj, UInt32.toNat_sub, UInt32.toNat_sub, UInt32.toNat_sub,
          UInt32.toNat_ofNat', UInt32.toNat_ofNat', List.length_cons,
          show (4 : UInt32).toNat = 4 from rfl]
        omega
      rw [pushAll_cons, push_cpu, ih, ← hesp]

/-- The words pushed lie on top of what was on the stack. -/
lemma stacked_pushAll {m : Machine} {us : List UInt32} (h : Stacked m.mem m.cpu.esp us)
    (ws : List UInt32) (hlen : 4 * (ws.length + us.length) ≤ 2 ^ 32) :
    Stacked (m.pushAll ws).mem (m.pushAll ws).cpu.esp (ws ++ us) := by
  induction ws with
  | nil => exact h
  | cons w ws ih =>
      rw [List.length_cons] at hlen
      exact (ih (by omega)).push (by rw [List.length_append]; omega) w

/-- Pushes write below the stack pointer only. -/
lemma pushAll_mem_off {m : Machine} {ws : List UInt32} {x : UInt32}
    (h : (x - m.cpu.esp).toNat + 4 * ws.length < 2 ^ 32) : (m.pushAll ws).mem x = m.mem x := by
  induction ws with
  | nil => rfl
  | cons w ws ih =>
      rw [List.length_cons] at h
      rw [pushAll_cons]
      show store32 _ ((m.pushAll ws).cpu.esp - 4) w x = _
      rw [store32, storeBytes_off, ih (by omega)]
      rw [length_bytes32, pushAll_cpu, show (4 : UInt32) = UInt32.ofNat 4 from rfl, sub_ofNat_sub]
      have hle := (le_sub_sub_iff (x := x) (a := m.cpu.esp) (n := 4 * ws.length + 4)).mpr (by omega)
      omega

end Machine

/-! ## Descriptors -/

/-- A segment: its first byte, its last offset, and its access byte. -/
structure Segment where
  base : ℕ
  limit : ℕ
  access : ℕ
deriving DecidableEq

/-- The segment that the two words of a descriptor describe.  With the granularity bit the limit
counts pages. -/
def segmentOf (low high : ℕ) : Segment :=
  let limit := low % 2 ^ 16 + 2 ^ 16 * (high / 2 ^ 16 % 2 ^ 4)
  { base := low / 2 ^ 16 + 2 ^ 16 * (high % 2 ^ 8) + 2 ^ 24 * (high / 2 ^ 24)
    limit := if high / 2 ^ 23 % 2 = 1 then 4096 * limit + 4095 else limit
    access := high / 2 ^ 8 % 2 ^ 8 }

/-- The segment in entry `index` of a table. -/
def segmentAt (mem : UInt32 → UInt8) (table : UInt32) (index : ℕ) : Segment :=
  segmentOf (load32 mem (table + UInt32.ofNat (8 * index))).toNat
    (load32 mem (table + UInt32.ofNat (8 * index) + 4)).toNat

/-- The segment behind a selector: no segment for the null selector, for one into a local table, and
for one behind the end of the table. -/
def segmentDescriptor (mem : UInt32 → UInt8) (r : TableRegister) (selector : UInt16) :
    Option Segment :=
  let index := selector.toNat / 8
  if index = 0 ∨ selector.toNat / 4 % 2 = 1 ∨ r.limit.toNat < 8 * index + 7 then none
  else some (segmentAt mem r.base index)

/-- A gate: the selector and the offset of the code, and the attribute byte. -/
structure Gate where
  selector : ℕ
  offset : ℕ
  attributes : ℕ
deriving DecidableEq

/-- The gate that the two words of a descriptor describe. -/
def gateOf (low high : ℕ) : Gate :=
  { selector := low / 2 ^ 16
    offset := low % 2 ^ 16 + 2 ^ 16 * (high / 2 ^ 16)
    attributes := high / 2 ^ 8 % 2 ^ 8 }

/-- The gate is present and a 32-bit interrupt gate. -/
def Gate.Usable (g : Gate) : Prop := g.attributes / 2 ^ 7 = 1 ∧ g.attributes % 2 ^ 5 = 0xE

instance (g : Gate) : Decidable g.Usable := inferInstanceAs (Decidable (_ ∧ _))

/-- The gate in entry `vector` of a table. -/
def gateAt (mem : UInt32 → UInt8) (table : UInt32) (vector : ℕ) : Gate :=
  gateOf (load32 mem (table + UInt32.ofNat (8 * vector))).toNat
    (load32 mem (table + UInt32.ofNat (8 * vector) + 4)).toNat

/-- Where a vector leads: nowhere without a gate in the table that is usable. -/
def interruptGate (mem : UInt32 → UInt8) (r : TableRegister) (vector : ℕ) : Option Gate :=
  if r.limit.toNat < 8 * vector + 7 then none
  else if (gateAt mem r.base vector).Usable then some (gateAt mem r.base vector)
  else none

end Interrupts
end GrubKernel
