import GrubKernel.Interrupts.Delivery

/-!
# A program under interrupts

A program runs, and interrupts come between its instructions, in any order and any number.  Each one is
delivered through the tables, runs its stub and its handler, and returns.  The program reads some part of
the memory only, its live bytes: nothing that the handlers own, and nothing below its stack.

* `Program` — the instructions, and the live bytes; a step depends on live bytes only.
* `Calm` — a state in which an interrupt does no harm.
* `runEvents` — the interleaving.
* `handled` — what the handlers should do: one call for each interrupt, in order, with the registers of
  the program that was never interrupted.
* **`runEvents_transparent`** — the program does not see the interrupts, and the handlers do just that.
-/

namespace GrubKernel
namespace Interrupts

open ByteMemory

variable {ι κ : Type*}

/-- A program: one instruction, and the bytes that it may still read. -/
structure Program where
  step : Machine → Machine
  live : Cpu → Set UInt32
  step_agree : ∀ m m' : Machine, m.cpu = m'.cpu → (∀ x ∈ live m.cpu, m.mem x = m'.mem x) →
    (step m).cpu = (step m').cpu ∧ ∀ x ∈ live (step m).cpu, (step m).mem x = (step m').mem x

/-- The program cannot tell the two machines apart. -/
def Program.Agree (p : Program) (m m' : Machine) : Prop :=
  m.cpu = m'.cpu ∧ ∀ x ∈ p.live m.cpu, m.mem x = m'.mem x

/-- An interrupt does no harm: the tables are loaded and live, the data segments are the same, the stack
has room, and the live bytes are apart from what the handlers own and from the stack below. -/
structure Calm (l : Layout) (own : Set UInt32) (room : ℕ) (p : Program) (m : Machine) : Prop where
  loaded : Loaded l m
  es : m.cpu.es = m.cpu.ds
  fs : m.cpu.fs = m.cpu.ds
  gs : m.cpu.gs = m.cpu.ds
  free : ∀ x, (x - (m.cpu.esp - 60)).toNat < 64 → x ∉ own
  live_own : ∀ x ∈ p.live m.cpu, x ∉ own
  live_above : ∀ x ∈ p.live m.cpu, (x - m.cpu.esp).toNat + (room + 60) < 2 ^ 32
  live_top : ∀ x, (x - m.cpu.esp).toNat < 8 → x ∈ p.live m.cpu
  live_tables : ∀ x, (x - l.gdtEntries).toNat < 40 ∨ (x - l.idtEntries).toNat < 2048 →
    x ∈ p.live m.cpu

/-- What happens next. -/
inductive Event
  | step
  | interrupt (v : ℕ) (errorCode : Option UInt32)

/-- The interrupt has a stub that knows whether there is an error code. -/
def Event.Matched : Event → Prop
  | .step => True
  | .interrupt v errorCode => v < 32 ∧ (errorCode.isSome = true ↔ v ∈ isrErrcode)

instance : DecidablePred Event.Matched
  | .step => inferInstanceAs (Decidable True)
  | .interrupt _ _ => inferInstanceAs (Decidable (_ ∧ _))

section Runs

variable {own : Set UInt32} {room : ℕ} (call : ι → Registers → Kernel ι κ → Kernel ι κ)
  (code : Compiled ι κ own room) (l : Layout) (p : Program)

/-- The interleaving. -/
def runEvents : List Event → State ι κ → Option (State ι κ)
  | [], s => some s
  | .step :: es, s => runEvents es { s with machine := p.step s.machine }
  | .interrupt v errorCode :: es, s => (interrupt call code l v errorCode s).bind (runEvents es)

/-- The program alone. -/
def runSteps : List Event → Machine → Machine
  | [], m => m
  | .step :: es, m => runSteps es (p.step m)
  | .interrupt _ _ :: es, m => runSteps es m

/-- The handlers alone, along the program that is not interrupted. -/
def handled : List Event → Machine → Kernel ι κ → Option (Kernel ι κ)
  | [], _, k => some k
  | .step :: es, m, k => handled es (p.step m) k
  | .interrupt v errorCode :: es, m, k =>
      (isrHandler call (interruptedRegisters m v errorCode) k).bind (handled es m)

variable {l p}

/-! ## One step -/

/-- A program takes no notice of an interrupt on a machine that looks calm to it. -/
lemma Calm.of_agree {m m' : Machine} (h : Calm l own room p m) (hm : p.Agree m m') :
    Calm l own room p m' := by
  obtain ⟨hcpu, hmem⟩ := hm
  have hwindow : ∀ {a : UInt32} {k : ℕ} (v : ℕ), v < k → 8 * k ≤ 2048 →
      (∀ x, (x - a).toNat < 8 * k → x ∈ p.live m.cpu) →
      window m'.mem (a + UInt32.ofNat (8 * v)) 8 = window m.mem (a + UInt32.ofNat (8 * v)) 8 := by
    intro a k v hv hk hlive
    refine window_congr (by decide) fun x hx => (hmem x (hlive x ?_)).symm
    have ha := a.toNat_lt
    have hxlt := x.toNat_lt
    rw [UInt32.toNat_sub, UInt32.toNat_add, UInt32.toNat_ofNat'] at hx
    rw [UInt32.toNat_sub]
    omega
  refine ⟨⟨hcpu ▸ h.loaded.gdtr, hcpu ▸ h.loaded.idtr, ?_, ?_⟩, hcpu ▸ h.es, hcpu ▸ h.fs, hcpu ▸ h.gs,
    hcpu ▸ h.free, hcpu ▸ h.live_own, hcpu ▸ h.live_above, hcpu ▸ h.live_top, hcpu ▸ h.live_tables⟩
  · intro v hv
    rw [hwindow v hv (by decide) fun x hx => h.live_tables x (Or.inl hx)]
    exact h.loaded.gdt v hv
  · intro v hv
    rw [hwindow v hv (by decide) fun x hx => h.live_tables x (Or.inr hx)]
    exact h.loaded.idt v hv

/-- The handler gets the same registers on both machines. -/
lemma interruptedRegisters_agree {m m' : Machine} (h : Calm l own room p m) (hm : p.Agree m m')
    (v : ℕ) (errorCode : Option UInt32) :
    interruptedRegisters m' v errorCode = interruptedRegisters m v errorCode := by
  obtain ⟨hcpu, hmem⟩ := hm
  have he := m.cpu.esp.toNat_lt
  have htop : ∀ i : ℕ, i ≤ 4 →
      load32 m'.mem (m.cpu.esp + UInt32.ofNat i) = load32 m.mem (m.cpu.esp + UInt32.ofNat i) := by
    intro i hi
    refine load32_congr fun x hx => (hmem x (h.live_top x ?_)).symm
    have hxlt := x.toNat_lt
    rw [UInt32.toNat_sub, UInt32.toNat_add, UInt32.toNat_ofNat'] at hx
    rw [UInt32.toNat_sub]
    omega
  have h₀ := htop 0 (by omega)
  have h₄ := htop 4 le_rfl
  rw [show UInt32.ofNat 0 = 0 from rfl, UInt32.add_zero] at h₀
  rw [interruptedRegisters, interruptedRegisters, ← hcpu, h₀]
  rw [show m.cpu.esp + 4 = m.cpu.esp + UInt32.ofNat 4 from rfl, h₄]

/-- **One interrupt.**  It leaves a machine that the program cannot tell from the one before, and a kernel
after one call of the handler. -/
theorem interrupt_agree {s : State ι κ} (h : Calm l own room p s.machine) (hroom : room + 64 ≤ 2 ^ 32)
    {v : ℕ} {errorCode : Option UInt32} (hv : (Event.interrupt v errorCode).Matched) :
    ∃ t, interrupt call code l v errorCode s = some t ∧ p.Agree s.machine t.machine ∧
      isrHandler call (interruptedRegisters s.machine v errorCode) s.kernel = some t.kernel := by
  obtain ⟨k, hk, hrun⟩ := interrupt_matched call code h.loaded hv.1 errorCode hroom h.free hv.2
  rw [Cpu.segments_self h.es h.fs h.gs] at hrun
  refine ⟨_, hrun, ⟨rfl, fun x hx => ?_⟩, hk⟩
  exact (handlerEntry_run_mem code s.kernel l s.machine v errorCode (h.live_own x hx)
    (h.live_above x hx)).symm

/-! ## Every run -/

/-- The run from a machine that the program cannot tell from the one it runs on alone. -/
lemma runEvents_agree (hroom : room + 64 ≤ 2 ^ 32) (events : List Event) {m : Machine}
    {s : State ι κ} (hm : p.Agree m s.machine) (hcalm : ∀ n, Calm l own room p (p.step^[n] m))
    (hmatched : ∀ e ∈ events, e.Matched) :
    ∃ t, runEvents call code l p events s = some t ∧ p.Agree (runSteps p events m) t.machine ∧
      handled call p events m s.kernel = some t.kernel := by
  induction events generalizing m s with
  | nil => exact ⟨s, rfl, hm, rfl⟩
  | cons e events ih =>
      have hrest : ∀ e ∈ events, e.Matched := fun e he => hmatched e (List.mem_cons_of_mem _ he)
      cases e with
      | step =>
          have hstep : p.Agree (p.step m) (p.step s.machine) := p.step_agree m s.machine hm.1 hm.2
          have hcalm' : ∀ n, Calm l own room p (p.step^[n] (p.step m)) := by
            intro n
            rw [← Function.iterate_succ_apply]
            exact hcalm (n + 1)
          exact ih (s := { s with machine := p.step s.machine }) hstep hcalm' hrest
      | interrupt v errorCode =>
          have hnow : Calm l own room p m := hcalm 0
          obtain ⟨t, hrun, ht, hk⟩ := interrupt_agree call code (hnow.of_agree hm) hroom
            (hmatched _ List.mem_cons_self)
          have hmt : p.Agree m t.machine := by
            refine ⟨hm.1.trans ht.1, fun x hx => (hm.2 x hx).trans (ht.2 x ?_)⟩
            rw [← hm.1]
            exact hx
          obtain ⟨u, hu, hagree, hhandled⟩ := ih hmt hcalm hrest
          rw [interruptedRegisters_agree hnow hm] at hk
          refine ⟨u, ?_, hagree, ?_⟩
          · rw [runEvents, hrun, Option.bind_some, hu]
          · rw [handled, hk, Option.bind_some, hhandled]

end Runs

/-! ## A counting program -/

/-- It counts in `eax`. -/
def counting : Program where
  step m := { m with cpu.eax := m.cpu.eax + 1 }
  live c := {x | (x - c.esp).toNat + 124 < 2 ^ 32}
  step_agree m m' hcpu hmem := ⟨by rw [hcpu], hmem⟩

/-- Counting stays calm. -/
lemma calm_counting {m : Machine} (h : Calm lowLayout ∅ 64 counting m) (n : ℕ) :
    Calm lowLayout ∅ 64 counting (counting.step^[n] m) := by
  induction n with
  | zero => exact h
  | succ n ih =>
      rw [Function.iterate_succ_apply']
      exact ⟨⟨ih.loaded.gdtr, ih.loaded.idtr, ih.loaded.gdt, ih.loaded.idt⟩, ih.es, ih.fs, ih.gs, ih.free,
        ih.live_own, ih.live_above, ih.live_top, ih.live_tables⟩

/-- The kernel is calm after its initialisation. -/
lemma calm_booted : Calm lowLayout ∅ 64 counting (initDescriptorTables lowLayout fresh) := by
  obtain ⟨hloaded, hcpu, -⟩ := initDescriptorTables_loaded lowLayout fresh
  have hesp : (initDescriptorTables lowLayout fresh).cpu.esp = 0x200000 := by
    rw [hcpu]
    rfl
  refine ⟨hloaded, by rw [hcpu], by rw [hcpu], by rw [hcpu], fun _ _ h => h, fun _ _ h => h,
    fun _ h => h, ?_, ?_⟩
  · intro x hx
    show (x - _).toNat + 124 < 2 ^ 32
    omega
  · intro x hx
    show (x - (initDescriptorTables lowLayout fresh).cpu.esp).toNat + 124 < 2 ^ 32
    have hxlt := x.toNat_lt
    rw [UInt32.toNat_sub, UInt32.toNat_sub, show lowLayout.gdtEntries.toNat = 0x100000 from rfl,
      show lowLayout.idtEntries.toNat = 0x101000 from rfl] at hx
    rw [hesp, UInt32.toNat_sub, show (0x200000 : UInt32).toNat = 0x200000 from rfl]
    omega

end Interrupts
end GrubKernel
