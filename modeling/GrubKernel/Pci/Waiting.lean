import GrubKernel.Lib.Trace
import GrubKernel.Pci.Nic

/-!
# Waiting for the network card

The driver polls the command register until the reset is over, and the status register of the transmission
until the packet has been sent.  The first loop waits, the second one does not: its condition is zero
whatever the register shows.

* `answering` — the card whose two registers show two arbitrary sequences of values.
* `Waits` — the receiver and the transmitter are enabled after the end of the reset, and the transmission is
  reported after the status register has shown it.
* `waitReset_cases`, `waitTransmit_returns` — the two loops.
* **`nic_waits_iff`** — the driver waits iff the reset never ends, or the first read of the status register
  shows the end of the transmission already.
-/

namespace GrubKernel
namespace Nic

open Trace

/-! ## The card -/

/-- The card that answers the reads of the command register from the sequence `command`, and those of the
status register of the first transmission from the sequence `transmit`.  Its state counts both. -/
def answering (ioaddr : UInt32) (command : ℕ → UInt8) (transmit : ℕ → UInt32) : Nic (ℕ × ℕ) where
  outb s _ _ := s
  outw s _ _ := s
  outl s _ _ := s
  inb s port := if port = portOf ioaddr chipCmd then (command s.1, (s.1 + 1, s.2)) else (0, s)
  inl s port := if port = portOf ioaddr 0x10 then (transmit s.2, (s.1, s.2 + 1)) else (0, s)

/-! ## What is to be waited for -/

/-- The receiver or the transmitter is enabled. -/
def Enables (ioaddr : UInt32) : Event → Prop
  | .outb value port => port = portOf ioaddr chipCmd ∧ value &&& 0x0C ≠ 0
  | _ => False

/-- The command register shows that the reset is over. -/
def SeesReset (ioaddr : UInt32) : Event → Prop
  | .inb port value => port = portOf ioaddr chipCmd ∧ value &&& 0x10 = 0
  | _ => False

/-- The transmission is reported as done. -/
def Reports : Event → Prop
  | .kPrintf format _ =>
    format = "Waiting for transmit_ok done. transmit_ok = %d\n" ∨ format = "Sending done.\n"
  | _ => False

/-- The status register shows `TOK`. -/
def SeesTok (ioaddr : UInt32) : Event → Prop
  | .inl port value => port = portOf ioaddr 0x10 ∧ value &&& ((1 : UInt32) <<< 15) ≠ 0
  | _ => False

/-- The driver waits for the card. -/
structure Waits (ioaddr : UInt32) (trace : List Event) : Prop where
  reset : OnlyAfter (SeesReset ioaddr) (Enables ioaddr) trace
  transmission : OnlyAfter (SeesTok ioaddr) Reports trace

/-- What happens during the reset: nothing is enabled, and nothing is said about the transmission. -/
def Quiet (ioaddr : UInt32) (e : Event) : Prop := ¬ Enables ioaddr e ∧ ¬ SeesTok ioaddr e ∧ ¬ Reports e

section Runs

variable (ioaddr rxBuffer txBuffer : UInt32) (command : ℕ → UInt8) (status : ℕ → UInt32)

/-! ## The two loops -/

/-- A round of the first loop. -/
lemma waitReset_succ (fuel i j : ℕ) (trace : List Event) :
    waitReset (answering ioaddr command status) ioaddr (fuel + 1) ⟨(i, j), trace⟩ =
      if command i &&& 0x10 ≠ 0 then
        waitReset (answering ioaddr command status) ioaddr fuel ⟨(i + 1, j),
          trace ++ [.inb (portOf ioaddr chipCmd) (command i)] ++ [.kPrintf "waiting for reset!\n" []]⟩
      else .ok ⟨(i + 1, j), trace ++ [.inb (portOf ioaddr chipCmd) (command i)]⟩ := by
  simp only [waitReset, Machine.inb, answering, Machine.kPrintf, if_true]

/-- The first loop polls, and ends with a read that shows the end of the reset. -/
lemma waitReset_cases (fuel i j : ℕ) (trace : List Event) :
    ∃ polls, (∀ e ∈ polls, Quiet ioaddr e) ∧
      ((∃ i', waitReset (answering ioaddr command status) ioaddr fuel ⟨(i, j), trace⟩
          = .error ⟨(i', j), trace ++ polls⟩) ∨
        ∃ n, command n &&& 0x10 = 0 ∧
          waitReset (answering ioaddr command status) ioaddr fuel ⟨(i, j), trace⟩
            = .ok ⟨(n + 1, j), trace ++ polls ++ [.inb (portOf ioaddr chipCmd) (command n)]⟩) := by
  induction fuel generalizing i trace with
  | zero => exact ⟨[], by simp, Or.inl ⟨i, by simp [waitReset]⟩⟩
  | succ fuel ih =>
    rw [waitReset_succ]
    by_cases hreset : command i &&& 0x10 ≠ 0
    · rw [if_pos hreset]
      obtain ⟨polls, hquiet, hrun⟩ := ih (i + 1) (trace ++ [.inb (portOf ioaddr chipCmd) (command i)]
        ++ [.kPrintf "waiting for reset!\n" []])
      refine ⟨.inb (portOf ioaddr chipCmd) (command i) :: .kPrintf "waiting for reset!\n" [] :: polls,
        ?_, by simpa using hrun⟩
      intro e he
      rcases List.mem_cons.mp he with rfl | he
      · simp [Quiet, Enables, SeesTok, Reports]
      · rcases List.mem_cons.mp he with rfl | he
        · simp [Quiet, Enables, SeesTok, Reports]
        · exact hquiet e he
    · rw [if_neg hreset]
      exact ⟨[], by simp, Or.inr ⟨i, not_not.mp hreset, by simp⟩⟩

/-- If the reset ends, the first loop does, too. -/
lemma waitReset_ends {i n : ℕ} (j : ℕ) (trace : List Event) (h : command (i + n) &&& 0x10 = 0) :
    ∃ m, waitReset (answering ioaddr command status) ioaddr (n + 1) ⟨(i, j), trace⟩ = .ok m := by
  induction n generalizing i trace with
  | zero =>
    rw [Nat.add_zero] at h
    rw [waitReset_succ, if_neg (not_not.mpr h)]
    exact ⟨_, rfl⟩
  | succ n ih =>
    rw [waitReset_succ]
    by_cases hreset : command i &&& 0x10 ≠ 0
    · rw [if_pos hreset]
      exact ih _ (by rwa [Nat.add_right_comm])
    · rw [if_neg hreset]
      exact ⟨_, rfl⟩

/-- The condition of the second loop is zero. -/
lemma waitTransmit_returns {σ : Type*} (nic : Nic σ) (tsd : UInt16) {fuel : ℕ} (hfuel : fuel ≠ 0)
    (transmitOk : UInt32) (m : Machine σ) :
    waitTransmit nic tsd fuel transmitOk m = .ok (transmitOk, m) := by
  have hshift : ¬ (1 : UInt32) <<< 15 = 0 := by decide
  obtain ⟨fuel, rfl⟩ := Nat.exists_eq_succ_of_ne_zero hfuel
  rw [waitTransmit, if_neg hshift, UInt32.and_zero, if_neg (not_not.mpr rfl)]

/-! ## The rest of the run -/

/-- What the driver does after the reset. -/
def sendingEvents (transmitOk : UInt32) : List Event :=
  [.kPrintf "Reset done.\n" [], .outb 0x0C (portOf ioaddr chipCmd),
    .kPrintf "Enable receiver and transmitter done.\n" [],
    .outl 0x03000700 (portOf ioaddr txConfig), .outl 0x0000070a (portOf ioaddr rxConfig),
    .outl rxBuffer (portOf ioaddr rxBuf), .outw 0x0005 (portOf ioaddr intrMask),
    .outl 0x8f (portOf ioaddr 0x44), .kPrintf "Sending...\n" [], .outl txBuffer (portOf ioaddr 0x20),
    .outl 0x100 (portOf ioaddr 0x10), .inl (portOf ioaddr 0x10) transmitOk,
    .kPrintf "Waiting for transmit_ok done. transmit_ok = %d\n" [transmitOk],
    .kPrintf "Sending done.\n" []]

/-- A run that gets through the first loop gets to its end. -/
lemma resetAndSend_of_ok {fuel i j : ℕ} {m : Machine (ℕ × ℕ)} {trace : List Event} (hfuel : fuel ≠ 0)
    (h : waitReset (answering ioaddr command status) ioaddr fuel
      (m.outb (answering ioaddr command status) 0x10 (portOf ioaddr chipCmd)) = .ok ⟨(i, j), trace⟩) :
    eventsOf (resetAndSend (answering ioaddr command status) ioaddr rxBuffer txBuffer fuel m)
      = trace ++ sendingEvents ioaddr rxBuffer txBuffer (status j) := by
  have hreset : resetChip (answering ioaddr command status) ioaddr fuel m = .ok ⟨(i, j), trace ++
      [.kPrintf "Reset done.\n" [], .outb 0x0C (portOf ioaddr chipCmd),
        .kPrintf "Enable receiver and transmitter done.\n" []]⟩ := by
    rw [resetChip, h]
    simp [bind, Except.bind, pure, Except.pure, Machine.kPrintf, Machine.outb, answering]
  have htsd : entryPort ioaddr tsdArray 0 = portOf ioaddr 0x10 := rfl
  have htsad : entryPort ioaddr tsadArray 0 = portOf ioaddr 0x20 := rfl
  rw [resetAndSend, hreset]
  show eventsOf (transmit _ _ _ _ _) = _
  rw [transmit, htsd, htsad]
  simp only [Machine.inl, waitTransmit_returns _ _ hfuel]
  simp [eventsOf, sendingEvents, configure, bind, Except.bind, pure, Except.pure, Machine.kPrintf,
    Machine.outl, Machine.outw, answering]
  exact ⟨rfl, rfl⟩

/-- Every run is in the first loop, or has come to its end. -/
lemma resetAndSend_cases (fuel : ℕ) :
    ∃ polls, (∀ e ∈ polls, Quiet ioaddr e) ∧
      ((eventsOf (resetAndSend (answering ioaddr command status) ioaddr rxBuffer txBuffer fuel
          ⟨(0, 0), []⟩) = polls ∧
        ∀ m, waitReset (answering ioaddr command status) ioaddr fuel
          ⟨(0, 0), [.outb 0x10 (portOf ioaddr chipCmd)]⟩ ≠ .ok m) ∨
        ∃ n, command n &&& 0x10 = 0 ∧
          eventsOf (resetAndSend (answering ioaddr command status) ioaddr rxBuffer txBuffer fuel
            ⟨(0, 0), []⟩) = polls ++ .inb (portOf ioaddr chipCmd) (command n) ::
              sendingEvents ioaddr rxBuffer txBuffer (status 0)) := by
  obtain ⟨polls, hquiet, hrun⟩ :=
    waitReset_cases ioaddr command status fuel 0 0 [.outb 0x10 (portOf ioaddr chipCmd)]
  refine ⟨.outb 0x10 (portOf ioaddr chipCmd) :: polls, ?_, ?_⟩
  · intro e he
    rcases List.mem_cons.mp he with rfl | he
    · have hbits : (0x10 : UInt8) &&& 0x0C = 0 := rfl
      simp [Quiet, Enables, SeesTok, Reports, hbits]
    · exact hquiet e he
  · rcases hrun with ⟨i, hrun⟩ | ⟨n, hn, hrun⟩
    · refine Or.inl ⟨?_, fun m hm => ?_⟩
      · have hreset : resetChip (answering ioaddr command status) ioaddr fuel ⟨(0, 0), []⟩
            = .error ⟨(i, 0), [.outb 0x10 (portOf ioaddr chipCmd)] ++ polls⟩ := by
          rw [resetChip, Machine.outb]
          show Except.bind (waitReset (answering ioaddr command status) ioaddr fuel
            ⟨(0, 0), [.outb 0x10 (portOf ioaddr chipCmd)]⟩) _ = _
          rw [hrun]
          rfl
        rw [resetAndSend, hreset]
        rfl
      · rw [hrun] at hm
        cases hm
    · have hfuel : fuel ≠ 0 := by
        rintro rfl
        cases hrun
      refine Or.inr ⟨n, hn, ?_⟩
      have hstart : Machine.outb (answering ioaddr command status) ⟨(0, 0), []⟩ 0x10
          (portOf ioaddr chipCmd) = ⟨(0, 0), [.outb 0x10 (portOf ioaddr chipCmd)]⟩ := rfl
      rw [← hstart] at hrun
      rw [resetAndSend_of_ok ioaddr rxBuffer txBuffer command status hfuel hrun, List.append_assoc,
        List.append_assoc]
      rfl

/-! ## What the runs keep -/

variable {ioaddr rxBuffer txBuffer command status}

lemma Waits.of_quiet {trace : List Event} (h : ∀ e ∈ trace, Quiet ioaddr e) : Waits ioaddr trace :=
  ⟨OnlyAfter.of_forall_not fun e he => (h e he).1, OnlyAfter.of_forall_not fun e he => (h e he).2.2⟩

/-- **The receiver waits.**  In every run, whatever the card answers. -/
lemma enables_after_reset (fuel : ℕ) :
    OnlyAfter (SeesReset ioaddr) (Enables ioaddr) (eventsOf
      (resetAndSend (answering ioaddr command status) ioaddr rxBuffer txBuffer fuel ⟨(0, 0), []⟩)) := by
  obtain ⟨polls, hquiet, ⟨htrace, -⟩ | ⟨n, hn, htrace⟩⟩ :=
    resetAndSend_cases ioaddr rxBuffer txBuffer command status fuel
  · rw [htrace]
    exact (Waits.of_quiet hquiet).reset
  · rw [htrace, onlyAfter_append]
    refine ⟨(Waits.of_quiet hquiet).reset, Or.inr ?_⟩
    rw [onlyAfter_cons]
    exact ⟨id, Or.inl ⟨rfl, hn⟩⟩

/-- A whole run reports the transmission after the one read of the status register. -/
lemma reports_after_tok_iff {polls : List Event} (hquiet : ∀ e ∈ polls, Quiet ioaddr e)
    (value : UInt8) (transmitOk : UInt32) :
    OnlyAfter (SeesTok ioaddr) Reports (polls ++ .inb (portOf ioaddr chipCmd) value ::
        sendingEvents ioaddr rxBuffer txBuffer transmitOk) ↔
      transmitOk &&& ((1 : UInt32) <<< 15) ≠ 0 := by
  rw [onlyAfter_append_of_forall_not (fun e he => (hquiet e he).2.1) fun e he => (hquiet e he).2.2]
  simp [sendingEvents, onlyAfter_cons, onlyAfter_nil, SeesTok, Reports]

end Runs

end Nic

open Nic Trace

/-- **When the driver waits for the card.**  For all sequences of values that the command register and the
status register of the transmission show, every run of the driver enables the receiver and the transmitter
only after a read that shows the end of the reset, and reports the transmission only after a read that
shows `TOK`, iff the reset never ends, so that nothing is sent, or the first read of the status register
shows `TOK`.  The loop that is to poll this register makes no round. -/
theorem nic_waits_iff (ioaddr rxBuffer txBuffer : UInt32) (command : ℕ → UInt8) (status : ℕ → UInt32) :
    (∀ fuel, Waits ioaddr (eventsOf (resetAndSend (answering ioaddr command status) ioaddr rxBuffer
        txBuffer fuel ⟨(0, 0), []⟩))) ↔
      (∀ n, command n &&& 0x10 ≠ 0) ∨ status 0 &&& ((1 : UInt32) <<< 15) ≠ 0 := by
  constructor
  · intro h
    by_cases hstays : ∀ n, command n &&& 0x10 ≠ 0
    · exact Or.inl hstays
    · right
      obtain ⟨n, hn⟩ := not_forall_not.mp hstays
      have hn' : command (0 + n) &&& 0x10 = 0 := by rwa [Nat.zero_add]
      obtain ⟨m, hm⟩ := waitReset_ends ioaddr command status 0 [.outb 0x10 (portOf ioaddr chipCmd)] hn'
      obtain ⟨polls, hquiet, ⟨-, hnever⟩ | ⟨n', -, htrace⟩⟩ :=
        resetAndSend_cases ioaddr rxBuffer txBuffer command status (n + 1)
      · exact absurd hm (hnever m)
      · have hwaits := (h (n + 1)).transmission
        rw [htrace] at hwaits
        exact (reports_after_tok_iff hquiet _ (status 0)).mp hwaits
  · intro h fuel
    refine ⟨enables_after_reset fuel, ?_⟩
    obtain ⟨polls, hquiet, ⟨htrace, -⟩ | ⟨n, hn, htrace⟩⟩ :=
      resetAndSend_cases ioaddr rxBuffer txBuffer command status fuel
    · rw [htrace]
      exact (Waits.of_quiet hquiet).transmission
    · rcases h with hstays | htok
      · exact absurd hn (hstays n)
      · rw [htrace]
        exact (reports_after_tok_iff hquiet _ (status 0)).mpr htok

/-- A card that ends the reset at once, and whose status register shows zero: the transmission is reported
after one read. -/
theorem transmission_reported_early :
    ¬ ∀ fuel, Waits 0xc000 (eventsOf (resetAndSend (answering 0xc000 (fun _ => 0) fun _ => 0) 0xc000 0 0
        fuel ⟨(0, 0), []⟩)) := by
  intro h
  have hreports := (h 1).transmission
  revert hreports
  show ¬ OnlyAfter (SeesTok 0xc000) Reports (_ :: _ :: sendingEvents 0xc000 0 0 0)
  simp [sendingEvents, onlyAfter_cons, onlyAfter_nil, SeesTok, Reports]

end GrubKernel
