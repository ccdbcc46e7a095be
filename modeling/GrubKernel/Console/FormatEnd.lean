import GrubKernel.Console.Printf

/-!
# The end of the format

The loop of `k_printf` tests the characters that it reads for NUL, but not the one that it reads after a
percent sign.  A percent sign at the end of the format takes the NUL as the letter of a conversion, and the
loop goes on behind it.

* `PercentsPaired` — every percent sign has a character behind it.
* `conversion_returns` — a conversion returns, whatever its letter and its argument.
* **`kPrintf_stays_iff`** — the call returns, with no byte read behind the NUL, iff the percent signs are
  paired.
-/

namespace GrubKernel

open CString Fuel

/-- Every percent sign that is not itself the letter of a conversion has a character behind it. -/
def PercentsPaired : List UInt8 → Prop
  | [] => True
  | [c] => c ≠ 37
  | c :: letter :: s => if c = 37 then PercentsPaired s else PercentsPaired (letter :: s)

/-- A format that begins with an ordinary character. -/
lemma percentsPaired_cons {c : UInt8} (h : c ≠ 37) (s : List UInt8) :
    PercentsPaired (c :: s) ↔ PercentsPaired s := by
  cases s with
  | nil => exact iff_of_true h trivial
  | cons letter s => rw [PercentsPaired, if_neg h]

section Reads

variable {call : PrintfCall} {s t : Printf}

/-- A conversion reads its letter. -/
lemma conversion_reads {fuel : ℕ} (h : conversion call fuel s = some t) : t.format = s.format + 1 := by
  obtain ⟨c, hc⟩ : ∃ c, call.from call.format s.format = c := ⟨_, rfl⟩
  simp only [conversion, Printf.nextChar, hc] at h
  by_cases hnumber : charInt c = code 'd' ∨ charInt c = code 'u' ∨ charInt c = code 'x'
  · rw [if_pos hnumber] at h
    obtain ⟨buf, -, hmap⟩ := Option.bind_eq_some_iff.mp h
    obtain ⟨chars, -, rfl⟩ := Option.map_eq_some_iff.mp hmap
    rfl
  · rw [if_neg hnumber] at h
    by_cases hstring : charInt c = code 's'
    · rw [if_pos hstring] at h
      obtain ⟨chars, -, rfl⟩ := Option.map_eq_some_iff.mp h
      rfl
    · rw [if_neg hstring] at h
      obtain rfl := Option.some_inj.mp h
      rfl

/-- The loop reads at least one character. -/
lemma printfLoop_reads (fuel : ℕ) : ∀ {s : Printf}, printfLoop call fuel s = some t →
    s.format < t.format := by
  induction fuel with
  | zero =>
      intro s h
      exact absurd h.symm (Option.some_ne_none t)
  | succ fuel ih =>
      intro s h
      obtain ⟨c, hc⟩ : ∃ c, call.from call.format s.format = c := ⟨_, rfl⟩
      simp only [printfLoop, Printf.nextChar, hc] at h
      by_cases hnul : charInt c = 0
      · rw [if_pos hnul] at h
        obtain rfl := Option.some_inj.mp h
        exact Nat.lt_succ_self _
      · rw [if_neg hnul] at h
        by_cases hordinary : charInt c ≠ code '%'
        · rw [if_pos hordinary] at h
          exact (Nat.lt_succ_self _).trans (ih h)
        · rw [if_neg hordinary] at h
          obtain ⟨u, hconv, hrest⟩ := Option.bind_eq_some_iff.mp h
          have hletter := conversion_reads hconv
          have hlater := ih hrest
          dsimp only at hletter
          omega

lemma Runs.reads (h : Runs call s t) : s.format < t.format := by
  obtain ⟨fuel, hsome⟩ := h.exists
  exact printfLoop_reads fuel hsome

/-- A conversion returns: where there is a NUL somewhere, every pointer points to a string. -/
lemma conversion_returns (hnul : ∀ p, ∃ i, call.from p i = 0) (s : Printf) :
    ∃ t, Returns (fun fuel => conversion call fuel s) t ∧ t.format = s.format + 1 := by
  obtain ⟨c, hc⟩ : ∃ c, call.from call.format s.format = c := ⟨_, rfl⟩
  by_cases hd : c = 100
  · obtain ⟨buf, -, hconv⟩ := conversion_number (s := s) .d (hc.trans hd)
    exact ⟨_, hconv, rfl⟩
  · by_cases hu : c = 117
    · obtain ⟨buf, -, hconv⟩ := conversion_number (s := s) .u (hc.trans hu)
      exact ⟨_, hconv, rfl⟩
    · by_cases hx : c = 120
      · obtain ⟨buf, -, hconv⟩ := conversion_number (s := s) .x (hc.trans hx)
        exact ⟨_, hconv, rfl⟩
      · by_cases hs : c = 115
        · obtain ⟨i, hi⟩ := hnul (call.args s.arg)
          obtain ⟨text, htext⟩ := exists_isCString i _ hi
          by_cases hnull : call.args s.arg = 0
          · exact ⟨_, conversion_string (hc.trans hs) nullText (by rw [if_pos hnull]), rfl⟩
          · exact ⟨_, conversion_string (hc.trans hs) text (by rw [if_neg hnull]; exact htext), rfl⟩
        · exact ⟨_, conversion_other hc ⟨hd, hu, hx, hs⟩, rfl⟩

/-- A round that begins with a percent sign reads two characters. -/
lemma exists_round_percent (hnul : ∀ p, ∃ i, call.from p i = 0)
    (h : call.from call.format s.format = 37) : ∃ t, Round call s t ∧ t.format = s.format + 2 := by
  obtain ⟨t, hconv, hreads⟩ := conversion_returns hnul { s with format := s.format + 1 }
  exact ⟨t, round_percent h hconv, hreads⟩

/-- The loop stays inside a format: it ends, and the last character that it reads is the NUL. -/
def Stays (call : PrintfCall) (s : Printf) (format : List UInt8) : Prop :=
  ∃ t, Runs call s t ∧ t.format ≤ s.format + format.length + 1

/-- A round that reads the first characters of a format. -/
lemma Round.stays_iff (h : Round call s t) {n : ℕ} (hreads : t.format = s.format + n) {format : List UInt8}
    (rest : List UInt8) (hlen : format.length = n + rest.length) :
    Stays call s format ↔ Stays call t rest := by
  refine exists_congr fun u => and_congr h.runs_iff ?_
  rw [hreads, hlen]
  omega

/-- **The run from any position of the format.** -/
lemma stays_iff (hnul : ∀ p, ∃ i, call.from p i = 0) (format : List UInt8) : ∀ s : Printf,
    IsCString (fun i => call.from call.format (s.format + i)) format →
    (Stays call s format ↔ PercentsPaired format) := by
  induction format using PercentsPaired.induct with
  | case1 =>
      intro s h
      exact iff_of_true ⟨_, runs_nul (isCString_nil.mp h), le_rfl⟩ trivial
  | case2 c =>
      intro s h
      obtain ⟨hc, hhead, htail⟩ := isCString_from_cons.mp h
      by_cases hpercent : c = 37
      · -- the NUL is the letter of the conversion, and the loop goes on behind it
        obtain ⟨t, hround, hreads⟩ := exists_round_percent hnul (hhead.trans hpercent)
        refine iff_of_false ?_ fun hpaired => hpaired hpercent
        rintro ⟨u, hruns, hstays⟩
        have hlater := (hround.runs_iff.mp hruns).reads
        rw [List.length_singleton] at hstays
        omega
      · have hround := round_ordinary hhead hc hpercent
        rw [percentsPaired_cons hpercent, hround.stays_iff rfl [] rfl]
        exact iff_of_true ⟨_, runs_nul (isCString_nil.mp htail), le_rfl⟩ trivial
  | case3 letter rest ih =>
      intro s h
      obtain ⟨-, hhead, htail⟩ := isCString_from_cons.mp h
      obtain ⟨-, -, hrest⟩ := isCString_from_cons.mp htail
      obtain ⟨t, hround, hreads⟩ := exists_round_percent hnul hhead
      rw [PercentsPaired, if_pos rfl, hround.stays_iff hreads rest (by simp; omega)]
      refine ih t ?_
      rw [hreads]
      exact hrest
  | case4 c letter rest hpercent ih =>
      intro s h
      obtain ⟨hc, hhead, htail⟩ := isCString_from_cons.mp h
      have hround := round_ordinary hhead hc hpercent
      rw [percentsPaired_cons hpercent, hround.stays_iff rfl (letter :: rest) (by simp; omega)]
      exact ih _ htail

end Reads

/-- The NUL of the format lies behind every pointer: the addresses wrap. -/
lemma exists_nul {call : PrintfCall} {format : List UInt8} (h : IsCString (call.from call.format) format)
    (p : UInt32) : ∃ i, call.from p i = 0 := by
  refine ⟨(call.format + UInt32.ofNat format.length - p).toNat, ?_⟩
  rw [PrintfCall.from, UInt32.ofNat_toNat, UInt32.add_comm, UInt32.sub_add_cancel]
  exact h.nul

/-- **When `k_printf` stays inside its format.**  For every format, whatever the arguments and the memory
around it: the call returns and reads no byte of the format behind its NUL iff every percent sign that is
not itself the letter of a conversion has a character behind it. -/
theorem kPrintf_stays_iff (call : PrintfCall) {format : List UInt8}
    (h : IsCString (call.from call.format) format) (buf : ℕ → UInt8) (vgaIndex : UInt32) :
    (∃ t, Returns (kPrintf call buf vgaIndex) t ∧ t.format ≤ format.length + 1) ↔
      PercentsPaired format := by
  have hstart : IsCString (fun i => call.from call.format (0 + i)) format := by
    simpa only [Nat.zero_add] using h
  have hrun := stays_iff (exists_nul h) format ⟨0, 0, ⟨buf, 0⟩, [], vgaIndex + 80⟩ hstart
  simp only [Stays, Nat.zero_add] at hrun
  exact hrun

/-- `"100%%"` is read to its NUL. -/
theorem kPrintf_stays_paired :
    let call : PrintfCall := ⟨ByteMemory.memOf 4096 [49, 48, 48, 37, 37, 0], 4096, fun _ => 0⟩
    ∃ t, Returns (kPrintf call (fun _ => 0) 0) t ∧ t.format ≤ 6 := by
  intro call
  have hformat : IsCString (call.from call.format) [49, 48, 48, 37, 37] :=
    ⟨by decide, by decide, by decide⟩
  refine (kPrintf_stays_iff call hformat (fun _ => 0) 0).mpr ?_
  simp [PercentsPaired]

/-- `"%"` is not: the loop goes on with the byte behind the NUL. -/
theorem kPrintf_leaves_format :
    let call : PrintfCall := ⟨ByteMemory.memOf 4096 [37, 0, 65, 0], 4096, fun _ => 0⟩
    ¬ ∃ t, Returns (kPrintf call (fun _ => 0) 0) t ∧ t.format ≤ 2 := by
  rintro call ⟨t, hruns, hstays⟩
  have hformat : IsCString (call.from call.format) [37] := ⟨by decide, by decide, by decide⟩
  obtain ⟨u, hround, hreads⟩ := exists_round_percent (s := ⟨0, 0, ⟨fun _ => 0, 0⟩, [], 80⟩)
    (exists_nul hformat) (by decide)
  have hlater := (hround.runs_iff.mp hruns).reads
  rw [hreads] at hlater
  exact absurd hstays (Nat.not_le.mpr hlater)

end GrubKernel
