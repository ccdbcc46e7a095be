import GrubKernel.Console.Itoa
import GrubKernel.Lib.ByteMemory

/-!
# Formatted printing

`k_printf` walks over its format with one pointer and over its arguments with another.  A character goes to
`k_putchar`; a percent sign takes the next character of the format, whatever it is, and one argument.

* `PrintfCall` — the memory, the format and the words behind it; `Printf` — the variables of the function.
* `stringLoop`, `conversion`, `printfLoop`, `kPrintf` — the function.
* `Item` — a piece of a format with its argument, and what it should print.
* `Runs`, `Round` — a run to the end of the format, and one round of the loop.
* **`kPrintf_expands`** — the call prints the renderings of the items, one argument for each conversion.
-/

namespace GrubKernel

open CString Fuel

/-! ## The function -/

/-- A `char`, which is signed, as an `int`. -/
def charInt (c : UInt8) : Int32 := c.toInt8.toInt32

/-- What a call of `k_printf` gets: the memory that it reads, the pointer to the format, and the words
behind that pointer on the stack. -/
structure PrintfCall where
  mem : UInt32 → UInt8
  format : UInt32
  args : ℕ → UInt32

/-- The bytes from a pointer on. -/
def PrintfCall.from (call : PrintfCall) (p : UInt32) (i : ℕ) : UInt8 := call.mem (p + UInt32.ofNat i)

/-- The variables of `k_printf`: the number of characters of the format that it has read, the number of
arguments that it has taken, the buffer, the characters that it passed to `k_putchar`, and `vga_index`. -/
structure Printf where
  format : ℕ
  arg : ℕ
  buf : Buffer
  putchars : List Int32
  vgaIndex : UInt32

namespace Printf

/-- `k_putchar`. -/
def kPutchar (s : Printf) (c : Int32) : Printf := { s with putchars := s.putchars ++ [c] }

/-- `c = *format++`. -/
def nextChar (call : PrintfCall) (s : Printf) : Int32 × Printf :=
  (charInt (call.from call.format s.format), { s with format := s.format + 1 })

end Printf

/-- The characters that `while (*p) k_putchar(*p++)` passes on, from offset `i` on. -/
def stringLoop (p : ℕ → UInt8) : ℕ → ℕ → Option (List UInt8)
  | 0, _ => none
  | fuel + 1, i =>
      if p i ≠ 0 then (stringLoop p fuel (i + 1)).map fun chars => p i :: chars else some []

/-- `"(null)"`. -/
def nullText : List UInt8 := [40, 110, 117, 108, 108, 41]

/-- What the percent sign does: the next character of the format selects how to print the argument. -/
def conversion (call : PrintfCall) (fuel : ℕ) (s : Printf) : Option Printf :=
  let r := s.nextChar call
  let c := r.1
  let s := r.2
  let word := call.args s.arg
  let s := { s with arg := s.arg + 1 }
  if c = code 'd' ∨ c = code 'u' ∨ c = code 'x' then
    (kItoa fuel s.buf c word.toInt32).bind fun buf =>
      (stringLoop buf.bytes fuel 0).map fun chars =>
        { s with
          buf := { buf with used := max buf.used (chars.length + 1) }
          putchars := s.putchars ++ chars.map charInt }
  else if c = code 's' then
    let p := if word = 0 then fun i => nullText.getD i 0 else call.from word
    (stringLoop p fuel 0).map fun chars => { s with putchars := s.putchars ++ chars.map charInt }
  else some (s.kPutchar word.toInt32)

/-- The loop of `k_printf`. -/
def printfLoop (call : PrintfCall) : ℕ → Printf → Option Printf
  | 0, _ => none
  | fuel + 1, s =>
      let r := s.nextChar call
      if r.1 = 0 then some r.2
      else if r.1 ≠ code '%' then printfLoop call fuel (r.2.kPutchar r.1)
      else (conversion call fuel r.2).bind (printfLoop call fuel)

/-- `k_printf`, with anything in the buffer. -/
def kPrintf (call : PrintfCall) (buf : ℕ → UInt8) (vgaIndex : UInt32) (fuel : ℕ) : Option Printf :=
  printfLoop call fuel ⟨0, 0, ⟨buf, 0⟩, [], vgaIndex + 80⟩

/-- `sizeof(buf)`. -/
def bufSize : ℕ := 20

/-! ## Runs -/

/-- With enough fuel the loop ends in `t`. -/
def Runs (call : PrintfCall) (s t : Printf) : Prop := Returns (fun fuel => printfLoop call fuel s) t

/-- One round of the loop leads from `s` to `t`. -/
def Round (call : PrintfCall) (s t : Printf) : Prop :=
  ∀ᶠ fuel in Filter.atTop, printfLoop call (fuel + 1) s = printfLoop call fuel t

lemma Round.runs_iff {call : PrintfCall} {s t u : Printf} (h : Round call s t) :
    Runs call s u ↔ Runs call t u := by
  rw [Runs, ← returns_succ]
  exact returns_congr h

/-- Strings are printed to their NUL. -/
lemma stringLoop_returns {s : List UInt8} : ∀ {p : ℕ → UInt8} {i : ℕ},
    IsCString (fun k => p (i + k)) s → Returns (fun fuel => stringLoop p fuel i) s := by
  induction s with
  | nil =>
      intro p i h
      refine Returns.of_le 1 fun fuel hfuel => ?_
      obtain ⟨fuel, rfl⟩ : ∃ f, fuel = f + 1 := ⟨fuel - 1, by omega⟩
      rw [stringLoop, if_neg]
      exact not_not.mpr (isCString_nil.mp h)
  | cons c s ih =>
      intro p i h
      obtain ⟨hc, hhead, htail⟩ := isCString_from_cons.mp h
      rw [← returns_succ]
      refine (returns_congr (Filter.Eventually.of_forall fun fuel => ?_)).mpr
        ((ih htail).map fun chars => c :: chars)
      show stringLoop p (fuel + 1) i = _
      rw [stringLoop, hhead, if_pos hc]

section Rounds

variable {call : PrintfCall} {s : Printf}

/-- The loop ends at the NUL. -/
lemma runs_nul (h : call.from call.format s.format = 0) :
    Runs call s { s with format := s.format + 1 } := by
  refine Returns.of_le 1 fun fuel hfuel => ?_
  obtain ⟨fuel, rfl⟩ : ∃ f, fuel = f + 1 := ⟨fuel - 1, by omega⟩
  rw [printfLoop, Printf.nextChar, h]
  rfl

/-- A character as an `int` is NUL or the percent sign only if it is as a byte. -/
lemma charInt_inj {c : UInt8} (c' : UInt8) (h : charInt c = charInt c') : c = c' := by
  have hint := congrArg Int32.toInt8 h
  rw [charInt, charInt, Int8.toInt8_toInt32, Int8.toInt8_toInt32] at hint
  exact congrArg Int8.toUInt8 hint

/-- A round with an ordinary character. -/
lemma round_ordinary {c : UInt8} (h : call.from call.format s.format = c) (hnul : c ≠ 0) (hpercent : c ≠ 37) :
    Round call s { s with format := s.format + 1, putchars := s.putchars ++ [charInt c] } := by
  refine Filter.Eventually.of_forall fun fuel => ?_
  have hzero : charInt c ≠ 0 := fun hc => hnul (charInt_inj 0 hc)
  have hcode : charInt c ≠ code '%' := fun hc => hpercent (charInt_inj 37 hc)
  rw [printfLoop, Printf.nextChar, h]
  dsimp only
  rw [if_neg hzero, if_pos hcode]
  rfl

/-- A round with a percent sign. -/
lemma round_percent {t : Printf} (h : call.from call.format s.format = 37)
    (hconv : Returns (fun fuel => conversion call fuel { s with format := s.format + 1 }) t) :
    Round call s t := by
  filter_upwards [hconv] with fuel hsome
  rw [printfLoop, Printf.nextChar, h]
  dsimp only
  rw [if_neg (by decide), if_neg (show ¬ charInt 37 ≠ code '%' by decide), hsome, Option.bind_some]

end Rounds

/-! ## Items -/

/-- A piece of a format together with its argument: an ordinary character, `%d`, `%u` or `%x` with a number,
`%s` with a string or `NULL`, and `%c` with a character. -/
inductive Item
  | ordinary (c : UInt8) (noNul : c ≠ 0) (noPercent : c ≠ 37)
  | number (base : NumberBase) (n : Int32)
  | string (text : Option (List UInt8))
  | character (c : Int32)

/-- The letter of a base. -/
def NumberBase.letter : NumberBase → UInt8
  | d => 100
  | u => 117
  | x => 120

namespace Item

/-- The characters of an item in the format. -/
def format : Item → List UInt8
  | ordinary c _ _ => [c]
  | number base _ => [37, base.letter]
  | string _ => [37, 115]
  | character _ => [37, 99]

/-- The number of arguments of an item. -/
def arity : Item → ℕ
  | ordinary _ _ _ => 0
  | _ => 1

/-- What an item should print. -/
def rendering : Item → List Int32
  | ordinary c _ _ => [charInt c]
  | number base n => (base.rendering n).map charInt
  | string none => nullText.map charInt
  | string (some text) => text.map charInt
  | character c => [c]

/-- A word of the stack is the argument of an item. -/
def Passes (call : PrintfCall) (word : UInt32) : Item → Prop
  | ordinary _ _ _ => True
  | number _ n => word.toInt32 = n
  | string none => word = 0
  | string (some text) => word ≠ 0 ∧ IsCString (call.from word) text
  | character c => word.toInt32 = c

end Item

/-- The words of the stack from a position on are the arguments of the items. -/
def Passed (call : PrintfCall) : ℕ → List Item → Prop
  | _, [] => True
  | k, item :: items => item.Passes call (call.args k) ∧ Passed call (k + item.arity) items

/-! ## One item -/

section Conversions

variable {call : PrintfCall} {s : Printf} {c : UInt8}

/-- A conversion of a number. -/
lemma conversion_number (base : NumberBase) (h : call.from call.format s.format = base.letter) :
    ∃ buf : Buffer, buf.used ≤ max s.buf.used 12 ∧
      Returns (fun fuel => conversion call fuel s)
        { s with
          format := s.format + 1
          arg := s.arg + 1
          buf := buf
          putchars := s.putchars ++ (base.rendering (call.args s.arg).toInt32).map charInt } := by
  have hchar : charInt base.letter = base.char := by
    cases base <;> decide
  have hbase : base.char = code 'd' ∨ base.char = code 'u' ∨ base.char = code 'x' := by
    cases base <;> decide
  obtain ⟨buf, hitoa, hstring, hused⟩ := kItoa_spec s.buf base (call.args s.arg).toInt32
  have hlen := base.length_rendering_le (call.args s.arg).toInt32
  have hchars : Returns (fun fuel => stringLoop buf.bytes fuel 0)
      (base.rendering (call.args s.arg).toInt32) :=
    stringLoop_returns (by simpa only [Nat.zero_add] using hstring)
  refine ⟨⟨buf.bytes, max buf.used ((base.rendering (call.args s.arg).toInt32).length + 1)⟩, ?_, ?_⟩
  · show max buf.used _ ≤ _
    omega
  · simp only [conversion, Printf.nextChar, h, hchar, if_pos hbase]
    exact hitoa.bind (hchars.map _)

/-- A conversion of a string, or of `NULL`. -/
lemma conversion_string (h : call.from call.format s.format = 115) (text : List UInt8)
    (htext : if call.args s.arg = 0 then text = nullText else IsCString (call.from (call.args s.arg)) text) :
    Returns (fun fuel => conversion call fuel s)
      { s with
        format := s.format + 1
        arg := s.arg + 1
        putchars := s.putchars ++ text.map charInt } := by
  have hnumber : ¬ (charInt 115 = code 'd' ∨ charInt 115 = code 'u' ∨ charInt 115 = code 'x') := by decide
  have hstring : charInt 115 = code 's' := by decide
  simp only [conversion, Printf.nextChar, h, if_neg hnumber, if_pos hstring]
  have hchars : Returns (fun fuel => stringLoop (if call.args s.arg = 0 then fun i => nullText.getD i 0
      else call.from (call.args s.arg)) fuel 0) text := by
    refine stringLoop_returns ?_
    simp only [Nat.zero_add]
    split_ifs at htext ⊢ with hnull
    · rw [htext]
      exact ⟨by decide, by decide, by decide⟩
    · exact htext
  exact hchars.map _

/-- Any other conversion prints its argument as a character. -/
lemma conversion_other (h : call.from call.format s.format = c)
    (hother : c ≠ 100 ∧ c ≠ 117 ∧ c ≠ 120 ∧ c ≠ 115) :
    Returns (fun fuel => conversion call fuel s)
      { s with
        format := s.format + 1
        arg := s.arg + 1
        putchars := s.putchars ++ [(call.args s.arg).toInt32] } := by
  obtain ⟨hd, hu, hx, hs⟩ := hother
  have hnumber : ¬ (charInt c = code 'd' ∨ charInt c = code 'u' ∨ charInt c = code 'x') := by
    rintro (hc | hc | hc)
    · exact hd (charInt_inj 100 hc)
    · exact hu (charInt_inj 117 hc)
    · exact hx (charInt_inj 120 hc)
  have hstring : charInt c ≠ code 's' := fun hc => hs (charInt_inj 115 hc)
  refine Returns.of_le 0 fun fuel _ => ?_
  simp only [conversion, Printf.nextChar, h]
  rw [if_neg hnumber, if_neg hstring]
  rfl

end Conversions

/-- The state after an item, but for the buffer. -/
structure AfterItem (s t : Printf) (item : Item) : Prop where
  format : t.format = s.format + item.format.length
  arg : t.arg = s.arg + item.arity
  putchars : t.putchars = s.putchars ++ item.rendering
  used : t.buf.used ≤ max s.buf.used 12

/-- **One round prints one item.** -/
lemma round_item {call : PrintfCall} {s : Printf} (item : Item)
    (hformat : ∀ i (h : i < item.format.length), call.from call.format (s.format + i) = item.format[i])
    (hpasses : item.Passes call (call.args s.arg)) :
    ∃ t, Round call s t ∧ AfterItem s t item := by
  cases item with
  | ordinary c noNul noPercent =>
      exact ⟨_, round_ordinary (hformat 0 (by simp [Item.format])) noNul noPercent, rfl, rfl, rfl,
        le_max_left _ _⟩
  | number base n =>
      obtain ⟨buf, hused, hconv⟩ := conversion_number (s := { s with format := s.format + 1 }) base
        (hformat 1 (by simp [Item.format]))
      refine ⟨_, round_percent (hformat 0 (by simp [Item.format])) hconv, rfl, rfl, ?_, hused⟩
      obtain rfl : (call.args s.arg).toInt32 = n := hpasses
      rfl
  | string text =>
      cases text with
      | none =>
          have hnull : call.args s.arg = 0 := hpasses
          have hconv := conversion_string (s := { s with format := s.format + 1 })
            (hformat 1 (by simp [Item.format])) nullText (by rw [if_pos hnull])
          exact ⟨_, round_percent (hformat 0 (by simp [Item.format])) hconv, rfl, rfl, rfl,
            le_max_left _ _⟩
      | some text =>
          obtain ⟨hnull, htext⟩ := hpasses
          have hconv := conversion_string (s := { s with format := s.format + 1 })
            (hformat 1 (by simp [Item.format])) text (by rw [if_neg hnull]; exact htext)
          exact ⟨_, round_percent (hformat 0 (by simp [Item.format])) hconv, rfl, rfl, rfl,
            le_max_left _ _⟩
  | character c =>
      have hconv := conversion_other (s := { s with format := s.format + 1 }) (c := 99)
        (hformat 1 (by simp [Item.format])) (by decide)
      refine ⟨_, round_percent (hformat 0 (by simp [Item.format])) hconv, rfl, rfl, ?_, le_max_left _ _⟩
      obtain rfl : (call.args s.arg).toInt32 = c := hpasses
      rfl

/-- The rounds for a list of items, and the end. -/
lemma runs_items {call : PrintfCall} (items : List Item) : ∀ {s : Printf},
    IsCString (fun i => call.from call.format (s.format + i)) (items.flatMap Item.format) →
    Passed call s.arg items →
    ∃ t, Runs call s t ∧ t.putchars = s.putchars ++ items.flatMap Item.rendering ∧
      t.arg = s.arg + (items.map Item.arity).sum ∧ t.buf.used ≤ max s.buf.used 12 := by
  induction items with
  | nil =>
      intro s hformat _
      refine ⟨_, runs_nul ?_, ?_, rfl, le_max_left _ _⟩
      · exact isCString_nil.mp hformat
      · rw [List.flatMap_nil, List.append_nil]
  | cons item items ih =>
      intro s hformat hargs
      rw [List.flatMap_cons] at hformat
      obtain ⟨hitem, hrest⟩ := hformat.of_append
      obtain ⟨t, hround, ht⟩ := round_item item hitem hargs.1
      have hformat' : IsCString (fun i => call.from call.format (t.format + i))
          (items.flatMap Item.format) := by
        simpa only [ht.format, Nat.add_assoc] using hrest
      have hargs' : Passed call t.arg items := by
        rw [ht.arg]
        exact hargs.2
      obtain ⟨u, hruns, hchars, hcount, hused⟩ := ih hformat' hargs'
      refine ⟨u, hround.runs_iff.mpr hruns, ?_, ?_, ?_⟩
      · rw [hchars, ht.putchars, List.append_assoc, List.flatMap_cons]
      · rw [hcount, ht.arg, Nat.add_assoc, List.map_cons, List.sum_cons]
      · have hused₀ := ht.used
        omega

/-- **`k_printf` expands any number of conversions.**  For every format that is made of ordinary characters
and conversions, with the matching words behind the format on the stack: the call returns, it passes to
`k_putchar` exactly the ordinary characters and the renderings of the arguments, in order, it takes one
argument for each conversion, and it stays inside its buffer. -/
theorem kPrintf_expands (call : PrintfCall) (items : List Item)
    (hformat : IsCString (call.from call.format) (items.flatMap Item.format)) (hargs : Passed call 0 items)
    (buf : ℕ → UInt8) (vgaIndex : UInt32) :
    ∃ t, Returns (kPrintf call buf vgaIndex) t ∧ t.putchars = items.flatMap Item.rendering ∧
      t.arg = (items.map Item.arity).sum ∧ t.buf.used ≤ bufSize := by
  have hstart : IsCString (fun i => call.from call.format (0 + i)) (items.flatMap Item.format) := by
    simpa only [Nat.zero_add] using hformat
  obtain ⟨t, hruns, hchars, hcount, hused⟩ :=
    runs_items items (s := ⟨0, 0, ⟨buf, 0⟩, [], vgaIndex + 80⟩) hstart hargs
  refine ⟨t, hruns, hchars, ?_, ?_⟩
  · rw [hcount, Nat.zero_add]
  · show _ ≤ 20
    exact hused.trans (by show max 0 12 ≤ 20; decide)

/-- `"%d: %s"` with `-7` and `NULL`. -/
theorem kPrintf_expands_example :
    let call : PrintfCall := ⟨ByteMemory.memOf 4096 [37, 100, 58, 32, 37, 115, 0], 4096,
      fun i => if i = 0 then -7 else 0⟩
    ∃ t, Returns (kPrintf call (fun _ => 0xCC) 0) t ∧
      t.putchars = [45, 55, 58, 32, 40, 110, 117, 108, 108, 41] ∧ t.arg = 2 ∧ t.buf.used ≤ bufSize := by
  intro call
  exact kPrintf_expands call [.number .d (-7), .ordinary 58 (by decide) (by decide),
    .ordinary 32 (by decide) (by decide), .string none] ⟨by decide, by decide, by decide⟩
    ⟨rfl, trivial, trivial, rfl, trivial⟩ (fun _ => 0xCC) 0

end GrubKernel
