import GrubKernel.Console.Printf
import GrubKernel.Lib.Loop
import GrubKernel.Lib.TextPage

/-!
# The screen

`k_putchar` writes a character and an attribute to the video memory at the cursor.  The cursor goes to the
next row after a line break and after the last column, and from the last row to the first one; nothing
scrolls and no row is cleared.  So the screen is an endless page rolled onto a cylinder of 24 rows.

* `Screen` — the memory and the variables; `kCls`, `kPutchar` — the functions.
* `printAll` — calls of `k_printf`, one after the other.
* `Holds` — the invariant: the screen shows the lines written so far, and the cursor is behind them.
* **`kPutchar_rolls`** — what any run of `k_putchar` shows.
* **`kPrintf_rolls`** — what any run of `k_printf` shows.
-/

namespace GrubKernel

open Fuel Loop TextPage

/-! ## The functions -/

/-- `COLUMNS`. -/
def columns : ℤ := 80

/-- `LINES`. -/
def screenLines : ℤ := 24

/-- `ATTRIBUTE`. -/
def charAttribute : UInt8 := 7

/-- `VIDEO`. -/
def videoAddress : UInt32 := 0xB8000

/-- The memory, and the variables of the screen: the video memory, the cursor and `vga_index`. -/
structure Screen where
  mem : UInt32 → UInt8
  video : UInt32
  xpos : ℤ
  ypos : ℤ
  vgaIndex : UInt32

namespace Screen

/-- `k_cls`. -/
def kCls (s : Screen) : Screen :=
  { s with
    video := videoAddress
    mem := fill (80 * 24 * 2) (fun i => videoAddress + UInt32.ofNat i) (fun _ => 0) s.mem
    xpos := 0
    ypos := 0 }

/-- The part of `k_putchar` behind the label `newline`. -/
def newline (s : Screen) : Screen :=
  let s := { s with xpos := 0, ypos := s.ypos + 1 }
  if s.ypos ≥ screenLines then { s with ypos := 0 } else s

/-- `k_putchar`. -/
def kPutchar (s : Screen) (c : Int32) : Screen :=
  if c = code '\n' ∨ c = code '\r' then s.newline
  else
    let mem := Function.update s.mem (s.video + UInt32.ofInt ((s.xpos + s.ypos * columns) * 2))
      (c &&& 0xFF).toUInt32.toUInt8
    let mem := Function.update mem (s.video + UInt32.ofInt ((s.xpos + s.ypos * columns) * 2 + 1))
      charAttribute
    let s := { s with mem, xpos := s.xpos + 1 }
    if s.xpos ≥ columns then s.newline else s

/-- Characters, one after the other. -/
def putAll (s : Screen) (chars : List Int32) : Screen := chars.foldl kPutchar s

/-- `k_printf` on the screen, with anything in its buffer.  What it reads lies outside the video memory. -/
def printf (s : Screen) (call : PrintfCall) (buf : ℕ → UInt8) (fuel : ℕ) : Option Screen :=
  (kPrintf call buf s.vgaIndex fuel).map fun t =>
    { s.putAll t.putchars with vgaIndex := t.vgaIndex }

/-- Calls of `k_printf`, one after the other. -/
def printAll : List (PrintfCall × (ℕ → UInt8)) → ℕ → Screen → Option Screen
  | [], _, s => some s
  | c :: calls, fuel, s => (s.printf c.1 c.2 fuel).bind (printAll calls fuel)

end Screen

/-! ## What the screen shows -/

/-- What a character is to the screen: a line break, or the byte that it writes. -/
def glyph (c : Int32) : Option UInt8 :=
  if c = code '\n' ∨ c = code '\r' then none else some (c &&& 0xFF).toUInt32.toUInt8

/-- The lines of a text. -/
def pageOf (chars : List Int32) : List (List UInt8) := lines 80 [] (chars.map glyph)

/-- The two bytes of a cell that shows a character, or was cleared. -/
def cellOf : Option UInt8 → UInt8 × UInt8
  | some c => (c, charAttribute)
  | none => (0, 0)

namespace Screen

/-- A cell of the video memory. -/
def cell (s : Screen) (row column : ℕ) : UInt8 × UInt8 :=
  (s.mem (videoAddress + UInt32.ofNat ((column + row * 80) * 2)),
    s.mem (videoAddress + UInt32.ofNat ((column + row * 80) * 2 + 1)))

/-- The screen shows a text, and the memory outside the screen is that of `s₀`. -/
structure Shows (s₀ s : Screen) (chars : List Int32) : Prop where
  cells : ∀ row < 24, ∀ column < 80, s.cell row column = cellOf (rolled 24 (pageOf chars) row column)
  recent : ∀ n (hn : n < (pageOf chars).length), (pageOf chars).length ≤ n + 24 →
    ∀ column (hc : column < (pageOf chars)[n].length),
      s.cell (n % 24) column = ((pageOf chars)[n][column], charAttribute)
  outside : ∀ a : UInt32, ¬ (0xB8000 ≤ a.toNat ∧ a.toNat < 0xB8000 + 3840) → s.mem a = s₀.mem a

/-! ## The invariant -/

/-- The screen shows the lines that are done and the current one, and the cursor is behind them. -/
structure Holds (s₀ s : Screen) (done : List (List UInt8)) (current : List UInt8) : Prop where
  video : s.video = videoAddress
  xpos : s.xpos = current.length
  ypos : s.ypos = (done.length % 24 : ℕ)
  cells : ∀ row < 24, ∀ column < 80,
    s.cell row column = cellOf (rolled 24 (done ++ [current]) row column)
  outside : ∀ a : UInt32, ¬ (0xB8000 ≤ a.toNat ∧ a.toNat < 0xB8000 + 3840) → s.mem a = s₀.mem a

/-- The bytes of the screen lie apart. -/
lemma toNat_videoAddress_add {i : ℕ} (hi : i < 3840) :
    (videoAddress + UInt32.ofNat i).toNat = 0xB8000 + i := by
  have hbase : videoAddress.toNat = 0xB8000 := rfl
  rw [UInt32.toNat_add, hbase, UInt32.toNat_ofNat']
  omega

lemma videoAddress_add_inj {i j : ℕ} (hi : i < 3840) (hj : j < 3840) :
    videoAddress + UInt32.ofNat i = videoAddress + UInt32.ofNat j ↔ i = j := by
  rw [← UInt32.toNat_inj, toNat_videoAddress_add hi, toNat_videoAddress_add hj]
  omega

/-- `k_cls` leaves an empty page. -/
lemma holds_kCls (s : Screen) : Holds s s.kCls [] [] := by
  have hclear : ∀ i < 3840, s.kCls.mem (videoAddress + UInt32.ofNat i) = 0 := fun i hi =>
    fill_at (f := fun i => videoAddress + UInt32.ofNat i) hi
      fun j hj heq => (videoAddress_add_inj hj hi).mp heq
  refine ⟨rfl, rfl, rfl, fun row hrow column hcolumn => ?_, fun a ha => ?_⟩
  · rw [rolled_break, rolled_nil, cell, hclear _ (by omega), hclear _ (by omega)]
    rfl
  · refine fill_off fun i hi heq => ha ?_
    rw [← heq, toNat_videoAddress_add hi]
    omega

variable {s₀ s : Screen} {done : List (List UInt8)} {current : List UInt8}

/-- A line break. -/
lemma Holds.newline (h : Holds s₀ s done current) : Holds s₀ s.newline (done ++ [current]) [] := by
  have hmem : s.newline.mem = s.mem := by
    unfold Screen.newline
    dsimp only
    split_ifs
    · rfl
    · rfl
  have hcell : ∀ row column, s.newline.cell row column = s.cell row column := by
    intro row column
    rw [cell, cell, hmem]
  have hypos : s.newline.ypos = ((done ++ [current]).length % 24 : ℕ) := by
    have hy := h.ypos
    rw [List.length_append, List.length_singleton]
    unfold Screen.newline screenLines
    dsimp only
    split_ifs
    · dsimp only
      omega
    · dsimp only
      omega
  refine ⟨?_, ?_, hypos, fun row hrow column hcolumn => ?_, fun a ha => ?_⟩
  · rw [← h.video]
    unfold Screen.newline
    dsimp only
    split_ifs
    · rfl
    · rfl
  · unfold Screen.newline
    dsimp only
    split_ifs
    · rfl
    · rfl
  · rw [hcell, rolled_break]
    exact h.cells row hrow column hcolumn
  · rw [hmem]
    exact h.outside a ha

/-- The two writes of a character. -/
def write (s : Screen) (i : ℕ) (b : UInt8) : UInt32 → UInt8 :=
  Function.update (Function.update s.mem (videoAddress + UInt32.ofNat (i * 2)) b)
    (videoAddress + UInt32.ofNat (i * 2 + 1)) charAttribute

/-- A character is written to one cell. -/
lemma cell_write {i : ℕ} (hi : i < 1920) (b : UInt8) {row column : ℕ} (hrow : row < 24)
    (hcolumn : column < 80) {t : Screen} (ht : t.mem = s.write i b) :
    t.cell row column = if column + row * 80 = i then (b, charAttribute) else s.cell row column := by
  have hplace : column + row * 80 < 1920 := by omega
  unfold cell
  rw [ht, write]
  split_ifs with hsame
  · rw [hsame, Function.update_self, Function.update_of_ne, Function.update_self]
    rw [Ne, videoAddress_add_inj (by omega) (by omega)]
    omega
  · have hne : ∀ x y : ℕ, x < 3840 → y < 3840 → x ≠ y →
        videoAddress + UInt32.ofNat x ≠ videoAddress + UInt32.ofNat y := by
      intro x y hx hy hxy
      rwa [Ne, videoAddress_add_inj hx hy]
    rw [Function.update_of_ne (hne _ _ (by omega) (by omega) (by omega)),
      Function.update_of_ne (hne _ _ (by omega) (by omega) (by omega)),
      Function.update_of_ne (hne _ _ (by omega) (by omega) (by omega)),
      Function.update_of_ne (hne _ _ (by omega) (by omega) (by omega))]

/-- Two writes to the screen leave the rest of the memory. -/
lemma write_outside {i : ℕ} (hi : i < 1920) (b : UInt8) {a : UInt32}
    (ha : ¬ (0xB8000 ≤ a.toNat ∧ a.toNat < 0xB8000 + 3840)) : s.write i b a = s.mem a := by
  have hne : ∀ x < 3840, a ≠ videoAddress + UInt32.ofNat x := by
    intro x hx heq
    apply ha
    rw [heq, toNat_videoAddress_add hx]
    omega
  rw [write, Function.update_of_ne (hne _ (by omega)), Function.update_of_ne (hne _ (by omega))]

/-- A character, before the cursor may have to go to the next row. -/
lemma Holds.put (h : Holds s₀ s done current) (hroom : current.length < 80) (b : UInt8) {t : Screen}
    (hvideo : t.video = s.video) (hmem : t.mem = s.write (current.length + done.length % 24 * 80) b)
    (hx : t.xpos = s.xpos + 1) (hy : t.ypos = s.ypos) : Holds s₀ t done (current ++ [b]) := by
  have hplace : current.length + done.length % 24 * 80 < 1920 := by omega
  refine ⟨hvideo.trans h.video, ?_, hy.trans h.ypos, fun row hrow column hcolumn => ?_, fun a ha => ?_⟩
  · rw [hx, h.xpos, List.length_append, List.length_singleton]
    rfl
  · rw [cell_write hplace b hrow hcolumn hmem, rolled_put, h.cells row hrow column hcolumn]
    have hsame : column + row * 80 = current.length + done.length % 24 * 80 ↔
        row = done.length % 24 ∧ column = current.length := by omega
    by_cases hcell : row = done.length % 24 ∧ column = current.length
    · rw [if_pos (hsame.mpr hcell), if_pos hcell]
      rfl
    · rw [if_neg fun heq => hcell (hsame.mp heq), if_neg hcell]
  · rw [hmem, write_outside hplace b ha]
    exact h.outside a ha

/-- The address that the code computes. -/
lemma ofInt_place (column row : ℕ) (k : ℕ) :
    UInt32.ofInt (((column : ℤ) + (row : ℕ) * columns) * 2 + k)
      = UInt32.ofNat ((column + row * 80) * 2 + k) := by
  have hcast : ((column : ℤ) + (row : ℕ) * columns) * 2 + k = (((column + row * 80) * 2 + k : ℕ) : ℤ) := by
    unfold columns
    push_cast
    ring
  rw [hcast, UInt32.ofInt, ← UInt32.toNat_inj, UInt32.toNat_ofNat', UInt32.toNat_ofNat']
  omega

/-- **One character**: a line break, a character, or a character in the last column. -/
lemma Holds.kPutchar (h : Holds s₀ s done current) (hroom : current.length < 80) (c : Int32) :
    match glyph c with
    | none => Holds s₀ (s.kPutchar c) (done ++ [current]) []
    | some b =>
        if current.length + 1 < 80 then Holds s₀ (s.kPutchar c) done (current ++ [b])
        else Holds s₀ (s.kPutchar c) (done ++ [current ++ [b]]) [] := by
  unfold glyph Screen.kPutchar
  by_cases hbreak : c = code '\n' ∨ c = code '\r'
  · rw [if_pos hbreak, if_pos hbreak]
    exact h.newline
  · rw [if_neg hbreak, if_neg hbreak]
    dsimp only
    have hfirst := ofInt_place current.length (done.length % 24) 0
    have hsecond := ofInt_place current.length (done.length % 24) 1
    rw [Nat.cast_zero, add_zero, Nat.add_zero] at hfirst
    rw [Nat.cast_one] at hsecond
    have hput := h.put (t := { s with
      mem := s.write (current.length + done.length % 24 * 80) (c &&& 0xFF).toUInt32.toUInt8
      xpos := s.xpos + 1 }) hroom (c &&& 0xFF).toUInt32.toUInt8 rfl rfl rfl rfl
    have hmem : Function.update
        (Function.update s.mem (s.video + UInt32.ofInt ((s.xpos + s.ypos * columns) * 2))
          (c &&& 0xFF).toUInt32.toUInt8)
        (s.video + UInt32.ofInt ((s.xpos + s.ypos * columns) * 2 + 1)) charAttribute
        = s.write (current.length + done.length % 24 * 80) (c &&& 0xFF).toUInt32.toUInt8 := by
      rw [h.video, h.ypos, h.xpos, hfirst, hsecond, write]
    have hcolumns : columns = 80 := rfl
    have hx := h.xpos
    rw [hmem]
    by_cases hnext : current.length + 1 < 80
    · rw [if_pos hnext, if_neg (by omega)]
      exact hput
    · rw [if_neg hnext, if_pos (by omega)]
      exact hput.newline

/-- **A run of characters**, by induction on the characters. -/
theorem Holds.putAll (h : Holds s₀ s done current) (hroom : current.length < 80) (chars : List Int32) :
    ∃ done' current', Holds s₀ (s.putAll chars) done' current' ∧ current'.length < 80 ∧
      done' ++ [current'] = done ++ lines 80 current (chars.map glyph) := by
  induction chars generalizing s done current with
  | nil => exact ⟨done, current, h, hroom, rfl⟩
  | cons c chars ih =>
      have hstep := h.kPutchar hroom c
      show ∃ done' current', Holds s₀ ((s.kPutchar c).putAll chars) done' current' ∧ _
      rw [List.map_cons]
      cases hglyph : glyph c with
      | none =>
          rw [hglyph] at hstep
          obtain ⟨done', current', hrun, hroom', hpage⟩ := ih hstep (Nat.zero_lt_succ 79)
          exact ⟨done', current', hrun, hroom', by rw [hpage, lines, List.append_assoc]; rfl⟩
      | some b =>
          rw [hglyph] at hstep
          dsimp only at hstep
          unfold lines
          split_ifs at hstep ⊢ with hnext
          · exact ih hstep (by rw [List.length_append, List.length_singleton]; exact hnext)
          · obtain ⟨done', current', hrun, hroom', hpage⟩ := ih hstep (Nat.zero_lt_succ 79)
            exact ⟨done', current', hrun, hroom', by rw [hpage, List.append_assoc]; rfl⟩

/-- What a run of characters shows. -/
lemma shows_of_holds {chars : List Int32} (h : Holds s₀ s done current)
    (hpage : done ++ [current] = pageOf chars) : Shows s₀ s chars := by
  have hcells : ∀ row < 24, ∀ column < 80,
      s.cell row column = cellOf (rolled 24 (pageOf chars) row column) := by
    rw [← hpage]
    exact h.cells
  refine ⟨hcells, fun n hn hrecent column hc => ?_, h.outside⟩
  have hwidth : (pageOf chars)[n].length ≤ 80 :=
    length_le_of_mem_lines (Nat.zero_lt_succ 79) (List.getElem_mem hn)
  rw [hcells _ (Nat.mod_lt _ (by omega)) column (by omega), rolled_recent hn hrecent hc]
  rfl

end Screen

open Screen

/-! ## The results -/

/-- **Any run of `k_putchar` shows the text rolled onto 24 rows.**  Clear the screen and print any
characters.  The cell of a row and a column has the newest character that the lines of the text have there,
and is clear if there is none; so the last 24 lines are shown in full; and no byte outside the screen is
written. -/
theorem kPutchar_rolls (s : Screen) (chars : List Int32) : Shows s (s.kCls.putAll chars) chars := by
  obtain ⟨done, current, hrun, -, hpage⟩ := (holds_kCls s).putAll (Nat.zero_lt_succ 79) chars
  exact shows_of_holds hrun (hpage.trans (List.nil_append _))

/-- A call of `k_printf` that prints the items of its format. -/
def Formats (c : (PrintfCall × (ℕ → UInt8)) × List Item) : Prop :=
  CString.IsCString (c.1.1.from c.1.1.format) (c.2.flatMap Item.format) ∧ Passed c.1.1 0 c.2

namespace Screen

/-- The screen does not depend on `vga_index`. -/
lemma Holds.setVgaIndex {s₀ s : Screen} {done : List (List UInt8)} {current : List UInt8}
    (h : Holds s₀ s done current) (v : UInt32) : Holds s₀ { s with vgaIndex := v } done current :=
  ⟨h.video, h.xpos, h.ypos, h.cells, h.outside⟩

/-- **One call of `k_printf`** puts the renderings of its items on the screen. -/
lemma printf_items {c : (PrintfCall × (ℕ → UInt8)) × List Item} (hc : Formats c) (s : Screen) :
    ∃ v, Returns (fun fuel => s.printf c.1.1 c.1.2 fuel)
      { s.putAll (c.2.flatMap Item.rendering) with vgaIndex := v } := by
  obtain ⟨hformat, hargs⟩ := hc
  have hstart : CString.IsCString (fun i => c.1.1.from c.1.1.format (0 + i)) (c.2.flatMap Item.format) := by
    simpa only [Nat.zero_add] using hformat
  obtain ⟨t, hruns, hchars, -, -⟩ :=
    runs_items c.2 (s := ⟨0, 0, ⟨c.1.2, 0⟩, [], s.vgaIndex + 80⟩) hstart hargs
  refine ⟨t.vgaIndex, ?_⟩
  rw [← List.nil_append (c.2.flatMap Item.rendering), ← hchars]
  exact hruns.map fun t => { s.putAll t.putchars with vgaIndex := t.vgaIndex }

/-- **A run of `k_printf`**, by induction on the calls. -/
theorem Holds.printAll {calls : List ((PrintfCall × (ℕ → UInt8)) × List Item)}
    (hcalls : ∀ c ∈ calls, Formats c) {s₀ s : Screen} {done : List (List UInt8)} {current : List UInt8}
    (h : Holds s₀ s done current) (hroom : current.length < 80) :
    ∃ t done' current', Returns (fun fuel => Screen.printAll (calls.map Prod.fst) fuel s) t ∧
      Holds s₀ t done' current' ∧ done' ++ [current'] = done ++ lines 80 current
        ((calls.flatMap fun c => c.2.flatMap Item.rendering).map glyph) := by
  induction calls generalizing s done current with
  | nil => exact ⟨s, done, current, Returns.of_le 0 fun _ _ => rfl, h, rfl⟩
  | cons c calls ih =>
      obtain ⟨v, hprint⟩ := printf_items (hcalls c List.mem_cons_self) s
      obtain ⟨done₁, current₁, h₁, hroom₁, hpage₁⟩ := h.putAll hroom (c.2.flatMap Item.rendering)
      obtain ⟨t, done₂, current₂, hrest, h₂, hpage₂⟩ :=
        ih (fun c' hc' => hcalls c' (List.mem_cons_of_mem c hc')) (h₁.setVgaIndex v) hroom₁
      refine ⟨t, done₂, current₂, hprint.bind hrest, h₂, ?_⟩
      rw [hpage₂, List.flatMap_cons, List.map_append]
      exact (lines_append hpage₁).symm

end Screen

/-- **Any run of `k_printf` shows its text rolled onto 24 rows.**  Clear the screen and make calls of
`k_printf`, each with a format of ordinary characters and conversions and the words that belong to them.
The run returns, and the screen shows the renderings of all items, one call after the other, as
`kPutchar_rolls` says. -/
theorem kPrintf_rolls (s : Screen) {calls : List ((PrintfCall × (ℕ → UInt8)) × List Item)}
    (hcalls : ∀ c ∈ calls, Formats c) :
    ∃ t, Returns (fun fuel => printAll (calls.map Prod.fst) fuel s.kCls) t ∧
      Shows s t (calls.flatMap fun c => c.2.flatMap Item.rendering) := by
  obtain ⟨t, done, current, hrun, ht, hpage⟩ :=
    (holds_kCls s).printAll hcalls (Nat.zero_lt_succ 79)
  exact ⟨t, hrun, shows_of_holds ht (hpage.trans (List.nil_append _))⟩

/-- `k_printf("%d\n", 42)` and then `k_printf("%s", "ok")`, with the text behind its format. -/
def twoCalls : List ((PrintfCall × (ℕ → UInt8)) × List Item) :=
  [((⟨ByteMemory.memOf 4096 [37, 100, 10, 0], 4096, fun _ => 42⟩, fun _ => 0xCC),
      [.number .d 42, .ordinary 10 (by decide) (by decide)]),
    ((⟨ByteMemory.memOf 4096 [37, 115, 0, 111, 107, 0], 4096, fun _ => 4099⟩, fun _ => 0xCC),
      [.string (some [111, 107])])]

/-- A screen before it is cleared. -/
def oldScreen : Screen := ⟨fun _ => 0x20, 0, 0, 0, 0⟩

/-- Two lines, `42` and `ok`. -/
theorem kPrintf_rolls_twoCalls :
    ∃ t, Returns (fun fuel => printAll (twoCalls.map Prod.fst) fuel oldScreen.kCls) t ∧
      Shows oldScreen t [52, 50, 10, 111, 107] := by
  refine kPrintf_rolls oldScreen fun c hc => ?_
  rcases List.mem_cons.mp hc with rfl | hc
  · exact ⟨⟨by decide, by decide, by decide⟩, ⟨rfl, trivial, trivial⟩⟩
  · obtain rfl := List.mem_singleton.mp hc
    exact ⟨⟨by decide, by decide, by decide⟩, ⟨⟨by decide, by decide, by decide, by decide⟩, trivial⟩⟩

end GrubKernel
