import GrubKernel.Paging.Model

/-!
# The tables that paging starts with

Tables are read by frame and index: `wordAddr frame index` is the address of a word, and `entry frame
flags` a table entry.  In these terms `Filled` says what `paging_setup` leaves in memory.

* `entry`, `frameOf_entry`, `present_entry` — entries and what the processor reads off them.
* `fillTables_eq`, `bootWrites_filled` — `paging_setup` leaves filled tables.
* `translate_filled` — the walk through filled tables.
* **`identity_iff`** — a mapped address translates to itself iff it does not lie in the last page of a
  table, unless the table itself is that page.
-/

namespace GrubKernel

open Loop

/-! ## Words and entries -/

/-- The number of frames of a 32-bit address space. -/
def frameCount : ℕ := 2 ^ 20

lemma toNat_wordAddr {frame index : ℕ} (hf : frame < frameCount) (hi : index < 1024) :
    (wordAddr frame index).toNat = 4096 * frame + 4 * index := by
  unfold frameCount at hf
  rw [wordAddr, UInt32.toNat_ofNat']
  omega

/-- Two words are the same iff they have the same frame and index. -/
lemma wordAddr_inj {f g i j : ℕ} (hf : f < frameCount) (hg : g < frameCount) (hi : i < 1024)
    (hj : j < 1024) : wordAddr f i = wordAddr g j ↔ f = g ∧ i = j := by
  rw [← UInt32.toNat_inj, toNat_wordAddr hf hi, toNat_wordAddr hg hj]
  omega

lemma wordAddr_ne {f g i j : ℕ} (hf : f < frameCount) (hg : g < frameCount) (hi : i < 1024)
    (hj : j < 1024) (h : ¬ (f = g ∧ i = j)) : wordAddr f i ≠ wordAddr g j :=
  fun heq => h ((wordAddr_inj hf hg hi hj).mp heq)

/-- An entry that points to a frame. -/
def entry (frame flags : ℕ) : UInt32 := UInt32.ofNat (4096 * frame + flags)

lemma toNat_entry {frame flags : ℕ} (hf : frame < frameCount) (hl : flags < 4096) :
    (entry frame flags).toNat = 4096 * frame + flags := by
  unfold frameCount at hf
  rw [entry, UInt32.toNat_ofNat']
  omega

lemma frameOf_entry {frame flags : ℕ} (hf : frame < frameCount) (hl : flags < 4096) :
    frameOf (entry frame flags) = frame := by
  rw [frameOf, toNat_entry hf hl]
  omega

lemma present_entry {frame flags : ℕ} (hf : frame < frameCount) (hl : flags < 4096) :
    present (entry frame flags) = decide (flags % 2 = 1) := by
  rw [present, toNat_entry hf hl, decide_eq_decide]
  omega

lemma frameOf_lt (e : UInt32) : frameOf e < frameCount := by
  have := e.toNat_lt
  unfold frameOf frameCount
  omega

/-- Setting flags on a page-aligned address makes an entry. -/
lemma entry_or {frame : ℕ} (hf : frame < frameCount) {flags : UInt32} (hl : flags.toNat < 4096) :
    entry frame 0 ||| flags = entry frame flags.toNat := by
  have hor := Nat.two_pow_add_eq_or_of_lt (show flags.toNat < 2 ^ 12 from hl) frame
  rw [← UInt32.toNat_inj, UInt32.toNat_or, toNat_entry hf (by omega), toNat_entry hf hl]
  exact hor.symm

/-- The address of a frame, as the code computes it. -/
lemma ofNat_mul_page (frame : ℕ) : UInt32.ofNat frame * 0x1000 = entry frame 0 := by
  have hpage : (0x1000 : UInt32) = UInt32.ofNat 4096 := rfl
  rw [hpage, ← UInt32.ofNat_mul, entry, Nat.mul_comm, Nat.add_zero]

/-! ## What `paging_setup` leaves -/

/-- The directory in frame `dir` is followed by `count` tables that map the first `count * 4` MiB, except
that the last entry of each table points to the table itself. -/
structure Filled (mem : UInt32 → UInt32) (dir count : ℕ) : Prop where
  directory : ∀ d < count, mem (wordAddr dir d) = entry (dir + 1 + d) 3
  empty : ∀ d, count ≤ d → d < 1023 → mem (wordAddr dir d) = 2
  self : mem (wordAddr dir 1023) = entry dir 1
  page : ∀ d < count, ∀ j < 1023, mem (wordAddr (dir + 1 + d) j) = entry (1024 * d + j) 3
  tableSelf : ∀ d < count, mem (wordAddr (dir + 1 + d) 1023) = entry (dir + 1 + d) 1

/-- The two loops over the tables: round `i` writes the address of table `i` with the flags to a word. -/
lemma tableLoop_eq (n dir : ℕ) (f : ℕ → UInt32) (flags : UInt32) (mem : UInt32 → UInt32) :
    forLoop n (fun i (r : UInt32 × (UInt32 → UInt32)) =>
      let m := Function.update r.2 (f i) r.1
      (r.1 + 4 * 1024, Function.update m (f i) (m (f i) ||| flags))) (entry dir 0, mem)
      = (entry (dir + n) 0, fill n f (fun i => entry (dir + i) 0 ||| flags) mem) := by
  induction n with
  | zero => rfl
  | succ n ih =>
      rw [forLoop_succ, ih]
      dsimp only
      rw [Function.update_self, Function.update_idem]
      refine Prod.ext ?_ rfl
      show entry (dir + n) 0 + 4 * 1024 = entry (dir + (n + 1)) 0
      have hpage : (4 * 1024 : UInt32) = UInt32.ofNat 4096 := rfl
      rw [hpage, entry, ← UInt32.ofNat_add, entry]
      congr 1

/-- The words that the boot code addresses relative to a page. -/
lemma page_add_word (frame i : ℕ) : entry frame 0 + 4 * UInt32.ofNat i
    = wordAddr (frame + i / 1024) (i % 1024) := by
  have hfour : (4 : UInt32) = UInt32.ofNat 4 := rfl
  rw [hfour, ← UInt32.ofNat_mul, entry, ← UInt32.ofNat_add, wordAddr]
  congr 1
  omega

/-- The writes of `paging_setup` in their order, by frame and index. -/
def bootWrites (dir count : ℕ) (mem : UInt32 → UInt32) : UInt32 → UInt32 :=
  let cleared := fill 1024 (fun i => wordAddr dir i) (fun _ => 2) mem
  let closed := Function.update cleared (wordAddr dir 1023) (entry dir 1)
  let pages := fill (1024 * count) (fun i => wordAddr (dir + 1 + i / 1024) (i % 1024))
    (fun i => entry i 3) closed
  let selves := fill count (fun i => wordAddr (dir + 1 + i) 1023) (fun i => entry (dir + 1 + i) 1) pages
  fill count (fun i => wordAddr dir i) (fun i => entry (dir + 1 + i) 3) selves

lemma fillTables_eq {dir count : ℕ} (hcount : count ≤ 1022) (hfit : dir + 1 + count ≤ frameCount)
    (mem : UInt32 → UInt32) : fillTables count (entry dir 0) mem = bootWrites dir count mem := by
  have hbound : frameCount = 1048576 := rfl
  have htables : entry dir 0 + 4 * 1024 = entry (dir + 1) 0 := by
    have hpage : (4 * 1024 : UInt32) = UInt32.ofNat 4096 := rfl
    rw [hpage, entry, ← UInt32.ofNat_add, entry]
    congr 1
  have hlast : entry dir 0 + 4 * 1023 = wordAddr dir 1023 := page_add_word dir 1023
  have hself : ∀ i, entry (dir + 1) 0 + 4 * (UInt32.ofNat i * 1024 + 1023)
      = wordAddr (dir + 1 + i) 1023 := by
    intro i
    have h₁ : UInt32.ofNat i * 1024 + 1023 = UInt32.ofNat (i * 1024 + 1023) := by
      have hmul : (1024 : UInt32) = UInt32.ofNat 1024 := rfl
      have hadd : (1023 : UInt32) = UInt32.ofNat 1023 := rfl
      rw [hmul, hadd, ← UInt32.ofNat_mul, ← UInt32.ofNat_add]
    rw [h₁, page_add_word]
    exact congrArg₂ wordAddr (by omega) (by omega)
  have hdirword : ∀ i < 1024, wordAddr (dir + i / 1024) (i % 1024) = wordAddr dir i := by
    intro i hi
    exact congrArg₂ wordAddr (by omega) (by omega)
  have hone : ∀ i < frameCount, entry i 0 ||| 1 = entry i 1 := fun i hi => entry_or hi (by decide)
  have hthree : ∀ i < frameCount, entry i 0 ||| 3 = entry i 3 := fun i hi => entry_or hi (by decide)
  have hclear : forLoop 1024 (fun i m => Function.update m
      (wordAddr (dir + i / 1024) (i % 1024)) 2) mem
      = fill 1024 (fun i => wordAddr dir i) (fun _ => 2) mem :=
    fill_congr mem hdirword fun _ _ => rfl
  have hpages : ∀ m : UInt32 → UInt32, forLoop (1024 * count) (fun i m => Function.update m
      (wordAddr (dir + 1 + i / 1024) (i % 1024)) (entry i 0 ||| 3)) m
      = fill (1024 * count) (fun i => wordAddr (dir + 1 + i / 1024) (i % 1024))
          (fun i => entry i 3) m :=
    fun m => fill_congr m (fun _ _ => rfl) fun i hi => hthree i (by omega)
  unfold fillTables bootWrites
  dsimp only
  rw [htables, hlast]
  simp only [hself, tableLoop_eq, page_add_word, ofNat_mul_page]
  rw [Function.update_self, Function.update_idem, hone dir (by omega), hclear, hpages,
    fill_congr _ (fun i hi => hdirword i (by omega)) fun i hi => hthree (dir + 1 + i) (by omega),
    fill_congr _ (fun _ _ => rfl) fun i hi => hone (dir + 1 + i) (by omega)]

/-- **`paging_setup` leaves filled tables.**  Each word is read off the last loop that writes it. -/
theorem bootWrites_filled {dir count : ℕ} (hcount : count ≤ 1022)
    (hfit : dir + 1 + count ≤ frameCount) (mem : UInt32 → UInt32) :
    Filled (bootWrites dir count mem) dir count := by
  have hbound : frameCount = 1048576 := rfl
  have hdir : dir < frameCount := by omega
  -- the last loop writes the directory only
  have htables : ∀ m : UInt32 → UInt32, ∀ d < count, ∀ j < 1024,
      fill count (fun i => wordAddr dir i) (fun i => entry (dir + 1 + i) 3) m
        (wordAddr (dir + 1 + d) j) = m (wordAddr (dir + 1 + d) j) := by
    intro m d hd j hj
    exact fill_off fun i hi => wordAddr_ne hdir (by omega) (by omega) hj (by omega)
  -- the two loops before it write the tables only
  have hdirectory : ∀ m : UInt32 → UInt32, ∀ j < 1024,
      fill count (fun i => wordAddr (dir + 1 + i) 1023) (fun i => entry (dir + 1 + i) 1)
        (fill (1024 * count) (fun i => wordAddr (dir + 1 + i / 1024) (i % 1024))
          (fun i => entry i 3) m) (wordAddr dir j) = m (wordAddr dir j) := by
    intro m j hj
    rw [fill_off fun i hi => wordAddr_ne (by omega) hdir (by omega) hj (by omega),
      fill_off fun i hi => wordAddr_ne (by omega) hdir (by omega) hj (by omega)]
  unfold bootWrites
  dsimp only
  refine ⟨fun d hd => ?_, fun d hd hd' => ?_, ?_, fun d hd j hj => ?_, fun d hd => ?_⟩
  · refine fill_at (f := fun i => wordAddr dir i) hd fun i hi heq => ?_
    exact ((wordAddr_inj hdir hdir (by omega) (by omega)).mp heq).2
  · rw [fill_off fun i hi => wordAddr_ne hdir hdir (by omega) (by omega) (by omega),
      hdirectory _ d (by omega),
      Function.update_of_ne (wordAddr_ne hdir hdir (by omega) (by omega) (by omega))]
    refine fill_at (f := fun i => wordAddr dir i) (show d < 1024 by omega) fun i hi heq => ?_
    exact ((wordAddr_inj hdir hdir hi (by omega)).mp heq).2
  · rw [fill_off fun i hi => wordAddr_ne hdir hdir (by omega) (by omega) (by omega),
      hdirectory _ 1023 (by omega), Function.update_self]
  · rw [htables _ d hd j (by omega),
      fill_off fun i hi => wordAddr_ne (by omega) (by omega) (by omega) (by omega) (by omega)]
    have hword : wordAddr (dir + 1 + d) j
        = (fun i => wordAddr (dir + 1 + i / 1024) (i % 1024)) (1024 * d + j) :=
      congrArg₂ wordAddr (by omega) (by omega)
    rw [hword]
    refine fill_at (show 1024 * d + j < 1024 * count by omega) fun i hi heq => ?_
    have := (wordAddr_inj (by omega) (by omega) (by omega) (by omega)).mp heq
    omega
  · rw [htables _ d hd 1023 (by omega)]
    refine fill_at (f := fun i => wordAddr (dir + 1 + i) 1023) hd fun i hi heq => ?_
    have := (wordAddr_inj (by omega) (by omega) (by omega) (by omega)).mp heq
    omega

/-! ## Translating through the filled tables -/

/-- **The walk through filled tables.**  A mapped address translates to itself, except that the last page
of each table shows the table. -/
theorem translate_filled {s : Paging} {dir count : ℕ} (hfilled : Filled s.mem dir count)
    (hcr3 : frameOf s.cr3 = dir) (hcount : count ≤ 1022) (hfit : dir + 1 + count ≤ frameCount)
    {v : UInt32} (hv : v.toNat < count * (4 * 1024 * 1024)) :
    s.translate v = some (if v.toNat / 4096 % 1024 = 1023 then
      UInt32.ofNat (4096 * (dir + 1 + v.toNat / 2 ^ 22) + v.toNat % 4096) else v) := by
  have hbound : frameCount = 1048576 := rfl
  set d := v.toNat / 2 ^ 22 with hd
  set j := v.toNat / 4096 % 1024 with hj
  have hdc : d < count := by omega
  have hpde : s.directoryEntry v = entry (dir + 1 + d) 3 := by
    rw [Paging.directoryEntry, hcr3]
    exact hfilled.directory d hdc
  have hframe : frameOf (s.directoryEntry v) = dir + 1 + d := by
    rw [hpde, frameOf_entry (by omega) (by omega)]
  have hpresent : present (s.directoryEntry v) = true := by
    rw [hpde, present_entry (by omega) (by omega)]
    rfl
  have hpte : s.tableEntry v = s.mem (wordAddr (dir + 1 + d) j) := by
    rw [Paging.tableEntry, hframe]
  unfold Paging.translate
  rw [hpte, if_neg (not_not.mpr hpresent)]
  by_cases hlast : j = 1023
  · rw [if_pos hlast, hlast, hfilled.tableSelf d hdc, present_entry (by omega) (by omega),
      frameOf_entry (by omega) (by omega)]
    rfl
  · rw [if_neg hlast, hfilled.page d hdc j (by omega), present_entry (by omega) (by omega),
      frameOf_entry (by omega) (by omega)]
    have hsame : 4096 * (1024 * d + j) + v.toNat % 4096 = v.toNat := by omega
    rw [hsame, UInt32.ofNat_toNat]
    rfl

/-- The state after `paging_setup` with the directory at a page-aligned address. -/
def pagingState (count : ℕ) (pageDirectory : UInt32) (mem : UInt32 → UInt32) (bitmap : ℕ → UInt32) :
    Paging :=
  ⟨fillTables count pageDirectory mem, pageDirectory, bitmap⟩

lemma filled_pagingState {count : ℕ} {pageDirectory : UInt32} (hcount : count ≤ 1022)
    (halign : pageDirectory.toNat % 4096 = 0)
    (hfit : pageDirectory.toNat + (1 + count) * 4096 ≤ 2 ^ 32) (mem : UInt32 → UInt32)
    (bitmap : ℕ → UInt32) :
    frameOf pageDirectory + 1 + count ≤ frameCount ∧
      Filled (pagingState count pageDirectory mem bitmap).mem (frameOf pageDirectory) count := by
  have hbound : frameCount = 1048576 := rfl
  have hdir : entry (frameOf pageDirectory) 0 = pageDirectory := by
    have hframe : 4096 * frameOf pageDirectory + 0 = pageDirectory.toNat := by
      unfold frameOf
      omega
    rw [entry, hframe, UInt32.ofNat_toNat]
  have hroom : frameOf pageDirectory + 1 + count ≤ frameCount := by
    unfold frameOf
    omega
  refine ⟨hroom, ?_⟩
  show Filled (fillTables count pageDirectory mem) (frameOf pageDirectory) count
  conv => arg 1; rw [← hdir]
  rw [fillTables_eq hcount hroom]
  exact bootWrites_filled hcount hroom mem

/-- **The identity mapping.**  After `paging_setup` has filled the directory and the tables, an address
below `page_table_count * 4` MiB translates to itself iff it does not lie in the last page of its
table, or that page is the table. -/
theorem identity_iff {count : ℕ} {pageDirectory : UInt32} (hcount : count ≤ 1022)
    (halign : pageDirectory.toNat % 4096 = 0)
    (hfit : pageDirectory.toNat + (1 + count) * 4096 ≤ 2 ^ 32) (mem : UInt32 → UInt32)
    (bitmap : ℕ → UInt32) {v : UInt32} (hv : v.toNat < count * (4 * 1024 * 1024)) :
    (pagingState count pageDirectory mem bitmap).translate v = some v ↔
      (v.toNat / 4096 % 1024 ≠ 1023 ∨
        pageDirectory.toNat + 4096 * (v.toNat / 2 ^ 22 + 1) = v.toNat / 4096 * 4096) := by
  obtain ⟨hroom, hfilled⟩ := filled_pagingState hcount halign hfit mem bitmap
  have hbound : frameCount = 1048576 := rfl
  rw [translate_filled hfilled rfl hcount hroom hv, Option.some_inj]
  by_cases hlast : v.toNat / 4096 % 1024 = 1023
  · rw [if_pos hlast, ← UInt32.toNat_inj, UInt32.toNat_ofNat']
    unfold frameOf at hroom ⊢
    constructor
    · intro heq
      right
      omega
    · rintro (hne | heq)
      · exact absurd hlast hne
      · omega
  · rw [if_neg hlast]
    exact iff_of_true rfl (Or.inl hlast)

/-- Forty megabytes mapped, the directory at `0x2801000`: page `0x3ff000` shows the first page table. -/
theorem last_page_shows_table :
    (pagingState 10 0x2801000 (fun _ => 0) fun _ => 0).translate 0x3ff000 = some 0x2802000 := by
  obtain ⟨hroom, hfilled⟩ := filled_pagingState (show 10 ≤ 1022 by decide)
    (show (0x2801000 : UInt32).toNat % 4096 = 0 by decide) (by decide) (fun _ => 0) fun _ => 0
  have hv : (0x3ff000 : UInt32).toNat < 10 * (4 * 1024 * 1024) := by decide
  rw [translate_filled hfilled rfl (by decide) hroom hv]
  decide

/-- The kernel's own image at 1 MiB. -/
theorem identity_iff_example :
    (pagingState 10 0x2801000 (fun _ => 0) fun _ => 0).translate 0x100000 = some 0x100000 :=
  (identity_iff (by decide) (by decide) (by decide) _ _ (by decide)).mpr (Or.inl (by decide))

end GrubKernel
