import GrubKernel.Bitmap.Frames
import GrubKernel.Paging.Tables

/-!
# The fault path, without the window

`setup_page` edits the tables through virtual addresses that the tables themselves translate.  As long
as the last directory entry points to the directory and no table lies in the frame of the directory,
these addresses reach the words they should, and `setup_page` is a plain operation on words.

* `word`, `dirFrame`, `dirEntry`, `tableFrame` — the tables by frame and index.
* `Windowed` — the last directory entry points to the directory; `translate_window` is what it gives.
* `pageFault` — the fault path as an operation on words.
* **`setupPage_eq`** — `setup_page` does not fault, and is that operation.
-/

namespace GrubKernel

open Loop

namespace Paging

/-! ## The tables by frame and index -/

/-- The word of a frame. -/
def word (s : Paging) (frame index : ℕ) : UInt32 := s.mem (wordAddr frame index)

/-- The frame of the page directory. -/
def dirFrame (s : Paging) : ℕ := frameOf s.cr3

/-- Entry `d` of the directory. -/
def dirEntry (s : Paging) (d : ℕ) : UInt32 := s.word s.dirFrame d

/-- The frame that directory entry `d` points to. -/
def tableFrame (s : Paging) (d : ℕ) : ℕ := frameOf (s.dirEntry d)

lemma dirFrame_lt (s : Paging) : s.dirFrame < frameCount := frameOf_lt _

lemma tableFrame_lt (s : Paging) (d : ℕ) : s.tableFrame d < frameCount := frameOf_lt _

/-- The directory index of an address. -/
def dirIndex (v : UInt32) : ℕ := v.toNat / 2 ^ 22

/-- The table index of an address. -/
def tableIndex (v : UInt32) : ℕ := v.toNat / 4096 % 1024

lemma tableIndex_lt (v : UInt32) : tableIndex v < 1024 := Nat.mod_lt _ (by omega)

/-- The walk, in these terms. -/
lemma translate_eq (s : Paging) (v : UInt32) : s.translate v =
    if ¬ present (s.dirEntry (dirIndex v)) then none
    else if ¬ present (s.word (s.tableFrame (dirIndex v)) (tableIndex v)) then none
    else some (UInt32.ofNat
      (4096 * frameOf (s.word (s.tableFrame (dirIndex v)) (tableIndex v)) + v.toNat % 4096)) := rfl

/-- Write one word. -/
def poke (s : Paging) (frame index : ℕ) (w : UInt32) : Paging :=
  { s with mem := Function.update s.mem (wordAddr frame index) w }

@[simp] lemma poke_dirFrame (s : Paging) (f i : ℕ) (w : UInt32) :
    (s.poke f i w).dirFrame = s.dirFrame := rfl

lemma word_poke (s : Paging) {f g i j : ℕ} (w : UInt32) (hf : f < frameCount) (hg : g < frameCount)
    (hi : i < 1024) (hj : j < 1024) :
    (s.poke f i w).word g j = if g = f ∧ j = i then w else s.word g j := by
  unfold poke word
  dsimp only
  rw [Function.update_apply]
  simp only [wordAddr_inj hg hf hj hi]

lemma poke_poke (s : Paging) (f i : ℕ) (w w' : UInt32) :
    (s.poke f i w).poke f i w' = s.poke f i w' := by
  unfold poke
  dsimp only
  rw [Function.update_idem]

/-! ## The recursive window -/

/-- The address at which the window shows word `j` of the table of directory entry `d`. -/
def windowAddr (d j : ℕ) : UInt32 := UInt32.ofNat (0xFFC00000 + 4096 * d + 4 * j)

lemma toNat_windowAddr {d j : ℕ} (hd : d < 1024) (hj : j < 1024) :
    (windowAddr d j).toNat = 0xFFC00000 + 4096 * d + 4 * j := by
  rw [windowAddr, UInt32.toNat_ofNat']
  omega

/-- The last directory entry points to the directory. -/
structure Windowed (s : Paging) : Prop where
  present : present (s.dirEntry 1023) = true
  frame : s.tableFrame 1023 = s.dirFrame

/-- **The window.**  Through the last directory entry the directory is read as a page table, so the
window shows the tables of the directory entries that are present. -/
theorem translate_window {s : Paging} (hs : Windowed s) {d j : ℕ} (hd : d < 1024) (hj : j < 1024)
    (hp : GrubKernel.present (s.dirEntry d) = true) :
    s.translate (windowAddr d j) = some (wordAddr (s.tableFrame d) j) := by
  have hv := toNat_windowAddr hd hj
  have hdir : dirIndex (windowAddr d j) = 1023 := by
    unfold dirIndex
    omega
  have htable : tableIndex (windowAddr d j) = d := by
    unfold tableIndex
    omega
  have hword : s.word (s.tableFrame 1023) d = s.dirEntry d := by rw [hs.frame, dirEntry]
  have hoff : (windowAddr d j).toNat % 4096 = 4 * j := by omega
  rw [translate_eq, hdir, htable, hword, if_neg (not_not.mpr hs.present), if_neg (not_not.mpr hp), hoff]
  rfl

/-- Accesses through the window are accesses to words. -/
lemma load_window {s : Paging} (hs : Windowed s) {d j : ℕ} (hd : d < 1024) (hj : j < 1024)
    (hp : GrubKernel.present (s.dirEntry d) = true) :
    s.load (windowAddr d j) = some (s.word (s.tableFrame d) j) := by
  rw [load, translate_window hs hd hj hp]
  rfl

lemma store_window {s : Paging} (hs : Windowed s) {d j : ℕ} (hd : d < 1024) (hj : j < 1024)
    (hp : GrubKernel.present (s.dirEntry d) = true) (w : UInt32) :
    s.store (windowAddr d j) w = some (s.poke (s.tableFrame d) j w) := by
  rw [store, translate_window hs hd hj hp]
  rfl

/-- A write that misses the last directory entry keeps the window. -/
lemma Windowed.poke {s : Paging} (hs : Windowed s) {f i : ℕ} (hf : f < frameCount) (hi : i < 1024)
    (h : ¬ (f = s.dirFrame ∧ i = 1023)) (w : UInt32) : Windowed (s.poke f i w) := by
  have hentry : (s.poke f i w).dirEntry 1023 = s.dirEntry 1023 := by
    rw [dirEntry, poke_dirFrame, word_poke s w hf s.dirFrame_lt hi (by omega), if_neg (by omega)]
    rfl
  refine ⟨by rw [hentry]; exact hs.present, ?_⟩
  rw [tableFrame, hentry]
  exact hs.frame

lemma dirEntry_poke_of_ne (s : Paging) {f i d : ℕ} (hf : f < frameCount) (hi : i < 1024)
    (hd : d < 1024) (h : ¬ (f = s.dirFrame ∧ i = d)) (w : UInt32) :
    (s.poke f i w).dirEntry d = s.dirEntry d := by
  rw [dirEntry, poke_dirFrame, word_poke s w hf s.dirFrame_lt hi hd, if_neg (by omega)]
  rfl

lemma dirEntry_poke_self (s : Paging) {d : ℕ} (hd : d < 1024) (w : UInt32) :
    (s.poke s.dirFrame d w).dirEntry d = w := by
  rw [dirEntry, poke_dirFrame, word_poke s w s.dirFrame_lt s.dirFrame_lt hd hd, if_pos ⟨rfl, rfl⟩]

/-! ## The addresses that the code computes -/

lemma entry_and_one (e : UInt32) : e &&& 1 = 0 ↔ present e = false := by
  rw [← UInt32.toNat_inj, UInt32.toNat_and, UInt32.toNat_one, UInt32.toNat_zero, Nat.and_one_is_mod,
    present, decide_eq_false_iff_not]
  omega

/-- `0xFFFFF000 + page_directory_index * 4`. -/
lemma pageDirectory_eq (v : UInt32) :
    (0xFFFFF000 : UInt32) + v / (4 * 1024 * 1024) * 4 = windowAddr 1023 (dirIndex v) := by
  have hsize : (4 * 1024 * 1024 : UInt32).toNat = 2 ^ 22 := rfl
  have hbase : (0xFFFFF000 : UInt32).toNat = 0xFFFFF000 := rfl
  have hfour : (4 : UInt32).toNat = 4 := rfl
  have hv := v.toNat_lt
  rw [← UInt32.toNat_inj, UInt32.toNat_add, UInt32.toNat_mul, UInt32.toNat_div, hsize, hbase, hfour,
    windowAddr, UInt32.toNat_ofNat', dirIndex]
  omega

/-- `0xFFC00000 + page_directory_index * 0x1000`, and an entry behind it. -/
lemma pageTable_eq (v : UInt32) (j : ℕ) :
    (0xFFC00000 : UInt32) + v / (4 * 1024 * 1024) * 0x1000 + 4 * UInt32.ofNat j
      = windowAddr (dirIndex v) j := by
  have hdiv : v / (4 * 1024 * 1024) = UInt32.ofNat (dirIndex v) := by
    have hsize : (4 * 1024 * 1024 : UInt32).toNat = 2 ^ 22 := rfl
    have hv := v.toNat_lt
    rw [← UInt32.toNat_inj, UInt32.toNat_div, hsize, UInt32.toNat_ofNat', dirIndex]
    omega
  have hbase : (0xFFC00000 : UInt32) = UInt32.ofNat 0xFFC00000 := rfl
  have hpage : (0x1000 : UInt32) = UInt32.ofNat 0x1000 := rfl
  have hfour : (4 : UInt32) = UInt32.ofNat 4 := rfl
  rw [hdiv, hbase, hpage, hfour, ← UInt32.ofNat_mul, ← UInt32.ofNat_mul, ← UInt32.ofNat_add,
    ← UInt32.ofNat_add, windowAddr, Nat.mul_comm (dirIndex v)]

/-- `(virtual_address % 4 MiB) / 4 KiB`. -/
lemma tableIndex_eq (v : UInt32) :
    v % (4 * 1024 * 1024) / (4 * 1024) = UInt32.ofNat (tableIndex v) := by
  have hsize : (4 * 1024 * 1024 : UInt32).toNat = 2 ^ 22 := rfl
  have hpage : (4 * 1024 : UInt32).toNat = 4096 := rfl
  have hv := v.toNat_lt
  rw [← UInt32.toNat_inj, UInt32.toNat_div, UInt32.toNat_mod, hsize, hpage, UInt32.toNat_ofNat',
    tableIndex]
  omega

/-! ## Installing a page table -/

/-- The first `n` words of a frame are written with an entry that is not present. -/
def clearTo (s : Paging) (f n : ℕ) : Paging :=
  { s with mem := fill n (fun i => wordAddr f i) (fun _ => 2) s.mem }

lemma clearTo_succ (s : Paging) (f n : ℕ) : s.clearTo f (n + 1) = (s.clearTo f n).poke f n 2 := rfl

lemma word_clearTo (s : Paging) {f g j : ℕ} (hf : f < frameCount) (hg : g < frameCount)
    (hj : j < 1024) : (s.clearTo f 1024).word g j = if g = f then 2 else s.word g j := by
  unfold word clearTo
  dsimp only
  split_ifs with h
  · rw [h]
    refine fill_at (f := fun i => wordAddr f i) hj fun i hi heq => ?_
    exact ((wordAddr_inj hf hf hi hj).mp heq).2
  · exact fill_off fun i hi => wordAddr_ne hf hg hi hj fun heq => h heq.1.symm

/-- Frame `f` becomes the table of directory entry `d`. -/
def installTable (s : Paging) (d f : ℕ) : Paging :=
  ((s.poke s.dirFrame d (entry f 3)).clearTo f 1024).poke f 1023 (entry f 0)

@[simp] lemma installTable_dirFrame (s : Paging) (d f : ℕ) :
    (s.installTable d f).dirFrame = s.dirFrame := rfl

lemma word_installTable (s : Paging) {d f g j : ℕ} (hd : d < 1024) (hf : f < frameCount)
    (hg : g < frameCount) (hj : j < 1024) :
    (s.installTable d f).word g j =
      if g = f then (if j = 1023 then entry f 0 else 2)
      else if g = s.dirFrame ∧ j = d then entry f 3 else s.word g j := by
  rw [installTable, word_poke _ _ hf hg (by omega) hj, word_clearTo _ hf hg hj,
    word_poke _ _ s.dirFrame_lt hg hd hj]
  split_ifs <;> first | rfl | omega

/-- **`initialize_page_table` through the window** clears the frame of the table. -/
lemma initializePageTable_eq {s : Paging} (hs : Windowed s) {d f : ℕ} (hd : d < 1024)
    (hf : f < frameCount) (hp : GrubKernel.present (s.dirEntry d) = true) (hframe : s.tableFrame d = f)
    (hne : f ≠ s.dirFrame) {pageTable : UInt32}
    (hpt : ∀ i, pageTable + 4 * UInt32.ofNat i = windowAddr d i) :
    s.initializePageTable pageTable (entry f 0)
      = some ((s.clearTo f 1024).poke f 1023 (entry f 0)) := by
  -- what is written so far is a part of frame `f`, which the window does not use
  have hkeep : ∀ n ≤ 1024, Windowed (s.clearTo f n) ∧ (s.clearTo f n).dirEntry d = s.dirEntry d := by
    intro n hn
    induction n with
    | zero => exact ⟨hs, rfl⟩
    | succ n ih =>
        obtain ⟨hw, he⟩ := ih (by omega)
        rw [clearTo_succ]
        refine ⟨hw.poke hf (by omega) (fun h => hne h.1) 2, ?_⟩
        have hn' : n < 1024 := by omega
        rw [dirEntry_poke_of_ne (s.clearTo f n) hf hn' hd (fun h => hne h.1), he]
  have hstore : ∀ n ≤ 1024, ∀ j < 1024, ∀ w, (s.clearTo f n).store (windowAddr d j) w
      = some ((s.clearTo f n).poke f j w) := by
    intro n hn j hj w
    obtain ⟨hw, he⟩ := hkeep n hn
    rw [store_window hw hd hj (by rw [he]; exact hp), tableFrame, he, ← hframe]
    rfl
  have hclear : ∃ t, forLoopM 1024 (fun i (s : Paging) => s.store (pageTable + 4 * UInt32.ofNat i) 2) s
      = some t ∧ t = s.clearTo f 1024 := by
    refine forLoopM_inv (fun i t => t = s.clearTo f i) 1024 rfl fun i hi t ht => ?_
    refine ⟨s.clearTo f (i + 1), ?_, rfl⟩
    rw [ht, hpt, hstore i (by omega) i hi, clearTo_succ]
  obtain ⟨t, ht, rfl⟩ := hclear
  have hlast : pageTable + 4 * 1023 = windowAddr d 1023 := hpt 1023
  rw [initializePageTable, ht, Option.bind_some, hlast, hstore 1024 le_rfl 1023 (by omega)]

/-- **Making sure that there is a page table** installs the frame iff the directory entry is not
present. -/
lemma ensureTable_eq {s : Paging} (hs : Windowed s) {d f : ℕ} (hd : d < 1023) (hf : f < frameCount)
    (hne : f ≠ s.dirFrame) {pageTable : UInt32}
    (hpt : ∀ i, pageTable + 4 * UInt32.ofNat i = windowAddr d i) :
    s.ensureTable (windowAddr 1023 d) pageTable (entry f 0)
      = some (if present (s.dirEntry d) then (false, s) else (true, s.installTable d f)) := by
  have hd' : d < 1024 := by omega
  have hload : ∀ t : Paging, Windowed t → t.load (windowAddr 1023 d) = some (t.dirEntry d) := by
    intro t ht
    rw [load_window ht (by omega) hd' ht.present, ht.frame]
    rfl
  have hstore : ∀ t : Paging, Windowed t → ∀ w,
      t.store (windowAddr 1023 d) w = some (t.poke t.dirFrame d w) := by
    intro t ht w
    rw [store_window ht (by omega) hd' ht.present, ht.frame]
  have hpoke : ∀ t : Paging, Windowed t → ∀ w, Windowed (t.poke t.dirFrame d w) :=
    fun t ht w => ht.poke t.dirFrame_lt hd' (by omega) w
  unfold ensureTable
  rw [hload s hs, Option.bind_some]
  by_cases hp : present (s.dirEntry d) = true
  · rw [if_neg fun h => by rw [entry_and_one] at h; rw [hp] at h; simp at h, if_pos hp]
  · have hclear : s.dirEntry d &&& 1 = 0 := (entry_and_one _).mpr (by simpa using hp)
    have hw₁ := hpoke s hs 0
    have hw₂ := hpoke s hs (entry f 0)
    have hw₃ := hpoke s hs (entry f 3)
    have hthree : entry f 0 ||| 3 = entry f 3 := entry_or hf (by decide)
    have hinstalled : (s.poke s.dirFrame d (entry f 3)).dirEntry d = entry f 3 :=
      dirEntry_poke_self s hd' _
    rw [if_pos hclear, if_neg hp, hstore s hs, Option.bind_some, hstore _ hw₁, Option.bind_some,
      poke_dirFrame, poke_poke, hload _ hw₂, Option.bind_some, dirEntry_poke_self s hd', hthree,
      hstore _ hw₂, Option.bind_some, poke_dirFrame, poke_poke,
      initializePageTable_eq hw₃ hd' hf ?_ ?_ hne hpt]
    · rfl
    · rw [hinstalled, present_entry hf (by omega)]
      rfl
    · rw [tableFrame, hinstalled, frameOf_entry hf (by omega)]

/-- **Putting a frame behind a table entry.** -/
lemma connectData_eq {s : Paging} (hs : Windowed s) {d j g : ℕ} (hd : d < 1024) (hj : j < 1024)
    (hg : g < frameCount) (hp : GrubKernel.present (s.dirEntry d) = true)
    (hne : s.tableFrame d ≠ s.dirFrame) :
    s.connectData (windowAddr d j) (entry g 0) = some (s.poke (s.tableFrame d) j (entry g 1)) := by
  have hf := s.tableFrame_lt d
  have hw : Windowed (s.poke (s.tableFrame d) j (entry g 0)) :=
    hs.poke hf hj (fun h => hne h.1) _
  have he : (s.poke (s.tableFrame d) j (entry g 0)).dirEntry d = s.dirEntry d :=
    dirEntry_poke_of_ne s hf hj hd (fun h => hne h.1) _
  have hp' : GrubKernel.present ((s.poke (s.tableFrame d) j (entry g 0)).dirEntry d) = true := by
    rw [he]
    exact hp
  have hframe : (s.poke (s.tableFrame d) j (entry g 0)).tableFrame d = s.tableFrame d := by
    rw [tableFrame, he, tableFrame]
  have hone : entry g 0 ||| 1 = entry g 1 := entry_or hg (by decide)
  rw [connectData, store_window hs hd hj hp, Option.bind_some, load_window hw hd hj hp',
    Option.bind_some, hframe, word_poke s _ hf hf hj hj, if_pos ⟨rfl, rfl⟩, hone,
    store_window hw hd hj hp', hframe, poke_poke]

/-! ## The fault path -/

/-- The number of frames that the bitmap manages. -/
def managedFrames : ℕ := bitmapElementCount * 32

lemma managedFrames_le : managedFrames ≤ frameCount := by decide

/-- The frame that the bitmap hands out next. -/
def freeFrame (s : Paging) : Option ℕ :=
  let n := Bitmap.nextFreeFrameIndex s.bitmap bitmapElementCount
  if n < 0 then none else some n.toNat

/-- The frame is managed and not in use. -/
def Free (s : Paging) (f : ℕ) : Prop := f < managedFrames ∧ Bitmap.inUse s.bitmap f = false

instance (s : Paging) (f : ℕ) : Decidable (s.Free f) := inferInstanceAs (Decidable (_ ∧ _))

lemma freeFrame_some {s : Paging} {f : ℕ} (h : s.freeFrame = some f) : s.Free f := by
  unfold freeFrame at h
  rcases Bitmap.nextFreeFrameIndex_spec s.bitmap bitmapElementCount with
    ⟨g, hg, hlt, hfree, -⟩ | ⟨hg, -⟩
  · rw [hg] at h
    dsimp only at h
    rw [if_neg (by omega), Int.toNat_natCast, Option.some_inj] at h
    exact h ▸ ⟨hlt, hfree⟩
  · rw [hg] at h
    simp at h

lemma freeFrame_none {s : Paging} (h : s.freeFrame = none) (f : ℕ) : ¬ s.Free f := by
  rintro ⟨hf, hfree⟩
  unfold freeFrame at h
  rcases Bitmap.nextFreeFrameIndex_spec s.bitmap bitmapElementCount with
    ⟨g, hg, -, -, -⟩ | ⟨-, hall⟩
  · rw [hg] at h
    simp at h
  · rw [hall f hf] at hfree
    simp at hfree

@[simp] lemma useFrame_dirEntry (s : Paging) (f d : ℕ) :
    (s.useFrame f).dirEntry d = s.dirEntry d := rfl

@[simp] lemma useFrame_tableFrame (s : Paging) (f d : ℕ) :
    (s.useFrame f).tableFrame d = s.tableFrame d := rfl

/-- A managed frame is in use once it is marked, and the others are as before. -/
lemma inUse_useFrame (s : Paging) {f : ℕ} (hf : f < managedFrames) (g : ℕ) :
    Bitmap.inUse (s.useFrame f).bitmap g = (decide (g = f) || Bitmap.inUse s.bitmap g) := by
  refine Bitmap.inUse_set ?_ g
  unfold managedFrames at hf
  omega

/-- The table that the fault path works with: the one that is there, or frame `f`. -/
def withTable (s : Paging) (d f : ℕ) : Option ℕ × Paging :=
  if present (s.dirEntry d) then (none, s.useFrame f)
  else (some f, (s.useFrame f).installTable d f)

/-- **The fault path on words.**  One frame is taken for a page table, whether it is needed or not, and
another one for the page. -/
def pageFault (s : Paging) (v : UInt32) : Outcome :=
  match s.freeFrame with
  | none => ⟨s, none, none⟩
  | some f =>
      let r := s.withTable (dirIndex v) f
      match r.2.freeFrame with
      | none => ⟨r.2, r.1, none⟩
      | some g =>
          ⟨(r.2.useFrame g).poke (r.2.tableFrame (dirIndex v)) (tableIndex v) (entry g 1), r.1, some g⟩

/-- The frames of the directory and of the tables that are present are not free, and the tables lie
outside the directory. -/
structure Guarded (s : Paging) : Prop where
  windowed : Windowed s
  directory : ¬ s.Free s.dirFrame
  tables : ∀ d < 1023, present (s.dirEntry d) = true →
    ¬ s.Free (s.tableFrame d) ∧ s.tableFrame d ≠ s.dirFrame

lemma Windowed.useFrame {s : Paging} (hs : Windowed s) (f : ℕ) : Windowed (s.useFrame f) :=
  ⟨hs.present, hs.frame⟩

/-- The directory after a table was installed. -/
lemma dirEntry_installTable (s : Paging) {d f e : ℕ} (hd : d < 1024) (hf : f < frameCount)
    (he : e < 1024) (hne : f ≠ s.dirFrame) :
    (s.installTable d f).dirEntry e = if e = d then entry f 3 else s.dirEntry e := by
  rw [dirEntry, installTable_dirFrame, word_installTable s hd hf s.dirFrame_lt he, if_neg hne.symm]
  simp only [true_and]
  rfl

lemma Windowed.installTable {s : Paging} (hs : Windowed s) {d f : ℕ} (hd : d < 1023)
    (hf : f < frameCount) (hne : f ≠ s.dirFrame) : Windowed (s.installTable d f) := by
  have hentry : (s.installTable d f).dirEntry 1023 = s.dirEntry 1023 := by
    rw [dirEntry_installTable s (by omega) hf (by omega) hne, if_neg (by omega)]
  refine ⟨by rw [hentry]; exact hs.present, ?_⟩
  rw [tableFrame, hentry]
  exact hs.frame

/-- With its table in place the directory entry is present, and the table is not the directory. -/
lemma withTable_ready {s : Paging} (hs : Guarded s) {d f : ℕ} (hd : d < 1023) (hf : s.Free f) :
    Windowed (s.withTable d f).2 ∧ present ((s.withTable d f).2.dirEntry d) = true ∧
      (s.withTable d f).2.tableFrame d ≠ (s.withTable d f).2.dirFrame := by
  have hne : f ≠ s.dirFrame := fun h => hs.directory (h ▸ hf)
  have hff : f < frameCount := hf.1.trans_le managedFrames_le
  unfold withTable
  by_cases hp : present (s.dirEntry d) = true
  · rw [if_pos hp]
    exact ⟨hs.windowed.useFrame f, hp, (hs.tables d hd hp).2⟩
  · rw [if_neg hp]
    have hentry : ((s.useFrame f).installTable d f).dirEntry d = entry f 3 := by
      have hd' : d < 1024 := by omega
      rw [dirEntry_installTable (s.useFrame f) hd' hff hd' hne, if_pos rfl]
    refine ⟨(hs.windowed.useFrame f).installTable hd hff hne, ?_, ?_⟩
    · rw [hentry, present_entry hff (by omega)]
      rfl
    · rw [tableFrame, hentry, frameOf_entry hff (by omega)]
      exact hne

/-- **`setup_page` is the fault path on words**, and none of its accesses through the window faults. -/
theorem setupPage_eq {s : Paging} (hs : Guarded s) {v : UInt32} (hv : dirIndex v < 1023) :
    s.setupPage v = some (s.pageFault v) := by
  have hpt : ∀ i, (0xFFC00000 : UInt32) + v / (4 * 1024 * 1024) * 0x1000 + 4 * UInt32.ofNat i
      = windowAddr (dirIndex v) i := pageTable_eq v
  unfold setupPage pageFault freeFrame
  dsimp only
  split_ifs with hnone
  · rfl
  dsimp only
  set f := (Bitmap.nextFreeFrameIndex s.bitmap bitmapElementCount).toNat with hfdef
  have hf : s.Free f := by
    refine freeFrame_some ?_
    unfold freeFrame
    dsimp only
    rw [if_neg hnone]
  have hne : f ≠ s.dirFrame := fun h => hs.directory (h ▸ hf)
  have hff : f < frameCount := hf.1.trans_le managedFrames_le
  obtain ⟨hw, hp, hapart⟩ := withTable_ready hs hv hf
  rw [ofNat_mul_page, pageDirectory_eq,
    ensureTable_eq (hs.windowed.useFrame f) hv hff hne hpt, Option.bind_some]
  have hsplit : (if present ((s.useFrame f).dirEntry (dirIndex v)) then (false, s.useFrame f)
      else (true, (s.useFrame f).installTable (dirIndex v) f))
      = ((s.withTable (dirIndex v) f).1.isSome, (s.withTable (dirIndex v) f).2) := by
    unfold withTable
    rw [useFrame_dirEntry]
    split_ifs
    · rfl
    · rfl
  have htable : (if (s.withTable (dirIndex v) f).1.isSome then some f else none)
      = (s.withTable (dirIndex v) f).1 := by
    unfold withTable
    split_ifs <;> simp_all
  rw [hsplit]
  dsimp only
  rw [htable, tableIndex_eq, hpt]
  generalize s.withTable (dirIndex v) f = r at hw hp hapart
  split_ifs with hnone'
  · rfl
  · have hg : r.2.Free (Bitmap.nextFreeFrameIndex r.2.bitmap bitmapElementCount).toNat := by
      refine freeFrame_some ?_
      unfold freeFrame
      dsimp only
      rw [if_neg hnone']
    rw [ofNat_mul_page, connectData_eq (hw.useFrame _) (by omega) (tableIndex_lt v)
      (hg.1.trans_le managedFrames_le) hp hapart]
    rfl

end Paging
end GrubKernel
