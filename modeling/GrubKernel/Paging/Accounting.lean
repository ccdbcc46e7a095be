import GrubKernel.Paging.Faults
import Mathlib.Data.Finset.Card

/-!
# Frame accounting of the fault path

Every frame that the fault path marks should end up behind exactly one entry.  `setup_page` takes a
frame for a page table before it looks whether one is needed, and forgets that frame when the table is
there already.

* `Ref`, `Refers` — the entries of the directory and of the tables, and the frames they point to.
* `Accounted` — every frame marked since the start is referred to exactly once.
* `refers_installTable`, `refers_poke` — the one new reference of either write.
* **`accounting_iff`** — the frames of a run are accounted for iff every fault meets a directory entry
  that is not present, or no frame is free.
-/

namespace GrubKernel

namespace Paging

/-! ## References -/

/-- An entry of the directory, or of the table of a directory entry. -/
inductive Ref where
  | directory (d : ℕ)
  | table (d j : ℕ)
deriving DecidableEq

/-- The entry is present and points to the frame. -/
def Refers (s : Paging) (f : ℕ) : Ref → Prop
  | .directory d => d < 1023 ∧ present (s.dirEntry d) = true ∧ s.tableFrame d = f
  | .table d j => (d < 1023 ∧ j < 1024) ∧ present (s.dirEntry d) = true ∧
      present (s.word (s.tableFrame d) j) = true ∧ frameOf (s.word (s.tableFrame d) j) = f

/-- A reference to a frame that was free is a new entry: after installing the frame as the table of a
directory entry that was not present, that entry. -/
lemma refers_installTable {s : Paging} (hs : Sane s) {d f : ℕ} (hd : d < 1023) (hf : s.Free f)
    (habsent : ¬ present (s.dirEntry d) = true) (x : ℕ) (r : Ref) :
    Refers (s.installTable d f) x r ↔ Refers s x r ∨ (r = .directory d ∧ x = f) := by
  have hff : f < frameCount := hf.1.trans_le managedFrames_le
  have hne : f ≠ s.dirFrame := fun h => hs.directory (h ▸ hf)
  have hnew : (s.installTable d f).dirEntry d = entry f 3 := by
    rw [dirEntry_installTable s (by omega) hff (show d < 1024 by omega) hne, if_pos rfl]
  have hold : ∀ e < 1023, e ≠ d → (s.installTable d f).dirEntry e = s.dirEntry e := by
    intro e he hed
    rw [dirEntry_installTable s (by omega) hff (show e < 1024 by omega) hne, if_neg hed]
  have hframe : ∀ e < 1023, e ≠ d → (s.installTable d f).tableFrame e = s.tableFrame e := by
    intro e he hed
    rw [tableFrame, hold e he hed, tableFrame]
  have hnewframe : (s.installTable d f).tableFrame d = f := by
    rw [tableFrame, hnew, frameOf_entry hff (by omega)]
  have hpresent : present (entry f 3) = true := by
    rw [present_entry hff (by omega)]
    rfl
  cases r with
  | directory e =>
      by_cases hed : e = d
      · subst hed
        have hrefers : Refers (s.installTable e f) x (.directory e) ↔ f = x := by
          rw [Refers, hnew, hnewframe]
          exact ⟨fun h => h.2.2, fun h => ⟨hd, hpresent, h⟩⟩
        rw [hrefers]
        constructor
        · intro h
          exact Or.inr ⟨rfl, h.symm⟩
        · rintro (h | ⟨-, h⟩)
          · exact absurd h.2.1 habsent
          · exact h.symm
      · have hne' : (Ref.directory e = Ref.directory d) = False := by simp [hed]
        simp only [Refers, hne', false_and, or_false]
        refine and_congr_right fun he => ?_
        rw [hold e he hed, hframe e he hed]
  | table e j =>
      simp only [Refers, reduceCtorEq, false_and, or_false]
      refine and_congr_right fun hin => ?_
      obtain ⟨he, hj⟩ := hin
      by_cases hed : e = d
      · -- the new table has no entry that is present
        subst hed
        have hempty : present ((s.installTable e f).word f j) = false := by
          rw [word_installTable s (by omega) hff hff hj, if_pos rfl]
          split_ifs
          · rw [present_entry hff (by omega)]
            rfl
          · rfl
        rw [hnewframe, hempty]
        simp [habsent]
      · rw [hold e he hed, hframe e he hed]
        refine and_congr_right fun hp => ?_
        obtain ⟨hfree, hdir⟩ := hs.tables e he hp
        have hne' : s.tableFrame e ≠ f := fun h => hfree (h ▸ hf)
        have hword : (s.installTable d f).word (s.tableFrame e) j = s.word (s.tableFrame e) j := by
          rw [word_installTable s (by omega) hff (s.tableFrame_lt e) hj,
            if_neg hne', if_neg fun h => hdir h.1]
        rw [hword]

/-- After writing an entry that was not present, that entry. -/
lemma refers_poke {s : Paging} (hs : Sane s) {d j g : ℕ} (hd : d < 1023) (hj : j < 1024)
    (hg : g < frameCount) (hp : GrubKernel.present (s.dirEntry d) = true)
    (hempty : ¬ GrubKernel.present (s.word (s.tableFrame d) j) = true) (x : ℕ) (r : Ref) :
    Refers (s.poke (s.tableFrame d) j (entry g 1)) x r ↔
      Refers s x r ∨ (r = .table d j ∧ x = g) := by
  have hentry := (hs.poke hd hj hp (entry g 1)).2
  have hframe : ∀ e < 1024, (s.poke (s.tableFrame d) j (entry g 1)).tableFrame e = s.tableFrame e := by
    intro e he
    rw [tableFrame, hentry e he, tableFrame]
  have hpresent : GrubKernel.present (entry g 1) = true := by
    rw [present_entry hg (by omega)]
    rfl
  cases r with
  | directory e =>
      simp only [Refers, reduceCtorEq, false_and, or_false]
      refine and_congr_right fun he => ?_
      rw [hentry e (by omega), hframe e (by omega)]
  | table e i =>
      by_cases hei : e = d ∧ i = j
      · obtain ⟨rfl, rfl⟩ := hei
        have hword : (s.poke (s.tableFrame e) i (entry g 1)).word (s.tableFrame e) i = entry g 1 := by
          rw [word_poke s _ (s.tableFrame_lt e) (s.tableFrame_lt e) hj hj, if_pos ⟨rfl, rfl⟩]
        have hrefers : Refers (s.poke (s.tableFrame e) i (entry g 1)) x (.table e i) ↔ g = x := by
          rw [Refers, hentry e (by omega), hframe e (by omega), hword, frameOf_entry hg (by omega)]
          exact ⟨fun h => h.2.2.2, fun h => ⟨⟨hd, hj⟩, hp, hpresent, h⟩⟩
        rw [hrefers]
        constructor
        · intro h
          exact Or.inr ⟨rfl, h.symm⟩
        · rintro (h | ⟨-, h⟩)
          · exact absurd h.2.2.1 hempty
          · exact h.symm
      · have hne' : (Ref.table e i = Ref.table d j) = False := by simp [hei]
        simp only [Refers, hne', false_and, or_false]
        refine and_congr_right fun hin => ?_
        obtain ⟨he, hi⟩ := hin
        rw [hentry e (by omega), hframe e (by omega)]
        refine and_congr_right fun hpe => ?_
        have hword : (s.poke (s.tableFrame d) j (entry g 1)).word (s.tableFrame e) i
            = s.word (s.tableFrame e) i := by
          rw [word_poke s _ (s.tableFrame_lt d) (s.tableFrame_lt e) hj hi, if_neg]
          rintro ⟨hf, hi'⟩
          exact hei ⟨hs.injective e he d hd hpe hp hf, hi'⟩
        rw [hword]

/-! ## Accounting -/

/-- Every frame that was free in `s₀` and is not free any more is referred to by exactly one entry. -/
def Accounted (s₀ s : Paging) : Prop := ∀ f, s₀.Free f → ¬ s.Free f → ∃! r, Refers s f r

/-- What carries the accounting along a run. -/
structure Books (s₀ s : Paging) : Prop where
  sane : Sane s
  shrinks : ∀ f, s.Free f → s₀.Free f
  closed : ∀ f r, Refers s f r → ¬ s.Free f
  accounted : Accounted s₀ s

/-- One frame is taken and gets one reference. -/
lemma Books.enter {s₀ s t : Paging} (h : Books s₀ s) (ht : Sane t) {f : ℕ} {ρ : Ref} (hf : s.Free f)
    (hfree : ∀ x, t.Free x ↔ s.Free x ∧ x ≠ f)
    (hrefs : ∀ x r, Refers t x r ↔ Refers s x r ∨ (r = ρ ∧ x = f)) : Books s₀ t := by
  refine ⟨ht, fun x hx => h.shrinks x ((hfree x).mp hx).1, fun x r hr hx => ?_, fun x hx₀ hx => ?_⟩
  · obtain ⟨hxs, hxf⟩ := (hfree x).mp hx
    rcases (hrefs x r).mp hr with hr | ⟨-, rfl⟩
    · exact h.closed x r hr hxs
    · exact hxf rfl
  · by_cases hxf : x = f
    · subst hxf
      refine ⟨ρ, (hrefs x ρ).mpr (Or.inr ⟨rfl, rfl⟩), fun r hr => ?_⟩
      rcases (hrefs x r).mp hr with hr | ⟨hr, -⟩
      · exact absurd hf (h.closed x r hr)
      · exact hr
    · have hxs : ¬ s.Free x := fun hs => hx ((hfree x).mpr ⟨hs, hxf⟩)
      obtain ⟨r, hr, huniq⟩ := h.accounted x hx₀ hxs
      refine ⟨r, (hrefs x r).mpr (Or.inl hr), fun r' hr' => ?_⟩
      rcases (hrefs x r').mp hr' with hr' | ⟨-, hbad⟩
      · exact huniq r' hr'
      · exact absurd hbad hxf

/-- A frame that is taken and gets no reference breaks the accounting. -/
lemma not_accounted_of_leak {s₀ s t : Paging} (h : Books s₀ s) {f : ℕ} (hf : s.Free f)
    (hgone : ¬ t.Free f) (hrefs : ∀ r, Refers t f r → Refers s f r) : ¬ Accounted s₀ t := by
  intro hacc
  obtain ⟨r, hr, -⟩ := hacc f (h.shrinks f hf) hgone
  exact h.closed f r (hrefs r hr) hf

/-! ## Counting free frames -/

/-- The number of free frames. -/
def freeCount (s : Paging) : ℕ := ((Finset.range managedFrames).filter s.Free).card

/-- Counting below a bound, with one number less. -/
lemma card_filter_take {p q : ℕ → Prop} [DecidablePred p] [DecidablePred q] {n f : ℕ} (hn : f < n)
    (hf : p f) (hq : ∀ x, q x ↔ p x ∧ x ≠ f) :
    ((Finset.range n).filter q).card + 1 = ((Finset.range n).filter p).card := by
  have herase : (Finset.range n).filter q = ((Finset.range n).filter p).erase f := by
    ext x
    rw [Finset.mem_erase, Finset.mem_filter, Finset.mem_filter, hq]
    tauto
  have hmem : f ∈ (Finset.range n).filter p :=
    Finset.mem_filter.mpr ⟨Finset.mem_range.mpr hn, hf⟩
  rw [herase, Finset.card_erase_add_one hmem]

lemma freeCount_of_take {s t : Paging} {f : ℕ} (hf : s.Free f)
    (hfree : ∀ x, t.Free x ↔ s.Free x ∧ x ≠ f) : t.freeCount + 1 = s.freeCount :=
  card_filter_take hf.1 hf hfree

lemma freeCount_eq_zero {s : Paging} (h : ∀ f, ¬ s.Free f) : s.freeCount = 0 := by
  rw [freeCount, Finset.card_eq_zero, Finset.filter_eq_empty_iff]
  exact fun f _ => h f

/-- The number of frames that a fault at `v` needs: one for the page, and one for a table that is not
there. -/
def needed (s : Paging) (v : UInt32) : ℕ := if present (s.dirEntry (dirIndex v)) then 1 else 2

/-- The fault takes the frames it needs and maps the page, if that many are free. -/
def Consumes (s : Paging) (v : UInt32) (o : Outcome) : Prop :=
  s.needed v ≤ s.freeCount →
    o.state.freeCount + s.needed v = s.freeCount ∧ o.state.translate v ≠ none

/-! ## One fault -/

/-- The directory entry of the address is not present, or no frame is free. -/
def FreshRegion (s : Paging) (v : UInt32) : Prop :=
  ¬ present (s.dirEntry (dirIndex v)) = true ∨ ∀ f, ¬ s.Free f

/-- Marking a frame changes no reference. -/
lemma refers_useFrame (s : Paging) (f x : ℕ) (r : Ref) :
    Refers (s.useFrame f) x r ↔ Refers s x r := by
  cases r with
  | directory d => exact Iff.rfl
  | table d j => exact Iff.rfl

/-- The frame for a table goes behind the directory entry. -/
lemma Books.installTable {s₀ s : Paging} (h : Books s₀ s) {d f : ℕ} (hd : d < 1023) (hf : s.Free f)
    (habsent : ¬ present (s.dirEntry d) = true) : Books s₀ ((s.useFrame f).installTable d f) := by
  refine h.enter (ρ := .directory d) (h.sane.installTable hd hf) hf (free_useFrame hf.1)
    fun x r => ?_
  have hinstall := refers_installTable h.sane hd hf habsent x r
  rwa [← refers_useFrame (s.installTable d f) f] at hinstall

/-- The frame for a page goes behind the table entry. -/
lemma Books.connect {s₀ s : Paging} (h : Books s₀ s) {d j g : ℕ} (hd : d < 1023) (hj : j < 1024)
    (hg : s.Free g) (hp : present (s.dirEntry d) = true)
    (hempty : ¬ present (s.word (s.tableFrame d) j) = true) :
    Books s₀ ((s.useFrame g).poke (s.tableFrame d) j (entry g 1)) := by
  have hgg : g < frameCount := hg.1.trans_le managedFrames_le
  have hused := h.sane.useFrame hg.1
  refine h.enter (ρ := .table d j) (hused.poke hd hj hp _).1 hg (free_useFrame hg.1) fun x r => ?_
  rw [← refers_useFrame s g]
  exact refers_poke hused hd hj hgg hp hempty x r

/-- After a fault that found a free frame the directory entry is present. -/
lemma pageFault_present {s : Paging} (hs : Sane s) {v : UInt32} (hv : dirIndex v < 1023) {f : ℕ}
    (hf : s.Free f) : present ((s.pageFault v).state.dirEntry (dirIndex v)) = true := by
  cases ha : s.freeFrame with
  | none => exact absurd hf (freeFrame_none ha f)
  | some a =>
      have hafree := freeFrame_some ha
      obtain ⟨hsane, hp, -, -⟩ := withTable_spec hs hv hafree
      unfold pageFault
      rw [ha]
      dsimp only
      cases hg : (s.withTable (dirIndex v) a).2.freeFrame with
      | none => exact hp
      | some g =>
          have hused := hsane.useFrame (freeFrame_some hg).1
          have hentry := (hused.poke hv (tableIndex_lt v) hp (entry g 1)).2 (dirIndex v) (by omega)
          rw [useFrame_dirEntry, useFrame_tableFrame] at hentry
          dsimp only
          rw [hentry]
          exact hp

/-- A fault leaves the other directory entries alone. -/
lemma pageFault_dirEntry {s : Paging} (hs : Sane s) {v : UInt32} (hv : dirIndex v < 1023) {e : ℕ}
    (he : e < 1024) (hne : e ≠ dirIndex v) : (s.pageFault v).state.dirEntry e = s.dirEntry e := by
  cases ha : s.freeFrame with
  | none => rw [pageFault_of_full ha]
  | some a =>
      have hafree := freeFrame_some ha
      obtain ⟨hsane, hp, -, -⟩ := withTable_spec hs hv hafree
      have htable : (s.withTable (dirIndex v) a).2.dirEntry e = s.dirEntry e := by
        have hdir : a ≠ s.dirFrame := fun h => hs.directory (h ▸ hafree)
        unfold withTable
        split_ifs
        · rfl
        · rw [dirEntry_installTable (s.useFrame a) (by omega) (hafree.1.trans_le managedFrames_le) he
            hdir, if_neg hne, useFrame_dirEntry]
      unfold pageFault
      rw [ha]
      dsimp only
      cases hg : (s.withTable (dirIndex v) a).2.freeFrame with
      | none => exact htable
      | some g =>
          have hused := hsane.useFrame (freeFrame_some hg).1
          have hentry := (hused.poke hv (tableIndex_lt v) hp (entry g 1)).2 e he
          rw [useFrame_dirEntry, useFrame_tableFrame] at hentry
          exact hentry.trans htable

/-- **A fault in a fresh region** keeps the accounting and consumes what it needs. -/
theorem pageFault_fresh {s₀ s : Paging} (h : Books s₀ s) {v : UInt32} (hv : dirIndex v < 1023)
    (hfresh : FreshRegion s v) : Books s₀ (s.pageFault v).state ∧ Consumes s v (s.pageFault v) := by
  cases hf : s.freeFrame with
  | none =>
      -- nothing is free, so nothing happens
      rw [pageFault_of_full hf]
      refine ⟨h, fun hneed => ?_⟩
      rw [freeCount_eq_zero (freeFrame_none hf), needed] at hneed
      split_ifs at hneed
      · omega
      · omega
  | some f =>
      have hffree := freeFrame_some hf
      have habsent : ¬ present (s.dirEntry (dirIndex v)) = true := by
        rcases hfresh with habsent | hfull
        · exact habsent
        · exact absurd hffree (hfull f)
      have hff : f < frameCount := hffree.1.trans_le managedFrames_le
      have hne : f ≠ s.dirFrame := fun heq => h.sane.directory (heq ▸ hffree)
      have hj := tableIndex_lt v
      have hwith : s.withTable (dirIndex v) f
          = (some f, (s.useFrame f).installTable (dirIndex v) f) := if_neg habsent
      have hbooks := h.installTable hv hffree habsent
      have hcount : ((s.useFrame f).installTable (dirIndex v) f).freeCount + 1 = s.freeCount :=
        freeCount_of_take hffree (free_useFrame hffree.1)
      have hneeded : s.needed v = 2 := if_neg habsent
      have hready := (withTable_ready h.sane.toGuarded hv hffree).2.1
      rw [hwith] at hready
      have hframe : ((s.useFrame f).installTable (dirIndex v) f).tableFrame (dirIndex v) = f := by
        rw [tableFrame, dirEntry_installTable (s.useFrame f) (by omega) hff (by omega) hne, if_pos rfl,
          frameOf_entry hff (by omega)]
      have hempty : ¬ present (((s.useFrame f).installTable (dirIndex v) f).word f (tableIndex v))
          = true := by
        rw [word_installTable (s.useFrame f) (by omega) hff hff hj, if_pos rfl]
        split_ifs
        · rw [present_entry hff (by omega)]
          decide
        · decide
      unfold pageFault
      rw [hf]
      dsimp only
      rw [hwith]
      dsimp only at hready ⊢
      generalize (s.useFrame f).installTable (dirIndex v) f = t at *
      cases hg : t.freeFrame with
      | none =>
          refine ⟨hbooks, fun hneed => ?_⟩
          rw [freeCount_eq_zero (freeFrame_none hg)] at hcount
          omega
      | some g =>
          have hgfree := freeFrame_some hg
          have hgg : g < frameCount := hgfree.1.trans_le managedFrames_le
          have hused := hbooks.sane.useFrame hgfree.1
          refine ⟨hbooks.connect hv hj hgfree hready (by rw [hframe]; exact hempty), fun _ => ⟨?_, ?_⟩⟩
          · have hcount' : ((t.useFrame g).poke (t.tableFrame (dirIndex v)) (tableIndex v)
                (entry g 1)).freeCount + 1 = t.freeCount :=
              freeCount_of_take hgfree (free_useFrame hgfree.1)
            dsimp only
            omega
          · dsimp only
            have hmaps := translate_poke_self hused hv hready hgg
            rw [useFrame_tableFrame] at hmaps
            rw [hmaps]
            exact Option.some_ne_none _

/-- **A fault in a region with a table** leaks a frame, if one is free. -/
theorem pageFault_leaks {s₀ s : Paging} (h : Books s₀ s) {v : UInt32} (hv : dirIndex v < 1023)
    (hunmapped : s.translate v = none) (hstale : ¬ FreshRegion s v) :
    ¬ Accounted s₀ (s.pageFault v).state := by
  have hp : present (s.dirEntry (dirIndex v)) = true :=
    by_contra fun habsent => hstale (Or.inl habsent)
  have hj := tableIndex_lt v
  cases hf : s.freeFrame with
  | none => exact absurd (Or.inr (freeFrame_none hf)) hstale
  | some f =>
      have hffree := freeFrame_some hf
      have hwith : s.withTable (dirIndex v) f = (none, s.useFrame f) := if_pos hp
      have hgone : ∀ x, (s.useFrame f).Free x ↔ s.Free x ∧ x ≠ f := free_useFrame hffree.1
      unfold pageFault
      rw [hf]
      dsimp only
      rw [hwith]
      dsimp only
      cases hg : (s.useFrame f).freeFrame with
      | none =>
          exact not_accounted_of_leak h hffree (fun hx => ((hgone f).mp hx).2 rfl) fun r hr => hr
      | some g =>
          have hgfree := freeFrame_some hg
          have hgf : f ≠ g := fun heq => ((hgone g).mp hgfree).2 heq.symm
          have hused := (h.sane.useFrame hffree.1).useFrame hgfree.1
          have hempty : ¬ present (s.word (s.tableFrame (dirIndex v)) (tableIndex v)) = true := by
            intro hentry
            rw [translate_eq, if_neg (not_not.mpr hp), if_neg (not_not.mpr hentry)] at hunmapped
            exact Option.some_ne_none _ hunmapped
          refine not_accounted_of_leak h hffree (fun hx => ?_) fun r hr => ?_
          · exact ((hgone f).mp ((free_useFrame hgfree.1 f).mp hx).1).2 rfl
          · have hrefs := refers_poke hused hv hj (hgfree.1.trans_le managedFrames_le) hp hempty f r
            rcases hrefs.mp hr with hr | ⟨-, heq⟩
            · exact hr
            · exact absurd heq hgf

/-! ## Runs -/

/-- The faults of a run: each at an address below the window that has no translation. -/
def Faults (s : Paging) : List UInt32 → Prop
  | [] => True
  | v :: vs => v < 0xFFC00000 ∧ s.translate v = none ∧
      ∀ o, s.setupPage v = some o → Faults o.state vs

/-- Along the run the frames are accounted for, and every fault is served and consumes the frames it
needs. -/
def AccountedRun (s₀ s : Paging) : List UInt32 → Prop
  | [] => Accounted s₀ s
  | v :: vs => Accounted s₀ s ∧
      ∃ o, s.setupPage v = some o ∧ Consumes s v o ∧ AccountedRun s₀ o.state vs

/-- Every fault of the run meets a directory entry that is not present, or no free frame. -/
def FreshRun (s : Paging) : List UInt32 → Prop
  | [] => True
  | v :: vs => FreshRegion s v ∧ ∀ o, s.setupPage v = some o → FreshRun o.state vs

lemma accounted_of_run {s₀ s : Paging} {vs : List UInt32} (h : AccountedRun s₀ s vs) :
    Accounted s₀ s := by
  cases vs with
  | nil => exact h
  | cons v vs => exact h.1

/-- **The accounting of a run**, by induction on the faults. -/
theorem accountedRun_iff {s₀ s : Paging} (h : Books s₀ s) {vs : List UInt32} (hvs : Faults s vs) :
    AccountedRun s₀ s vs ↔ FreshRun s vs := by
  induction vs generalizing s with
  | nil => exact iff_of_true h.accounted trivial
  | cons v vs ih =>
      obtain ⟨hlt, hunmapped, hrest⟩ := hvs
      have hv : dirIndex v < 1023 := by
        have hlt' := UInt32.lt_iff_toNat_lt.mp hlt
        have hbound : (0xFFC00000 : UInt32).toNat = 0xFFC00000 := rfl
        unfold dirIndex
        omega
      have ho := setupPage_eq h.sane.toGuarded hv
      constructor
      · rintro ⟨-, o, ho', -, hrun⟩
        obtain rfl : s.pageFault v = o := Option.some_inj.mp (ho.symm.trans ho')
        have hfresh : FreshRegion s v :=
          by_contra fun hstale => pageFault_leaks h hv hunmapped hstale (accounted_of_run hrun)
        refine ⟨hfresh, fun o ho' => ?_⟩
        obtain rfl : s.pageFault v = o := Option.some_inj.mp (ho.symm.trans ho')
        exact (ih (pageFault_fresh h hv hfresh).1 (hrest _ ho)).mp hrun
      · rintro ⟨hfresh, hrun⟩
        obtain ⟨hbooks, hconsumes⟩ := pageFault_fresh h hv hfresh
        exact ⟨h.accounted, _, ho, hconsumes, (ih hbooks (hrest _ ho)).mpr (hrun _ ho)⟩

/-! ## From boot on -/

/-- At boot no free frame is referred to. -/
lemma books_boot {s : Paging} {count : ℕ} (hfilled : Filled s.mem s.dirFrame count)
    (hcount : count ≤ 1022) (hfit : s.dirFrame + 1 + count ≤ frameCount)
    (hmapped : ∀ f < 1024 * count, ¬ s.Free f)
    (hmarked : ∀ f, s.dirFrame ≤ f → f ≤ s.dirFrame + count → ¬ s.Free f) : Books s s := by
  have hbound : frameCount = 1048576 := rfl
  refine ⟨sane_boot hfilled hcount hfit hmarked, fun f hf => hf, fun f r hr => ?_,
    fun f hf hnot => absurd hf hnot⟩
  cases r with
  | directory d =>
      obtain ⟨hd, hp, rfl⟩ := hr
      obtain ⟨hlt, hframe⟩ := table_of_present hfilled hfit hd hp
      rw [hframe]
      exact hmarked _ (by omega) (by omega)
  | table d j =>
      obtain ⟨⟨hd, hj⟩, hp, -, rfl⟩ := hr
      obtain ⟨hlt, hframe⟩ := table_of_present hfilled hfit hd hp
      rw [hframe]
      by_cases hlast : j = 1023
      · have hself : s.word (s.dirFrame + 1 + d) 1023 = entry (s.dirFrame + 1 + d) 1 :=
          hfilled.tableSelf d hlt
        rw [hlast, hself, frameOf_entry (by omega) (by omega)]
        exact hmarked _ (by omega) (by omega)
      · have hpage : s.word (s.dirFrame + 1 + d) j = entry (1024 * d + j) 3 :=
          hfilled.page d hlt j (by omega)
        rw [hpage, frameOf_entry (by omega) (by omega)]
        exact hmapped _ (by omega)

end Paging

open Paging

/-- **Frame accounting.**  Start from the tables of `paging_setup` with the frames that they map, and
their own, in use.  Along a run of faults the frames are accounted for, and every fault consumes the
frames it needs, iff every fault of the run meets a directory entry that is not present, or no frame is
free.  The other faults leak a frame. -/
theorem accounting_iff {count : ℕ} {pageDirectory : UInt32} (hcount : count ≤ 1022)
    (halign : pageDirectory.toNat % 4096 = 0)
    (hfit : pageDirectory.toNat + (1 + count) * 4096 ≤ 2 ^ 32) (mem : UInt32 → UInt32)
    {bitmap : ℕ → UInt32}
    (hmapped : ∀ f < 1024 * count, f < managedFrames → Bitmap.inUse bitmap f = true)
    (hmarked : ∀ f, frameOf pageDirectory ≤ f → f ≤ frameOf pageDirectory + count →
      f < managedFrames → Bitmap.inUse bitmap f = true)
    {vs : List UInt32} (hvs : Faults (pagingState count pageDirectory mem bitmap) vs) :
    AccountedRun (pagingState count pageDirectory mem bitmap)
      (pagingState count pageDirectory mem bitmap) vs ↔
    FreshRun (pagingState count pageDirectory mem bitmap) vs := by
  obtain ⟨hroom, hfilled⟩ := filled_pagingState hcount halign hfit mem bitmap
  have hused : ∀ f, (f < managedFrames → Bitmap.inUse bitmap f = true) →
      ¬ (pagingState count pageDirectory mem bitmap).Free f := by
    intro f huse hfree
    have hclear : Bitmap.inUse bitmap f = false := hfree.2
    rw [huse hfree.1] at hclear
    simp at hclear
  exact accountedRun_iff (books_boot hfilled hcount hroom (fun f hf => hused f (hmapped f hf))
    fun f hlo hhi => hused f (hmarked f hlo hhi)) hvs

lemma books_fortyMiB : Books fortyMiB fortyMiB := by
  have hframe : fortyMiB.dirFrame = 0x2801 := by decide
  refine books_boot fortyMiB_filled (by decide) (by rw [hframe]; decide)
    (fun f hf => fortyMiB_taken (by omega)) fun f _ hhi => fortyMiB_taken ?_
  rw [hframe] at hhi
  omega

/-- Two faults in the same 4 MiB: the second one leaks the frame that it took for a table. -/
theorem second_fault_leaks :
    Faults fortyMiB [0xA0000000, 0xA0001000] ∧
    ¬ AccountedRun fortyMiB fortyMiB [0xA0000000, 0xA0001000] ∧
    ∃ o₁ o₂, fortyMiB.setupPage 0xA0000000 = some o₁ ∧
      o₁.state.setupPage 0xA0001000 = some o₂ ∧ ¬ Accounted fortyMiB o₂.state := by
  have hv₁ : dirIndex 0xA0000000 = 640 := by decide
  have hv₂ : dirIndex 0xA0001000 = 640 := by decide
  have hlt₁ : dirIndex 0xA0000000 < 1023 := by decide
  have hlt₂ : dirIndex 0xA0001000 < 1023 := by decide
  have hfree : ∀ f, 11520 ≤ f → f < 11523 → fortyMiB.Free f := by
    intro f hlo hhi
    have hmanaged : managedFrames = 51232 := rfl
    exact fortyMiB_free hlo (by omega)
  have hfree₁ := hfree 11520 (by omega) (by omega)
  have hfresh : FreshRegion fortyMiB 0xA0000000 := by
    left
    rw [hv₁, fortyMiB_absent (by decide) (by decide)]
    decide
  have hbooks := (pageFault_fresh books_fortyMiB hlt₁ hfresh).1
  have hunmapped : (fortyMiB.pageFault 0xA0000000).state.translate 0xA0001000 = none := by
    rw [(pageFault_spec books_fortyMiB.sane hlt₁ fortyMiB_twoFree).keeps _ hlt₂ (by decide)]
    exact fortyMiB_unmapped (by decide)
  have hstale : ¬ FreshRegion (fortyMiB.pageFault 0xA0000000).state 0xA0001000 := by
    rintro (habsent | hfull)
    · have hp := pageFault_present books_fortyMiB.sane hlt₁ hfree₁
      rw [hv₁, ← hv₂] at hp
      exact habsent hp
    · -- of the first three free frames one is still free
      obtain ⟨a, b, hkeep⟩ := pageFault_takes books_fortyMiB.sane hlt₁
      have hone : ∃ x, 11520 ≤ x ∧ x < 11523 ∧ x ≠ a ∧ x ≠ b := by
        by_contra hnone
        push Not at hnone
        have h₀ := hnone 11520 (by omega) (by omega)
        have h₁ := hnone 11521 (by omega) (by omega)
        have h₂ := hnone 11522 (by omega) (by omega)
        omega
      obtain ⟨x, hlo, hhi, hxa, hxb⟩ := hone
      exact hfull x (hkeep x (hfree x hlo hhi) hxa hxb)
  have ho₁ := setupPage_eq books_fortyMiB.sane.toGuarded hlt₁
  have ho₂ := setupPage_eq hbooks.sane.toGuarded hlt₂
  have hleak := pageFault_leaks hbooks hlt₂ hunmapped hstale
  refine ⟨⟨by decide, fortyMiB_unmapped (by decide), fun o ho => ⟨by decide, ?_, fun _ _ => trivial⟩⟩,
    ?_, _, _, ho₁, ho₂, hleak⟩
  · obtain rfl := Option.some_inj.mp (ho₁.symm.trans ho)
    exact hunmapped
  · rintro ⟨-, o₁, ho, -, -, o₂, ho', -, hrest⟩
    obtain rfl := Option.some_inj.mp (ho₁.symm.trans ho)
    obtain rfl := Option.some_inj.mp (ho₂.symm.trans ho')
    exact hleak hrest

/-- Two faults 4 MiB apart take a table and a page each. -/
theorem accounting_iff_example : AccountedRun fortyMiB fortyMiB [0xA0000000, 0xA0400000] := by
  have hframe : frameOf 0x2801000 = 0x2801 := by decide
  have hv₁ : dirIndex 0xA0000000 = 640 := by decide
  have hv₂ : dirIndex 0xA0400000 = 641 := by decide
  have hlt₁ : dirIndex 0xA0000000 < 1023 := by decide
  have hlt₂ : dirIndex 0xA0400000 < 1023 := by decide
  have ho := setupPage_eq books_fortyMiB.sane.toGuarded hlt₁
  have hvs : Faults fortyMiB [0xA0000000, 0xA0400000] := by
    refine ⟨by decide, fortyMiB_unmapped (by decide), fun o ho' => ⟨by decide, ?_, fun _ _ => trivial⟩⟩
    obtain rfl := Option.some_inj.mp (ho.symm.trans ho')
    rw [(pageFault_spec books_fortyMiB.sane hlt₁ fortyMiB_twoFree).keeps _ hlt₂ (by decide)]
    exact fortyMiB_unmapped (by decide)
  have hfresh : FreshRun fortyMiB [0xA0000000, 0xA0400000] := by
    refine ⟨Or.inl ?_, fun o ho' => ⟨Or.inl ?_, fun _ _ => trivial⟩⟩
    · rw [hv₁, fortyMiB_absent (by decide) (by decide)]
      decide
    · obtain rfl := Option.some_inj.mp (ho.symm.trans ho')
      rw [pageFault_dirEntry books_fortyMiB.sane hlt₁ (by decide) (by decide), hv₂,
        fortyMiB_absent (by decide) (by decide)]
      decide
  refine (accounting_iff (show 10 ≤ 1022 by decide)
    (show (0x2801000 : UInt32).toNat % 4096 = 0 by decide) (by decide) (fun _ => 0)
    (fun f hf _ => fortyMiB_used (by omega)) (fun f _ hhi _ => fortyMiB_used ?_) hvs).mpr hfresh
  rw [hframe] at hhi
  omega

end GrubKernel
