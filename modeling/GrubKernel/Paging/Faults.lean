import GrubKernel.Paging.Window

/-!
# Runs of page faults

A run starts from the tables of `paging_setup` and handles faults one after the other.  `Sane` is what
holds of the tables all along: the directory shows itself, and the tables lie in different frames
that are not free.

* `Sane` — the invariant; `sane_boot` and `FaultRun.spec` say that it holds in every state of a run.
* `FaultSpec`, `pageFault_spec` — what one fault does to the frames and the translations.
* `FaultRun` — the runs, with the frames they used.
* **`page_faults_safe`** — the faulting page gets a fresh frame, every other page keeps its translation,
  no frame is used twice, and the window keeps showing the tables.
-/

namespace GrubKernel

namespace Paging

/-! ## The invariant -/

/-- The tables of a running kernel. -/
structure Sane (s : Paging) : Prop extends Guarded s where
  injective : ∀ d < 1023, ∀ e < 1023, present (s.dirEntry d) = true →
    present (s.dirEntry e) = true → s.tableFrame d = s.tableFrame e → d = e

lemma free_useFrame {s : Paging} {f : ℕ} (hf : f < managedFrames) (g : ℕ) :
    (s.useFrame f).Free g ↔ s.Free g ∧ g ≠ f := by
  unfold Free
  rw [inUse_useFrame s hf]
  simp only [Bool.or_eq_false_iff, decide_eq_false_iff_not]
  tauto

lemma Sane.useFrame {s : Paging} (hs : Sane s) {f : ℕ} (hf : f < managedFrames) :
    Sane (s.useFrame f) := by
  refine ⟨⟨hs.windowed.useFrame f, fun h => hs.directory ((free_useFrame hf _).mp h).1,
    fun d hd hp => ?_⟩, hs.injective⟩
  obtain ⟨hfree, hne⟩ := hs.tables d hd hp
  exact ⟨fun h => hfree ((free_useFrame hf _).mp h).1, hne⟩

/-- Writing a word of a table that is present. -/
lemma Sane.poke {s : Paging} (hs : Sane s) {d j : ℕ} (hd : d < 1023) (hj : j < 1024)
    (hp : GrubKernel.present (s.dirEntry d) = true) (w : UInt32) :
    Sane (s.poke (s.tableFrame d) j w) ∧
      ∀ e < 1024, (s.poke (s.tableFrame d) j w).dirEntry e = s.dirEntry e := by
  have hne := (hs.tables d hd hp).2
  have hf := s.tableFrame_lt d
  have hentry : ∀ e < 1024, (s.poke (s.tableFrame d) j w).dirEntry e = s.dirEntry e :=
    fun e he => dirEntry_poke_of_ne s hf hj he (fun h => hne h.1) w
  have hframe : ∀ e < 1024, (s.poke (s.tableFrame d) j w).tableFrame e = s.tableFrame e := by
    intro e he
    rw [tableFrame, hentry e he, tableFrame]
  refine ⟨⟨⟨hs.windowed.poke hf hj (fun h => hne h.1) w, hs.directory, fun e he hpe => ?_⟩,
    fun a ha b hb hpa hpb hab => ?_⟩, hentry⟩
  · rw [hentry e (by omega)] at hpe
    rw [hframe e (by omega)]
    exact hs.tables e he hpe
  · rw [hentry a (by omega)] at hpa
    rw [hentry b (by omega)] at hpb
    rw [hframe a (by omega), hframe b (by omega)] at hab
    exact hs.injective a ha b hb hpa hpb hab

/-- Installing a frame that was free, once it is marked. -/
lemma Sane.installTable {s : Paging} (hs : Sane s) {d f : ℕ} (hd : d < 1023)
    (hf : s.Free f) : Sane ((s.useFrame f).installTable d f) := by
  have hff : f < frameCount := hf.1.trans_le managedFrames_le
  have hne : f ≠ s.dirFrame := fun h => hs.directory (h ▸ hf)
  have hu := hs.useFrame hf.1
  have hentry : ∀ e < 1024, ((s.useFrame f).installTable d f).dirEntry e
      = if e = d then entry f 3 else s.dirEntry e :=
    fun e he => dirEntry_installTable (s.useFrame f) (by omega) hff he hne
  -- no other table lies in a frame that was free
  have hother : ∀ e < 1023, present (s.dirEntry e) = true → s.tableFrame e ≠ f :=
    fun e he hpe heq => (hs.tables e he hpe).1 (heq ▸ hf)
  have hnew : ((s.useFrame f).installTable d f).tableFrame d = f := by
    rw [tableFrame, hentry d (by omega), if_pos rfl, frameOf_entry hff (by omega)]
  have hold : ∀ e < 1023, e ≠ d →
      ((s.useFrame f).installTable d f).tableFrame e = s.tableFrame e := by
    intro e he hed
    rw [tableFrame, hentry e (by omega), if_neg hed, tableFrame]
  refine ⟨⟨hu.windowed.installTable hd hff hne, hu.directory, fun e he hpe => ?_⟩,
    fun a ha b hb hpa hpb hab => ?_⟩
  · by_cases hed : e = d
    · rw [hed, hnew]
      exact ⟨fun h => ((free_useFrame hf.1 f).mp h).2 rfl, hne⟩
    · rw [hentry e (by omega), if_neg hed] at hpe
      rw [hold e he hed]
      exact hu.tables e he hpe
  · by_cases had : a = d
    · by_cases hbd : b = d
      · rw [had, hbd]
      · rw [hentry b (by omega), if_neg hbd] at hpb
        rw [had, hnew, hold b hb hbd] at hab
        exact absurd hab.symm (hother b hb hpb)
    · rw [hentry a (by omega), if_neg had] at hpa
      by_cases hbd : b = d
      · rw [hbd, hnew, hold a ha had] at hab
        exact absurd hab (hother a ha hpa)
      · rw [hentry b (by omega), if_neg hbd] at hpb
        rw [hold a ha had, hold b hb hbd] at hab
        exact hs.injective a ha b hb hpa hpb hab

/-! ## Translations -/

/-- Two addresses lie in the same page iff they have the same indices. -/
lemma same_page_iff {v w : UInt32} :
    v.toNat / 4096 = w.toNat / 4096 ↔ dirIndex v = dirIndex w ∧ tableIndex v = tableIndex w := by
  have hv := v.toNat_lt
  have hw := w.toNat_lt
  unfold dirIndex tableIndex
  omega

/-- Installing a table changes no translation. -/
lemma translate_installTable {s : Paging} (hs : Sane s) {d f : ℕ} (hd : d < 1023) (hf : s.Free f)
    (habsent : ¬ present (s.dirEntry d) = true) {w : UInt32} (hw : dirIndex w < 1023) :
    (s.installTable d f).translate w = s.translate w := by
  have hff : f < frameCount := hf.1.trans_le managedFrames_le
  have hne : f ≠ s.dirFrame := fun h => hs.directory (h ▸ hf)
  have hj := tableIndex_lt w
  have hentry := dirEntry_installTable s (show d < 1024 by omega) hff
    (show dirIndex w < 1024 by omega) hne
  rw [translate_eq, translate_eq, tableFrame, hentry]
  by_cases hwd : dirIndex w = d
  · -- the new table maps nothing
    rw [if_pos hwd, hwd, if_pos habsent, frameOf_entry hff (by omega),
      word_installTable s (by omega) hff hff hj, if_pos rfl]
    have hempty : present (if tableIndex w = 1023 then entry f 0 else 2) = false := by
      split_ifs
      · rw [present_entry hff (by omega)]
        rfl
      · rfl
    rw [hempty]
    simp
  · rw [if_neg hwd]
    by_cases hp : present (s.dirEntry (dirIndex w)) = true
    · obtain ⟨hfree, hdir⟩ := hs.tables _ hw hp
      have hframe : s.tableFrame (dirIndex w) ≠ f := fun h => hfree (h ▸ hf)
      have hword : (s.installTable d f).word (s.tableFrame (dirIndex w)) (tableIndex w)
          = s.word (s.tableFrame (dirIndex w)) (tableIndex w) := by
        rw [word_installTable s (by omega) hff (s.tableFrame_lt _) hj, if_neg hframe,
          if_neg fun h => hdir h.1]
      rw [tableFrame] at hword
      rw [hword]
      rfl
    · rw [if_pos hp, if_pos hp]

/-- Writing a table entry changes the translation of its page only. -/
lemma translate_poke {s : Paging} (hs : Sane s) {d j : ℕ} (hd : d < 1023) (hj : j < 1024)
    (hp : GrubKernel.present (s.dirEntry d) = true) (e : UInt32) {w : UInt32}
    (hw : dirIndex w < 1023) (hother : ¬ (dirIndex w = d ∧ tableIndex w = j)) :
    (s.poke (s.tableFrame d) j e).translate w = s.translate w := by
  have hentry := (hs.poke hd hj hp e).2 (dirIndex w) (by omega)
  have hframe : (s.poke (s.tableFrame d) j e).tableFrame (dirIndex w) = s.tableFrame (dirIndex w) := by
    rw [tableFrame, hentry, tableFrame]
  rw [translate_eq, translate_eq, hentry, hframe]
  by_cases hpw : GrubKernel.present (s.dirEntry (dirIndex w)) = true
  · have hword : (s.poke (s.tableFrame d) j e).word (s.tableFrame (dirIndex w)) (tableIndex w)
        = s.word (s.tableFrame (dirIndex w)) (tableIndex w) := by
      rw [word_poke s e (s.tableFrame_lt d) (s.tableFrame_lt _) hj (tableIndex_lt w), if_neg]
      rintro ⟨hf, hi⟩
      exact hother ⟨hs.injective _ hw d hd hpw hp hf, hi⟩
    rw [hword]
  · rw [if_pos hpw, if_pos hpw]

/-- The page behind the entry that was written. -/
lemma translate_poke_self {s : Paging} (hs : Sane s) {v : UInt32} (hv : dirIndex v < 1023)
    (hp : GrubKernel.present (s.dirEntry (dirIndex v)) = true) {g : ℕ} (hg : g < frameCount) :
    (s.poke (s.tableFrame (dirIndex v)) (tableIndex v) (entry g 1)).translate v
      = some (UInt32.ofNat (4096 * g + v.toNat % 4096)) := by
  have hj := tableIndex_lt v
  have hf := s.tableFrame_lt (dirIndex v)
  have hentry := (hs.poke hv hj hp (entry g 1)).2 (dirIndex v) (by omega)
  have hframe : (s.poke (s.tableFrame (dirIndex v)) (tableIndex v) (entry g 1)).tableFrame (dirIndex v)
      = s.tableFrame (dirIndex v) := by
    rw [tableFrame, hentry, tableFrame]
  have hword : (s.poke (s.tableFrame (dirIndex v)) (tableIndex v) (entry g 1)).word
      (s.tableFrame (dirIndex v)) (tableIndex v) = entry g 1 := by
    rw [word_poke s _ hf hf hj hj, if_pos ⟨rfl, rfl⟩]
  have hpresent : GrubKernel.present (entry g 1) = true := by
    rw [present_entry hg (by omega)]
    rfl
  rw [translate_eq, hentry, hframe, hword, if_neg (not_not.mpr hp), if_neg (not_not.mpr hpresent),
    frameOf_entry hg (by omega)]

/-! ## One fault -/

/-- The state once the page table is there. -/
lemma withTable_spec {s : Paging} (hs : Sane s) {d f : ℕ} (hd : d < 1023) (hf : s.Free f) :
    Sane (s.withTable d f).2 ∧ present ((s.withTable d f).2.dirEntry d) = true ∧
      (∀ w, dirIndex w < 1023 → (s.withTable d f).2.translate w = s.translate w) ∧
      ∀ g, (s.withTable d f).2.Free g ↔ s.Free g ∧ g ≠ f := by
  have hu := hs.useFrame hf.1
  have hready := (withTable_ready hs.toGuarded hd hf).2.1
  by_cases hp : present (s.dirEntry d) = true
  · have heq : s.withTable d f = (none, s.useFrame f) := if_pos hp
    rw [heq] at hready ⊢
    exact ⟨hu, hready, fun w _ => rfl, free_useFrame hf.1⟩
  · have heq : s.withTable d f = (some f, (s.useFrame f).installTable d f) := if_neg hp
    rw [heq] at hready ⊢
    refine ⟨hs.installTable hd hf, hready, fun w hw => ?_, free_useFrame hf.1⟩
    exact translate_installTable hs hd hf hp hw

/-- Two frames are free. -/
def TwoFree (s : Paging) : Prop := ∃ f g, f ≠ g ∧ s.Free f ∧ s.Free g

end Paging

/-- The frames that a fault used. -/
def Outcome.frames (o : Outcome) : List ℕ := o.table.toList ++ o.data.toList

namespace Paging

/-- What one fault does when two frames are free. -/
structure FaultSpec (s : Paging) (v : UInt32) (o : Outcome) : Prop where
  sane : Sane o.state
  maps : ∃ g, s.Free g ∧ o.state.translate v = some (UInt32.ofNat (4096 * g + v.toNat % 4096))
  keeps : ∀ w, dirIndex w < 1023 → w.toNat / 4096 ≠ v.toNat / 4096 →
    o.state.translate w = s.translate w
  nodup : o.frames.Nodup
  fresh : ∀ f ∈ o.frames, s.Free f ∧ ¬ o.state.Free f
  shrinks : ∀ f, o.state.Free f → s.Free f

/-- **One fault.** -/
theorem pageFault_spec {s : Paging} (hs : Sane s) {v : UInt32} (hv : dirIndex v < 1023)
    (htwo : s.TwoFree) : FaultSpec s v (s.pageFault v) := by
  obtain ⟨a, b, hab, ha, hb⟩ := htwo
  cases hf : s.freeFrame with
  | none => exact absurd ha (freeFrame_none hf a)
  | some f =>
      have hffree := freeFrame_some hf
      obtain ⟨hsane, hp, hkeep, hfree⟩ := withTable_spec hs hv hffree
      cases hg : (s.withTable (dirIndex v) f).2.freeFrame with
      | none =>
          -- one of the two free frames is not `f`
          have hna := freeFrame_none hg a
          have hnb := freeFrame_none hg b
          rw [hfree] at hna hnb
          have haf : a = f := by_contra fun h => hna ⟨ha, h⟩
          have hbf : b = f := by_contra fun h => hnb ⟨hb, h⟩
          exact absurd (haf.trans hbf.symm) hab
      | some g =>
          have hgfree := freeFrame_some hg
          obtain ⟨hgs, hgf⟩ := (hfree g).mp hgfree
          have hgg : g < frameCount := hgfree.1.trans_le managedFrames_le
          have hj := tableIndex_lt v
          have heq : s.pageFault v = ⟨((s.withTable (dirIndex v) f).2.useFrame g).poke
              ((s.withTable (dirIndex v) f).2.tableFrame (dirIndex v)) (tableIndex v) (entry g 1),
              (s.withTable (dirIndex v) f).1, some g⟩ := by
            unfold pageFault
            rw [hf]
            dsimp only
            rw [hg]
          have htable : ∀ x ∈ (s.withTable (dirIndex v) f).1.toList, x = f := by
            unfold withTable
            split_ifs
            · simp
            · simp
          rw [heq]
          generalize s.withTable (dirIndex v) f = r at hsane hp hkeep hfree hg hgfree htable
          have hused := hsane.useFrame hgfree.1
          have hgone : ∀ x, ((r.2.useFrame g).poke (r.2.tableFrame (dirIndex v)) (tableIndex v)
              (entry g 1)).Free x ↔ (s.Free x ∧ x ≠ f) ∧ x ≠ g := by
            intro x
            rw [← hfree]
            exact free_useFrame hgfree.1 x
          refine ⟨(hused.poke hv hj hp _).1, ⟨g, hgs, translate_poke_self hused hv hp hgg⟩,
            fun w hw hpage => ?_, ?_, fun x hx => ?_, fun x hx => ((hgone x).mp hx).1.1⟩
          · rw [← hkeep w hw]
            refine translate_poke hused hv hj hp _ hw fun h => hpage ?_
            exact same_page_iff.mpr h
          · have hdisj : List.Disjoint r.1.toList [g] := by
              intro x hx hxg
              rw [List.mem_singleton] at hxg
              exact hgf (hxg ▸ htable x hx)
            refine List.Nodup.append ?_ (List.nodup_singleton g) hdisj
            cases r.1 with
            | none => exact List.nodup_nil
            | some x => exact List.nodup_singleton x
          · rcases List.mem_append.mp hx with hx | hx
            · rw [htable x hx]
              exact ⟨hffree, fun h => ((hgone f).mp h).1.2 rfl⟩
            · rw [show x = g by simpa using hx]
              exact ⟨hgs, fun h => ((hgone g).mp h).2 rfl⟩

lemma pageFault_of_full {s : Paging} (h : s.freeFrame = none) (v : UInt32) :
    s.pageFault v = ⟨s, none, none⟩ := by
  unfold pageFault
  rw [h]

/-- A fault takes two frames at most. -/
lemma pageFault_takes {s : Paging} (hs : Sane s) {v : UInt32} (hv : dirIndex v < 1023) :
    ∃ a b, ∀ x, s.Free x → x ≠ a → x ≠ b → (s.pageFault v).state.Free x := by
  cases ha : s.freeFrame with
  | none =>
      rw [pageFault_of_full ha]
      exact ⟨0, 0, fun x hx _ _ => hx⟩
  | some a =>
      have hafree := freeFrame_some ha
      obtain ⟨-, -, -, hfree⟩ := withTable_spec hs hv hafree
      unfold pageFault
      rw [ha]
      dsimp only
      cases hg : (s.withTable (dirIndex v) a).2.freeFrame with
      | none => exact ⟨a, a, fun x hx hxa _ => (hfree x).mpr ⟨hx, hxa⟩⟩
      | some g =>
          refine ⟨a, g, fun x hx hxa hxg => ?_⟩
          exact (free_useFrame (freeFrame_some hg).1 x).mpr ⟨(hfree x).mpr ⟨hx, hxa⟩, hxg⟩

/-- Of four free frames a fault leaves two. -/
lemma pageFault_twoFree {s : Paging} (hs : Sane s) {v : UInt32} (hv : dirIndex v < 1023)
    {frames : Finset ℕ} (hcard : 4 ≤ frames.card) (hfree : ∀ f ∈ frames, s.Free f) :
    (s.pageFault v).state.TwoFree := by
  obtain ⟨a, b, hkeep⟩ := pageFault_takes hs hv
  have hleft : 1 < (frames \ {a, b}).card := by
    have hsdiff := Finset.le_card_sdiff {a, b} frames
    have htwo := Finset.card_le_two (a := a) (b := b)
    omega
  obtain ⟨x, hx, y, hy, hne⟩ := Finset.one_lt_card.mp hleft
  have hstill : ∀ f ∈ frames \ {a, b}, (s.pageFault v).state.Free f := by
    intro f hf
    rw [Finset.mem_sdiff, Finset.mem_insert, Finset.mem_singleton, not_or] at hf
    exact hkeep f (hfree f hf.1) hf.2.1 hf.2.2
  exact ⟨x, y, hne, hstill x hx, hstill y hy⟩

/-! ## Runs -/

/-- A fault that the handler has to serve: the page is below the window and has no translation, and the
free frames do not run out. -/
structure Admissible (s : Paging) (v : UInt32) : Prop where
  below : v < 0xFFC00000
  unmapped : s.translate v = none
  free : s.TwoFree

lemma Admissible.dirIndex_lt {s : Paging} {v : UInt32} (h : Admissible s v) : dirIndex v < 1023 := by
  have hlt := UInt32.lt_iff_toNat_lt.mp h.below
  have hbound : (0xFFC00000 : UInt32).toNat = 0xFFC00000 := rfl
  unfold dirIndex
  omega

/-- The runs of the fault handler from `s₀`, with the frames used. -/
inductive FaultRun (s₀ : Paging) : Paging → List ℕ → Prop
  | start : FaultRun s₀ s₀ []
  | fault {s used v o} (run : FaultRun s₀ s used) (hv : Admissible s v)
      (ho : s.setupPage v = some o) : FaultRun s₀ o.state (used ++ o.frames)

/-- What holds after a run: the tables are sane, and the frames used are different, were free at the
start and are not free now. -/
structure RunSpec (s₀ s : Paging) (used : List ℕ) : Prop where
  sane : Sane s
  nodup : used.Nodup
  fresh : ∀ f ∈ used, s₀.Free f ∧ ¬ s.Free f
  shrinks : ∀ f, s.Free f → s₀.Free f

/-- **The invariant of a run**, by induction on the faults. -/
theorem FaultRun.spec {s₀ s : Paging} {used : List ℕ} (h₀ : Sane s₀) (h : FaultRun s₀ s used) :
    RunSpec s₀ s used := by
  induction h with
  | start => exact ⟨h₀, List.nodup_nil, by simp, fun f hf => hf⟩
  | @fault s used v o _ hv ho ih =>
      rw [setupPage_eq ih.sane.toGuarded hv.dirIndex_lt, Option.some_inj] at ho
      have hspec := pageFault_spec ih.sane hv.dirIndex_lt hv.free
      rw [ho] at hspec
      refine ⟨hspec.sane, ?_, fun f hf => ?_, fun f hf => ih.shrinks f (hspec.shrinks f hf)⟩
      · refine List.Nodup.append ih.nodup hspec.nodup fun f hf hf' => ?_
        exact (ih.fresh f hf).2 (hspec.fresh f hf').1
      · rcases List.mem_append.mp hf with hf | hf
        · obtain ⟨hfree, hgone⟩ := ih.fresh f hf
          exact ⟨hfree, fun h => hgone (hspec.shrinks f h)⟩
        · obtain ⟨hfree, hgone⟩ := hspec.fresh f hf
          exact ⟨ih.shrinks f hfree, hgone⟩

/-! ## From boot on -/

/-- The tables of `paging_setup` that are present follow the directory. -/
lemma table_of_present {s : Paging} {count : ℕ} (hfilled : Filled s.mem s.dirFrame count)
    (hfit : s.dirFrame + 1 + count ≤ frameCount) {d : ℕ} (hd : d < 1023)
    (hp : present (s.dirEntry d) = true) : d < count ∧ s.tableFrame d = s.dirFrame + 1 + d := by
  have hbound : frameCount = 1048576 := rfl
  rcases Nat.lt_or_ge d count with hlt | hge
  · have hentry : s.dirEntry d = entry (s.dirFrame + 1 + d) 3 := hfilled.directory d hlt
    refine ⟨hlt, ?_⟩
    rw [tableFrame, hentry, frameOf_entry (by omega) (by omega)]
  · have hentry : s.dirEntry d = 2 := hfilled.empty d hge hd
    rw [hentry] at hp
    exact absurd hp (by decide)

/-- The tables of `paging_setup` are sane when no frame of theirs is free. -/
lemma sane_boot {s : Paging} {count : ℕ} (hfilled : Filled s.mem s.dirFrame count)
    (hcount : count ≤ 1022) (hfit : s.dirFrame + 1 + count ≤ frameCount)
    (hmarked : ∀ f, s.dirFrame ≤ f → f ≤ s.dirFrame + count → ¬ s.Free f) : Sane s := by
  have hbound : frameCount = 1048576 := rfl
  have hself : s.dirEntry 1023 = entry s.dirFrame 1 := hfilled.self
  refine ⟨⟨⟨?_, ?_⟩, hmarked _ le_rfl (by omega), fun d hd hp => ?_⟩, fun d hd e he hpd hpe hde => ?_⟩
  · rw [hself, present_entry (by omega) (by omega)]
    rfl
  · rw [tableFrame, hself, frameOf_entry (by omega) (by omega)]
  · obtain ⟨hlt, hframe⟩ := table_of_present hfilled hfit hd hp
    rw [hframe]
    exact ⟨hmarked _ (by omega) (by omega), by omega⟩
  · obtain ⟨-, hd'⟩ := table_of_present hfilled hfit hd hpd
    obtain ⟨-, he'⟩ := table_of_present hfilled hfit he hpe
    omega

end Paging

open Paging

/-- **Runs of page faults are safe.**  Start from the tables of `paging_setup` with the frames of the
directory and of the tables in use, as far as the bitmap manages them.  In every state of every run the
frames used as data frame or page table are different and were free at the start, and the window shows
the directory and every table that is present.  Every fault is then served: the page gets a frame that
was free, and no other page below the window changes its translation. -/
theorem page_faults_safe {count : ℕ} {pageDirectory : UInt32} (hcount : count ≤ 1022)
    (halign : pageDirectory.toNat % 4096 = 0)
    (hfit : pageDirectory.toNat + (1 + count) * 4096 ≤ 2 ^ 32) (mem : UInt32 → UInt32)
    {bitmap : ℕ → UInt32}
    (hmarked : ∀ f, frameOf pageDirectory ≤ f → f ≤ frameOf pageDirectory + count →
      f < managedFrames → Bitmap.inUse bitmap f = true)
    {s : Paging} {used : List ℕ} (hrun : FaultRun (pagingState count pageDirectory mem bitmap) s used) :
    (used.Nodup ∧ ∀ f ∈ used, f < managedFrames ∧ Bitmap.inUse bitmap f = false) ∧
    (∀ d < 1024, ∀ j < 1024, present (s.dirEntry d) = true →
      s.translate (UInt32.ofNat (0xFFC00000 + 4096 * d + 4 * j)) = some (wordAddr (s.tableFrame d) j)) ∧
    (∀ d < 1024, s.translate (UInt32.ofNat (0xFFFFF000 + 4 * d)) = some (wordAddr s.dirFrame d)) ∧
    ∀ v, Admissible s v → ∃ o, s.setupPage v = some o ∧
      (∃ g, s.Free g ∧ o.state.translate v = some (UInt32.ofNat (4096 * g + v.toNat % 4096))) ∧
      ∀ w : UInt32, w < 0xFFC00000 → w.toNat / 4096 ≠ v.toNat / 4096 →
        o.state.translate w = s.translate w := by
  obtain ⟨hroom, hfilled⟩ := filled_pagingState hcount halign hfit mem bitmap
  have hboot : Sane (pagingState count pageDirectory mem bitmap) := by
    refine sane_boot hfilled hcount hroom fun f hlo hhi hfree => ?_
    have huse := hmarked f hlo hhi hfree.1
    have hclear : Bitmap.inUse bitmap f = false := hfree.2
    rw [huse] at hclear
    simp at hclear
  have hspec := hrun.spec hboot
  have hw := hspec.sane.windowed
  refine ⟨⟨hspec.nodup, fun f hf => (hspec.fresh f hf).1⟩,
    fun d hd j hj hp => translate_window hw hd hj hp, fun d hd => ?_, fun v hv => ?_⟩
  · have haddr : UInt32.ofNat (0xFFFFF000 + 4 * d) = windowAddr 1023 d :=
      congrArg UInt32.ofNat (by omega)
    rw [haddr, translate_window hw (show 1023 < 1024 by omega) hd hw.present, hw.frame]
  · have hfault := pageFault_spec hspec.sane hv.dirIndex_lt hv.free
    refine ⟨_, setupPage_eq hspec.sane.toGuarded hv.dirIndex_lt, hfault.maps, fun w hw' hpage => ?_⟩
    refine hfault.keeps w ?_ hpage
    have hlt := UInt32.lt_iff_toNat_lt.mp hw'
    have hbound : (0xFFC00000 : UInt32).toNat = 0xFFC00000 := rfl
    unfold dirIndex
    omega

/-- The bitmap after the first `words` words were marked. -/
def firstWords (words : ℕ) (i : ℕ) : UInt32 := if i < words then 0xFFFFFFFF else 0

lemma inUse_firstWords (words f : ℕ) :
    Bitmap.inUse (firstWords words) f = decide (f < words * 32) := by
  unfold Bitmap.inUse firstWords
  split_ifs with h
  · have hall : (0xFFFFFFFF : UInt32).toNat = 2 ^ 32 - 1 := rfl
    rw [hall, Nat.testBit_two_pow_sub_one, decide_eq_decide]
    omega
  · rw [UInt32.toNat_zero, Nat.zero_testBit]
    symm
    rw [decide_eq_false_iff_not]
    omega

/-- The tables of a machine with 40 MiB mapped and the first 45 MiB in use. -/
def fortyMiB : Paging := pagingState 10 0x2801000 (fun _ => 0) (firstWords 360)

lemma fortyMiB_used {f : ℕ} (hf : f < 11520) : Bitmap.inUse (firstWords 360) f = true := by
  rw [inUse_firstWords, decide_eq_true_eq]
  omega

lemma fortyMiB_taken {f : ℕ} (hf : f < 11520) : ¬ fortyMiB.Free f := by
  intro hfree
  have hclear : Bitmap.inUse (firstWords 360) f = false := hfree.2
  rw [fortyMiB_used hf] at hclear
  simp at hclear

lemma fortyMiB_free {f : ℕ} (hlo : 11520 ≤ f) (hhi : f < managedFrames) : fortyMiB.Free f := by
  refine ⟨hhi, ?_⟩
  show Bitmap.inUse (firstWords 360) f = false
  rw [inUse_firstWords, decide_eq_false_iff_not]
  omega

lemma fortyMiB_filled : Filled fortyMiB.mem fortyMiB.dirFrame 10 :=
  (filled_pagingState (show 10 ≤ 1022 by decide)
    (show (0x2801000 : UInt32).toNat % 4096 = 0 by decide) (by decide) (fun _ => 0)
    (firstWords 360)).2

lemma fortyMiB_twoFree : fortyMiB.TwoFree :=
  ⟨11520, 11521, by decide, fortyMiB_free (by decide) (by decide), fortyMiB_free (by decide) (by decide)⟩

lemma fortyMiB_absent {d : ℕ} (hlo : 10 ≤ d) (hhi : d < 1023) : fortyMiB.dirEntry d = 2 :=
  fortyMiB_filled.empty d hlo hhi

lemma fortyMiB_unmapped {v : UInt32} (hv : 10 ≤ dirIndex v ∧ dirIndex v < 1023) :
    fortyMiB.translate v = none := by
  rw [translate_eq, fortyMiB_absent hv.1 hv.2]
  exact if_pos (by decide)

/-- The faults of `paging_tests`, with 40 MiB mapped and 45 MiB marked: the second one is served with
frames of its own and leaves the first page in place. -/
theorem page_faults_safe_example :
    ∃ o₁ o₂, fortyMiB.setupPage 0xA0000000 = some o₁ ∧ o₁.state.setupPage 0xA0001000 = some o₂ ∧
      (o₁.frames ++ o₂.frames).Nodup ∧
      ∃ g, fortyMiB.Free g ∧ o₂.state.translate 0xA0000000 = some (UInt32.ofNat (4096 * g)) := by
  have hframe : frameOf 0x2801000 = 0x2801 := by decide
  have halign : (0x2801000 : UInt32).toNat % 4096 = 0 := by decide
  have hfit : (0x2801000 : UInt32).toNat + (1 + 10) * 4096 ≤ 2 ^ 32 := by decide
  have hmarked : ∀ f, frameOf 0x2801000 ≤ f → f ≤ frameOf 0x2801000 + 10 → f < managedFrames →
      Bitmap.inUse (firstWords 360) f = true := by
    intro f _ hhi _
    rw [hframe] at hhi
    exact fortyMiB_used (by omega)
  have hsane : Sane fortyMiB :=
    sane_boot fortyMiB_filled (by decide) (by decide) fun f _ hhi =>
      fortyMiB_taken (lt_of_le_of_lt hhi (by decide))
  have hsafe := fun (s : Paging) used (run : FaultRun fortyMiB s used) =>
    page_faults_safe (show 10 ≤ 1022 by decide) halign hfit (fun _ => 0) hmarked run
  have hfault₁ : Admissible fortyMiB 0xA0000000 :=
    ⟨by decide, fortyMiB_unmapped (by decide), fortyMiB_twoFree⟩
  obtain ⟨o₁, ho₁, ⟨g, hg, hmaps⟩, hkeep₁⟩ := (hsafe _ _ .start).2.2.2 0xA0000000 hfault₁
  have hrun₁ := FaultRun.fault .start hfault₁ ho₁
  have hfree : o₁.state.TwoFree := by
    have hfour : ∀ f ∈ Finset.Ico 11520 11524, fortyMiB.Free f := by
      intro f hf
      obtain ⟨hlo, hhi⟩ := Finset.mem_Ico.mp hf
      exact fortyMiB_free hlo (hhi.trans (by decide))
    have heq := setupPage_eq hsane.toGuarded hfault₁.dirIndex_lt
    rw [← Option.some_inj.mp (heq.symm.trans ho₁)]
    exact pageFault_twoFree hsane hfault₁.dirIndex_lt (by decide) hfour
  have hfault₂ : Admissible o₁.state 0xA0001000 := by
    refine ⟨by decide, ?_, hfree⟩
    rw [hkeep₁ 0xA0001000 (by decide) (by decide)]
    exact fortyMiB_unmapped (by decide)
  obtain ⟨o₂, ho₂, -, hkeep₂⟩ := (hsafe _ _ hrun₁).2.2.2 0xA0001000 hfault₂
  have hrun₂ := FaultRun.fault hrun₁ hfault₂ ho₂
  refine ⟨o₁, o₂, ho₁, ho₂, (hsafe _ _ hrun₂).1.1, g, hg, ?_⟩
  rw [hkeep₂ 0xA0000000 (by decide) (by decide), hmaps]
  rfl

end GrubKernel
