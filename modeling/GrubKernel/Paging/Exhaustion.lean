import GrubKernel.Paging.Faults

/-!
# The fault path without free frames

`setup_page` asks for two frames, one for a page table and one for the page.  If the first request fails
it returns at once.  If the second one fails it returns as well, but the first frame is marked by then
and the directory may hold a new table.

* `store_bitmap`, `ensureTable_bitmap` — the writes through the window leave the bitmap alone, whatever
  the tables hold.
* `setupPage_exhausted` — what a call does by the number of free frames.
* **`exhaustion_atomic_iff`** — a call that finds no frame for the page changes nothing iff the number of
  free frames was not one.
-/

namespace GrubKernel

open Loop

namespace Paging

/-! ## The bitmap under the writes through the window -/

lemma store_bitmap {s t : Paging} {v w : UInt32} (h : s.store v w = some t) : t.bitmap = s.bitmap := by
  obtain ⟨a, -, rfl⟩ := Option.map_eq_some_iff.mp h
  rfl

lemma initializePageTable_bitmap {s t : Paging} {pageTable frameAddress : UInt32}
    (h : s.initializePageTable pageTable frameAddress = some t) : t.bitmap = s.bitmap := by
  obtain ⟨u, hu, ht⟩ := Option.bind_eq_some_iff.mp h
  rw [store_bitmap ht]
  exact forLoopM_keeps (fun u : Paging => u.bitmap = s.bitmap) hu rfl
    fun i x y hx hy => (store_bitmap hy).trans hx

/-- Making sure that there is a table marks no frame. -/
lemma ensureTable_bitmap {s : Paging} {pageDirectory pageTable frameAddress : UInt32}
    {r : Bool × Paging} (h : s.ensureTable pageDirectory pageTable frameAddress = some r) :
    r.2.bitmap = s.bitmap := by
  obtain ⟨e, -, h⟩ := Option.bind_eq_some_iff.mp h
  split_ifs at h
  · obtain ⟨s₁, h₁, h⟩ := Option.bind_eq_some_iff.mp h
    obtain ⟨s₂, h₂, h⟩ := Option.bind_eq_some_iff.mp h
    obtain ⟨e', -, h⟩ := Option.bind_eq_some_iff.mp h
    obtain ⟨s₃, h₃, h⟩ := Option.bind_eq_some_iff.mp h
    obtain ⟨s₄, h₄, rfl⟩ := Option.map_eq_some_iff.mp h
    rw [initializePageTable_bitmap h₄, store_bitmap h₃, store_bitmap h₂, store_bitmap h₁]
  · obtain rfl := Option.some_inj.mp h
    rfl

/-! ## A call by the number of free frames -/

/-- Whether a frame is free depends on the bitmap only. -/
lemma free_congr {s t : Paging} (h : s.bitmap = t.bitmap) (f : ℕ) : s.Free f ↔ t.Free f := by
  unfold Free
  rw [h]

/-- The request for a frame, as `setup_page` makes it. -/
lemma request_cases (s : Paging) :
    (Bitmap.nextFreeFrameIndex s.bitmap bitmapElementCount < 0 ∧ ∀ f, ¬ s.Free f) ∨
    (¬ Bitmap.nextFreeFrameIndex s.bitmap bitmapElementCount < 0 ∧
      s.Free (Bitmap.nextFreeFrameIndex s.bitmap bitmapElementCount).toNat) := by
  by_cases hneg : Bitmap.nextFreeFrameIndex s.bitmap bitmapElementCount < 0
  · refine Or.inl ⟨hneg, freeFrame_none ?_⟩
    unfold freeFrame
    exact if_pos hneg
  · refine Or.inr ⟨hneg, freeFrame_some ?_⟩
    unfold freeFrame
    exact if_neg hneg

/-- A call that returns meets one of three cases: no frame is free and nothing changes; one frame is free
and it is marked, but there is none for the page; or there are two free frames and the page gets one. -/
lemma setupPage_exhausted {s : Paging} {v : UInt32} {o : Outcome} (h : s.setupPage v = some o) :
    ((∀ f, ¬ s.Free f) ∧ o.data = none ∧ o.state = s) ∨
    (∃ f, s.Free f ∧ (∀ g, s.Free g → g = f) ∧ o.data = none ∧ ¬ o.state.Free f) ∨
    (s.TwoFree ∧ o.data ≠ none) := by
  unfold setupPage at h
  dsimp only at h
  rcases request_cases s with ⟨hneg, hnone⟩ | ⟨hneg, hf⟩
  · rw [if_pos hneg] at h
    obtain rfl := Option.some_inj.mp h
    exact Or.inl ⟨hnone, rfl, rfl⟩
  · rw [if_neg hneg] at h
    set f := (Bitmap.nextFreeFrameIndex s.bitmap bitmapElementCount).toNat
    obtain ⟨r, hr, h⟩ := Option.bind_eq_some_iff.mp h
    have hfree : ∀ g, r.2.Free g ↔ s.Free g ∧ g ≠ f := by
      intro g
      rw [free_congr (ensureTable_bitmap hr), free_useFrame hf.1]
    right
    rcases request_cases r.2 with ⟨hneg', hnone⟩ | ⟨hneg', hg⟩
    · rw [if_pos hneg'] at h
      obtain rfl := Option.some_inj.mp h
      refine Or.inl ⟨f, hf, fun g hg => ?_, rfl, hnone f⟩
      by_contra hne
      exact hnone g ((hfree g).mpr ⟨hg, hne⟩)
    · rw [if_neg hneg'] at h
      obtain ⟨hgs, hgf⟩ := (hfree _).mp hg
      obtain ⟨t, -, rfl⟩ := Option.map_eq_some_iff.mp h
      exact Or.inr ⟨⟨f, _, hgf.symm, hf, hgs⟩, by simp⟩

/-! ## One free frame -/

/-- The bitmap in which only the last frame that it manages is not in use. -/
def lastFrameFree : ℕ → UInt32 := Function.update (firstWords 1600) 1600 0xFFFFFFFE

lemma inUse_lastFrameFree {f : ℕ} (hf : f < managedFrames) :
    Bitmap.inUse lastFrameFree f = decide (f ≠ 51231) := by
  have hmanaged : managedFrames = 51232 := rfl
  by_cases hword : f / 32 = 1600
  · have hbits : ∀ k < 32, (0xFFFFFFFE : UInt32).toNat.testBit k = decide (k ≠ 0) := by decide
    unfold Bitmap.inUse lastFrameFree
    rw [hword, Function.update_self, hbits _ (by omega), decide_eq_decide]
    omega
  · have hfirst := inUse_firstWords 1600 f
    unfold Bitmap.inUse at hfirst ⊢
    unfold lastFrameFree
    rw [Function.update_of_ne hword, hfirst, decide_eq_decide]
    omega

/-- Forty megabytes mapped and one frame free. -/
def lastFrame : Paging := pagingState 10 0x2801000 (fun _ => 0) lastFrameFree

lemma lastFrame_free_iff (f : ℕ) : lastFrame.Free f ↔ f = 51231 := by
  have hmanaged : managedFrames = 51232 := rfl
  constructor
  · rintro ⟨hf, hfree⟩
    have huse : Bitmap.inUse lastFrameFree f = false := hfree
    rw [inUse_lastFrameFree hf] at huse
    simpa using huse
  · rintro rfl
    refine ⟨by omega, ?_⟩
    show Bitmap.inUse lastFrameFree 51231 = false
    rw [inUse_lastFrameFree (by omega)]
    decide

lemma sane_lastFrame : Sane lastFrame := by
  obtain ⟨hroom, hfilled⟩ := filled_pagingState (show 10 ≤ 1022 by decide)
    (show (0x2801000 : UInt32).toNat % 4096 = 0 by decide) (by decide) (fun _ => 0) lastFrameFree
  refine sane_boot hfilled (by decide) hroom fun f _ hhi hfree => ?_
  have hdir : lastFrame.dirFrame = 0x2801 := by decide
  rw [hdir] at hhi
  rw [lastFrame_free_iff] at hfree
  omega

end Paging

open Paging

/-! ## The result -/

/-- **When exhaustion leaves no trace.**  A call of `setup_page` that returns finds no frame for the page
iff at most one frame is free; and to find none changes nothing iff the number of free frames is not
one.  The tables may hold anything. -/
theorem exhaustion_atomic_iff {s : Paging} {v : UInt32} {o : Outcome} (h : s.setupPage v = some o) :
    (o.data = none ↔ ¬ s.TwoFree) ∧
    ((o.data = none → o.state = s) ↔ ¬ ∃! f, s.Free f) := by
  rcases setupPage_exhausted h with ⟨hnone, hdata, hsame⟩ | ⟨f, hf, hone, hdata, hmarked⟩ | ⟨htwo, hdata⟩
  · refine ⟨iff_of_true hdata ?_, iff_of_true (fun _ => hsame) ?_⟩
    · rintro ⟨f, -, -, hf, -⟩
      exact hnone f hf
    · rintro ⟨f, hf, -⟩
      exact hnone f hf
  · refine ⟨iff_of_true hdata ?_, iff_of_false (fun hatomic => ?_) (not_not.mpr ⟨f, hf, hone⟩)⟩
    · rintro ⟨a, b, hab, ha, hb⟩
      exact hab ((hone a ha).trans (hone b hb).symm)
    · rw [hatomic hdata] at hmarked
      exact hmarked hf
  · refine ⟨iff_of_false hdata (not_not.mpr htwo), iff_of_true (fun hbad => absurd hbad hdata) ?_⟩
    rintro ⟨f, -, hone⟩
    obtain ⟨a, b, hab, ha, hb⟩ := htwo
    exact hab ((hone a ha).trans (hone b hb).symm)

/-- A fault of the state with one free frame returns, so that the condition decides. -/
theorem exhaustion_atomic_iff_example : ∃ o, lastFrame.setupPage 0xA0000000 = some o ∧
    ((o.data = none → o.state = lastFrame) ↔ ¬ ∃! f, lastFrame.Free f) := by
  have hreturn := setupPage_eq sane_lastFrame.toGuarded (show dirIndex 0xA0000000 < 1023 by decide)
  exact ⟨_, hreturn, (exhaustion_atomic_iff hreturn).2⟩

/-- With one free frame a fault takes it for a page table and has none for the page. -/
theorem exhaustion_leaves_trace :
    ¬ ∀ (s : Paging) (v : UInt32) (o : Outcome), v < 0xFFC00000 → s.setupPage v = some o →
      o.data = none → o.state = s := by
  intro hall
  have hreturn := setupPage_eq sane_lastFrame.toGuarded (show dirIndex 0xA0000000 < 1023 by decide)
  have hone : ∃! f, lastFrame.Free f :=
    ⟨51231, (lastFrame_free_iff _).mpr rfl, fun f hf => (lastFrame_free_iff f).mp hf⟩
  rcases setupPage_exhausted hreturn with ⟨hnone, -⟩ | ⟨f, hf, -, hdata, hmarked⟩ | ⟨htwo, -⟩
  · exact hnone _ hone.choose_spec.1
  · rw [hall _ _ _ (by decide) hreturn hdata] at hmarked
    exact hmarked hf
  · obtain ⟨a, b, hab, ha, hb⟩ := htwo
    exact hab (((lastFrame_free_iff a).mp ha).trans ((lastFrame_free_iff b).mp hb).symm)

end GrubKernel
