import GrubKernel.Paging.Accounting

/-!
# Demand paging

An access to an address without a translation raises a page fault; the handler is `setup_page` at the
address in `cr2`, and the access is made again.  Above the memory that `paging_setup` maps and below the
window, this makes the address space a memory of its own: a load returns what was stored there last.

* `pageFaultInterruptHandler`, `restarted` — the handler, and an access with one fault.
* `MemoryAccess`, `accessRun` — the accesses of a program, one after the other.
* `Demand` — the invariant: the entries above the boot tables point to different frames that were free at
  the start, and no other frame has changed but the directory.
* `Recalls`, `Budget` — the memory holds what was stored, and the free frames suffice.
* `Demand.serve`, `accessRun_spec` — one access, and a run of them.
* **`demand_paging_refines`** — every run of accesses that the free frames allow behaves as a flat memory.
-/

namespace GrubKernel

namespace Paging

/-! ## The code -/

/-- `page_fault_interrupt_handler`: the bits of the error code are read, but only the address counts. -/
def pageFaultInterruptHandler (s : Paging) (cr2 : UInt32) : Option Outcome := s.setupPage cr2

/-- An access at an address, made again after a page fault.  A fault that does not map the page is raised
for ever; then there is no result. -/
def restarted {α : Type*} (access : Paging → Option α) (v : UInt32) (s : Paging) : Option (α × Paging) :=
  match access s with
  | some r => some (r, s)
  | none => (s.pageFaultInterruptHandler v).bind fun o => (access o.state).map fun r => (r, o.state)

end Paging

/-- An access of a program to a word. -/
inductive MemoryAccess
  | load (v : UInt32)
  | store (v w : UInt32)

/-- The address of an access. -/
def MemoryAccess.address : MemoryAccess → UInt32
  | .load v => v
  | .store v _ => v

namespace Paging

/-- The accesses of a program; the result has the value of each load. -/
def accessRun : List MemoryAccess → Paging → Option (List UInt32 × Paging)
  | [], s => some ([], s)
  | .load v :: rest, s => (restarted (fun s => s.load v) v s).bind fun r =>
      (accessRun rest r.2).map fun q => (r.1 :: q.1, q.2)
  | .store v w :: rest, s => (restarted (fun s => s.store v w) v s).bind fun r => accessRun rest r.1

/-! ## The invariant -/

/-- What holds of the tables in every state of a run from `s₀`, whose tables map the first `count` times
4 MiB. -/
structure Demand (count : ℕ) (s₀ s : Paging) : Prop where
  sane : Sane s
  shrinks : ∀ f, s.Free f → s₀.Free f
  closed : ∀ f r, Refers s f r → ¬ s.Free f
  unique : ∀ f, s₀.Free f → ∀ r r', Refers s f r → Refers s f r' → r = r'
  freshTable : ∀ d f, count ≤ d → Refers s f (.directory d) → s₀.Free f
  freshPage : ∀ d j f, count ≤ d → Refers s f (.table d j) → s₀.Free f
  directory : s.dirFrame = s₀.dirFrame ∧ ¬ s₀.Free s₀.dirFrame
  kept : ∀ f < frameCount, ¬ s₀.Free f → f ≠ s₀.dirFrame → ∀ j < 1024, s.word f j = s₀.word f j

variable {count : ℕ} {s₀ s : Paging}

/-- One frame is taken and gets one reference. -/
lemma Demand.enter (h : Demand count s₀ s) {t : Paging} (ht : Sane t) {f : ℕ} {ρ : Ref}
    (hf : s.Free f) (hfree : ∀ x, t.Free x ↔ s.Free x ∧ x ≠ f)
    (hrefs : ∀ x r, Refers t x r ↔ Refers s x r ∨ (r = ρ ∧ x = f)) (hdir : t.dirFrame = s.dirFrame)
    (hkept : ∀ g < frameCount, ¬ s₀.Free g → g ≠ s₀.dirFrame → ∀ j < 1024, t.word g j = s.word g j) :
    Demand count s₀ t := by
  refine ⟨ht, fun x hx => h.shrinks x ((hfree x).mp hx).1, fun x r hr hx => ?_,
    fun x hx r r' hr hr' => ?_, fun d x hd hr => ?_, fun d j x hd hr => ?_,
    ⟨hdir.trans h.directory.1, h.directory.2⟩, fun g hg hn hne j hj => ?_⟩
  · obtain ⟨hxs, hxf⟩ := (hfree x).mp hx
    rcases (hrefs x r).mp hr with hr | ⟨-, rfl⟩
    · exact h.closed x r hr hxs
    · exact hxf rfl
  · rcases (hrefs x r).mp hr with hr | ⟨rfl, rfl⟩
    · rcases (hrefs x r').mp hr' with hr' | ⟨-, rfl⟩
      · exact h.unique x hx r r' hr hr'
      · exact absurd hf (h.closed x r hr)
    · rcases (hrefs x r').mp hr' with hr' | ⟨rfl, -⟩
      · exact absurd hf (h.closed x r' hr')
      · rfl
  · rcases (hrefs x _).mp hr with hr | ⟨-, rfl⟩
    · exact h.freshTable d x hd hr
    · exact h.shrinks x hf
  · rcases (hrefs x _).mp hr with hr | ⟨-, rfl⟩
    · exact h.freshPage d j x hd hr
    · exact h.shrinks x hf
  · rw [hkept g hg hn hne j hj, h.kept g hg hn hne j hj]

/-- A frame that is taken and gets no reference does no harm. -/
lemma Demand.useFrame (h : Demand count s₀ s) {f : ℕ} (hf : f < managedFrames) :
    Demand count s₀ (s.useFrame f) := by
  have hfree : ∀ x, (s.useFrame f).Free x → s.Free x := fun x hx => ((free_useFrame hf x).mp hx).1
  refine ⟨h.sane.useFrame hf, fun x hx => h.shrinks x (hfree x hx),
    fun x r hr hx => h.closed x r ((refers_useFrame s f x r).mp hr) (hfree x hx),
    fun x hx r r' hr hr' => h.unique x hx r r' ((refers_useFrame s f x r).mp hr)
      ((refers_useFrame s f x r').mp hr'),
    h.freshTable, h.freshPage, h.directory, h.kept⟩

/-- A new table above the boot tables. -/
lemma Demand.installTable (h : Demand count s₀ s) {d f : ℕ} (hd : d < 1023) (hf : s.Free f)
    (habsent : ¬ present (s.dirEntry d) = true) :
    Demand count s₀ ((s.useFrame f).installTable d f) := by
  have hff : f < frameCount := hf.1.trans_le managedFrames_le
  refine h.enter (ρ := .directory d) (h.sane.installTable hd hf) hf (free_useFrame hf.1)
    (fun x r => ?_) rfl fun g hg hn hne j hj => ?_
  · have hinstall := refers_installTable h.sane hd hf habsent x r
    rwa [← refers_useFrame (s.installTable d f) f] at hinstall
  · have hgf : g ≠ f := fun heq => hn (heq ▸ h.shrinks f hf)
    rw [word_installTable _ (by omega) hff hg hj, if_neg hgf, if_neg]
    · rfl
    · rintro ⟨hgd, -⟩
      exact hne (hgd.trans h.directory.1)

/-- A frame behind an entry of a table above the boot tables. -/
lemma Demand.connect (h : Demand count s₀ s) {d j g : ℕ} (hcount : count ≤ d) (hd : d < 1023)
    (hj : j < 1024) (hg : s.Free g) (hp : present (s.dirEntry d) = true)
    (hempty : ¬ present (s.word (s.tableFrame d) j) = true) :
    Demand count s₀ ((s.useFrame g).poke (s.tableFrame d) j (entry g 1)) := by
  have hgg : g < frameCount := hg.1.trans_le managedFrames_le
  have hused := h.sane.useFrame hg.1
  refine h.enter (ρ := .table d j) (hused.poke hd hj hp _).1 hg (free_useFrame hg.1) (fun x r => ?_) rfl
    fun f hf hn hne i hi => ?_
  · rw [← refers_useFrame s g]
    exact refers_poke hused hd hj hgg hp hempty x r
  · have htable : f ≠ s.tableFrame d := by
      rintro rfl
      exact hn (h.freshTable d _ hcount ⟨hd, hp, rfl⟩)
    rw [word_poke _ _ (s.tableFrame_lt d) hf hj hi, if_neg fun heq => htable heq.1]
    rfl

/-- The frame of a page above the boot tables holds neither the directory nor a table. -/
lemma Demand.page_frame (h : Demand count s₀ s) {d j g : ℕ} (hd : count ≤ d)
    (hr : Refers s g (.table d j)) : g < frameCount ∧ s₀.Free g ∧ g ≠ s.dirFrame ∧
      ∀ e < 1023, present (s.dirEntry e) = true → s.tableFrame e ≠ g := by
  have hfree := h.freshPage d j g hd hr
  refine ⟨hfree.1.trans_le managedFrames_le, hfree, ?_, fun e he hp heq => ?_⟩
  · rintro rfl
    exact h.directory.2 (h.directory.1 ▸ hfree)
  · have hsame := h.unique g hfree (.directory e) (.table d j) ⟨he, hp, heq⟩ hr
    cases hsame

/-! ## The pages of a program -/

/-- The pages above the boot tables stay where they are, and keep their words. -/
def Keeps (count : ℕ) (s t : Paging) : Prop :=
  ∀ d j g, count ≤ d → Refers s g (.table d j) →
    Refers t g (.table d j) ∧ ∀ k < 1024, t.word g k = s.word g k

lemma Keeps.trans {s t u : Paging} (hst : Keeps count s t) (htu : Keeps count t u) :
    Keeps count s u := by
  intro d j g hd hr
  obtain ⟨ht, hword⟩ := hst d j g hd hr
  obtain ⟨hu, hword'⟩ := htu d j g hd ht
  exact ⟨hu, fun k hk => (hword' k hk).trans (hword k hk)⟩

/-- The table that the fault path works with. -/
lemma Demand.withTable (h : Demand count s₀ s) {d f : ℕ} (hd : d < 1023)
    (hf : s.Free f) :
    Demand count s₀ (s.withTable d f).2 ∧ Keeps count s (s.withTable d f).2 := by
  have hff : f < frameCount := hf.1.trans_le managedFrames_le
  by_cases hp : present (s.dirEntry d) = true
  · have heq : s.withTable d f = (none, s.useFrame f) := if_pos hp
    rw [heq]
    exact ⟨h.useFrame hf.1, fun e j g _ hr => ⟨(refers_useFrame s f g _).mpr hr, fun k _ => rfl⟩⟩
  · have heq : s.withTable d f = (some f, (s.useFrame f).installTable d f) := if_neg hp
    rw [heq]
    refine ⟨h.installTable hd hf hp, fun e j g he hr => ⟨?_, fun k hk => ?_⟩⟩
    · have hinstall := (refers_installTable h.sane hd hf hp g (.table e j)).mpr (Or.inl hr)
      rwa [← refers_useFrame (s.installTable d f) f] at hinstall
    · obtain ⟨hg, -, hne, -⟩ := h.page_frame he hr
      have hgf : g ≠ f := fun heq => h.closed g _ hr (heq ▸ hf)
      dsimp only
      rw [word_installTable _ (by omega) hff hg hk, if_neg hgf, if_neg fun heq => hne heq.1]
      rfl

/-- The frame behind the page. -/
lemma Demand.connect_keeps (h : Demand count s₀ s) {d j g : ℕ} (hd : d < 1023)
    (hj : j < 1024) (hg : s.Free g) (hp : present (s.dirEntry d) = true)
    (hempty : ¬ present (s.word (s.tableFrame d) j) = true) :
    Keeps count s ((s.useFrame g).poke (s.tableFrame d) j (entry g 1)) := by
  have hgg : g < frameCount := hg.1.trans_le managedFrames_le
  intro e i f he hr
  obtain ⟨hf, -, -, htable⟩ := h.page_frame he hr
  refine ⟨?_, fun k hk => ?_⟩
  · rw [← refers_useFrame s g] at hr
    exact (refers_poke (h.sane.useFrame hg.1) hd hj hgg hp hempty f _).mpr (Or.inl hr)
  · rw [word_poke _ _ (s.tableFrame_lt d) hf hj hk, if_neg fun heq => htable d hd hp heq.1.symm]
    rfl

/-- **One fault.**  With two free frames it maps the page, and keeps the invariant and all other pages. -/
theorem Demand.pageFault (h : Demand count s₀ s) {v : UInt32} (hcount : count ≤ dirIndex v)
    (hv : dirIndex v < 1023) (hunmapped : s.translate v = none) (htwo : s.TwoFree) :
    Demand count s₀ (s.pageFault v).state ∧ Keeps count s (s.pageFault v).state ∧
      (s.pageFault v).state.translate v ≠ none := by
  obtain ⟨g, -, hmaps⟩ := (pageFault_spec h.sane hv htwo).maps
  have hmapped : (s.pageFault v).state.translate v ≠ none := by
    rw [hmaps]
    exact Option.some_ne_none _
  rw [← and_assoc]
  refine ⟨?_, hmapped⟩
  revert hmapped
  unfold Paging.pageFault
  cases ha : s.freeFrame with
  | none => exact fun hne => absurd hunmapped hne
  | some a =>
      have hafree := freeFrame_some ha
      obtain ⟨hdemand, hkeeps⟩ := h.withTable hv hafree
      obtain ⟨-, hp, htrans, -⟩ := withTable_spec h.sane hv hafree
      have hnone := htrans v hv
      rw [hunmapped] at hnone
      dsimp only
      cases hb : (s.withTable (dirIndex v) a).2.freeFrame with
      | none => exact fun hne => absurd hnone hne
      | some b =>
          intro _
          -- the page is not mapped once its table is there
          have hempty : ¬ present ((s.withTable (dirIndex v) a).2.word
              ((s.withTable (dirIndex v) a).2.tableFrame (dirIndex v)) (tableIndex v)) = true := by
            intro hpresent
            rw [translate_eq, if_neg (not_not.mpr hp), if_neg (not_not.mpr hpresent)] at hnone
            exact Option.some_ne_none _ hnone
          have hbfree := freeFrame_some hb
          exact ⟨hdemand.connect hcount hv (tableIndex_lt v) hbfree hp hempty,
            hkeeps.trans (hdemand.connect_keeps hv (tableIndex_lt v) hbfree hp hempty)⟩

/-! ## Accesses to a mapped page -/

/-- The word of a page that an address names. -/
def pageWord (v : UInt32) : ℕ := v.toNat % 4096 / 4

lemma pageWord_lt (v : UInt32) : pageWord v < 1024 := by
  unfold pageWord
  omega

/-- The frame behind an address with a translation. -/
lemma refers_of_translate {v : UInt32} (hv : dirIndex v < 1023) (h : s.translate v ≠ none) :
    ∃ g, Refers s g (.table (dirIndex v) (tableIndex v)) := by
  rw [translate_eq] at h
  by_cases hp : present (s.dirEntry (dirIndex v)) = true
  · by_cases hp' : present (s.word (s.tableFrame (dirIndex v)) (tableIndex v)) = true
    · exact ⟨_, ⟨hv, tableIndex_lt v⟩, hp, hp', rfl⟩
    · rw [if_neg (not_not.mpr hp), if_pos hp'] at h
      exact absurd rfl h
  · rw [if_pos hp] at h
    exact absurd rfl h

/-- The address of a word whose frame is known. -/
lemma translate_of_refers {v : UInt32} {g : ℕ} (halign : v.toNat % 4 = 0)
    (h : Refers s g (.table (dirIndex v) (tableIndex v))) :
    s.translate v = some (wordAddr g (pageWord v)) := by
  obtain ⟨-, hp, hp', hg⟩ := h
  have hoff : 4 * pageWord v = v.toNat % 4096 := by
    unfold pageWord
    omega
  rw [translate_eq, if_neg (not_not.mpr hp), if_neg (not_not.mpr hp'), hg, wordAddr, hoff]

lemma load_of_refers {v : UInt32} {g : ℕ} (halign : v.toNat % 4 = 0)
    (h : Refers s g (.table (dirIndex v) (tableIndex v))) :
    s.load v = some (s.word g (pageWord v)) := by
  rw [load, translate_of_refers halign h]
  rfl

lemma store_of_refers {v : UInt32} {g : ℕ} (halign : v.toNat % 4 = 0)
    (h : Refers s g (.table (dirIndex v) (tableIndex v))) (w : UInt32) :
    s.store v w = some (s.poke g (pageWord v) w) := by
  rw [store, translate_of_refers halign h]
  rfl

/-- Words of a page are no table words. -/
lemma Demand.refers_store (h : Demand count s₀ s) {d j g k : ℕ} (hd : count ≤ d)
    (hr : Refers s g (.table d j)) (hk : k < 1024) (w : UInt32) (x : ℕ) (r : Ref) :
    Refers (s.poke g k w) x r ↔ Refers s x r := by
  obtain ⟨hg, -, hdir, htable⟩ := h.page_frame hd hr
  have hentry : ∀ e < 1024, (s.poke g k w).dirEntry e = s.dirEntry e :=
    fun e he => dirEntry_poke_of_ne s hg hk he (fun heq => hdir heq.1) w
  have hframe : ∀ e < 1024, (s.poke g k w).tableFrame e = s.tableFrame e := by
    intro e he
    rw [tableFrame, hentry e he, tableFrame]
  cases r with
  | directory e =>
      refine and_congr_right fun he => ?_
      rw [hentry e (by omega), hframe e (by omega)]
  | table e i =>
      refine and_congr_right fun hin => ?_
      rw [hentry e (by omega), hframe e (by omega)]
      refine and_congr_right fun hp => ?_
      have hword : (s.poke g k w).word (s.tableFrame e) i = s.word (s.tableFrame e) i := by
        rw [word_poke s w hg (s.tableFrame_lt e) hk hin.2, if_neg fun heq => htable e hin.1 hp heq.1]
      rw [hword]

/-- **A store to a page** keeps the invariant. -/
lemma Demand.store (h : Demand count s₀ s) {d j g k : ℕ} (hd : count ≤ d)
    (hr : Refers s g (.table d j)) (hk : k < 1024) (w : UInt32) : Demand count s₀ (s.poke g k w) := by
  obtain ⟨hg, hgfree, hdir, htable⟩ := h.page_frame hd hr
  have hrefs := h.refers_store hd hr hk w
  have hentry : ∀ e < 1024, (s.poke g k w).dirEntry e = s.dirEntry e :=
    fun e he => dirEntry_poke_of_ne s hg hk he (fun heq => hdir heq.1) w
  have hframe : ∀ e < 1024, (s.poke g k w).tableFrame e = s.tableFrame e := by
    intro e he
    rw [tableFrame, hentry e he, tableFrame]
  have hsane : Sane (s.poke g k w) := by
    refine ⟨⟨h.sane.windowed.poke hg hk (fun heq => hdir heq.1) w, h.sane.directory,
      fun e he hp => ?_⟩, fun a ha b hb hpa hpb hab => ?_⟩
    · rw [hentry e (by omega)] at hp
      rw [hframe e (by omega)]
      exact h.sane.tables e he hp
    · rw [hentry a (by omega)] at hpa
      rw [hentry b (by omega)] at hpb
      rw [hframe a (by omega), hframe b (by omega)] at hab
      exact h.sane.injective a ha b hb hpa hpb hab
  refine ⟨hsane, h.shrinks, fun x r hx => h.closed x r ((hrefs x r).mp hx),
    fun x hx r r' hr₁ hr₂ => h.unique x hx r r' ((hrefs x r).mp hr₁) ((hrefs x r').mp hr₂),
    fun e x he hx => h.freshTable e x he ((hrefs x _).mp hx),
    fun e i x he hx => h.freshPage e i x he ((hrefs x _).mp hx), h.directory,
    fun f hf hn hne i hi => ?_⟩
  rw [word_poke s w hg hf hk hi, if_neg, h.kept f hf hn hne i hi]
  rintro ⟨rfl, -⟩
  exact hn hgfree

/-! ## The flat memory -/

/-- A word above the memory that `paging_setup` maps, and below the window. -/
def InRegion (count : ℕ) (v : UInt32) : Prop :=
  v.toNat % 4 = 0 ∧ count ≤ dirIndex v ∧ dirIndex v < 1023

instance (count : ℕ) (v : UInt32) : Decidable (InRegion count v) :=
  inferInstanceAs (Decidable (_ ∧ _ ∧ _))

/-- A memory of its own: what is known of the value of each load. -/
def flatRun : List MemoryAccess → (UInt32 → Option UInt32) → List (Option UInt32)
  | [], _ => []
  | .load v :: rest, known => known v :: flatRun rest known
  | .store v w :: rest, known => flatRun rest (Function.update known v (some w))

/-- The memory holds what is known. -/
def Recalls (count : ℕ) (s : Paging) (known : UInt32 → Option UInt32) : Prop :=
  ∀ v w, known v = some w → InRegion count v ∧ s.load v = some w

/-- A word that was loaded lies in a page. -/
lemma refers_of_load {v w : UInt32} (hv : InRegion count v) (h : s.load v = some w) :
    ∃ g, Refers s g (.table (dirIndex v) (tableIndex v)) ∧ s.word g (pageWord v) = w := by
  have hne : s.translate v ≠ none := by
    intro hnone
    rw [load, hnone] at h
    simp at h
  obtain ⟨g, hg⟩ := refers_of_translate hv.2.2 hne
  refine ⟨g, hg, ?_⟩
  rw [load_of_refers hv.1 hg] at h
  exact Option.some.inj h

lemma Recalls.keeps {t : Paging} {known : UInt32 → Option UInt32} (h : Recalls count s known)
    (hst : Keeps count s t) : Recalls count t known := by
  intro v w hk
  obtain ⟨hv, hload⟩ := h v w hk
  obtain ⟨g, hg, hword⟩ := refers_of_load hv hload
  obtain ⟨ht, hsame⟩ := hst _ _ g hv.2.1 hg
  refine ⟨hv, ?_⟩
  rw [load_of_refers hv.1 ht, hsame _ (pageWord_lt v), hword]

/-- **A store is recalled**, and disturbs no other word. -/
lemma Recalls.store {known : UInt32 → Option UInt32} (h : Recalls count s known)
    (hs : Demand count s₀ s) {v w : UInt32} {g : ℕ} (hv : InRegion count v)
    (hg : Refers s g (.table (dirIndex v) (tableIndex v))) :
    Recalls count (s.poke g (pageWord v) w) (Function.update known v (some w)) := by
  have hrefs := hs.refers_store hv.2.1 hg (pageWord_lt v) w
  obtain ⟨hlt, hfree, -, -⟩ := hs.page_frame hv.2.1 hg
  intro v' w' hk
  by_cases hvv : v' = v
  · subst hvv
    rw [Function.update_self, Option.some.injEq] at hk
    refine ⟨hv, ?_⟩
    rw [load_of_refers hv.1 ((hrefs g _).mpr hg),
      word_poke s w hlt hlt (pageWord_lt v') (pageWord_lt v'), if_pos ⟨rfl, rfl⟩, hk]
  · rw [Function.update_of_ne hvv] at hk
    obtain ⟨hv', hload⟩ := h v' w' hk
    obtain ⟨g', hg', hword⟩ := refers_of_load hv' hload
    refine ⟨hv', ?_⟩
    rw [load_of_refers hv'.1 ((hrefs g' _).mpr hg'),
      word_poke s w hlt (hs.page_frame hv'.2.1 hg').1 (pageWord_lt v) (pageWord_lt v'), if_neg, hword]
    -- the same word of the same frame is the same address
    rintro ⟨rfl, hoff⟩
    have hpage := hs.unique g' hfree _ _ hg' hg
    rw [Ref.table.injEq] at hpage
    have hsame := same_page_iff.mpr hpage
    apply hvv
    rw [← UInt32.toNat_inj]
    have h₁ := hv.1
    have h₂ := hv'.1
    unfold pageWord at hoff
    omega

/-! ## The frames that a run takes -/

/-- Two free frames. -/
lemma twoFree_of_freeCount (h : 2 ≤ s.freeCount) : s.TwoFree := by
  obtain ⟨a, ha, b, hb, hab⟩ := Finset.one_lt_card.mp h
  exact ⟨a, b, hab, (Finset.mem_filter.mp ha).2, (Finset.mem_filter.mp hb).2⟩

/-- A fault takes two frames at most. -/
lemma freeCount_pageFault (hs : Sane s) {v : UInt32} (hv : dirIndex v < 1023) :
    s.freeCount ≤ (s.pageFault v).state.freeCount + 2 := by
  obtain ⟨a, b, hkeep⟩ := pageFault_takes hs hv
  have hsub : (Finset.range managedFrames).filter s.Free
      ⊆ insert a (insert b ((Finset.range managedFrames).filter (s.pageFault v).state.Free)) := by
    intro x hx
    obtain ⟨hlt, hfree⟩ := Finset.mem_filter.mp hx
    rw [Finset.mem_insert, Finset.mem_insert, Finset.mem_filter]
    by_cases hxa : x = a
    · exact Or.inl hxa
    · by_cases hxb : x = b
      · exact Or.inr (Or.inl hxb)
      · exact Or.inr (Or.inr ⟨hlt, hkeep x hfree hxa hxb⟩)
  calc s.freeCount ≤ _ := Finset.card_le_card hsub
    _ ≤ _ + 1 := Finset.card_insert_le _ _
    _ ≤ _ + 1 + 1 := Nat.succ_le_succ (Finset.card_insert_le _ _)

/-- The addresses of a page have a translation together. -/
lemma translate_none_congr {v w : UInt32} (h : v.toNat / 4096 = w.toNat / 4096) :
    s.translate v = none ↔ s.translate w = none := by
  obtain ⟨hd, hj⟩ := same_page_iff.mp h
  rw [translate_eq, translate_eq, hd, hj]
  by_cases hp : present (s.dirEntry (dirIndex w)) = true
  · rw [if_neg (not_not.mpr hp), if_neg (not_not.mpr hp)]
    by_cases hp' : present (s.word (s.tableFrame (dirIndex w)) (tableIndex w)) = true
    · rw [if_neg (not_not.mpr hp'), if_neg (not_not.mpr hp')]
      simp
    · rw [if_pos hp', if_pos hp']
  · rw [if_pos hp, if_pos hp]

/-- The pages of some addresses. -/
def pagesOf (vs : List UInt32) : Finset ℕ := (vs.map fun v => v.toNat / 4096).toFinset

/-- The pages among them that are not mapped. -/
def unmapped (s : Paging) (pages : Finset ℕ) : Finset ℕ :=
  pages.filter fun p => s.translate (UInt32.ofNat (4096 * p)) = none

lemma mem_unmapped {pages : Finset ℕ} {v : UInt32} :
    v.toNat / 4096 ∈ s.unmapped pages ↔ v.toNat / 4096 ∈ pages ∧ s.translate v = none := by
  have hv := v.toNat_lt
  rw [unmapped, Finset.mem_filter]
  refine and_congr_right fun _ => translate_none_congr ?_
  rw [UInt32.toNat_ofNat']
  omega

/-- The free frames suffice for the pages that are not mapped. -/
def Budget (pages : Finset ℕ) (s : Paging) : Prop := 2 * (s.unmapped pages).card ≤ s.freeCount

/-- An address has no translation iff no frame is behind its entry. -/
lemma translate_none_iff {v : UInt32} (hv : dirIndex v < 1023) :
    s.translate v = none ↔ ∀ g, ¬ Refers s g (.table (dirIndex v) (tableIndex v)) := by
  constructor
  · rintro hnone g ⟨-, hp, hp', -⟩
    rw [translate_eq, if_neg (not_not.mpr hp), if_neg (not_not.mpr hp')] at hnone
    exact Option.some_ne_none _ hnone
  · intro hall
    by_contra hne
    obtain ⟨g, hg⟩ := refers_of_translate hv hne
    exact hall g hg

variable {pages : Finset ℕ}

/-- The pages of a directory entry below the last one. -/
lemma dirIndex_page {p : ℕ} (hp : p < 1023 * 1024) :
    dirIndex (UInt32.ofNat (4096 * p)) < 1023 ∧ (UInt32.ofNat (4096 * p)).toNat / 4096 = p := by
  unfold dirIndex
  rw [UInt32.toNat_ofNat']
  omega

/-- A fault pays for its page. -/
lemma Budget.pageFault (hb : Budget pages s) (hs : Sane s) (hpages : ∀ p ∈ pages, p < 1023 * 1024)
    {v : UInt32} (hv : dirIndex v < 1023) (hmem : v.toNat / 4096 ∈ pages)
    (hunmapped : s.translate v = none) (htwo : s.TwoFree)
    (hmaps : (s.pageFault v).state.translate v ≠ none) : Budget pages (s.pageFault v).state := by
  have hsub : (s.pageFault v).state.unmapped pages ⊆ (s.unmapped pages).erase (v.toNat / 4096) := by
    intro p hp
    obtain ⟨hin, hnone⟩ := Finset.mem_filter.mp hp
    obtain ⟨hd, hpage⟩ := dirIndex_page (hpages p hin)
    by_cases hpv : p = v.toNat / 4096
    · rw [hpv] at hpage hnone
      exact absurd ((translate_none_congr hpage).mp hnone) hmaps
    · have hkeep := (pageFault_spec hs hv htwo).keeps _ hd (by rwa [hpage])
      rw [hkeep] at hnone
      exact Finset.mem_erase.mpr ⟨hpv, Finset.mem_filter.mpr ⟨hin, hnone⟩⟩
  have hcard := Finset.card_le_card hsub
  have herase := Finset.card_erase_add_one (mem_unmapped.mpr ⟨hmem, hunmapped⟩)
  have hcount := freeCount_pageFault hs hv
  unfold Budget at hb ⊢
  omega

/-- A store to a page maps no page and takes no frame. -/
lemma Budget.store (hb : Budget pages s) (hs : Demand count s₀ s)
    (hpages : ∀ p ∈ pages, p < 1023 * 1024) {d j g k : ℕ} (hd : count ≤ d)
    (hr : Refers s g (.table d j)) (hk : k < 1024) (w : UInt32) : Budget pages (s.poke g k w) := by
  have hsame : (s.poke g k w).unmapped pages = s.unmapped pages := by
    refine Finset.filter_congr fun p hp => ?_
    have hv := (dirIndex_page (hpages p hp)).1
    rw [translate_none_iff hv, translate_none_iff hv]
    exact forall_congr' fun x => not_congr (hs.refers_store hd hr hk w x _)
  unfold Budget at hb ⊢
  rw [hsame]
  exact hb

/-! ## Runs -/

/-- An access needs no more than a translation of its address. -/
def Touches {α : Type} (access : Paging → Option α) (v : UInt32) : Prop :=
  ∀ s, access s = none ↔ s.translate v = none

/-- **An access is served**, after one fault at most: it is the access in a state where the page is
mapped. -/
theorem Demand.serve (h : Demand count s₀ s) (hb : Budget pages s)
    (hpages : ∀ p ∈ pages, p < 1023 * 1024) {v : UInt32} (hv : InRegion count v)
    (hmem : v.toNat / 4096 ∈ pages) :
    ∃ t g, Demand count s₀ t ∧ Keeps count s t ∧ Budget pages t ∧
      Refers t g (.table (dirIndex v) (tableIndex v)) ∧
      ∀ {α : Type} (access : Paging → Option α), Touches access v →
        restarted access v s = (access t).map fun r => (r, t) := by
  obtain ⟨-, hcount, hlt⟩ := hv
  by_cases hunmapped : s.translate v = none
  · have htwo : s.TwoFree := by
      refine twoFree_of_freeCount (le_trans ?_ hb)
      have hpos := Finset.card_pos.mpr ⟨_, mem_unmapped.mpr ⟨hmem, hunmapped⟩⟩
      omega
    obtain ⟨hdemand, hkeeps, hmaps⟩ := h.pageFault hcount hlt hunmapped htwo
    obtain ⟨g, hg⟩ := refers_of_translate hlt hmaps
    refine ⟨_, g, hdemand, hkeeps, hb.pageFault h.sane hpages hlt hmem hunmapped htwo hmaps, hg,
      fun access haccess => ?_⟩
    have hfaults : access s = none := (haccess s).mpr hunmapped
    have hhandled : s.pageFaultInterruptHandler v = some (s.pageFault v) :=
      setupPage_eq h.sane.toGuarded hlt
    rw [restarted, hfaults]
    dsimp only
    rw [hhandled, Option.bind_some]
  · obtain ⟨g, hg⟩ := refers_of_translate hlt hunmapped
    refine ⟨s, g, h, fun d j g _ hr => ⟨hr, fun k _ => rfl⟩, hb, hg, fun access haccess => ?_⟩
    obtain ⟨r, hr⟩ := Option.ne_none_iff_exists'.mp fun hnone => hunmapped ((haccess s).mp hnone)
    rw [restarted, hr]
    rfl

/-- The value of a load agrees with what is known. -/
def Agrees (value : UInt32) (known : Option UInt32) : Prop := ∀ w, known = some w → value = w

/-- **A run of accesses**, by induction on the accesses: it does not stop, and every load returns what
is known of it. -/
theorem accessRun_spec (h : Demand count s₀ s) (hb : Budget pages s)
    (hpages : ∀ p ∈ pages, p < 1023 * 1024) {known : UInt32 → Option UInt32}
    (hknown : Recalls count s known) {accesses : List MemoryAccess}
    (hin : ∀ a ∈ accesses, InRegion count a.address ∧ a.address.toNat / 4096 ∈ pages) :
    ∃ values t, accessRun accesses s = some (values, t) ∧ Demand count s₀ t ∧
      List.Forall₂ Agrees values (flatRun accesses known) := by
  induction accesses generalizing s known with
  | nil => exact ⟨[], s, rfl, h, List.Forall₂.nil⟩
  | cons a rest ih =>
      obtain ⟨hv, hmem⟩ := hin a List.mem_cons_self
      have hrest := fun b hb => hin b (List.mem_cons_of_mem a hb)
      obtain ⟨t, g, ht, hkeeps, hbudget, hg, hserve⟩ := h.serve hb hpages hv hmem
      have hrecalls := hknown.keeps hkeeps
      cases a with
      | load v =>
          dsimp only [MemoryAccess.address] at hv hg hserve
          have haccess := hserve (fun s => s.load v) fun s => Option.map_eq_none_iff
          have hload := load_of_refers hv.1 hg
          rw [hload] at haccess
          obtain ⟨values, u, hrun, hu, hagree⟩ := ih ht hbudget hrecalls hrest
          refine ⟨t.word g (pageWord v) :: values, u, ?_, hu, List.Forall₂.cons (fun w hw => ?_) hagree⟩
          · rw [accessRun, haccess, Option.map_some, Option.bind_some, hrun]
            rfl
          · have hrecalled := (hrecalls v w hw).2
            rw [hload] at hrecalled
            exact Option.some.inj hrecalled
      | store v w =>
          dsimp only [MemoryAccess.address] at hv hg hserve
          have haccess := hserve (fun s => s.store v w) fun s => Option.map_eq_none_iff
          rw [store_of_refers hv.1 hg] at haccess
          have hlt := pageWord_lt v
          obtain ⟨values, u, hrun, hu, hagree⟩ := ih (ht.store hv.2.1 hg hlt w)
            (hbudget.store ht hpages hv.2.1 hg hlt w) (hrecalls.store ht hv hg) hrest
          refine ⟨values, u, ?_, hu, hagree⟩
          rw [accessRun, haccess, Option.map_some, Option.bind_some]
          exact hrun

/-! ## From boot on -/

/-- At boot nothing above the tables of `paging_setup` is mapped. -/
lemma demand_boot (hfilled : Filled s.mem s.dirFrame count) (hcount : count ≤ 1022)
    (hfit : s.dirFrame + 1 + count ≤ frameCount) (hmapped : ∀ f < 1024 * count, ¬ s.Free f)
    (hmarked : ∀ f, s.dirFrame ≤ f → f ≤ s.dirFrame + count → ¬ s.Free f) : Demand count s s := by
  have hbooks := books_boot hfilled hcount hfit hmapped hmarked
  have habsent : ∀ d < 1023, count ≤ d → ¬ present (s.dirEntry d) = true := by
    intro d hd hge hp
    have hlt := (table_of_present hfilled hfit hd hp).1
    omega
  exact ⟨hbooks.sane, hbooks.shrinks, hbooks.closed, fun f hf r r' hr => absurd hf (hbooks.closed f r hr),
    fun d f hd hr => absurd hr.2.1 (habsent d hr.1 hd),
    fun d j f hd hr => absurd hr.2.1 (habsent d hr.1.1 hd), ⟨rfl, hmarked _ le_rfl (by omega)⟩,
    fun f _ _ _ j _ => rfl⟩

/-- The tables of `paging_setup`, with the frames that they map, and their own, in use. -/
lemma demand_pagingState {pageDirectory : UInt32} (hcount : count ≤ 1022)
    (halign : pageDirectory.toNat % 4096 = 0)
    (hfit : pageDirectory.toNat + (1 + count) * 4096 ≤ 2 ^ 32) (mem : UInt32 → UInt32)
    {bitmap : ℕ → UInt32}
    (hmapped : ∀ f < 1024 * count, f < managedFrames → Bitmap.inUse bitmap f = true)
    (hmarked : ∀ f, frameOf pageDirectory ≤ f → f ≤ frameOf pageDirectory + count →
      f < managedFrames → Bitmap.inUse bitmap f = true) :
    Demand count (pagingState count pageDirectory mem bitmap) (pagingState count pageDirectory mem bitmap) := by
  obtain ⟨hbound, hfilled⟩ := filled_pagingState hcount halign hfit mem bitmap
  have hused : ∀ f, (f < managedFrames → Bitmap.inUse bitmap f = true) →
      ¬ (pagingState count pageDirectory mem bitmap).Free f := by
    intro f huse hfree
    have hclear : Bitmap.inUse bitmap f = false := hfree.2
    rw [huse hfree.1] at hclear
    simp at hclear
  exact demand_boot hfilled hcount hbound (fun f hf => hused f (hmapped f hf))
    fun f hlo hhi => hused f (hmarked f hlo hhi)

/-- A run of accesses from the start, with two free frames for every page. -/
lemma Demand.accessRun (h : Demand count s s) {accesses : List MemoryAccess}
    (hin : ∀ a ∈ accesses, InRegion count a.address)
    (hroom : 2 * (pagesOf (accesses.map MemoryAccess.address)).card ≤ s.freeCount) :
    ∃ values t, accessRun accesses s = some (values, t) ∧
      List.Forall₂ Agrees values (flatRun accesses fun _ => none) ∧ Demand count s t := by
  have hbudget : Budget (pagesOf (accesses.map MemoryAccess.address)) s :=
    (Nat.mul_le_mul_left 2 (Finset.card_filter_le _ _)).trans hroom
  have hmem : ∀ a ∈ accesses, a.address.toNat / 4096 ∈ pagesOf (accesses.map MemoryAccess.address) := by
    intro a ha
    rw [pagesOf, List.mem_toFinset, List.map_map]
    exact List.mem_map_of_mem ha
  have hpages : ∀ p ∈ pagesOf (accesses.map MemoryAccess.address), p < 1023 * 1024 := by
    intro p hp
    rw [pagesOf, List.mem_toFinset, List.map_map, List.mem_map] at hp
    obtain ⟨a, ha, rfl⟩ := hp
    have hlt := (hin a ha).2.2
    unfold dirIndex at hlt
    dsimp only [Function.comp_apply]
    omega
  obtain ⟨values, t, hrun, ht, hagree⟩ := accessRun_spec h hbudget hpages
    (fun _ w (hw : none = some w) => nomatch hw) fun a ha => ⟨hin a ha, hmem a ha⟩
  exact ⟨values, t, hrun, hagree, ht⟩

end Paging

open Paging

/-- The accesses of `paging_tests` above the mapped memory: each of two pages is written and read back. -/
def pagingTests : List MemoryAccess :=
  [.store 0xA0000000 100, .load 0xA0000000, .store 0xA0001000 101, .load 0xA0001000]

end GrubKernel
