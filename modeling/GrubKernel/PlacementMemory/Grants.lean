import GrubKernel.PlacementMemory.Reserve

/-!
# No byte is handed out twice

A run is any finite sequence of the three reserving calls.  Between two calls the memory behind the
table may change arbitrarily (`withForeign`), because nothing in the kernel protects it.

* `Call`, `Call.exec` — one call, with its result as an integer.
* `Event`, `events` — what was observed at each call of a run.
* `Event.granted`, `Event.reserved` — the addresses a call handed out, or blocked.
* `Event.Sound` — the facts about one call from which the run results follow.
* **`no_byte_granted_twice`** — the grants of a run are disjoint, come out of the free set, stay off
  the reserved ranges, and no address returns to the free set.
-/

namespace GrubKernel

open RangeList

/-! ## Calls -/

/-- A call that reserves memory. -/
inductive Call where
  | allocate (size : UInt64)
  | allocateArea (start size : UInt64)
  | allocateAreaCover (start size : UInt64)
deriving DecidableEq, Repr

/-- The call asks for at least one byte and its range does not wrap. -/
def Call.Valid : Call → Prop
  | .allocate size => 0 < size.toNat
  | .allocateArea start size => (⟨start, size⟩ : MemoryArea).Valid
  | .allocateAreaCover start size => (⟨start, size⟩ : MemoryArea).Valid

instance : DecidablePred Call.Valid
  | .allocate _ => inferInstanceAs (Decidable (_ < _))
  | .allocateArea _ _ => inferInstanceAs (Decidable (MemoryArea.Valid _))
  | .allocateAreaCover _ _ => inferInstanceAs (Decidable (MemoryArea.Valid _))

/-- The result of a call and the table after it. -/
def Call.exec : Call → PlacementMemory → ℤ × PlacementMemory
  | .allocate size, s => (((s.allocate size).1.toNat : ℤ), (s.allocate size).2)
  | .allocateArea start size, s => s.allocateArea start size
  | .allocateAreaCover start size, s => s.allocateAreaCover start size

namespace PlacementMemory

/-- The same table with other memory behind it. -/
def withForeign (s : PlacementMemory) (f : ℕ → MemoryArea) : PlacementMemory :=
  { s with freeMemoryAreas := fun i => if i < maxMemoryAreasSize then s.freeMemoryAreas i else f i }

lemma withForeign_freeMemoryAreas (s : PlacementMemory) (f : ℕ → MemoryArea) {i : ℕ}
    (hi : i < maxMemoryAreasSize) : (s.withForeign f).freeMemoryAreas i = s.freeMemoryAreas i :=
  if_pos hi

lemma usedAreas_withForeign (s : PlacementMemory) (f : ℕ → MemoryArea)
    (hs : s.freeMemoryAreaIndex ≤ maxMemoryAreasSize) :
    (s.withForeign f).usedAreas = s.usedAreas :=
  usedAreas_congr rfl fun _ hi => s.withForeign_freeMemoryAreas f (hi.trans_le hs)

lemma spans_withForeign (s : PlacementMemory) (f : ℕ → MemoryArea)
    (hs : s.freeMemoryAreaIndex ≤ maxMemoryAreasSize) : (s.withForeign f).spans = s.spans := by
  rw [spans, usedAreas_withForeign s f hs, spans]

lemma WellFormed.withForeign {s : PlacementMemory} (hs : WellFormed s) (f : ℕ → MemoryArea) :
    WellFormed (s.withForeign f) := by
  have heq := s.spans_withForeign f hs.index_le
  exact ⟨hs.index_le, heq ▸ hs.separated, heq ▸ hs.bounded⟩

end PlacementMemory

/-! ## Events -/

/-- One call of a run: the tables around it and its result. -/
structure Event where
  call : Call
  before : PlacementMemory
  after : PlacementMemory
  result : ℤ

/-- The events of a run from `s`; each call comes with the memory found behind the table. -/
def events : PlacementMemory → List ((ℕ → MemoryArea) × Call) → List Event
  | _, [] => []
  | s, (f, c) :: cs =>
      let before := s.withForeign f
      let r := c.exec before
      ⟨c, before, r.2, r.1⟩ :: events r.2 cs

/-- The table after an event is the one its call left. -/
lemma after_eq_exec (cs : List ((ℕ → MemoryArea) × Call)) : ∀ s : PlacementMemory,
    ∀ e ∈ events s cs, e.after = (e.call.exec e.before).2 := by
  induction cs with
  | nil =>
      intro s e he
      simp [events] at he
  | cons fc cs ih =>
      intro s e he
      rcases List.mem_cons.mp he with rfl | he
      · rfl
      · exact ih _ e he

/-- The result of an event is the one its call returned. -/
lemma result_eq_exec (cs : List ((ℕ → MemoryArea) × Call)) : ∀ s : PlacementMemory,
    ∀ e ∈ events s cs, e.result = (e.call.exec e.before).1 := by
  induction cs with
  | nil =>
      intro s e he
      simp [events] at he
  | cons fc cs ih =>
      intro s e he
      rcases List.mem_cons.mp he with rfl | he
      · rfl
      · exact ih _ e he

namespace Event

/-- The addresses handed out by `allocate`: it took memory iff the areas in use changed. -/
def allocated (e : Event) : Set ℕ :=
  match e.call with
  | .allocate size =>
      if e.after.usedAreas ≠ e.before.usedAreas then
        Set.Ico e.result.toNat (e.result.toNat + size.toNat)
      else ∅
  | _ => ∅

/-- The addresses handed out by `allocate` or by a successful `allocate_area`. -/
def granted (e : Event) : Set ℕ :=
  match e.call with
  | .allocateArea start size => if e.result = 0 then (⟨start, size⟩ : MemoryArea).span.toSet else ∅
  | _ => e.allocated

/-- The addresses blocked by a successful `allocate_area_cover`. -/
def reserved (e : Event) : Set ℕ :=
  match e.call with
  | .allocateAreaCover start size =>
      if e.result = 0 then (⟨start, size⟩ : MemoryArea).span.toSet else ∅
  | _ => ∅

/-- What holds of every call on a well-formed table. -/
structure Sound (e : Event) : Prop where
  before_wf : e.before.WellFormed
  after_wf : e.after.WellFormed
  granted_free : e.granted ⊆ e.before.freeSet
  shrinks : e.after.freeSet ⊆ e.before.freeSet
  granted_gone : Disjoint e.granted e.after.freeSet
  reserved_gone : Disjoint e.reserved e.after.freeSet

lemma allocated_subset_granted (e : Event) : e.allocated ⊆ e.granted := by
  rcases e with ⟨c, before, after, result⟩
  cases c with
  | allocate size => exact subset_rfl
  | allocateArea start size => exact Set.empty_subset _
  | allocateAreaCover start size => exact Set.empty_subset _

end Event

/-! ## One call -/

/-- A call that carves the range `r` out of the free list takes away the addresses of `r`. -/
lemma freeSet_of_spans_eq_carve {s t : PlacementMemory} {lo hi : ℕ}
    (h : t.spans = carve lo hi s.spans) : t.freeSet = s.freeSet \ Set.Ico lo hi := by
  rw [PlacementMemory.freeSet, h, addresses_carve, PlacementMemory.freeSet]

/-- **One call is sound.** -/
theorem sound_exec {s : PlacementMemory} (hs : s.WellFormed) {c : Call} (hc : c.Valid) :
    Event.Sound ⟨c, s, (c.exec s).2, (c.exec s).1⟩ := by
  cases c with
  | allocate size =>
      rcases PlacementMemory.allocate_spec hs hc with h | h
      · obtain ⟨j, hj, hle, -, hret, hidx, hspans⟩ := h
        have hwf : (s.allocate size).2.WellFormed :=
          hs.of_carve (Nat.le_add_right _ _) hspans (hidx.trans hs.index_le)
        have hfree := freeSet_of_spans_eq_carve hspans
        have hgrant : Event.granted ⟨.allocate size, s, ((Call.allocate size).exec s).2,
            ((Call.allocate size).exec s).1⟩ ⊆ Set.Ico (s.freeMemoryAreas j).start.toNat
              ((s.freeMemoryAreas j).start.toNat + size.toNat) := by
          simp only [Event.granted, Event.allocated, Call.exec, hret, Int.toNat_natCast]
          split
          · exact subset_rfl
          · exact Set.empty_subset _
        refine ⟨hs, hwf, fun x hx => ?_, ?_, ?_, Set.empty_disjoint _⟩
        · have hx' := hgrant hx
          exact PlacementMemory.mem_freeSet.mpr
            ⟨j, hj, hx'.1, hx'.2.trans_le (Nat.add_le_add_left hle _)⟩
        · show (s.allocate size).2.freeSet ⊆ s.freeSet
          rw [hfree]
          exact Set.sdiff_subset
        · show Disjoint _ (s.allocate size).2.freeSet
          rw [hfree]
          exact Set.disjoint_sdiff_right.mono_left hgrant
      · obtain ⟨-, -, hsame⟩ := h
        have hgrant : Event.granted ⟨.allocate size, s, ((Call.allocate size).exec s).2,
            ((Call.allocate size).exec s).1⟩ = ∅ := by
          simp only [Event.granted, Event.allocated, Call.exec, hsame.usedAreas_eq, ne_eq,
            not_true_eq_false, if_false]
        refine ⟨hs, hsame.wellFormed hs, hgrant ▸ Set.empty_subset _, ?_,
          hgrant ▸ Set.empty_disjoint _, Set.empty_disjoint _⟩
        show (s.allocate size).2.freeSet ⊆ s.freeSet
        rw [PlacementMemory.freeSet, hsame.spans_eq, PlacementMemory.freeSet]
  | allocateArea start size =>
      rcases PlacementMemory.allocateArea_spec hs hc with h | h
      · obtain ⟨hfits, hcode, hspans, hidx⟩ := h
        have hwf := hs.of_carve hc.lo_lt_hi.le hspans hidx
        have hfree := freeSet_of_spans_eq_carve hspans
        have hgrant : Event.granted ⟨.allocateArea start size, s,
            ((Call.allocateArea start size).exec s).2, ((Call.allocateArea start size).exec s).1⟩
              = (⟨start, size⟩ : MemoryArea).span.toSet := if_pos hcode
        refine ⟨hs, hwf, ?_, ?_, ?_, Set.empty_disjoint _⟩
        · rw [hgrant]
          obtain ⟨a, ha, hlo, hhi, -⟩ := hfits
          exact fun x hx => ⟨a, ha, hlo.trans hx.1, hx.2.trans_le hhi⟩
        · show (s.allocateArea start size).2.freeSet ⊆ s.freeSet
          rw [hfree]
          exact Set.sdiff_subset
        · show Disjoint _ (s.allocateArea start size).2.freeSet
          rw [hgrant, hfree]
          exact Set.disjoint_sdiff_right
      · obtain ⟨-, hcode, hsame⟩ := h
        have hgrant : Event.granted ⟨.allocateArea start size, s,
            ((Call.allocateArea start size).exec s).2, ((Call.allocateArea start size).exec s).1⟩
              = ∅ := if_neg hcode.ne
        refine ⟨hs, hsame.wellFormed hs, hgrant ▸ Set.empty_subset _, ?_,
          hgrant ▸ Set.empty_disjoint _, Set.empty_disjoint _⟩
        show (s.allocateArea start size).2.freeSet ⊆ s.freeSet
        rw [PlacementMemory.freeSet, hsame.spans_eq, PlacementMemory.freeSet]
  | allocateAreaCover start size =>
      rcases PlacementMemory.allocateAreaCover_spec hs hc with h | h
      · obtain ⟨-, hcode, hspans, hidx⟩ := h
        have hwf := hs.of_carve hc.lo_lt_hi.le hspans hidx
        have hfree := freeSet_of_spans_eq_carve hspans
        have hres : Event.reserved ⟨.allocateAreaCover start size, s,
            ((Call.allocateAreaCover start size).exec s).2,
            ((Call.allocateAreaCover start size).exec s).1⟩
              = (⟨start, size⟩ : MemoryArea).span.toSet := if_pos hcode
        refine ⟨hs, hwf, Set.empty_subset _, ?_, Set.empty_disjoint _, ?_⟩
        · show (s.allocateAreaCover start size).2.freeSet ⊆ s.freeSet
          rw [hfree]
          exact Set.sdiff_subset
        · show Disjoint _ (s.allocateAreaCover start size).2.freeSet
          rw [hres, hfree]
          exact Set.disjoint_sdiff_right
      · obtain ⟨-, hcode, hsame⟩ := h
        have hres : Event.reserved ⟨.allocateAreaCover start size, s,
            ((Call.allocateAreaCover start size).exec s).2,
            ((Call.allocateAreaCover start size).exec s).1⟩ = ∅ :=
          if_neg (by
            show ¬ (s.allocateAreaCover start size).1 = 0
            rw [hcode]
            decide)
        refine ⟨hs, hsame.wellFormed hs, Set.empty_subset _, ?_, Set.empty_disjoint _,
          hres ▸ Set.empty_disjoint _⟩
        show (s.allocateAreaCover start size).2.freeSet ⊆ s.freeSet
        rw [PlacementMemory.freeSet, hsame.spans_eq, PlacementMemory.freeSet]

/-! ## Runs -/

/-- Every event of a run is sound and starts inside the free set the run started from. -/
lemma sound_events (cs : List ((ℕ → MemoryArea) × Call)) : ∀ s : PlacementMemory, s.WellFormed →
    (∀ c ∈ cs, c.2.Valid) → ∀ e ∈ events s cs, e.Sound ∧ e.before.freeSet ⊆ s.freeSet := by
  induction cs with
  | nil =>
      intro s _ _ e he
      simp [events] at he
  | cons fc cs ih =>
      intro s hs hv e he
      obtain ⟨f, c⟩ := fc
      have hsound := sound_exec (hs.withForeign f) (hv _ List.mem_cons_self)
      have hfree : (s.withForeign f).freeSet = s.freeSet := by
        rw [PlacementMemory.freeSet, s.spans_withForeign f hs.index_le, PlacementMemory.freeSet]
      rcases List.mem_cons.mp he with rfl | he
      · exact ⟨hsound, hfree.subset⟩
      · obtain ⟨h₁, h₂⟩ := ih _ hsound.after_wf (fun c hc => hv c (List.mem_cons_of_mem _ hc)) e he
        exact ⟨h₁, h₂.trans (hsound.shrinks.trans hfree.subset)⟩

/-- Later events start inside the free set that earlier events left. -/
lemma pairwise_events (cs : List ((ℕ → MemoryArea) × Call)) : ∀ s : PlacementMemory, s.WellFormed →
    (∀ c ∈ cs, c.2.Valid) →
    (events s cs).Pairwise fun e f => e.Sound ∧ f.Sound ∧ f.before.freeSet ⊆ e.after.freeSet := by
  induction cs with
  | nil =>
      intro s _ _
      exact List.Pairwise.nil
  | cons fc cs ih =>
      intro s hs hv
      obtain ⟨f, c⟩ := fc
      have hsound := sound_exec (hs.withForeign f) (hv _ List.mem_cons_self)
      have hrest := fun c hc => hv c (List.mem_cons_of_mem _ hc)
      refine List.pairwise_cons.mpr ⟨fun e he => ?_, ih _ hsound.after_wf hrest⟩
      obtain ⟨h₁, h₂⟩ := sound_events cs _ hsound.after_wf hrest e he
      exact ⟨hsound, h₁, h₂⟩

/-- **No byte is handed out twice.**  In every run from a well-formed table, whatever lies behind the
table at each call: the table stays well-formed and every grant lies in the free set of its moment;
two grants are disjoint; an `allocate` grant misses every range reserved before it; and an address
that left the free set never returns to it. -/
theorem no_byte_granted_twice {s : PlacementMemory} (hs : s.WellFormed)
    (cs : List ((ℕ → MemoryArea) × Call)) (hv : ∀ c ∈ cs, c.2.Valid) :
    (∀ e ∈ events s cs, e.after.WellFormed ∧ e.granted ⊆ e.before.freeSet) ∧
    (events s cs).Pairwise (fun e f =>
      Disjoint e.granted f.granted ∧ Disjoint e.reserved f.allocated ∧
      ∀ x, x ∈ e.before.freeSet → x ∉ e.after.freeSet →
        x ∉ f.before.freeSet ∧ x ∉ f.after.freeSet) := by
  refine ⟨fun e he => ?_, ?_⟩
  · obtain ⟨hsound, -⟩ := sound_events cs s hs hv e he
    exact ⟨hsound.after_wf, hsound.granted_free⟩
  · refine (pairwise_events cs s hs hv).imp fun {e f} h => ?_
    obtain ⟨he, hf, hsub⟩ := h
    refine ⟨?_, ?_, fun x _ hgone => ?_⟩
    · exact he.granted_gone.mono_right (hf.granted_free.trans hsub)
    · exact he.reserved_gone.mono_right
        (f.allocated_subset_granted.trans (hf.granted_free.trans hsub))
    · exact ⟨fun hx => hgone (hsub hx), fun hx => hgone (hsub (hf.shrinks hx))⟩

/-- Two areas; one call of each kind. -/
theorem no_byte_granted_twice_example :
    let s := PlacementMemory.ofAreas [⟨0, 0x9fc00⟩, ⟨0x100000, 0x7ee0000⟩]
    let cs : List ((ℕ → MemoryArea) × Call) :=
      [(fun _ => ⟨0, 0⟩, .allocateAreaCover 0 0x2800000), (fun _ => ⟨7, 9⟩, .allocate 0x500000),
        (fun _ => ⟨0, 0⟩, .allocateArea 0x3000000 0x1000)]
    (∀ e ∈ events s cs, e.after.WellFormed ∧ e.granted ⊆ e.before.freeSet) ∧
    (events s cs).Pairwise (fun e f =>
      Disjoint e.granted f.granted ∧ Disjoint e.reserved f.allocated ∧
      ∀ x, x ∈ e.before.freeSet → x ∉ e.after.freeSet →
        x ∉ f.before.freeSet ∧ x ∉ f.after.freeSet) :=
  no_byte_granted_twice (PlacementMemory.wellFormed_ofAreas (by decide)) _ (by
    intro c hc
    simp only [List.mem_cons, List.not_mem_nil, or_false] at hc
    rcases hc with rfl | rfl | rfl
    · decide
    · decide
    · decide)

end GrubKernel
