import GrubKernel.PlacementMemory.Grants
import GrubKernel.PlacementMemory.Insert

/-!
# Array bounds and the zero sentinel

Every loop that removes an area copies slot `j + 1` into slot `j` up to the last slot in use.  With
ten slots in use the last round reads slot 10, which lies behind the array.  This file shows that
this is the only access outside `0..9`, and that it is also the only way the zero sentinel behind
the slots in use is lost.

* `Access` — what an operation may access, relative to whether it removes an area.
* `Removes`, `Overruns` — the call removes an area; it does so on a full table.
* **`bounds_iff`** — a reserving call stays within the array and keeps the sentinel iff it does
  not overrun; `insert_area` always stays within the array; and in a run without overruns
  `memory_areas_size` is the number of slots in use.
-/

namespace GrubKernel

open RangeList

namespace PlacementMemory

/-! ## Accesses of one operation -/

/-- From `s` to `t` only slots below ten were accessed, and slot `free_memory_area_index` if an area
was removed; unless that happened on a full table, the zero sentinel is kept. -/
structure Access (s t : PlacementMemory) (removed : Prop) : Prop where
  mono : ∀ x ∈ s.touched, x ∈ t.touched
  within : ∀ x ∈ t.touched, x ∈ s.touched ∨ x < maxMemoryAreasSize ∨
    (removed ∧ x = s.freeMemoryAreaIndex)
  reads_next : removed → s.freeMemoryAreaIndex ∈ t.touched
  tail : ¬ (removed ∧ s.freeMemoryAreaIndex = maxMemoryAreasSize) → ZeroTail s → ZeroTail t

lemma Access.congr {s t : PlacementMemory} {p q : Prop} (h : Access s t p) (hpq : p ↔ q) :
    Access s t q := by
  obtain rfl : p = q := propext hpq
  exact h

lemma Access.touch {s : PlacementMemory} {i : ℕ} (hi : i < maxMemoryAreasSize) :
    Access s (s.touch i) False := by
  refine ⟨fun x hx => List.mem_cons_of_mem _ hx, fun x hx => ?_, False.elim, fun _ h => h.touch i⟩
  rcases List.mem_cons.mp hx with rfl | hx
  · exact Or.inr (Or.inl hi)
  · exact Or.inl hx

lemma Access.store {s : PlacementMemory} {i : ℕ} (hi : i < s.freeMemoryAreaIndex)
    (hle : s.freeMemoryAreaIndex ≤ maxMemoryAreasSize) (a : MemoryArea) :
    Access s (s.store i a) False := by
  refine ⟨fun x hx => List.mem_cons_of_mem _ hx, fun x hx => ?_, False.elim, fun _ h => h.store hi a⟩
  rcases List.mem_cons.mp hx with rfl | hx
  · exact Or.inr (Or.inl (hi.trans_le hle))
  · exact Or.inl hx

lemma Access.removeArea {s : PlacementMemory} {i : ℕ} (hi : i < s.freeMemoryAreaIndex)
    (hle : s.freeMemoryAreaIndex ≤ maxMemoryAreasSize) : Access s (s.removeArea i) True := by
  refine ⟨fun x hx => ?_, fun x hx => ?_, fun _ => ?_, fun hroom h => ?_⟩
  · exact (mem_touched_removeArea s i x).mpr (Or.inl hx)
  · rcases (mem_touched_removeArea s i x).mp hx with hx | ⟨-, -, hx⟩
    · exact Or.inl hx
    · rcases Nat.lt_or_eq_of_le hx with hx | hx
      · exact Or.inr (Or.inl (hx.trans_le hle))
      · exact Or.inr (Or.inr ⟨trivial, hx⟩)
  · exact (mem_touched_removeArea s i _).mpr (Or.inr ⟨hi, hi.le, le_rfl⟩)
  · exact h.removeArea hi (lt_of_le_of_ne hle fun hfull => hroom ⟨trivial, hfull⟩)

lemma Access.splitArea {s : PlacementMemory} {i : ℕ} (hi : i < s.freeMemoryAreaIndex)
    (hlt : s.freeMemoryAreaIndex < maxMemoryAreasSize) (a b : MemoryArea) :
    Access s (s.splitArea i a b) False := by
  refine ⟨fun x hx => ?_, fun x hx => ?_, False.elim, fun _ h => h.splitArea hi a b⟩
  · exact (mem_touched_splitArea s hi a b x).mpr (Or.inl hx)
  · rcases (mem_touched_splitArea s hi a b x).mp hx with hx | ⟨-, hx⟩
    · exact Or.inl hx
    · exact Or.inr (Or.inl (hx.trans_lt hlt))

/-- A step that removes nothing, followed by an operation on a table with the same count. -/
lemma Access.after {s t u : PlacementMemory} {p : Prop} (h₁ : Access s t False) (h₂ : Access t u p)
    (hn : t.freeMemoryAreaIndex = s.freeMemoryAreaIndex) : Access s u p := by
  refine ⟨fun x hx => h₂.mono x (h₁.mono x hx), fun x hx => ?_, fun hp => hn ▸ h₂.reads_next hp,
    fun hroom h => h₂.tail (hn ▸ hroom) (h₁.tail (fun hf => hf.1) h)⟩
  rcases h₂.within x hx with hx | hx | ⟨hp, hx⟩
  · rcases h₁.within x hx with hx | hx | ⟨hf, -⟩
    · exact Or.inl hx
    · exact Or.inr (Or.inl hx)
    · exact hf.elim
  · exact Or.inr (Or.inl hx)
  · exact Or.inr (Or.inr ⟨hp, hx.trans hn⟩)

/-- Once the count is below ten, a later step stays within the array whatever it removes. -/
lemma Access.andThen {s t u : PlacementMemory} {p q : Prop} (h₁ : Access s t p) (h₂ : Access t u q)
    (hlt : q → t.freeMemoryAreaIndex < maxMemoryAreasSize) : Access s u p := by
  refine ⟨fun x hx => h₂.mono x (h₁.mono x hx), fun x hx => ?_,
    fun hp => h₂.mono _ (h₁.reads_next hp),
    fun hroom h => h₂.tail (fun hf => (hlt hf.1).ne hf.2) (h₁.tail hroom h)⟩
  rcases h₂.within x hx with hx | hx | ⟨hq, rfl⟩
  · exact h₁.within x hx
  · exact Or.inr (Or.inl hx)
  · exact Or.inr (Or.inl (hlt hq))

lemma Access.refl (s : PlacementMemory) : Access s s False :=
  ⟨fun _ hx => hx, fun _ hx => Or.inl hx, False.elim, fun _ h => h⟩

/-! ## Accesses of the loops -/

/-- The loop of `allocate` removes an area iff the first one that is large enough fits exactly. -/
lemma access_allocateFrom (size : UInt64) (n : ℕ) : ∀ (s : PlacementMemory) (i : ℕ),
    i + n = s.freeMemoryAreaIndex → s.freeMemoryAreaIndex ≤ maxMemoryAreasSize →
    Access s (allocateFrom size n i s).2
      (∃ j, i ≤ j ∧ j < s.freeMemoryAreaIndex ∧ (s.freeMemoryAreas j).size = size ∧
        ∀ k, i ≤ k → k < j → (s.freeMemoryAreas k).size < size) := by
  induction n with
  | zero =>
      intro s i hi _
      refine (Access.refl s).congr ⟨False.elim, ?_⟩
      rintro ⟨j, hij, hj, -⟩
      omega
  | succ n ih =>
      intro s i hi hle
      have hin : i < s.freeMemoryAreaIndex := by omega
      have hread : Access s (s.touch i) False := Access.touch (hin.trans_le hle)
      rw [allocateFrom_succ]
      by_cases hgt : (s.freeMemoryAreas i).size > size
      · rw [if_pos hgt]
        refine (hread.after (Access.store (s := s.touch i) hin hle _) rfl).congr ⟨False.elim, ?_⟩
        rintro ⟨j, hij, -, heq, hbelow⟩
        rcases Nat.eq_or_lt_of_le hij with rfl | hlt
        · exact absurd hgt (heq ▸ UInt64.lt_irrefl _)
        · exact absurd hgt (UInt64.not_lt.mpr (UInt64.le_of_lt (hbelow i le_rfl hlt)))
      rw [if_neg hgt]
      by_cases heq : (s.freeMemoryAreas i).size = size
      · rw [if_pos heq]
        refine (hread.after (Access.removeArea (s := s.touch i) hin hle) rfl).congr
          ⟨fun _ => ?_, fun _ => trivial⟩
        exact ⟨i, le_rfl, hin, heq, fun k hk hk' => by omega⟩
      · rw [if_neg heq]
        have hlt : (s.freeMemoryAreas i).size < size :=
          UInt64.lt_of_le_of_ne (UInt64.not_lt.mp hgt) heq
        refine (hread.after (ih (s.touch i) (i + 1) (by simp; omega) hle) rfl).congr ⟨?_, ?_⟩
        · rintro ⟨j, hij, hj, hsz, hbelow⟩
          refine ⟨j, by omega, hj, hsz, fun k hk hk' => ?_⟩
          rcases Nat.eq_or_lt_of_le hk with rfl | hk
          · exact hlt
          · exact hbelow k hk hk'
        · rintro ⟨j, hij, hj, hsz, hbelow⟩
          have hne : i ≠ j := by
            rintro rfl
            exact heq hsz
          exact ⟨j, by omega, hj, hsz, fun k hk hk' => hbelow k (by omega) hk'⟩

lemma access_findOverlap (start : UInt64) (n : ℕ) : ∀ (s : PlacementMemory) (i : ℕ),
    i + n = s.freeMemoryAreaIndex → s.freeMemoryAreaIndex ≤ maxMemoryAreasSize →
    Access s (findOverlap start n i s).2 False := by
  induction n with
  | zero =>
      intro s i _ _
      exact Access.refl s
  | succ n ih =>
      intro s i hi hle
      have hread : Access s (s.touch i) False := Access.touch (by omega)
      rw [findOverlap_succ]
      split_ifs with hlt
      · exact hread.after (ih (s.touch i) (i + 1) (by simp; omega) hle) rfl
      · exact hread

/-- `allocate_area` removes the area it found iff that area is the range. -/
lemma access_allocateAreaAt {s : PlacementMemory} (hs : WellFormed s) {r : MemoryArea} (hr : r.Valid)
    {i : ℕ} (hi : i < s.freeMemoryAreaIndex) :
    Access s (s.allocateAreaAt r.start r.size i).2 (s.freeMemoryAreas i = r) := by
  have hv := hs.valid hi
  have hlast : r.start + r.size - 1 = r.last := rfl
  unfold allocateAreaAt
  dsimp only
  rw [hlast]
  split_ifs with h₁ h₂ h₃ h₄ hfull
  · refine (Access.store hi hs.index_le _).congr ⟨False.elim, fun heq => ?_⟩
    exact absurd h₁.2 (heq ▸ UInt64.lt_irrefl _)
  · refine (Access.store hi hs.index_le _).congr ⟨False.elim, fun heq => ?_⟩
    exact absurd h₂.1 (heq ▸ UInt64.lt_irrefl _)
  · refine (Access.removeArea hi hs.index_le).congr ⟨fun _ => ?_, fun _ => trivial⟩
    refine MemoryArea.span_injective (RangeList.Span.ext ?_ ?_)
    · exact congrArg UInt64.toNat h₃.1
    · exact (MemoryArea.last_eq_last_iff hv hr).mp h₃.2
  · exact (Access.refl s).congr ⟨False.elim, fun heq => h₃ ⟨heq ▸ rfl, heq ▸ rfl⟩⟩
  · refine (Access.splitArea hi (lt_of_le_of_ne hs.index_le hfull) _ _).congr
      ⟨False.elim, fun heq => ?_⟩
    exact absurd h₄.1 (heq ▸ UInt64.lt_irrefl _)
  · exact (Access.refl s).congr ⟨False.elim, fun heq => h₃ ⟨heq ▸ rfl, heq ▸ rfl⟩⟩

/-- The range covers one of the areas. -/
def CoversOne (l : List (Span ℕ)) (r : Span ℕ) : Prop := ∃ a ∈ l, r.lo ≤ a.lo ∧ a.hi ≤ r.hi

instance (l : List (Span ℕ)) (r : Span ℕ) : Decidable (CoversOne l r) :=
  inferInstanceAs (Decidable (∃ a ∈ l, _))

lemma coversOne_cons {a r : Span ℕ} {l : List (Span ℕ)} :
    CoversOne (a :: l) r ↔ (r.lo ≤ a.lo ∧ a.hi ≤ r.hi) ∨ CoversOne l r := by
  simp only [CoversOne, List.mem_cons, exists_eq_or_imp]

/-- Areas that start behind the range are not covered by it. -/
lemma not_coversOne {l : List (Span ℕ)} {r : Span ℕ} (h : ∀ a ∈ l, r.hi ≤ a.lo ∧ a.lo < a.hi) :
    ¬ CoversOne l r := by
  rintro ⟨a, ha, -, hhi⟩
  have := h a ha
  omega

/-- **The loop of `allocate_area_cover` removes an area iff the range covers one of the rest.** -/
lemma CoverRun.access {r : MemoryArea} (hr : r.Valid) {s : PlacementMemory} {l₁ l₂ : List (Span ℕ)}
    {res : ℤ × PlacementMemory} (h : CoverRun r s l₁ l₂ res) :
    Access s res.2 (CoversOne l₂ r.span) := by
  have hrlt : r.span.lo < r.span.hi := hr.lo_lt_hi
  -- the slot in hand is a slot of the table
  have hslot : ∀ {s : PlacementMemory} {l₁ l₂ : List (Span ℕ)} {a : Span ℕ}, WellFormed s →
      s.spans = l₁ ++ a :: l₂ →
      l₁.length < s.freeMemoryAreaIndex ∧ s.freeMemoryAreaIndex ≤ maxMemoryAreasSize := by
    intro s l₁ l₂ a hs hl
    have hcount := congrArg List.length hl
    rw [length_spans, List.length_append, List.length_cons] at hcount
    exact ⟨by omega, hs.index_le⟩
  induction h with
  | done hs hl => exact (Access.refl _).congr (by simp [CoversOne])
  | @skip s l₁ a l₂ res hs hl hoff _ ih =>
      obtain ⟨hi, hle⟩ := hslot hs hl
      have ha : a.lo < a.hi := hs.separated.1 a (by rw [hl]; simp)
      refine ((Access.touch (hi.trans_le hle)).after ih rfl).congr ?_
      rw [coversOne_cons]
      exact ⟨Or.inr, fun h => h.resolve_left (by omega)⟩
  | @remove s l₁ a l₂ res hs hl hlo hhi hrest _ ih =>
      obtain ⟨hi, hle⟩ := hslot hs hl
      have hstep := (Access.touch (hi.trans_le hle)).after
        (Access.removeArea (s := s.touch l₁.length) hi hle) rfl
      refine (hstep.andThen ih fun _ => ?_).congr ⟨fun _ => ?_, fun _ => trivial⟩
      · rw [removeArea_freeMemoryAreaIndex, touch_freeMemoryAreaIndex]
        omega
      · exact coversOne_cons.mpr (Or.inl ⟨hlo, hhi⟩)
  | @trim s l₁ a l₂ res b hs hl hleft hside hrest _ ih =>
      obtain ⟨hi, hle⟩ := hslot hs hl
      have hstep := (Access.touch (hi.trans_le hle)).after
        (Access.store (s := s.touch l₁.length) hi hle b) rfl
      refine (hstep.after ih rfl).congr ?_
      rw [coversOne_cons]
      refine ⟨Or.inr, fun h => h.resolve_left fun hin => ?_⟩
      rw [Span.minus_all hin.1 hin.2] at hleft
      simp at hleft
  | @full s l₁ a l₂ hs hl hin hfull =>
      obtain ⟨hi, hle⟩ := hslot hs hl
      refine (Access.touch (hi.trans_le hle)).congr ⟨False.elim, ?_⟩
      have hafter := (hl ▸ hs.separated).around.2.2
      rw [coversOne_cons]
      refine not_or.mpr ⟨by omega, not_coversOne fun b hb => ?_⟩
      exact ⟨hin.2.le.trans (hafter b hb).1, (hafter b hb).2⟩
  | @split s l₁ a l₂ res b c hs hl hin hb hc hroom hrest _ ih =>
      obtain ⟨hi, hle⟩ := hslot hs hl
      have hstep := (Access.touch (hi.trans_le hle)).after
        (Access.splitArea (s := s.touch l₁.length) hi (lt_of_le_of_ne hle hroom) b c) rfl
      -- everything from the second half on lies behind the range
      have hbehind : ¬ CoversOne l₂ r.span :=
        not_coversOne fun d hd => ⟨hin.2.le.trans (hrest d hd).1, (hrest d hd).2⟩
      have hnone : ¬ CoversOne (c.span :: l₂) r.span := by
        rw [coversOne_cons, hc]
        exact not_or.mpr ⟨fun h => absurd hin.2 (not_lt.mpr h.2), hbehind⟩
      refine (hstep.andThen ih fun h => absurd h hnone).congr ⟨False.elim, ?_⟩
      rw [coversOne_cons]
      exact not_or.mpr ⟨by omega, hbehind⟩

/-! ## Accesses of `insert_area` -/

/-- From the slot found, `insert_area` reaches the slot below it and the slots up to the count. -/
lemma touched_insertAreaAt {s : PlacementMemory} {i : ℕ} (hi : i ≤ s.freeMemoryAreaIndex)
    (start size : UInt64) : ∀ x ∈ (s.insertAreaAt start size i).2.touched,
      x ∈ s.touched ∨ x ≤ s.freeMemoryAreaIndex := by
  intro x
  unfold insertAreaAt
  dsimp only
  split_ifs <;>
    simp only [mem_touched_removeArea, touch, store, List.mem_cons] <;> grind

/-- **`insert_area` stays within the array**: it gives up on a full table before it looks at one. -/
theorem touched_insertArea {s : PlacementMemory} (hs : s.freeMemoryAreaIndex ≤ maxMemoryAreasSize)
    (start size : UInt64) : ∀ x ∈ (s.insertArea start size).2.touched,
      x ∈ s.touched ∨ x < maxMemoryAreasSize := by
  intro x hx
  unfold insertArea at hx
  split_ifs at hx with hfull hsize
  · exact Or.inl hx
  · exact Or.inl hx
  · obtain ⟨hsame, hle, -, -, hread⟩ := findInsert_spec start s.freeMemoryAreaIndex s 0 (by omega)
    rcases touched_insertAreaAt (hle.trans_eq hsame.2.symm) start size x hx with hx | hx
    · rcases hread x hx with hx | hx
      · exact Or.inl hx
      · exact Or.inr (by omega)
    · rw [hsame.2] at hx
      exact Or.inr (by omega)

/-! ## The zero sentinel and `memory_areas_size` -/

lemma memoryAreasSizeFrom_eq {s : PlacementMemory} (hs : WellFormed s) (hz : ZeroTail s) (n : ℕ) :
    ∀ i, i ≤ s.freeMemoryAreaIndex → i + n = maxMemoryAreasSize →
      s.memoryAreasSizeFrom n i = s.freeMemoryAreaIndex := by
  have hle := hs.index_le
  induction n with
  | zero =>
      intro i hi hn
      rw [memoryAreasSizeFrom]
      omega
  | succ n ih =>
      intro i hi hn
      rw [memoryAreasSizeFrom]
      rcases Nat.lt_or_eq_of_le hi with hlt | rfl
      · have hpos := (hs.valid hlt).1
        have hne : ¬ ((s.freeMemoryAreas i).start = 0 ∧ (s.freeMemoryAreas i).size = 0) := by
          rintro ⟨-, hzero⟩
          rw [hzero] at hpos
          simp at hpos
        rw [if_neg hne]
        exact ih (i + 1) hlt (by omega)
      · have hzero := hz s.freeMemoryAreaIndex le_rfl (by omega)
        rw [hzero, if_pos ⟨rfl, rfl⟩]

/-- **With the sentinel in place, `memory_areas_size` counts the slots in use.** -/
theorem memoryAreasSize_eq {s : PlacementMemory} (hs : WellFormed s) (hz : ZeroTail s) :
    s.memoryAreasSize = s.freeMemoryAreaIndex :=
  memoryAreasSizeFrom_eq hs hz maxMemoryAreasSize 0 (Nat.zero_le _) (Nat.zero_add _)

lemma ZeroTail.withForeign {s : PlacementMemory} (h : ZeroTail s) (f : ℕ → MemoryArea) :
    ZeroTail (s.withForeign f) := by
  intro i hi hi'
  rw [withForeign_freeMemoryAreas s f hi']
  exact h i hi hi'

/-- The same table with an empty record of accesses. -/
def untouched (s : PlacementMemory) : PlacementMemory := { s with touched := [] }

lemma WellFormed.untouched {s : PlacementMemory} (h : WellFormed s) : WellFormed s.untouched :=
  ⟨h.index_le, h.separated, h.bounded⟩

lemma ZeroTail.untouched {s : PlacementMemory} (h : ZeroTail s) : ZeroTail s.untouched := h

end PlacementMemory

/-! ## Calls -/

/-- The call removes an area: it takes an area whole. -/
def Removes (s : PlacementMemory) : Call → Prop
  | .allocate size => ∃ i < s.freeMemoryAreaIndex, (s.freeMemoryAreas i).size = size ∧
      ∀ k < i, (s.freeMemoryAreas k).size < size
  | .allocateArea start size => ∃ i < s.freeMemoryAreaIndex, s.freeMemoryAreas i = ⟨start, size⟩
  | .allocateAreaCover start size =>
      PlacementMemory.CoversOne s.spans (⟨start, size⟩ : MemoryArea).span

/-- The call removes an area of a full table. -/
def Overruns (s : PlacementMemory) (c : Call) : Prop :=
  s.freeMemoryAreaIndex = maxMemoryAreasSize ∧ Removes s c

/-- The slots that a call reads or writes. -/
def accesses (s : PlacementMemory) (c : Call) : List ℕ := (c.exec s.untouched).2.touched

/-- The call stays within the array and leaves the sentinel behind the slots in use. -/
def InBounds (s : PlacementMemory) (c : Call) : Prop :=
  (∀ x ∈ accesses s c, x < maxMemoryAreasSize) ∧ (c.exec s).2.ZeroTail

open PlacementMemory

/-- **What a call accesses.** -/
theorem access_exec {s : PlacementMemory} (hs : s.WellFormed) {c : Call} (hc : c.Valid) :
    Access s (c.exec s).2 (Removes s c) := by
  cases c with
  | allocate size =>
      have hne : size ≠ 0 := toNat_pos_iff.mp hc
      show Access s (s.allocate size).2 _
      unfold allocate
      by_cases h₀ : s.freeMemoryAreaIndex = 0
      · rw [if_pos h₀]
        refine (Access.refl s).congr ⟨False.elim, ?_⟩
        rintro ⟨i, hi, -⟩
        omega
      · rw [if_neg h₀, if_neg hne]
        refine (access_allocateFrom size s.freeMemoryAreaIndex s 0 (by omega) hs.index_le).congr ?_
        constructor
        · rintro ⟨j, -, hj, hsz, hbelow⟩
          exact ⟨j, hj, hsz, fun k hk => hbelow k (Nat.zero_le k) hk⟩
        · rintro ⟨j, hj, hsz, hbelow⟩
          exact ⟨j, Nat.zero_le j, hj, hsz, fun k _ hk => hbelow k hk⟩
  | allocateArea start size =>
      set r : MemoryArea := ⟨start, size⟩ with hr
      have hv : r.Valid := hc
      have hne := hv.size_ne_zero
      show Access s (s.allocateArea r.start r.size).2 (∃ i < s.freeMemoryAreaIndex, _ = r)
      unfold allocateArea
      by_cases h₀ : s.freeMemoryAreaIndex = 0
      · rw [if_pos h₀]
        refine (Access.refl s).congr ⟨False.elim, ?_⟩
        rintro ⟨i, hi, -⟩
        omega
      rw [if_neg h₀, if_neg hne]
      have hsearch := access_findOverlap r.start s.freeMemoryAreaIndex s 0 (by omega) hs.index_le
      obtain ⟨hsame, hsome, hnone⟩ := findOverlap_spec r.start s.freeMemoryAreaIndex s 0 (by omega)
      -- an area equal to the range does not end below it, and all areas under it do
      have hown : ∀ i < s.freeMemoryAreaIndex, s.freeMemoryAreas i = r →
          ¬ (s.freeMemoryAreas i).last < r.start := by
        intro i hi heq
        rw [MemoryArea.last_lt_iff (hs.valid hi), heq]
        exact not_le.mpr hv.lo_lt_hi
      rcases hfind : findOverlap r.start s.freeMemoryAreaIndex 0 s with ⟨_ | i, t⟩
      · rw [hfind] at hsearch hnone
        refine hsearch.congr ⟨False.elim, ?_⟩
        rintro ⟨i, hi, heq⟩
        exact hown i hi heq (hnone rfl i (Nat.zero_le i) hi)
      · rw [hfind] at hsearch hsame hsome
        replace hsame : SameTable s t := hsame
        obtain ⟨-, hi, -, hbelow⟩ := hsome i rfl
        have hcase := access_allocateAreaAt (hsame.wellFormed hs) hv (hsame.2 ▸ hi)
        refine (hsearch.after hcase hsame.2).congr ?_
        rw [hsame.1]
        refine ⟨fun heq => ⟨i, hi, heq⟩, ?_⟩
        rintro ⟨k, hk, heq⟩
        rcases lt_trichotomy k i with h | h | h
        · exact absurd (hbelow k (Nat.zero_le k) h) (hown k hk heq)
        · exact h ▸ heq
        · have hord := hs.ordered h hk
          have hge := (hsome i rfl).2.2.1
          rw [MemoryArea.last_lt_iff (hs.valid hi)] at hge
          rw [heq] at hord
          exact absurd hord hge
  | allocateAreaCover start size =>
      set r : MemoryArea := ⟨start, size⟩ with hr
      have hv : r.Valid := hc
      show Access s (s.allocateAreaCover r.start r.size).2 (CoversOne s.spans r.span)
      unfold allocateAreaCover
      by_cases h₀ : s.freeMemoryAreaIndex = 0
      · have hnil : s.spans = [] := List.length_eq_zero_iff.mp (by simpa using h₀)
        rw [if_pos h₀, hnil]
        exact (Access.refl s).congr (by simp [CoversOne])
      · rw [if_neg h₀]
        exact (coverFrom_run hv s 0 [] s.spans hs rfl rfl).access hv

/-- **One call is in bounds iff it does not remove an area of a full table.** -/
theorem inBounds_iff {s : PlacementMemory} (hs : s.WellFormed) (hz : s.ZeroTail) {c : Call}
    (hc : c.Valid) : InBounds s c ↔ ¬ Overruns s c := by
  have hclean : Access s.untouched (c.exec s.untouched).2 (Removes s c) :=
    access_exec hs.untouched hc
  constructor
  · rintro ⟨hin, -⟩ ⟨hfull, hrem⟩
    -- the last round of the shift loop reads the slot behind the ten in use
    have hread := hin _ (hclean.reads_next hrem)
    exact absurd hfull hread.ne
  · intro hok
    refine ⟨fun x hx => ?_, (access_exec hs hc).tail (fun h => hok ⟨h.2, h.1⟩) hz⟩
    rcases hclean.within x hx with hx | hx | ⟨hrem, hx⟩
    · simp [untouched] at hx
    · exact hx
    · have hidx : x = s.freeMemoryAreaIndex := hx
      exact hidx ▸ lt_of_le_of_ne hs.index_le fun hfull => hok ⟨hfull, hrem⟩

/-- A run stays in bounds iff none of its calls overruns the table. -/
lemma events_inBounds_iff (cs : List ((ℕ → MemoryArea) × Call)) : ∀ s : PlacementMemory,
    s.WellFormed → s.ZeroTail → (∀ c ∈ cs, c.2.Valid) →
    ((∀ e ∈ events s cs, InBounds e.before e.call) ↔
      ∀ e ∈ events s cs, ¬ Overruns e.before e.call) := by
  induction cs with
  | nil =>
      intro s _ _ _
      simp [events]
  | cons fc cs ih =>
      intro s hs hz hv
      obtain ⟨f, c⟩ := fc
      have hc := hv _ List.mem_cons_self
      have hhead := inBounds_iff (hs.withForeign f) (hz.withForeign f) hc
      have hwf := (sound_exec (hs.withForeign f) hc).after_wf
      have htail := fun hz' => ih _ hwf hz' fun c hc => hv c (List.mem_cons_of_mem _ hc)
      rw [events, List.forall_mem_cons, List.forall_mem_cons]
      constructor
      · rintro ⟨h₁, h₂⟩
        exact ⟨hhead.mp h₁, (htail h₁.2).mp h₂⟩
      · rintro ⟨h₁, h₂⟩
        have hin := hhead.mpr h₁
        exact ⟨hin, (htail hin.2).mpr h₂⟩

/-- **Bounds and sentinel of the free list.**  On a table with its sentinel, a run of reserving calls
accesses slots `0..9` only and keeps the sentinel iff no call of it removes an area of a full table;
then `memory_areas_size` is the number of slots in use after each call.  `insert_area` accesses slots
`0..9` on every table. -/
theorem bounds_iff {s : PlacementMemory} (hs : s.WellFormed) (hz : s.ZeroTail) :
    (∀ cs : List ((ℕ → MemoryArea) × Call), (∀ c ∈ cs, c.2.Valid) →
      ((∀ e ∈ events s cs, (∀ x ∈ accesses e.before e.call, x < maxMemoryAreasSize) ∧
          e.after.ZeroTail ∧ e.after.memoryAreasSize = e.after.freeMemoryAreaIndex) ↔
        ∀ e ∈ events s cs, ¬ Overruns e.before e.call)) ∧
    (∀ start size : UInt64, ∀ x ∈ (s.untouched.insertArea start size).2.touched,
      x < maxMemoryAreasSize) := by
  refine ⟨fun cs hv => ?_, fun start size x hx => ?_⟩
  · rw [← events_inBounds_iff cs s hs hz hv]
    refine forall₂_congr fun e he => ?_
    have hafter := (sound_events cs s hs hv e he).1.after_wf
    have hexec := after_eq_exec cs s e he
    rw [InBounds, ← hexec]
    constructor
    · rintro ⟨hin, hzero, -⟩
      exact ⟨hin, hzero⟩
    · rintro ⟨hin, hzero⟩
      exact ⟨hin, hzero, memoryAreasSize_eq hafter hzero⟩
  · rcases touched_insertArea (s := s.untouched) hs.index_le start size x hx with hx | hx
    · simp [untouched] at hx
    · exact hx

/-- Ten areas of one page each, 64 KiB apart. -/
def tenPages : PlacementMemory :=
  ofAreas ((List.range 10).map fun i => ⟨UInt64.ofNat (65536 * i), 4096⟩)

lemma wellFormed_tenPages : tenPages.WellFormed := wellFormed_ofAreas (by decide)

/-- With ten areas in use, `allocate` of exactly the first one reads slot 10. -/
theorem allocate_reads_slot_ten :
    tenPages.WellFormed ∧ tenPages.ZeroTail ∧ (Call.allocate 4096).Valid ∧
      maxMemoryAreasSize ∈ accesses tenPages (.allocate 4096) :=
  ⟨wellFormed_tenPages, zeroTail_ofAreas _, by decide, by decide⟩

theorem bounds_iff_tenPages :
    (∀ cs : List ((ℕ → MemoryArea) × Call), (∀ c ∈ cs, c.2.Valid) →
      ((∀ e ∈ events tenPages cs, (∀ x ∈ accesses e.before e.call, x < maxMemoryAreasSize) ∧
          e.after.ZeroTail ∧ e.after.memoryAreasSize = e.after.freeMemoryAreaIndex) ↔
        ∀ e ∈ events tenPages cs, ¬ Overruns e.before e.call)) ∧
    (∀ start size : UInt64, ∀ x ∈ (tenPages.untouched.insertArea start size).2.touched,
      x < maxMemoryAreasSize) :=
  bounds_iff wellFormed_tenPages (zeroTail_ofAreas _)

end GrubKernel
