import GrubKernel.Sorting.Offsets

/-!
# Quicksort

The pivot is the first element of the interval, and the left of the two recursive calls includes the
position the pivot ends at.  Where the pivot is greater than everything else the left call is on the
same interval again, with its greatest element at the end; that can happen once only, so the depth of the
recursion is at most twice the length of the interval.

* `Confined` — a run that only compares and exchanges positions of one interval.
* `Partitioned`, `partitionLoop_spec` — the loop that splits an interval at its pivot.
* **`quicksortInternal_spec`** — one interval is sorted, and nothing else is touched.
* `QuicksortSorts`, `quicksort_sorts` — the array is sorted.
* `quicksortInternal_smallerLast` — where the offsets wrap, a smaller element at the end stays there.
* **`quicksort_sorts_iff`** — quicksort sorts all arrays of an extent iff the offsets fit.
-/

namespace GrubKernel
namespace Sorting

open CInt Exchange

section Invariants

variable {α : Type*} {comparatorFptr : α → α → ℤ} {swapFptr : (ℕ → α) → ℕ → ℕ → ℕ → α}
variable {first stop : ℕ}

/-! ## Runs inside an interval -/

/-- From `s` to `s'` only the positions from `first` up to `stop` were touched, and exchanged at most. -/
structure Confined (first stop : ℕ) (s s' : State α) : Prop where
  rearranged : Rearranged first stop s.data s'.data
  touched : ∀ i ∈ s'.touched, i ∈ s.touched ∨ (first ≤ i ∧ i < stop)

lemma Confined.refl (first stop : ℕ) (s : State α) : Confined first stop s s :=
  ⟨Rearranged.refl first stop s.data, fun _ hi => Or.inl hi⟩

lemma Confined.trans {s s' s'' : State α} (h : Confined first stop s s')
    (h' : Confined first stop s' s'') : Confined first stop s s'' := by
  refine ⟨h.rearranged.trans h'.rearranged, fun i hi => ?_⟩
  rcases h'.touched i hi with hbefore | hin
  · exact h.touched i hbefore
  · exact Or.inr hin

lemma Confined.mono {first' stop' : ℕ} {s s' : State α} (h : Confined first stop s s')
    (hfirst : first' ≤ first) (hstop : stop ≤ stop') : Confined first' stop' s s' := by
  refine ⟨h.rearranged.mono hfirst hstop, fun i hi => ?_⟩
  rcases h.touched i hi with hbefore | hin
  · exact Or.inl hbefore
  · right
    omega

/-- Touching positions of the interval. -/
lemma Confined.touch {s : State α} {data' : ℕ → α} {l : List ℕ} (hl : ∀ i ∈ l, first ≤ i ∧ i < stop)
    (hdata : Rearranged first stop s.data data') : Confined first stop s ⟨data', s.touched ++ l⟩ := by
  refine ⟨hdata, fun k hk => ?_⟩
  rcases List.mem_append.mp hk with hk | hk
  · exact Or.inl hk
  · exact Or.inr (hl k hk)

lemma Confined.swapAt (hswap : Exchanges swapFptr) {i j : ℕ} (hi : first ≤ i ∧ i < stop)
    (hj : first ≤ j ∧ j < stop) (s : State α) :
    Confined first stop s (Sorting.swapAt swapFptr s i j) := by
  refine Confined.touch (by simp [hi, hj]) ?_
  rw [hswap]
  exact Rearranged.exchange hi hj s.data

lemma swapAt_data (hswap : Exchanges swapFptr) (s : State α) (i j : ℕ) :
    (swapAt swapFptr s i j).data = s.data ∘ Equiv.swap i j := hswap s.data i j

/-! ## Splitting an interval -/

/-- The pivot stands at `first`; the elements after it are smaller up to `split` and not smaller from
there up to `ptr`. -/
structure Partitioned (comparatorFptr : α → α → ℤ) (pivot : α) (first split ptr : ℕ) (data : ℕ → α) :
    Prop where
  pivot_eq : data first = pivot
  first_lt : first < split
  split_le : split ≤ ptr
  below : ∀ i, first < i → i < split → comparatorFptr (data i) pivot < 0
  above : ∀ i, split ≤ i → i < ptr → ¬ comparatorFptr (data i) pivot < 0

variable {pivot : α} {split ptr : ℕ} {data : ℕ → α}

lemma Partitioned.start (comparatorFptr : α → α → ℤ) (data : ℕ → α) (first : ℕ) :
    Partitioned comparatorFptr (data first) first (first + 1) (first + 1) data :=
  ⟨rfl, by omega, le_rfl, fun i hi hi' => by omega, fun i hi hi' => by omega⟩

/-- The element at `ptr` is not smaller. -/
lemma Partitioned.keep (h : Partitioned comparatorFptr pivot first split ptr data)
    (hptr : ¬ comparatorFptr (data ptr) pivot < 0) :
    Partitioned comparatorFptr pivot first split (ptr + 1) data := by
  refine ⟨h.pivot_eq, h.first_lt, by have := h.split_le; omega, h.below, fun i hi hi' => ?_⟩
  rcases Nat.lt_succ_iff_lt_or_eq.mp hi' with hlt | rfl
  · exact h.above i hi hlt
  · exact hptr

/-- The element at `ptr` is smaller and moves to the smaller ones. -/
lemma Partitioned.move (h : Partitioned comparatorFptr pivot first split ptr data)
    (hptr : comparatorFptr (data ptr) pivot < 0) :
    Partitioned comparatorFptr pivot first (split + 1) (ptr + 1) (data ∘ Equiv.swap ptr split) := by
  have hfirst := h.first_lt
  have hsplit := h.split_le
  have hoff : ∀ i, i ≠ ptr → i ≠ split → (data ∘ Equiv.swap ptr split) i = data i := by
    intro i hi hi'
    rw [Function.comp_apply, Equiv.swap_apply_of_ne_of_ne hi hi']
  have hat : (data ∘ Equiv.swap ptr split) split = data ptr := by
    rw [Function.comp_apply, Equiv.swap_apply_right]
  have hat' : (data ∘ Equiv.swap ptr split) ptr = data split := by
    rw [Function.comp_apply, Equiv.swap_apply_left]
  refine ⟨?_, by omega, by omega, fun i hi hi' => ?_, fun i hi hi' => ?_⟩
  · rw [hoff first (by omega) (by omega), h.pivot_eq]
  · rcases Nat.lt_succ_iff_lt_or_eq.mp hi' with hlt | rfl
    · rw [hoff i (by omega) (by omega)]
      exact h.below i hi hlt
    · rw [hat]
      exact hptr
  · rcases Nat.lt_succ_iff_lt_or_eq.mp hi' with hlt | rfl
    · rw [hoff i (by omega) (by omega)]
      exact h.above i (by omega) hlt
    · -- what stood at `split` is one of the elements that are not smaller
      rw [hat']
      exact h.above split le_rfl (by omega)

/-- The pivot stands between the smaller elements and the others. -/
structure Placed (comparatorFptr : α → α → ℤ) (pivot : α) (first split stop : ℕ) (data : ℕ → α) :
    Prop where
  pivot_eq : data (split - 1) = pivot
  below : ∀ i, first ≤ i → i < split - 1 → comparatorFptr (data i) pivot < 0
  above : ∀ i, split ≤ i → i < stop → ¬ comparatorFptr (data i) pivot < 0

/-- The last exchange puts the pivot behind the smaller elements. -/
lemma Partitioned.place (h : Partitioned comparatorFptr pivot first split stop data) :
    Placed comparatorFptr pivot first split stop (data ∘ Equiv.swap first (split - 1)) := by
  have hfirst := h.first_lt
  refine ⟨?_, fun i hi hi' => ?_, fun i hi hi' => ?_⟩
  · rw [Function.comp_apply, Equiv.swap_apply_right, h.pivot_eq]
  · rw [Function.comp_apply]
    rcases Nat.eq_or_lt_of_le hi with rfl | hlt
    · rw [Equiv.swap_apply_left]
      exact h.below (split - 1) hi' (by omega)
    · rw [Equiv.swap_apply_of_ne_of_ne (by omega) (by omega)]
      exact h.below i hlt (by omega)
  · rw [Function.comp_apply, Equiv.swap_apply_of_ne_of_ne (by omega) (by omega)]
    exact h.above i hi hi'

/-! ## Intervals in order -/

/-- The elements of an interval are in order. -/
def Ascending (comparatorFptr : α → α → ℤ) (first stop : ℕ) (data : ℕ → α) : Prop :=
  ∀ i j, first ≤ i → i < j → j < stop → comparatorFptr (data i) (data j) ≤ 0

/-- The last element of an interval is greater than all others. -/
def TopLast (comparatorFptr : α → α → ℤ) (first stop : ℕ) (data : ℕ → α) : Prop :=
  ∀ i, first ≤ i → i < stop - 1 → comparatorFptr (data i) (data (stop - 1)) < 0

/-- Two sorted intervals with an element between them. -/
lemma Ascending.append (hcmp : TotalPreorder comparatorFptr) (mid : ℕ) (x : α)
    (hleft : Ascending comparatorFptr first mid data) (hright : Ascending comparatorFptr mid stop data)
    (hbelow : ∀ i, first ≤ i → i < mid → comparatorFptr (data i) x ≤ 0)
    (habove : ∀ i, mid ≤ i → i < stop → comparatorFptr x (data i) ≤ 0) :
    Ascending comparatorFptr first stop data := by
  intro i j hi hij hj
  rcases Nat.lt_or_ge j mid with hjm | hjm
  · exact hleft i j hi hij hjm
  · rcases Nat.lt_or_ge i mid with him | him
    · exact hcmp.trans _ x _ (hbelow i hi him) (habove j hjm hj)
    · exact hright i j him hij hj

/-- With the greatest element at the end, the pivot does not end up there. -/
lemma Partitioned.split_lt_of_topLast (hcmp : TotalPreorder comparatorFptr) {data' : ℕ → α}
    (htop : TopLast comparatorFptr first stop data) (hlong : first + 1 < stop)
    (hrest : Rearranged (first + 1) stop data data')
    (h : Partitioned comparatorFptr (data first) first split stop data') : split < stop := by
  by_contra hnot
  have hall : ∀ i, first + 1 ≤ i → i < stop → comparatorFptr (data' i) (data first) < 0 := by
    intro i hi hi'
    exact h.below i hi (by omega)
  have hlast := hrest.symm.forall (P := fun x => comparatorFptr x (data first) < 0) hall (stop - 1)
    (by omega) (by omega)
  have hfirst := (hcmp.sign _ _).mp (htop first le_rfl (by omega))
  omega

end Invariants

/-! ## The loop -/

variable {a : Extent} {comparatorFptr : Element a.elementSize → Element a.elementSize → ℤ}
variable {swapFptr : (ℕ → Element a.elementSize) → ℕ → ℕ → ℕ → Element a.elementSize}
variable {first stop : ℕ}

/-- A comparison moves nothing. -/
lemma Confined.compareAt (hfits : a.Fits) {i j : ℕ} (hi : first ≤ i ∧ i < stop)
    (hj : first ≤ j ∧ j < stop) (hstop : stop ≤ a.elementCount) (s : State (Element a.elementSize)) :
    Confined first stop s (Sorting.compareAt comparatorFptr s i j).2 := by
  rw [compareAt_eq hfits (by omega) (by omega)]
  exact Confined.touch (by simp [hi, hj]) (Rearranged.refl first stop s.data)

/-- **The loop splits the interval.** -/
lemma partitionLoop_spec (hfits : a.Fits) (hswap : Exchanges swapFptr)
    (hcount : a.elementCount ≤ 2 ^ 31 - 1) (hstop : stop ≤ a.elementCount) (pivot : Element a.elementSize)
    (fuel : ℕ) :
    ∀ ptr split s, ptr ≤ stop → stop < ptr + fuel →
      Partitioned comparatorFptr pivot first split ptr s.data →
      ∃ split' s', partitionLoop a comparatorFptr swapFptr fuel first ((stop : ℤ) - 1) (ptr - 1) split s
          = some (split', s') ∧
        Partitioned comparatorFptr pivot first split' stop s'.data ∧
        Confined first stop s s' ∧ Rearranged (first + 1) stop s.data s'.data := by
  induction fuel with
  | zero =>
      intro ptr split s hptr hfuel
      omega
  | succ fuel ih =>
      intro ptr split s hptr hfuel h
      have hfirst := h.first_lt
      have hsplit := h.split_le
      have hnext : (ptr - 1 + 1) % 2 ^ 32 = ptr := by
        rw [Nat.sub_add_cancel (by omega)]
        exact Nat.mod_eq_of_lt (by omega)
      have hlast : toUnsigned ((stop : ℤ) - 1) = stop - 1 := by
        rw [show (stop : ℤ) - 1 = ((stop - 1 : ℕ) : ℤ) by omega]
        exact toUnsigned_natCast (by omega)
      rw [partitionLoop]
      dsimp only
      rw [hnext, hlast, toUnsigned_natCast (show first < 2 ^ 32 by omega)]
      by_cases hin : ptr ≤ stop - 1
      · have hcompared : Confined first stop s (compareAt comparatorFptr s ptr first).2 :=
          Confined.compareAt hfits (by omega) (by omega) hstop s
        rw [compareAt_eq hfits (by omega) (by omega)] at hcompared ⊢
        rw [if_pos hin, h.pivot_eq]
        set s₀ : State (Element a.elementSize) := ⟨s.data, s.touched ++ [ptr, ptr, first, first]⟩
        by_cases hneg : comparatorFptr (s.data ptr) pivot < 0
        · have hstep : (split + 1) % 2 ^ 32 = split + 1 := Nat.mod_eq_of_lt (by omega)
          have hmoved := h.move hneg
          set s₁ := swapAt swapFptr s₀ ptr split
          have hdata : s₁.data = s.data ∘ Equiv.swap ptr split := hswap _ ptr split
          rw [← hdata] at hmoved
          obtain ⟨split', s', hs', hpart, hconf, hrest⟩ := ih (ptr + 1) (split + 1) s₁ (by omega)
            (by omega) hmoved
          rw [if_pos hneg, hstep]
          refine ⟨split', s', hs', hpart, ?_, ?_⟩
          · exact (hcompared.trans (Confined.swapAt hswap (by omega) (by omega) _)).trans hconf
          · have hone : Rearranged (first + 1) stop s.data s₁.data := by
              rw [hdata]
              exact Rearranged.exchange (by omega) (by omega) s.data
            exact hone.trans hrest
        · obtain ⟨split', s', hs', hpart, hconf, hrest⟩ := ih (ptr + 1) split s₀ (by omega)
            (by omega) (h.keep hneg)
          rw [if_neg hneg]
          exact ⟨split', s', hs', hpart, hcompared.trans hconf, hrest⟩
      · obtain rfl : ptr = stop := by omega
        rw [if_neg hin]
        exact ⟨split, s, rfl, h, Confined.refl first ptr s, Rearranged.refl _ _ _⟩

/-! ## Sorting an interval -/

/-- **One interval is sorted, and nothing outside it is touched.** -/
theorem quicksortInternal_spec (hfits : a.Fits) (hcmp : TotalPreorder comparatorFptr)
    (hswap : Exchanges swapFptr) (hcount : a.elementCount ≤ 2 ^ 31 - 1) (fuel : ℕ) :
    ∀ first stop s, first ≤ stop → stop ≤ a.elementCount → 0 < fuel →
      (2 * (stop - first) + 1 ≤ fuel ∨
        (TopLast comparatorFptr first stop s.data ∧ 2 * (stop - first) ≤ fuel)) →
      ∃ s', quicksortInternal a comparatorFptr swapFptr fuel first ((stop : ℤ) - 1) s = some s' ∧
        Confined first stop s s' ∧ Ascending comparatorFptr first stop s'.data := by
  induction fuel with
  | zero =>
      intro first stop s hle hstop hfuel
      omega
  | succ fuel ih =>
      intro first stop s hle hstop _ hfuel
      rw [quicksortInternal]
      by_cases hshort : (stop : ℤ) - 1 - first < 1
      · rw [if_pos hshort]
        refine ⟨s, rfl, Confined.refl first stop s, fun i j hi hij hj => ?_⟩
        omega
      · have hlong : first + 1 < stop := by omega
        have hsucc : toUnsigned ((first : ℤ) + 1) = first + 1 := by
          rw [show (first : ℤ) + 1 = ((first + 1 : ℕ) : ℤ) by omega]
          exact toUnsigned_natCast (by omega)
        obtain ⟨split, s₁, hs₁, hpart, hconf₁, hrest⟩ := partitionLoop_spec hfits hswap hcount
          hstop (s.data first) fuel (first + 1) (first + 1) s (by omega) (by omega)
          (Partitioned.start comparatorFptr s.data first)
        have hfirst := hpart.first_lt
        have hsplit := hpart.split_le
        have hpred : (split : ℤ) - 1 = ((split - 1 : ℕ) : ℤ) := by omega
        rw [Nat.add_sub_cancel] at hs₁
        rw [if_neg hshort, hsucc, toUnsigned_natCast (show first < 2 ^ 32 by omega), hs₁]
        dsimp only [Option.bind_eq_bind, Option.bind_some]
        rw [toInt_eq (z := (split : ℤ) - 1) (by omega) (by omega),
          toInt_eq (z := (split : ℤ)) (by omega) (by omega), hpred,
          toUnsigned_natCast (show split - 1 < 2 ^ 32 by omega), ← hpred]
        -- the pivot at its place
        set s₂ := swapAt swapFptr s₁ first (split - 1)
        have hplaced : Placed comparatorFptr (s.data first) first split stop s₂.data := by
          rw [swapAt_data hswap]
          exact hpart.place
        have hconf₂ : Confined first stop s s₂ :=
          hconf₁.trans (Confined.swapAt hswap (by omega) (by omega) s₁)
        -- the left interval may be the whole one, but then its greatest element stands last
        have htop : TopLast comparatorFptr first split s₂.data := by
          intro i hi hi'
          rw [hplaced.pivot_eq]
          exact hplaced.below i hi hi'
        have hfuelLeft : 2 * (split - first) ≤ fuel := by
          rcases hfuel with hfuel | ⟨htop₀, hfuel⟩
          · omega
          · have hlt := Partitioned.split_lt_of_topLast hcmp htop₀ hlong hrest hpart
            omega
        obtain ⟨s₃, hs₃, hconf₃, hasc₃⟩ := ih first split s₂ (by omega) (by omega) (by omega)
          (Or.inr ⟨htop, hfuelLeft⟩)
        obtain ⟨s₄, hs₄, hconf₄, hasc₄⟩ := ih split stop s₃ (by omega) hstop (by omega)
          (Or.inl (by omega))
        have hleft : ∀ i, first ≤ i → i < split → s₄.data i = s₃.data i := fun i hi hi' =>
          hconf₄.rearranged.off (by omega)
        have hright : ∀ i, split ≤ i → i < stop → s₃.data i = s₂.data i := fun i hi hi' =>
          hconf₃.rearranged.off (by omega)
        have hbelow₂ : ∀ i, first ≤ i → i < split → comparatorFptr (s₂.data i) (s.data first) ≤ 0 := by
          intro i hi hi'
          rcases Nat.lt_or_ge i (split - 1) with hlt | hge
          · exact (hplaced.below i hi hlt).le
          · obtain rfl : i = split - 1 := by omega
            rw [hplaced.pivot_eq]
            exact hcmp.self_le _
        have habove₃ : ∀ i, split ≤ i → i < stop → comparatorFptr (s.data first) (s₃.data i) ≤ 0 := by
          intro i hi hi'
          rw [hright i hi hi']
          exact hcmp.le_of_not_neg (hplaced.above i hi hi')
        have hbelow₃ := hconf₃.rearranged.forall
          (P := fun x => comparatorFptr x (s.data first) ≤ 0) hbelow₂
        have habove₄ := hconf₄.rearranged.forall
          (P := fun x => comparatorFptr (s.data first) x ≤ 0) habove₃
        refine ⟨s₄, ?_, ?_, ?_⟩
        · rw [hs₃, Option.bind_some, hs₄]
        · exact (hconf₂.trans (hconf₃.mono le_rfl hsplit)).trans (hconf₄.mono (by omega) le_rfl)
        · refine Ascending.append hcmp split (s.data first) ?_ hasc₄ ?_ habove₄
          · intro i j hi hij hj
            rw [hleft i hi (by omega), hleft j (by omega) hj]
            exact hasc₃ i j hi hij hj
          · intro i hi hi'
            rw [hleft i hi hi']
            exact hbelow₃ i hi hi'

/-- **The whole array**, with a fuel that depends on the number of elements only. -/
theorem quicksort_spec (hfits : a.Fits) (hcmp : TotalPreorder comparatorFptr) (hswap : Exchanges swapFptr)
    (hcount : a.elementCount ≤ 2 ^ 31 - 1) (data : ℕ → Element a.elementSize) {fuel : ℕ}
    (hfuel : 2 * a.elementCount + 1 ≤ fuel) :
    ∃ s, quicksort a comparatorFptr swapFptr fuel ⟨data, []⟩ = some s ∧
      Confined 0 a.elementCount ⟨data, []⟩ s ∧ Ascending comparatorFptr 0 a.elementCount s.data := by
  obtain ⟨s, hs, hconf, hasc⟩ := quicksortInternal_spec hfits hcmp hswap hcount fuel 0 a.elementCount
    ⟨data, []⟩ (Nat.zero_le _) le_rfl (by omega) (Or.inl (by omega))
  refine ⟨s, ?_, hconf, hasc⟩
  rw [quicksort, toInt_eq (by omega) (by omega)]
  exact hs

/-- The recursion ends, compares and exchanges elements of the array only, and leaves a permutation of
the elements in ascending order. -/
def QuicksortSorts (a : Extent) (comparatorFptr : Element a.elementSize → Element a.elementSize → ℤ)
    (swapFptr : (ℕ → Element a.elementSize) → ℕ → ℕ → ℕ → Element a.elementSize)
    (data : ℕ → Element a.elementSize) : Prop :=
  ∃ depth, ∀ fuel ≥ depth, ∃ s, quicksort a comparatorFptr swapFptr fuel ⟨data, []⟩ = some s ∧
    (∀ i ∈ s.touched, i < a.elementCount) ∧
    ((List.range a.elementCount).map s.data).Perm ((List.range a.elementCount).map data) ∧
    (∀ i, a.elementCount ≤ i → s.data i = data i) ∧
    ∀ i j, i < j → j < a.elementCount → comparatorFptr (s.data i) (s.data j) ≤ 0

/-- Where the offsets fit, quicksort sorts. -/
lemma quicksort_sorts (hfits : a.Fits) (hcmp : TotalPreorder comparatorFptr) (hswap : Exchanges swapFptr)
    (hcount : a.elementCount ≤ 2 ^ 31 - 1) (data : ℕ → Element a.elementSize) :
    QuicksortSorts a comparatorFptr swapFptr data := by
  refine ⟨2 * a.elementCount + 1, fun fuel hfuel => ?_⟩
  obtain ⟨s, hs, hconf, hasc⟩ := quicksort_spec hfits hcmp hswap hcount data hfuel
  refine ⟨s, hs, fun i hi => ?_, hconf.rearranged.perm, fun i hi => ?_, fun i j hij hj => ?_⟩
  · rcases hconf.touched i hi with hbefore | ⟨-, hlt⟩
    · simp at hbefore
    · exact hlt
  · exact hconf.rearranged.off (Or.inr hi)
  · exact hasc i j (Nat.zero_le i) hij hj

/-! ## Offsets that wrap -/

/-- Where no comparison sees the last element, the loop exchanges nothing. -/
lemma partitionLoop_smallerLast (hfits : ¬ a.Fits) (fuel : ℕ) :
    ∀ (first last : ℤ) ptrIdx splitIndex (s s' : State (Element a.elementSize)) splitIndex',
      s.data = smallerLast a →
      partitionLoop a (compareFirst a) swapFptr fuel first last ptrIdx splitIndex s
        = some (splitIndex', s') →
      splitIndex' = splitIndex ∧ s'.data = smallerLast a := by
  induction fuel with
  | zero =>
      intro first last ptrIdx splitIndex s s' splitIndex' _ h
      simp [partitionLoop] at h
  | succ fuel ih =>
      intro first last ptrIdx splitIndex s s' splitIndex' hs h
      rw [partitionLoop] at h
      dsimp only at h
      obtain ⟨heven, hdata⟩ := compareAt_smallerLast hfits hs ((ptrIdx + 1) % 2 ^ 32) (toUnsigned first)
      rw [heven, if_neg (lt_irrefl 0)] at h
      split_ifs at h
      · exact ih first last _ splitIndex _ s' splitIndex' hdata h
      · simp only [Option.some.injEq, Prod.mk.injEq] at h
        obtain ⟨rfl, rfl⟩ := h
        exact ⟨rfl, hs⟩

/-- The pivot is exchanged with itself, so the whole recursion leaves the array as it was. -/
lemma quicksortInternal_smallerLast (hfits : ¬ a.Fits) (hswap : Exchanges swapFptr) (fuel : ℕ) :
    ∀ (first last : ℤ) (s s' : State (Element a.elementSize)), 0 ≤ first → last < 2 ^ 31 →
      s.data = smallerLast a →
      quicksortInternal a (compareFirst a) swapFptr fuel first last s = some s' →
      s'.data = smallerLast a := by
  induction fuel with
  | zero =>
      intro first last s s' _ _ _ h
      simp [quicksortInternal] at h
  | succ fuel ih =>
      intro first last s s' hfirst hlast hs h
      rw [quicksortInternal] at h
      split_ifs at h with hshort
      · obtain rfl := Option.some.inj h
        exact hs
      · obtain ⟨n, rfl⟩ := Int.eq_ofNat_of_zero_le hfirst
        simp only [Option.bind_eq_bind, Option.bind_eq_some_iff, Prod.exists] at h
        obtain ⟨splitIndex, s₁, hloop, s₂, hleft, hright⟩ := h
        have hsucc : toUnsigned ((n : ℤ) + 1) = n + 1 := by
          exact_mod_cast toUnsigned_natCast (show n + 1 < 2 ^ 32 by omega)
        obtain ⟨rfl, hdata⟩ := partitionLoop_smallerLast hfits fuel _ _ _ _ _ _ _ hs hloop
        rw [hsucc] at hleft hright
        have hpivot : toUnsigned (((n + 1 : ℕ) : ℤ) - 1) = n := by
          rw [show ((n + 1 : ℕ) : ℤ) - 1 = n by omega]
          exact toUnsigned_natCast (by omega)
        have hself : (swapAt swapFptr s₁ (toUnsigned n) (toUnsigned (((n + 1 : ℕ) : ℤ) - 1))).data
            = smallerLast a := by
          rw [swapAt_data hswap, hpivot, toUnsigned_natCast (by omega), Equiv.swap_self, hdata]
          rfl
        have hs₂ := ih _ _ _ _ hfirst (by rw [toInt_eq (by omega) (by omega)]; omega) hself hleft
        exact ih _ _ _ _ (by rw [toInt_eq (by omega) (by omega)]; omega) hlast hs₂ hright

lemma not_quicksortSorts_smallerLast (hfits : ¬ a.Fits) (hswap : Exchanges swapFptr)
    (hcount : a.elementCount ≤ 2 ^ 31 - 1) :
    ¬ QuicksortSorts a (compareFirst a) swapFptr (smallerLast a) := by
  rintro ⟨depth, hdepth⟩
  obtain ⟨s, hs, -, -, -, hasc⟩ := hdepth depth le_rfl
  obtain ⟨hpos, hwrong⟩ := not_le_smallerLast hfits
  have hdata : s.data = smallerLast a := by
    rw [quicksort, toInt_eq (by omega) (by omega)] at hs
    exact quicksortInternal_smallerLast hfits hswap depth _ _ _ s le_rfl (by omega) rfl hs
  have hle := hasc 0 (a.elementCount - 1) hpos (by omega)
  rw [hdata] at hle
  exact hwrong hle

/-- **Quicksort sorts** all arrays of an extent of at most `2 ^ 31 - 1` elements, with every comparison
that is a total preorder and every function that exchanges two elements, if and only if the offsets of
all elements are below 4 GiB. -/
theorem quicksort_sorts_iff (a : Extent) (hcount : a.elementCount ≤ 2 ^ 31 - 1) :
    (∀ comparatorFptr, TotalPreorder comparatorFptr → ∀ swapFptr, Exchanges swapFptr → ∀ data,
      QuicksortSorts a comparatorFptr swapFptr data) ↔ a.Fits := by
  constructor
  · intro hall
    by_contra hfits
    have hswap : Exchanges fun (data : ℕ → Element a.elementSize) i j => data ∘ Equiv.swap i j :=
      fun _ _ _ => rfl
    exact not_quicksortSorts_smallerLast hfits hswap hcount (hall (compareFirst a)
      (compareFirst_totalPreorder a) _ hswap (smallerLast a))
  · intro hfits comparatorFptr hcmp swapFptr hswap data
    exact quicksort_sorts hfits hcmp hswap hcount data

/-- Three integers. -/
theorem quicksort_sorts_iff_three :
    QuicksortSorts threeInts intComparator intSwap
      fun i => if i = 0 then ![2, 0, 0, 0] else if i = 1 then ![1, 0, 0, 0] else ![0, 0, 0, 0] :=
  (quicksort_sorts_iff threeInts (by decide)).mpr (by decide) intComparator
    intComparator_totalPreorder intSwap intSwap_exchanges _

/-- Three elements of 2 GiB, the last of which is smaller than the other two: it stays at the end. -/
theorem not_quicksortSorts :
    ∃ a : Extent, a.elementCount = 3 ∧ a.elementSize = 2 ^ 31 ∧
      ∃ comparatorFptr, TotalPreorder comparatorFptr ∧ ∃ swapFptr, Exchanges swapFptr ∧
        ¬ QuicksortSorts a comparatorFptr swapFptr fun i _ => if i < 2 then 1 else 0 := by
  refine ⟨⟨3, 2 ^ 31, by decide, by decide, by decide⟩, rfl, rfl, _, compareFirst_totalPreorder _,
    fun data i j => data ∘ Equiv.swap i j, fun _ _ _ => rfl, ?_⟩
  exact not_quicksortSorts_smallerLast (by decide) (fun _ _ _ => rfl) (by decide)

end Sorting
end GrubKernel
