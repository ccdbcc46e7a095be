import GrubKernel.Heap.Allocate
import Mathlib.Data.Nat.Bitwise

/-!
# Releasing a block

* `Buddies` — the two halves of a node.
* `Represents.mergeBuddy` — a block in use is put together with its free buddy.
* `Represents.give` — a block in use without a free buddy becomes free.
* `Represents.mergeUp` — the loop of `free` with the push after it.
* **`Represents.free_spec`** — `free` takes away exactly the block it is given.
-/

namespace GrubKernel

open BuddyTree LinkRing Status

variable {s : Heap} {st : ℕ → Status} {i p q : ℕ}

/-! ## Buddies -/

/-- The nodes are the two halves of the node above. -/
def Buddies (p i q : ℕ) : Prop := (i = 2 * p + 1 ∧ q = 2 * p + 2) ∨ (i = 2 * p + 2 ∧ q = 2 * p + 1)

lemma Buddies.parent (h : Buddies p i q) : (i - 1) / 2 = p := by
  unfold Buddies at h
  omega

lemma Buddies.level (h : Buddies p i q) : level i = level p + 1 ∧ level q = level p + 1 := by
  rcases h with ⟨rfl, rfl⟩ | ⟨rfl, rfl⟩
  · exact ⟨level_left p, level_right p⟩
  · exact ⟨level_right p, level_left p⟩

/-- How the source moves to the sibling. -/
lemma Buddies.sibling (h : Buddies p i q) : ((i - 1) ^^^ 1) + 1 = q := by
  rcases h with ⟨rfl, rfl⟩ | ⟨rfl, rfl⟩
  · have heven : Even (2 * p + 1 - 1) := ⟨p, by omega⟩
    rw [Nat.xor_one_of_even heven]
    omega
  · have hodd : Odd (2 * p + 2 - 1) := ⟨p, by omega⟩
    rw [Nat.xor_one_of_odd hodd]
    omega

/-- The bit of a node with a block in use below tells whether the other half is free. -/
lemma Buddies.flag_eq (h : Buddies p i q) (L : ℕ) (hp : st p = split) (hi : st i = live) :
    flag L st p = decide (st q = free) := by
  rw [flag, if_pos hp]
  rcases h with ⟨rfl, rfl⟩ | ⟨rfl, rfl⟩
  · simp [hi]
  · simp [hi]

/-- A node of the tree below the root has a buddy. -/
lemma Represents.exists_buddies (h : Represents s st) (hi : st i ≠ absent)
    (hlevel : level i ≠ s.bucketLimit) : ∃ p q, Buddies p i q ∧ st p = split := by
  rcases h.tree.up i hi with rfl | ⟨p, hp, hip | hip⟩
  · exact absurd (level_root _) hlevel
  · exact ⟨p, 2 * p + 2, Or.inl ⟨hip, rfl⟩, hp⟩
  · exact ⟨p, 2 * p + 1, Or.inr ⟨hip, rfl⟩, hp⟩

/-- The buddy that `BuddyFree` speaks of. -/
lemma Buddies.buddyFree_iff (h : Buddies p i q) (hp : st p = split) : BuddyFree st i ↔ st q = free := by
  constructor
  · rintro ⟨p', -, ⟨hi, hfree⟩ | ⟨hi, hfree⟩⟩
    · rcases h with ⟨hi', rfl⟩ | ⟨hi', -⟩
      · rwa [show p = p' by omega]
      · omega
    · rcases h with ⟨hi', -⟩ | ⟨hi', rfl⟩
      · omega
      · rwa [show p = p' by omega]
  · intro hfree
    refine ⟨p, hp, ?_⟩
    rcases h with ⟨hi, rfl⟩ | ⟨hi, rfl⟩
    · exact Or.inl ⟨hi, hfree⟩
    · exact Or.inr ⟨hi, hfree⟩

/-- At the limit there is no buddy. -/
lemma Represents.not_buddyFree (h : Represents s st) (hlevel : level i = s.bucketLimit) :
    ¬ BuddyFree st i := by
  rintro ⟨p, hp, hi⟩
  have hip : level i = level p + 1 := by
    rcases hi with ⟨rfl, -⟩ | ⟨rfl, -⟩
    · exact level_left p
    · exact level_right p
  have hmem := h.tree.level_mem p (ne_absent_of_split hp)
  omega

/-! ## One round -/

/-- **A block is put together with its free buddy.** -/
lemma Represents.mergeBuddy (h : Represents s st) (hpiq : Buddies p i q) (hp : st p = split)
    (hi : st i = live) (hq : st q = free) :
    Represents { s.flipParentIsSplit i with mem := listRemove s.mem (addr q) } (merge st p) ∧
      Keeps s.mem st (some i) (listRemove s.mem (addr q)) (merge st p) (some p) := by
  have hhalves : st (2 * p + 1) = free ∧ st (2 * p + 2) = live ∨
      st (2 * p + 1) = live ∧ st (2 * p + 2) = free := by
    rcases hpiq with ⟨rfl, rfl⟩ | ⟨rfl, rfl⟩
    · exact Or.inr ⟨hi, hq⟩
    · exact Or.inl ⟨hq, hi⟩
  have hblocks : IsBlock st (2 * p + 1) ∧ IsBlock st (2 * p + 2) := by
    rcases hhalves with ⟨hl, hr⟩ | ⟨hl, hr⟩
    · exact ⟨Or.inl hl, Or.inr hr⟩
    · exact ⟨Or.inr hl, Or.inl hr⟩
  have hfree : ∀ j, merge st p j = free ↔ st j = free ∧ j ≠ q := by
    intro j
    rw [merge_apply]
    unfold Buddies at hpiq
    grind
  have hlive : ∀ j, merge st p j = live ∧ some j ≠ some p ↔ st j = live ∧ some j ≠ some i := by
    intro j
    rw [merge_apply]
    unfold Buddies at hpiq
    grind
  obtain ⟨nodes, hnodes⟩ := h.lists
  refine ⟨⟨h.base, h.tree.merge hp hblocks.1 hblocks.2, fun j => ?_, hnodes.remove hq hfree,
    fun j hj => ?_, h.top⟩, hlive, fun j hj _ => ?_⟩
  · have hflip := Heap.isSplit_flip s i j
    rw [hpiq.parent] at hflip
    show (s.flipParentIsSplit i).isSplit j = flag s.bucketLimit (merge st p) j
    rw [h.tree.flag_merge hp hhalves, ← h.flags]
    exact hflip
  · by_cases hjp : j = p
    · have hleft := h.below _ hblocks.1
      rw [addr_left (h.tree.deep p hp)] at hleft
      rw [hjp]
      exact hleft
    · rcases hj with hj | hj
      · exact h.below j (Or.inl ((hfree j).mp hj).1)
      · exact h.below j (Or.inr ((hlive j).mp ⟨hj, by simp [hjp]⟩).1)
  · exact hnodes.remove_cell hq (h.heapStart_le (ne_absent_of_live hj)) (h.free_ne_live hj)

/-- **A block without a free buddy becomes free.** -/
lemma Represents.give (h : Represents s st) (hi : st i = live) (hbuddy : ¬ BuddyFree st i) {t : Heap}
    (ht : t = if i ≠ 0 then s.flipParentIsSplit i else s) :
    Represents { t with mem := listPush t.mem (t.bucket (level i)) (addr i) } (toggle st i free) ∧
      Keeps s.mem st (some i) (listPush t.mem (t.bucket (level i)) (addr i)) (toggle st i free)
        none := by
  have hblock : IsBlock st i := Or.inr hi
  have hlevel := h.tree.level_mem i hblock.ne_absent
  have hne : st i ≠ free := by
    rw [hi]
    decide
  obtain ⟨bits, hbits, hflag⟩ := flip_unless_spec s i
  obtain ⟨nodes, hnodes⟩ := h.lists
  rw [ht, hbits]
  refine ⟨⟨h.base, h.tree.toggle hblock (Or.inl rfl) fun _ => hbuddy, fun j => ?_,
    ⟨_, hnodes.push rfl hlevel.1 hlevel.2 (h.free_ne_live hi) fun j => toggle_free_free_iff i⟩,
    fun j hj => h.below j (isBlock_of_toggle hblock hj), h.top⟩, fun j => ?_, fun j hj hji => ?_⟩
  · rw [h.tree.flag_toggle hblock (Or.inl rfl) (iff_of_true rfl hne), ← h.flags]
    exact hflag j
  · rw [toggle_apply]
    split_ifs with hj
    · simp [hj]
    · simp [hj]
  · refine hnodes.push_cell hlevel (h.heapStart_le (ne_absent_of_live hj)) (h.free_ne_live hj) ?_
    refine h.addr_ne (Or.inr hj) hblock ?_
    rintro rfl
    exact hji rfl

/-! ## The loop -/

/-- **One round of the loop of `free`**: it ends at a block without a free buddy, and otherwise goes on
with the block that both make. -/
lemma Represents.mergeUp_cases (h : Represents s st) (hi : st i = live) {b : ℕ} (hb : level i = b) :
    (¬ BuddyFree st i ∧ s.mergeUp i b = (if i ≠ 0 then s.flipParentIsSplit i else s, i, b)) ∨
      ∃ p q, Buddies p i q ∧ st p = split ∧ st q = free ∧ p < i ∧
        s.mergeUp i b = Heap.mergeUp { s.flipParentIsSplit i with mem := listRemove s.mem (addr q) } p
          (b - 1) := by
  rw [Heap.mergeUp]
  by_cases hzero : i = 0
  · rw [dif_pos hzero, if_neg (not_not.mpr hzero)]
    refine Or.inl ⟨?_, rfl⟩
    rintro ⟨p, -, ⟨hip, -⟩ | ⟨hip, -⟩⟩
    · omega
    · omega
  · rw [dif_neg hzero, if_pos hzero]
    dsimp only
    by_cases hlimit : b = s.bucketLimit
    · have hstop : b = (s.flipParentIsSplit i).bucketLimit := hlimit
      rw [if_pos (Or.inr hstop)]
      exact Or.inl ⟨h.not_buddyFree (hb.trans hlimit), rfl⟩
    · obtain ⟨p, q, hpiq, hp⟩ := h.exists_buddies (ne_absent_of_live hi) (by rwa [hb])
      obtain ⟨hlevel, hlevel'⟩ := hpiq.level
      have hsplit : (s.flipParentIsSplit i).parentIsSplit i = !decide (st q = free) := by
        rw [Heap.parentIsSplit, Heap.isSplit_flip, hpiq.parent, h.flags, hpiq.flag_eq _ hp hi,
          decide_eq_true rfl, Bool.xor_true]
      by_cases hq : st q = free
      · have hgo : ¬ ((s.flipParentIsSplit i).parentIsSplit i = true ∨
            b = (s.flipParentIsSplit i).bucketLimit) := by
          rw [hsplit, decide_eq_true hq]
          rintro (hbad | hbad)
          · exact absurd hbad (by decide)
          · exact hlimit hbad
        have hptr : (s.flipParentIsSplit i).ptrForNode q b = addr q :=
          Heap.ptrForNode_addr h.base (by omega)
        have hpar := hpiq.parent
        refine Or.inr ⟨p, q, hpiq, hp, hq, by omega, ?_⟩
        rw [if_neg hgo, hpiq.sibling, hpiq.parent, hptr]
        rfl
      · rw [if_pos (Or.inl (by rw [hsplit, decide_eq_false hq, Bool.not_false]))]
        exact Or.inl ⟨fun hbuddy => hq ((hpiq.buddyFree_iff hp).mp hbuddy), rfl⟩

/-- **The loop of `free`, and the push behind it.** -/
lemma Represents.mergeUp : ∀ (i : ℕ) {s : Heap} {st : ℕ → Status} {b : ℕ}, Represents s st →
    st i = live → level i = b → ∀ {t : Heap} {j c : ℕ}, s.mergeUp i b = (t, j, c) →
    ∃ st', Represents { t with mem := listPush t.mem (t.bucket c) (t.ptrForNode j c) } st' ∧
      Keeps s.mem st (some i) (listPush t.mem (t.bucket c) (t.ptrForNode j c)) st' none := by
  intro i
  induction i using Nat.strong_induction_on with
  | _ i ih =>
      intro s st b h hi hb t j c hr
      rcases h.mergeUp_cases hi hb with ⟨hbuddy, hround⟩ | ⟨p, q, hpiq, hp, hq, hlt, hround⟩
      · obtain ⟨u, hu⟩ : ∃ u, u = if i ≠ 0 then s.flipParentIsSplit i else s := ⟨_, rfl⟩
        rw [hround, ← hu, Prod.mk.injEq, Prod.mk.injEq] at hr
        obtain ⟨hrep, hkeeps⟩ := h.give hi hbuddy hu
        have hptr : u.ptrForNode i b = addr i := Heap.ptrForNode_addr hrep.base hb
        rw [← hr.1, ← hr.2.1, ← hr.2.2, hptr, ← hb]
        exact ⟨_, hrep, hkeeps⟩
      · -- the parent becomes the block in use of the next round
        obtain ⟨hrep, hkeeps⟩ := h.mergeBuddy hpiq hp hi hq
        obtain ⟨hlevel, -⟩ := hpiq.level
        have hlive : merge st p p = live := by rw [merge_apply, if_pos rfl]
        rw [hround] at hr
        obtain ⟨st', hrep', hkeeps'⟩ := ih p hlt hrep hlive (b := b - 1) (by omega) hr
        exact ⟨st', hrep', hkeeps.trans hkeeps'⟩

/-- **Releasing a block** takes away this block and keeps the others. -/
theorem Represents.free_spec (h : Represents s st) (hi : st i = live)
    (hb : level i = bucketForRequest ((s.mem (addr i)).prev + headerSize)) :
    ∃ st', Represents (s.free (addr i + headerSize)) st' ∧
      Keeps s.mem st (some i) (s.free (addr i + headerSize)).mem st' none := by
  have hlevel : level i ≤ maxLevel := h.level_le (ne_absent_of_live hi)
  have hne := addr_add_header_ne_zero hlevel
  have hptr : addr i + headerSize - headerSize = addr i := UInt32.add_sub_cancel ..
  have hnode := Heap.nodeForPtr_addr h.base hlevel hb
  obtain ⟨st', hrep, hkeeps⟩ := Represents.mergeUp i h hi hb rfl
  unfold Heap.free
  rw [if_neg hne]
  dsimp only
  rw [hptr, hnode]
  exact ⟨st', hrep, hkeeps⟩

end GrubKernel
