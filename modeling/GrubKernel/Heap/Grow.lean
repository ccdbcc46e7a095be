import GrubKernel.Heap.Invariant

/-!
# Growing the tree

The break is raised and the root of the tree doubles; the blocks in use stay what they are.

* `Represents.raise` — raising `max_ptr`.
* `Represents.growFreeRoot`, `Represents.growUsedRoot` — one round of `lower_bucket_limit`.
* **`Represents.lowerBucketLimit`** — `lower_bucket_limit` succeeds, and the limit is at most the bucket.
-/

namespace GrubKernel

open BuddyTree LinkRing Status

variable {s : Heap} {st : ℕ → Status} {L : ℕ}

/-- **Raising the break** changes nothing else. -/
lemma Represents.raise (h : Represents s st) {m : UInt32} (hm : s.maxPtr.toNat ≤ m.toNat) :
    Represents { s with maxPtr := m, heapEnd := m } st :=
  ⟨h.base, h.tree, h.flags, h.lists, fun i hi => (h.below i hi).trans hm, rfl⟩

/-- A free root is all there is. -/
lemma Represents.eq_root (h : Represents s st) (hL : s.bucketLimit = L) (hfree : st (root L) = free)
    {i : ℕ} (hi : st i ≠ absent) : i = root L := by
  have htree := hL ▸ h.tree
  rcases htree.up i hi with heq | ⟨p, hp, -⟩
  · exact heq
  · exact absurd hp (htree.not_split_of_free hfree p)

/-- The bit above the root tells whether the root is free. -/
lemma Represents.parentIsSplit_root (h : Represents s st) (hL : s.bucketLimit = L + 1) :
    s.parentIsSplit (root (L + 1)) = !decide (st (root (L + 1)) = free) := by
  have hpar : (root (L + 1) - 1) / 2 = root L := by
    have hsucc := root_succ L
    omega
  have htree := hL ▸ h.tree
  have hout : st (root L) ≠ split := by
    rw [htree.absent_of_above (root_succ L).symm]
    decide
  rw [Heap.parentIsSplit, hpar, h.flags, hL, flag, if_neg hout, root_succ, decide_eq_true rfl,
    Bool.true_and]

lemma Represents.nodeForPtr_root (h : Represents s st) :
    s.nodeForPtr s.basePtr s.bucketLimit = root s.bucketLimit := by
  have hlevel := level_root s.bucketLimit
  have hle : level (root s.bucketLimit) ≤ maxLevel := by
    rw [hlevel]
    exact h.tree.root_le
  have haddr := addr_root s.bucketLimit
  rw [h.base, ← haddr]
  exact Heap.nodeForPtr_addr h.base hle hlevel

/-! ## A free root -/

lemma growFree_lists {image : KernelImage} {mem : UInt32 → ListT} {nodes : ℕ → List ℕ}
    (h : FreeLists image mem (L + 1) st nodes) (hL : L ≤ maxLevel)
    (hfree : st (root (L + 1)) = free) (hall : ∀ i, st i ≠ absent → i = root (L + 1)) :
    ∃ nodes', FreeLists image (listPush (listInit (listRemove mem heapStart) (image.bucket L))
      (image.bucket L) heapStart) L (BuddyTree.growFree L st) nodes' := by
  -- without the root nothing is free
  have hnone : ∀ j, Function.update st (root (L + 1)) absent j = free ↔
      st j = free ∧ j ≠ root (L + 1) := by
    intro j
    rw [Function.update_apply]
    split_ifs with hj
    · simp [hj]
    · simp [hj]
  have hnot : ∀ j, Function.update st (root (L + 1)) absent j ≠ free := by
    intro j hj
    obtain ⟨hj, hne⟩ := (hnone j).mp hj
    exact hne (hall j (ne_absent_of_free hj))
  have hnew : ∀ j, BuddyTree.growFree L st j = free ↔
      Function.update st (root (L + 1)) absent j = free ∨ j = root L := by
    intro j
    rw [growFree_apply]
    split_ifs with hj hj'
    · simp [hj]
    · simp [hj, hnot]
    · refine iff_of_false (fun hfree' => hj' (hall j (ne_absent_of_free hfree'))) ?_
      rintro (hfree' | heq)
      · exact hnot j hfree'
      · exact hj heq
  obtain ⟨nodes₁, h₁⟩ := h.remove hfree hnone
  have h₂ := (h₁.init hL).push (level_root L) le_rfl hL (fun j hj => absurd hj (hnot j)) hnew
  rw [addr_root, addr_root] at h₂
  exact ⟨_, h₂⟩

/-- **A free root doubles.** -/
lemma Represents.growFreeRoot (h : Represents s st) (hL : s.bucketLimit = L + 1)
    (hfree : st (root (L + 1)) = free) :
    Represents s.growFreeRoot (BuddyTree.growFree L st) ∧ s.growFreeRoot.bucketLimit = L ∧
      Keeps s.mem st none s.growFreeRoot.mem (BuddyTree.growFree L st) none := by
  have htree := hL ▸ h.tree
  have hlimit : s.growFreeRoot.bucketLimit = L := by
    show s.bucketLimit - 1 = L
    omega
  have hle : L ≤ maxLevel := by
    have hroot := htree.root_le
    omega
  have hall : ∀ i, st i ≠ absent → i = root (L + 1) := fun i hi => h.eq_root hL hfree hi
  have hnew : ∀ i, BuddyTree.growFree L st i ≠ absent → i = root L := by
    intro i hi
    rw [growFree_apply] at hi
    split_ifs at hi with h₁ h₂
    · exact h₁
    · exact absurd rfl hi
    · exact absurd (hall i hi) h₂
  have hroot : BuddyTree.growFree L st (root L) = free := by
    rw [growFree_apply, if_pos rfl]
  refine ⟨⟨h.base, ?_, fun i => ?_, ?_, fun i hi => ?_, h.top⟩, hlimit, fun j => ?_, fun j hj => ?_⟩
  · rw [hlimit]
    exact htree.growFree hfree
  · rw [hlimit, htree.flag_growFree hfree, ← hL]
    exact h.flags i
  · obtain ⟨nodes, hnodes⟩ := h.lists
    rw [hL] at hnodes
    have hlists := growFree_lists hnodes hle hfree hall
    rw [← h.base] at hlists
    rw [hlimit]
    show ∃ nodes, FreeLists s.image (listPush (listInit (listRemove s.mem s.basePtr)
      (s.image.bucket (s.bucketLimit - 1))) (s.image.bucket (s.bucketLimit - 1)) s.basePtr) L _ nodes
    rw [show s.bucketLimit - 1 = L from hlimit]
    exact hlists
  · have hbelow := h.below (root (L + 1)) (Or.inl hfree)
    rw [hnew i hi.ne_absent, addr_root, ← addr_root (L + 1)]
    exact hbelow
  · have hold : st j ≠ live := by
      intro hj
      rw [hall j (ne_absent_of_live hj), hfree] at hj
      exact absurd hj (by decide)
    have hnew' : BuddyTree.growFree L st j ≠ live := by
      intro hj
      rw [hnew j (ne_absent_of_live hj), hroot] at hj
      exact absurd hj (by decide)
    exact iff_of_false (fun hj => hnew' hj.1) fun hj => hold hj.1
  · rw [hall j (ne_absent_of_live hj), hfree] at hj
    exact absurd hj (by decide)

/-! ## A root in use -/

/-- The new right half lies behind the tree. -/
lemma offset_right_root (hL : L < maxLevel) : offset (2 * root L + 2) = 2 ^ (31 - (L + 1)) := by
  have hlevel : level (root L) < maxAllocLog2 := by
    rw [level_root]
    exact hL.trans_le maxLevel_le
  rw [offset, start_right hlevel, start_root, Nat.zero_add, size, level_left, level_root]
  rfl

lemma Represents.growUsedRoot_eq (h : Represents s st) (hL : s.bucketLimit = L + 1) :
    ∃ (m : UInt32) (bits : ℕ → UInt8),
      s.growUsedRoot (root (L + 1)) = (true, { s with
        maxPtr := m
        heapEnd := m
        mem := listInit (listPush s.mem (s.image.bucket (L + 1)) (addr (2 * root L + 2)))
          (s.image.bucket L)
        bucketLimit := L
        nodeIsSplit := bits }) ∧
      s.maxPtr.toNat ≤ m.toNat ∧ (addr (2 * root L + 2) + 8).toNat ≤ m.toNat ∧
      ∀ j, Heap.isSplit { s with nodeIsSplit := bits } j =
        (s.isSplit j ^^ decide (2 * j + 1 = root L)) := by
  have hsucc := root_succ L
  have hpar : (root (L + 1) - 1) / 2 = root L := by omega
  have hright : s.ptrForNode (root (L + 1) + 1) s.bucketLimit = addr (2 * root L + 2) := by
    rw [hsucc, hL]
    exact Heap.ptrForNode_addr h.base ((level_right _).trans (by rw [level_root]))
  obtain ⟨m, hm, hle, hnew⟩ := Heap.updateMaxPtr_spec h.top (addr (2 * root L + 2) + sizeofListT)
  obtain ⟨bits, hbits, hflag⟩ := flip_unless_spec { s with
    maxPtr := m
    heapEnd := m
    mem := listInit (listPush s.mem (s.image.bucket (L + 1)) (addr (2 * root L + 2))) (s.image.bucket L)
    bucketLimit := L } (root L)
  refine ⟨m, bits, ?_, hle, hnew, fun j => ?_⟩
  · unfold Heap.growUsedRoot
    dsimp only
    rw [hright, hm, if_neg (not_not.mpr rfl), hpar]
    rw [← hbits]
    dsimp only [Heap.bucket]
    rw [hL]
    rfl
  · have hodd := root_ne_right L j
    have habove : decide (root L = 2 * j + 1 ∨ root L = 2 * j + 2) = decide (2 * j + 1 = root L) :=
      decide_eq_decide.mpr (by omega)
    rw [← habove]
    exact hflag j

/-- **A root in use doubles.** -/
lemma Represents.growUsedRoot (h : Represents s st) (hL : s.bucketLimit = L + 1)
    (hused : st (root (L + 1)) ≠ free) :
    (s.growUsedRoot (root (L + 1))).1 = true ∧
      Represents (s.growUsedRoot (root (L + 1))).2 (growUsed L st) ∧
      (s.growUsedRoot (root (L + 1))).2.bucketLimit = L ∧
      Keeps s.mem st none (s.growUsedRoot (root (L + 1))).2.mem (growUsed L st) none := by
  have htree := hL ▸ h.tree
  have hLmax : L < maxLevel := htree.root_le
  have hlevel : level (2 * root L + 2) = L + 1 := by rw [level_right, level_root]
  have hright : level (2 * root L + 2) ≤ maxLevel := by omega
  obtain ⟨m, bits, heq, hle, hnew, hflag⟩ := h.growUsedRoot_eq hL
  rw [toNat_addr_add_eight hright, ← toNat_addr hright] at hnew
  obtain ⟨nodes, hnodes⟩ := h.lists
  rw [hL] at hnodes
  -- what is in the tree ends before the new right half
  have hfront : ∀ j, st j ≠ absent → addr j ≠ addr (2 * root L + 2) := by
    intro j hj haddr
    rw [addr_inj (h.level_le hj) hright, offset_right_root hLmax] at haddr
    have hlt := htree.covers_root maxLevel_le j hj (covers_start maxAllocLog2 j)
    rw [← offset, haddr] at hlt
    exact lt_irrefl _ hlt
  rw [heq]
  refine ⟨rfl, ⟨h.base, htree.growUsed hused, fun i => ?_, ?_, fun i hi => ?_, rfl⟩, rfl, fun j => ?_,
    fun j hj _ => ?_⟩
  · rw [htree.flag_growUsed hused, ← hL, ← h.flags]
    exact hflag i
  · have hpush := hnodes.push hlevel le_rfl hLmax (fun j hj => hfront j (ne_absent_of_free hj))
      htree.growUsed_free_iff
    exact ⟨_, hpush.init hLmax.le⟩
  · rcases hi with hi | hi
    · rcases (htree.growUsed_free_iff i).mp hi with hi | rfl
      · exact (h.below i (Or.inl hi)).trans hle
      · exact hnew
    · exact (h.below i (Or.inr ((htree.growUsed_live_iff i).mp hi))).trans hle
  · rw [htree.growUsed_live_iff]
  · have hx := h.heapStart_le (ne_absent_of_live hj)
    have hcell := hnodes.push_cell ⟨le_rfl, hLmax⟩ hx (h.free_ne_live hj)
      (hfront j (ne_absent_of_live hj))
    exact (listInit_cell _ hLmax.le hx).trans hcell

/-! ## The loop -/

/-- **One round of the loop.** -/
lemma Represents.growTree (h : Represents s st) (hL : s.bucketLimit = L + 1) :
    s.growTree.1 = true ∧ s.growTree.2.bucketLimit = L ∧ ∃ st', Represents s.growTree.2 st' ∧
      Keeps s.mem st none s.growTree.2.mem st' none ∧
      (st (root (L + 1)) ≠ free → st' (2 * root L + 2) = free) := by
  have hroot := h.nodeForPtr_root
  have hsplit := h.parentIsSplit_root hL
  rw [hL] at hroot
  unfold Heap.growTree
  dsimp only
  rw [hL, hroot, hsplit]
  by_cases hfree : st (root (L + 1)) = free
  · obtain ⟨hrep, hlimit, hkeeps⟩ := h.growFreeRoot hL hfree
    rw [decide_eq_true hfree, if_pos (by decide)]
    exact ⟨rfl, hlimit, _, hrep, hkeeps, fun hused => absurd hfree hused⟩
  · obtain ⟨hok, hrep, hlimit, hkeeps⟩ := h.growUsedRoot hL hfree
    rw [decide_eq_false hfree, if_neg (by decide)]
    refine ⟨hok, hlimit, _, hrep, hkeeps, fun _ => ?_⟩
    have hne : 2 * root L + 2 ≠ root L := by omega
    rw [growUsed_apply, if_neg hne, if_pos rfl]

/-- **`lower_bucket_limit` grows the tree until the bucket is in it.** -/
theorem Represents.lowerBucketLimit (h : Represents s st) (bucket : ℕ) :
    (s.lowerBucketLimit bucket).1 = true ∧
      (s.lowerBucketLimit bucket).2.bucketLimit = min s.bucketLimit bucket ∧
      ∃ st', Represents (s.lowerBucketLimit bucket).2 st' ∧
        Keeps s.mem st none (s.lowerBucketLimit bucket).2.mem st' none := by
  obtain ⟨n, hn⟩ : ∃ n, s.bucketLimit = n := ⟨_, rfl⟩
  induction n generalizing s st with
  | zero =>
      have hle : s.bucketLimit ≤ bucket := by omega
      rw [Heap.lowerBucketLimit, dif_neg (not_lt.mpr hle)]
      exact ⟨rfl, (min_eq_left hle).symm, st, h, Keeps.refl _ _ _⟩
  | succ n ih =>
      rw [Heap.lowerBucketLimit]
      by_cases hlt : bucket < s.bucketLimit
      · obtain ⟨hok, hlimit, st₁, hrep, hkeeps, -⟩ := h.growTree hn
        obtain ⟨hok', hlimit', st', hrep', hkeeps'⟩ := ih hrep hlimit
        rw [dif_pos hlt, dif_pos hok]
        exact ⟨hok', by omega, st', hrep', hkeeps.trans hkeeps'⟩
      · rw [dif_neg hlt]
        exact ⟨rfl, (min_eq_left (not_lt.mp hlt)).symm, st, h, Keeps.refl _ _ _⟩

/-- Doubling a root that is not free leaves a free block of the old root's size. -/
lemma Represents.lowerBucketLimit_one (h : Represents s st) (hL : s.bucketLimit = L + 1)
    (hused : st (root (L + 1)) ≠ free) :
    (s.lowerBucketLimit L).1 = true ∧ (s.lowerBucketLimit L).2.bucketLimit = L ∧
      ∃ st', Represents (s.lowerBucketLimit L).2 st' ∧
        Keeps s.mem st none (s.lowerBucketLimit L).2.mem st' none ∧
        ∃ i, st' i = free ∧ level i = L + 1 := by
  obtain ⟨hok, hlimit, st', hrep, hkeeps, hright⟩ := h.growTree hL
  have hdone : s.growTree.2.lowerBucketLimit L = (true, s.growTree.2) := by
    rw [Heap.lowerBucketLimit, dif_neg (by omega)]
  rw [Heap.lowerBucketLimit, dif_pos (by omega), dif_pos hok, hdone]
  refine ⟨rfl, hlimit, st', hrep, hkeeps, 2 * root L + 2, hright hused, ?_⟩
  rw [level_right, level_root]

end GrubKernel
