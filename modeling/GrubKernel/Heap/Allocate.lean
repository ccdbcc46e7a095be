import GrubKernel.Bitmap.Frames
import GrubKernel.Heap.Grow

/-!
# Allocating a block

* `Represents.take`, `Represents.halveBlock` — a free block becomes one in use; one in use is halved.
* `Represents.splitDown`, `Represents.place` — the block that `malloc` found is cut to size.
* `MallocOutcome` — what a call of `malloc` may do: no block is lost, and the result is null or a new one.
* **`Represents.malloc_spec`, `malloc_start`** — every call has such an outcome.
-/

namespace GrubKernel

open BuddyTree LinkRing Status

variable {s : Heap} {st : ℕ → Status} {i : ℕ}

/-! ## Blocks -/

/-- **A free block is taken off its list** and its parent's bit flipped. -/
lemma Represents.take (h : Represents s st) (hi : st i = free) : ∃ bits : ℕ → UInt8,
    (if i ≠ 0 then Heap.flipParentIsSplit { s with mem := listRemove s.mem (addr i) } i
      else { s with mem := listRemove s.mem (addr i) }) =
        { s with mem := listRemove s.mem (addr i), nodeIsSplit := bits } ∧
      Represents { s with mem := listRemove s.mem (addr i), nodeIsSplit := bits } (toggle st i live) ∧
      Keeps s.mem st none (listRemove s.mem (addr i)) (toggle st i live) (some i) := by
  have hblock : IsBlock st i := Or.inl hi
  obtain ⟨bits, hbits, hflag⟩ := flip_unless_spec { s with mem := listRemove s.mem (addr i) } i
  obtain ⟨nodes, hnodes⟩ := h.lists
  refine ⟨bits, hbits, ⟨h.base, h.tree.toggle hblock (Or.inr rfl) (fun hbad => ?_), fun j => ?_,
    hnodes.remove hi fun j => toggle_live_free_iff i,
    fun j hj => h.below j (isBlock_of_toggle hblock hj), h.top⟩, fun j => ?_,
    fun j hj _ => ?_⟩
  · exact absurd hbad (by decide)
  · rw [h.tree.flag_toggle hblock (Or.inr rfl) (iff_of_false (by decide) (not_not.mpr hi)), ← h.flags]
    exact hflag j
  · rw [toggle_apply]
    split_ifs with hj
    · rw [hj, hi]
      simp
    · simp [hj]
  · exact hnodes.remove_cell hi (h.heapStart_le (ne_absent_of_live hj)) (h.free_ne_live hj)

/-- The right half of a block starts inside the block. -/
lemma Represents.right_ne (h : Represents s st) (hi : IsBlock st i) (hlevel : level i < maxLevel)
    {j : ℕ} (hj : IsBlock st j) : addr j ≠ addr (2 * i + 2) := by
  have hmax : level i < maxAllocLog2 := hlevel.trans_le maxLevel_le
  have hright : level (2 * i + 2) ≤ maxLevel := by
    rw [level_right]
    exact hlevel
  rw [ne_eq, addr_inj (h.level_le hj.ne_absent) hright]
  intro heq
  have hcover : Covers maxAllocLog2 i (offset j) := by
    rw [heq, covers_iff hmax]
    exact Or.inr (covers_start _ _)
  obtain rfl := h.tree.block_unique maxLevel_le hi hj hcover (covers_start maxAllocLog2 j)
  have hpos := size_pos maxAllocLog2 (2 * i + 1)
  rw [offset, offset, start_right hmax] at heq
  omega

/-- **A block in use is halved.** -/
lemma Represents.halveBlock (h : Represents s st) (hi : st i = live) (hlevel : level i < maxLevel)
    (htop : (addr (2 * i + 2)).toNat + 8 ≤ s.maxPtr.toNat) :
    Represents { s.flipParentIsSplit (2 * i + 1) with
        mem := listPush s.mem (s.image.bucket (level i + 1)) (addr (2 * i + 2)) } (halve st i) ∧
      Keeps s.mem st (some i) (listPush s.mem (s.image.bucket (level i + 1)) (addr (2 * i + 2)))
        (halve st i) (some (2 * i + 1)) := by
  have hblock : IsBlock st i := Or.inr hi
  have hlevels := h.tree.level_mem i hblock.ne_absent
  have hlive : ∀ j, halve st i j = live ∧ some j ≠ some (2 * i + 1) ↔
      st j = live ∧ some j ≠ some i := by
    intro j
    rw [ne_eq, ne_eq, Option.some_inj, Option.some_inj]
    exact h.tree.halve_live_iff hi j
  obtain ⟨nodes, hnodes⟩ := h.lists
  refine ⟨⟨h.base, h.tree.halve hi hlevel, fun j => ?_, ⟨_, hnodes.push (level_right i) (by omega) hlevel
    (fun j hj => h.right_ne hblock hlevel (Or.inl hj)) (h.tree.halve_free_iff hi)⟩, fun j hj => ?_, h.top⟩, hlive,
    fun j hj _ => ?_⟩
  · have hpar : (2 * i + 1 - 1) / 2 = i := by omega
    have hflip := Heap.isSplit_flip s (2 * i + 1) j
    rw [hpar] at hflip
    show (s.flipParentIsSplit (2 * i + 1)).isSplit j = flag s.bucketLimit (halve st i) j
    rw [h.tree.flag_halve hi, ← h.flags]
    exact hflip
  · by_cases h₁ : j = 2 * i + 1
    · rw [h₁, addr_left hlevel]
      exact h.below i hblock
    · rcases hj with hj | hj
      · rcases (h.tree.halve_free_iff hi j).mp hj with hj | rfl
        · exact h.below j (Or.inl hj)
        · exact htop
      · have hold := (hlive j).mp ⟨hj, by simp [h₁]⟩
        exact h.below j (Or.inr hold.1)
  · exact hnodes.push_cell ⟨by omega, hlevel⟩ (h.heapStart_le (ne_absent_of_live hj)) (h.free_ne_live hj)
      (h.right_ne hblock hlevel (Or.inr hj))

/-- Writes that spare the lists keep the invariant. -/
lemma Represents.write (h : Represents s st) {mem : UInt32 → ListT}
    (hmem : ∀ x, x.toNat < heapStart.toNat ∨ (∃ j, st j = free ∧ x = addr j) → mem x = s.mem x) :
    Represents { s with mem := mem } st := by
  obtain ⟨nodes, hnodes⟩ := h.lists
  exact ⟨h.base, h.tree, h.flags, ⟨nodes, hnodes.congr hmem⟩, h.below, h.top⟩

/-- **Writing the header** of a block in use. -/
lemma Represents.header (h : Represents s st) (hi : st i = live) (request : UInt32) :
    Represents { s with mem := setPrev s.mem (addr i) request } st ∧
      Keeps s.mem st (some i) (setPrev s.mem (addr i) request) st (some i) := by
  have hoff : ∀ x, x ≠ addr i → setPrev s.mem (addr i) request x = s.mem x :=
    fun x hx => Function.update_of_ne hx _ _
  refine ⟨h.write fun x hx => hoff x ?_, fun j => Iff.rfl, fun j hj hne => hoff _ ?_⟩
  · rcases hx with hx | ⟨j, hj, rfl⟩
    · rintro rfl
      have hle := h.heapStart_le (ne_absent_of_live hi)
      omega
    · exact h.free_ne_live hi j hj
  · refine h.addr_ne (Or.inr hj) (Or.inr hi) ?_
    rintro rfl
    exact hne rfl

/-! ## Splitting -/

/-- One round of the loop that splits a block. -/
lemma Represents.splitDown_succ (h : Represents s st) (n : ℕ) {b : ℕ} (hb : level i = b) :
    s.splitDown (n + 1) i b = Heap.splitDown { s.flipParentIsSplit (2 * i + 1) with
      mem := listPush s.mem (s.image.bucket (level i + 1)) (addr (2 * i + 2)) } n (2 * i + 1) (b + 1) := by
  have hptr : (s.flipParentIsSplit (2 * i + 1)).ptrForNode (2 * i + 1 + 1) (b + 1) =
      addr (2 * i + 2) := Heap.ptrForNode_addr h.base (by rw [level_right, hb])
  rw [Heap.splitDown, Nat.mul_comm i 2]
  dsimp only
  rw [hptr, hb]
  rfl

/-- **The loop that splits a block** leaves a block of the size asked for at the same address. -/
lemma Represents.splitDown (n : ℕ) : ∀ {s : Heap} {st : ℕ → Status} {i b : ℕ}, Represents s st →
    st i = live → level i = b → b + n ≤ maxLevel →
    (0 < n → (addr i).toNat + size maxAllocLog2 i / 2 + 8 ≤ s.maxPtr.toNat) →
    ∃ st' i', Represents (s.splitDown n i b) st' ∧ st' i' = live ∧ level i' = b + n ∧ addr i' = addr i ∧
      Keeps s.mem st (some i) (s.splitDown n i b).mem st' (some i') := by
  induction n with
  | zero =>
      intro s st i b h hi hb _ _
      exact ⟨st, i, h, hi, hb, rfl, Keeps.refl _ _ _⟩
  | succ n ih =>
      intro s st i b h hi hb hn htop
      have hlevel : level i < maxLevel := by omega
      have hmax : level i < maxAllocLog2 := hlevel.trans_le maxLevel_le
      obtain ⟨-, hsize⟩ := size_half hmax
      have haddr : (addr (2 * i + 2)).toNat = (addr i).toNat + size maxAllocLog2 (2 * i + 1) := by
        rw [toNat_addr (by rw [level_right]; omega), toNat_addr hlevel.le, offset, offset,
          start_right hmax, Nat.add_assoc]
      have hroom := htop (Nat.succ_pos n)
      obtain ⟨h₁, hkeeps₁⟩ := h.halveBlock hi hlevel (by omega)
      have hleft : halve st i (2 * i + 1) = live := by
        have hne : 2 * i + 1 ≠ 2 * i + 2 := by omega
        rw [halve_apply, if_neg hne, if_pos rfl]
      have hleftLevel : level (2 * i + 1) = b + 1 := by rw [level_left, hb]
      have hleftAddr := addr_left hlevel
      obtain ⟨st', i', h', hi', hb', haddr', hkeeps'⟩ := ih h₁ hleft hleftLevel (by omega) fun _ => by
        show (addr (2 * i + 1)).toNat + _ + 8 ≤ s.maxPtr.toNat
        rw [hleftAddr]
        omega
      rw [h.splitDown_succ n hb]
      exact ⟨st', i', h', hi', by omega, haddr'.trans hleftAddr, hkeeps₁.trans hkeeps'⟩

/-! ## The outcome of a call -/

/-- From memory `mem` and blocks `st` a call granted nothing, or a block at level `b` with the request in
its header.  All other blocks in use are as before. -/
def MallocOutcome (mem : UInt32 → ListT) (st : ℕ → Status) (request : UInt32) (b : ℕ)
    (r : UInt32 × Heap) : Prop :=
  (r.1 = 0 ∧ ∃ st', Represents r.2 st' ∧ Keeps mem st none r.2.mem st' none) ∨
    ∃ st' i, r.1 = addr i + headerSize ∧ Represents r.2 st' ∧ st' i = live ∧ level i = b ∧
      (r.2.mem (addr i)).prev = request ∧ Keeps mem st none r.2.mem st' (some i)

lemma MallocOutcome.after {mem mem₁ : UInt32 → ListT} {st₁ : ℕ → Status} {request : UInt32} {b : ℕ}
    {r : UInt32 × Heap} (h : MallocOutcome mem₁ st₁ request b r)
    (hkeeps : Keeps mem st none mem₁ st₁ none) : MallocOutcome mem st request b r := by
  rcases h with ⟨hnull, st', hrep, hkeeps'⟩ | ⟨st', i, hptr, hrep, hi, hb, hhead, hkeeps'⟩
  · exact Or.inl ⟨hnull, st', hrep, hkeeps.trans hkeeps'⟩
  · exact Or.inr ⟨st', i, hptr, hrep, hi, hb, hhead, hkeeps.trans hkeeps'⟩

/-- What a node that is to be split needs: its left half and the links at the start of the right one. -/
lemma toNat_bytesNeeded {b : ℕ} (hb : b < maxLevel) :
    ((1 : UInt32) <<< UInt32.ofNat (maxAllocLog2 - b) / 2 + sizeofListT).toNat =
      2 ^ (maxAllocLog2 - b) / 2 + 8 := by
  have hb' : b < 27 := hb
  have hexp : maxAllocLog2 - b < 32 := by
    unfold maxAllocLog2
    omega
  have hle : 2 ^ (maxAllocLog2 - b) ≤ 2 ^ 31 := Nat.pow_le_pow_right (by decide) (by omega)
  have htwo : (2 : UInt32).toNat = 2 := rfl
  have height : sizeofListT.toNat = 8 := rfl
  rw [UInt32.toNat_add, UInt32.toNat_div, Bitmap.toNat_one_shiftLeft hexp, htwo, height]
  exact Nat.mod_eq_of_lt (lt_of_le_of_lt (Nat.add_le_add_right (Nat.div_le_div_right hle) 8) (by decide))

/-- The block that was found becomes one in use, and is split below a break that was raised for it. -/
lemma Represents.place_eq (h : Represents s st) (hi : st i = free) (request : UInt32) {b orig : ℕ}
    (hb : level i = b) (hle : b ≤ orig) (horig : orig ≤ maxLevel) : ∃ t : Heap,
    Heap.place { s with mem := listRemove s.mem (addr i) } request orig b (addr i) =
      (addr i + headerSize, { t.splitDown (orig - b) i b with
        mem := setPrev (t.splitDown (orig - b) i b).mem (addr i) request }) ∧
    t.mem = listRemove s.mem (addr i) ∧ Represents t (toggle st i live) ∧
    Keeps s.mem st none t.mem (toggle st i live) (some i) ∧
    (0 < orig - b → (addr i).toNat + size maxAllocLog2 i / 2 + 8 ≤ t.maxPtr.toNat) := by
  have hmax : level i ≤ maxLevel := by omega
  have hsize : size maxAllocLog2 i = 2 ^ (maxAllocLog2 - b) := by rw [size, hb]
  obtain ⟨bytesNeeded, hbytes⟩ : ∃ bytesNeeded : UInt32, (if b < orig then
      (1 : UInt32) <<< UInt32.ofNat (maxAllocLog2 - b) / 2 + sizeofListT
    else (1 : UInt32) <<< UInt32.ofNat (maxAllocLog2 - b)) = bytesNeeded := ⟨_, rfl⟩
  obtain ⟨m, hm, hold, hnew⟩ := Heap.updateMaxPtr_spec
    (show Heap.maxPtr { s with mem := listRemove s.mem (addr i) } = s.heapEnd from h.top)
    (addr i + bytesNeeded)
  have hraise := h.raise (m := m) hold
  obtain ⟨bits, hbits, hrep, hkeeps⟩ := hraise.take hi
  have hnode : Heap.nodeForPtr { s with mem := listRemove s.mem (addr i), maxPtr := m, heapEnd := m }
      (addr i) b = i := Heap.nodeForPtr_addr h.base hmax hb
  refine ⟨_, ?_, rfl, hrep, hkeeps, fun hpos => ?_⟩
  · unfold Heap.place
    dsimp only
    rw [hbytes, hm, if_neg (not_not.mpr rfl)]
    dsimp only
    rw [hnode, hbits]
  · have hlt : b < orig := by omega
    have hneed := toNat_bytesNeeded (show b < maxLevel by omega)
    have hsixteen := sixteen_le_size hmax
    rw [if_pos hlt] at hbytes
    rw [hbytes] at hneed
    rw [← hsize] at hneed
    rw [toNat_addr_add hmax (by omega), hneed, ← toNat_addr hmax] at hnew
    show (addr i).toNat + size maxAllocLog2 i / 2 + 8 ≤ m.toNat
    omega

/-- **The block that was found** is cut to the size of the request. -/
lemma Represents.place (h : Represents s st) (hi : st i = free) {request : UInt32} {b orig : ℕ}
    (hb : level i = b) (hle : b ≤ orig) (horig : orig ≤ maxLevel) :
    MallocOutcome s.mem st request orig
      (Heap.place { s with mem := listRemove s.mem (addr i) } request orig b (addr i)) := by
  obtain ⟨t, hplace, -, hrep, hkeeps, hroom⟩ := h.place_eq hi request hb hle horig
  have hlive : toggle st i live i = live := by rw [toggle_apply, if_pos rfl]
  obtain ⟨st', i', hrep', hi', hb', haddr, hkeeps'⟩ :=
    Represents.splitDown (orig - b) hrep hlive hb (by omega) hroom
  obtain ⟨hrep'', hkeeps''⟩ := hrep'.header hi' request
  rw [hplace]
  refine Or.inr ⟨st', i', ?_, ?_, hi', by omega, ?_, ?_⟩
  · rw [haddr]
  · rw [haddr] at hrep''
    exact hrep''
  · rw [haddr, setPrev_prev, if_pos rfl]
  · rw [haddr] at hkeeps''
    exact (hkeeps.trans hkeeps').trans hkeeps''

/-! ## The search -/

/-- **How to reason about the loop that looks for a block**: it gives up, grows the tree, or cuts a free
block to size. -/
lemma Represents.mallocFrom_rule (request : UInt32) {orig : ℕ} (horig : orig ≤ maxLevel)
    {P : Heap → (ℕ → Status) → UInt32 × Heap → Prop}
    (hnone : ∀ s st, Represents s st → P s st (0, s))
    (hgrow : ∀ s st bucket st' r, Represents s st → Represents (s.lowerBucketLimit bucket).2 st' →
      Keeps s.mem st none (s.lowerBucketLimit bucket).2.mem st' none →
      P (s.lowerBucketLimit bucket).2 st' r → P s st r)
    (hplace : ∀ s st i b, Represents s st → st i = free → level i = b → b ≤ orig →
      P s st (Heap.place { s with mem := listRemove s.mem (addr i) } request orig b (addr i)))
    (n : ℕ) : ∀ {s : Heap} {st : ℕ → Status}, Represents s st → n ≤ orig + 1 →
      P s st (s.mallocFrom request orig n) := by
  induction n with
  | zero => exact fun h _ => hnone _ _ h
  | succ b ih =>
      intro s st h hb
      obtain ⟨hok, hlimit, st₁, h₁, hkeeps₁⟩ := h.lowerBucketLimit b
      rw [Heap.mallocFrom]
      dsimp only
      rw [if_neg (not_not.mpr hok)]
      refine hgrow s st b st₁ _ h h₁ hkeeps₁ ?_
      generalize (s.lowerBucketLimit b).2 = s₁ at h₁ hlimit ⊢
      have hlo : s₁.bucketLimit ≤ b := hlimit.trans_le (min_le_right _ _)
      rcases h₁.pop hlo (by omega) with ⟨hpop, hempty⟩ | ⟨i, hi, hlevel, hpop⟩
      · rw [hpop, if_pos rfl]
        by_cases hmore : b ≠ s₁.bucketLimit ∨ b = 0
        · rw [if_pos hmore]
          exact ih h₁ (by omega)
        · -- the root has the size asked for and is in use, so doubling it makes a free block
          rw [not_or, not_not] at hmore
          obtain ⟨L, rfl⟩ : ∃ L, b = L + 1 := Nat.exists_eq_succ_of_ne_zero hmore.2
          have hused : st₁ (root (L + 1)) ≠ free := fun hfree => hempty _ hfree (level_root _)
          obtain ⟨hok₂, hlimit₂, st₂, h₂, hkeeps₂, j, hj, hjlevel⟩ :=
            h₁.lowerBucketLimit_one hmore.1.symm hused
          have hstop : ¬ (L + 1 ≠ s₁.bucketLimit ∨ L + 1 = 0) := by omega
          rw [if_neg hstop, Nat.add_sub_cancel, if_neg (not_not.mpr hok₂)]
          refine hgrow s₁ st₁ L st₂ _ h₁ h₂ hkeeps₂ ?_
          generalize (s₁.lowerBucketLimit L).2 = s₂ at h₂ hlimit₂ ⊢
          rcases h₂.pop (b := L + 1) (by omega) (by omega) with ⟨-, hempty₂⟩ | ⟨i, hi, hlevel, hpop₂⟩
          · exact absurd hjlevel (hempty₂ j hj)
          · rw [hpop₂]
            exact hplace s₂ st₂ i (L + 1) h₂ hi hlevel (by omega)
      · have hne : addr i ≠ 0 := addr_ne_zero (by omega)
        rw [hpop, if_neg hne]
        exact hplace s₁ st₁ i b h₁ hi hlevel (by omega)

/-- **The loop that looks for a block.** -/
lemma Represents.mallocFrom (request : UInt32) {orig : ℕ} (horig : orig ≤ maxLevel) (n : ℕ) :
    ∀ {s : Heap} {st : ℕ → Status}, Represents s st → n ≤ orig + 1 →
      MallocOutcome s.mem st request orig (s.mallocFrom request orig n) := by
  refine Represents.mallocFrom_rule request horig (P := fun s st r => MallocOutcome s.mem st request orig r)
    (fun s st h => Or.inl ⟨rfl, st, h, Keeps.refl _ _ _⟩) (fun s st bucket st' r _ _ hkeeps h => h.after hkeeps)
    (fun s st i b h hi hb hle => h.place hi hb hle horig) n

/-- **Once the tree is there**, a call whose size passes the check has one of the two outcomes. -/
theorem Represents.malloc_spec (h : Represents s st) {request : UInt32}
    (hr : ¬ request + headerSize > maxAlloc) :
    MallocOutcome s.mem st request (bucketForRequest (request + headerSize)) (s.malloc request) := by
  have hbase : s.basePtr ≠ 0 := by
    rw [h.base]
    decide
  obtain ⟨hbucket, -⟩ := bucketForRequest_le hr
  unfold Heap.malloc
  dsimp only
  rw [if_neg hr, if_neg hbase]
  exact Represents.mallocFrom request hbucket _ h le_rfl

/-! ## The first call -/

/-- The tree of the first call: one free block of the smallest size. -/
def firstTree : ℕ → Status := Function.update (fun _ => absent) (root maxLevel) free

lemma firstTree_apply (i : ℕ) : firstTree i = if i = root maxLevel then free else absent :=
  Function.update_apply ..

lemma tree_firstTree : Tree maxLevel maxLevel firstTree := by
  have hsplit : ∀ i, firstTree i ≠ split := by
    intro i
    rw [firstTree_apply]
    split_ifs
    · decide
    · decide
  refine ⟨le_rfl, ?_, fun i hi => Or.inl ?_, fun i hi => absurd hi (hsplit i),
    fun i hi => absurd hi (hsplit i), fun i hi => absurd hi (hsplit i), fun i hi => absurd hi (hsplit i)⟩
  · rw [firstTree_apply, if_pos rfl]
    decide
  · rw [firstTree_apply] at hi
    split_ifs at hi with heq
    · exact heq
    · exact absurd rfl hi

/-- **The initialization** makes a tree of one free block. -/
lemma represents_initHeap (image : KernelImage) (mem : UInt32 → ListT) :
    Represents (Heap.start image mem).initHeap firstTree := by
  have hlists : FreeLists image mem (maxLevel + 1) (fun _ => absent) fun _ => [] := by
    have hnone : ∀ b, b ∉ Set.Icc (maxLevel + 1) maxLevel := by
      rintro b ⟨hlo, hhi⟩
      omega
    refine ⟨⟨fun b hb => absurd hb (hnone b), fun b hb => absurd hb (hnone b),
      fun b hb => absurd hb (hnone b)⟩, fun b i => ?_, fun i hi => absurd hi (by decide)⟩
    exact iff_of_false List.not_mem_nil fun hi => absurd hi.1 (by decide)
  have hfree : ∀ j, firstTree j = free ↔ absent = free ∨ j = root maxLevel := by
    intro j
    rw [firstTree_apply]
    split_ifs with hj
    · simp [hj]
    · simp [hj]
  have hfirst := (hlists.init le_rfl).push (level_root maxLevel) le_rfl le_rfl
    (fun j hj => absurd hj (by decide)) hfree
  rw [addr_root] at hfirst
  obtain ⟨m, hm, hold, hnew⟩ := Heap.updateMaxPtr_spec (s := { Heap.start image mem with
    basePtr := heapStart, maxPtr := heapStart, bucketLimit := bucketCount - 1 }) rfl
    (heapStart + sizeofListT)
  have hinit : (Heap.start image mem).initHeap = { Heap.start image mem with
      basePtr := heapStart
      maxPtr := m
      heapEnd := m
      bucketLimit := bucketCount - 1
      mem := listPush (listInit mem (image.bucket maxLevel)) (image.bucket maxLevel) heapStart } := by
    have hbrk : heapStart + 4 * 0 = heapStart := by decide
    unfold Heap.initHeap Heap.sbrk
    dsimp only [Heap.start] at hm ⊢
    rw [hbrk, hm]
    rfl
  rw [hinit]
  refine ⟨rfl, tree_firstTree, fun i => ?_, ⟨_, hfirst⟩, fun i hi => ?_, rfl⟩
  · have hbit : Heap.isSplit (Heap.start image mem) i = false := by
      rw [Heap.isSplit_iff]
      exact Nat.zero_testBit _
    have hnot : firstTree i ≠ split := by
      rw [firstTree_apply]
      split_ifs
      · decide
      · decide
    have hroot : firstTree (root maxLevel) = free := by
      rw [firstTree_apply, if_pos rfl]
    show Heap.isSplit (Heap.start image mem) i = flag maxLevel firstTree i
    rw [hbit, flag, if_neg hnot, decide_eq_true hroot, Bool.not_true, Bool.and_false]
  · have hroot : i = root maxLevel := by
      by_contra hne
      have habsent := hi.ne_absent
      rw [firstTree_apply, if_neg hne] at habsent
      exact habsent rfl
    rw [hroot, addr_root]
    exact hnew

/-- **The first call** starts the tree. -/
theorem malloc_start (image : KernelImage) (mem : UInt32 → ListT) {request : UInt32}
    (hr : ¬ request + headerSize > maxAlloc) :
    (Heap.start image mem).malloc request = (Heap.start image mem).initHeap.malloc request := by
  have hbase := (represents_initHeap image mem).base
  have hne : (Heap.start image mem).initHeap.basePtr ≠ 0 := by
    rw [hbase]
    decide
  have hnull : (Heap.start image mem).basePtr = 0 := rfl
  unfold Heap.malloc
  rw [if_neg hr, if_neg hr, if_pos hnull, if_neg hne]

end GrubKernel
