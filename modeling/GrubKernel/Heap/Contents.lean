import GrubKernel.Heap.Requests

/-!
# The contents of granted blocks

The heap keeps the links of its lists in the free blocks, and a header at the start of each granted one.
This file shows that it writes nowhere else.

* `Spares` — memory inside the blocks in use, behind their headers, is as before.
* `Represents.splitDown_spares`, `Represents.mallocFrom_spares`, `Represents.mergeUp_spares` — the loops.
* `contents_of_malloc`, `contents_of_free` — one call.
* **`contents_kept`** — in every run, `malloc` and `free` leave all granted blocks but the freed one alone.
-/

namespace GrubKernel

open BuddyTree LinkRing Status RangeList

variable {s : Heap} {st : ℕ → Status} {allocs : List (UInt32 × UInt32)} {image : KernelImage}
  {request : UInt32} {i k p q L : ℕ} {x : UInt32}

/-! ## Inside a block -/

/-- The address lies in the block of a node, behind its start. -/
def Inside (k : ℕ) (x : UInt32) : Prop :=
  heapStart.toNat + offset k < x.toNat ∧ x.toNat < heapStart.toNat + offset k + size maxAllocLog2 k

/-- The address is not the start of a node in another block. -/
lemma Represents.inside_ne (h : Represents s st) (hk : st k = live) (hx : Inside k x) (hi : IsBlock st i)
    (hne : i ≠ k) {j : ℕ} (hj : level j ≤ maxLevel) (hcover : Covers maxAllocLog2 i (offset j)) :
    addr j ≠ x := by
  rintro rfl
  obtain ⟨hlo, hhi⟩ := hx
  rw [toNat_addr hj, toNat_heapStart] at hlo hhi
  have hcover' : Covers maxAllocLog2 k (offset j) := by
    rw [Covers, ← offset]
    omega
  exact hne (h.tree.block_unique maxLevel_le hi (Or.inr hk) hcover hcover')

/-- The address is not the start of a block. -/
lemma Represents.inside_ne_block (h : Represents s st) (hk : st k = live) (hx : Inside k x)
    (hi : IsBlock st i) : addr i ≠ x := by
  by_cases hne : i = k
  · rintro rfl
    obtain ⟨hlo, -⟩ := hx
    rw [hne, toNat_addr (h.level_le (ne_absent_of_live hk)), toNat_heapStart] at hlo
    exact lt_irrefl _ hlo
  · exact h.inside_ne hk hx hi hne (h.level_le hi.ne_absent) (covers_start _ _)

lemma Represents.inside_ne_free (h : Represents s st) (hk : st k = live) (hx : Inside k x) :
    ∀ j, st j = free → addr j ≠ x :=
  fun _ hj => h.inside_ne_block hk hx (Or.inl hj)

lemma Inside.heapStart_le (hx : Inside k x) : heapStart.toNat ≤ x.toNat :=
  le_trans (Nat.le_add_right _ _) hx.1.le

/-- Memory inside the blocks in use, but for the block `o`, is as before. -/
def Spares (mem : UInt32 → ListT) (st : ℕ → Status) (o : Option ℕ) (mem' : UInt32 → ListT) : Prop :=
  ∀ k x, st k = live → some k ≠ o → Inside k x → mem' x = mem x

lemma Spares.refl (mem : UInt32 → ListT) (st : ℕ → Status) (o : Option ℕ) : Spares mem st o mem :=
  fun _ _ _ _ _ => rfl

/-- Two steps, of which the first keeps the blocks in use. -/
lemma Spares.trans {m₁ m₂ m₃ : UInt32 → ListT} {t₁ t₂ : ℕ → Status} {o₁ o₂ : Option ℕ}
    (h : Spares m₁ t₁ o₁ m₂) (hkeeps : Keeps m₁ t₁ o₁ m₂ t₂ o₂) (h' : Spares m₂ t₂ o₂ m₃) :
    Spares m₁ t₁ o₁ m₃ := by
  intro k x hk hne hx
  obtain ⟨hk', hne'⟩ := (hkeeps.same k).mpr ⟨hk, hne⟩
  exact (h' k x hk' hne' hx).trans (h k x hk hne hx)

/-! ## Lists -/

/-- Taking a free block off its list. -/
lemma Represents.remove_spares (h : Represents s st) (hi : st i = free) (o : Option ℕ) :
    Spares s.mem st o (listRemove s.mem (addr i)) := by
  obtain ⟨nodes, hnodes⟩ := h.lists
  exact fun k x hk _ hx => hnodes.remove_cell hi hx.heapStart_le (h.inside_ne_free hk hx)

/-- Putting a node on a list that lies in no other block. -/
lemma Represents.push_spares (h : Represents s st) {b : ℕ} {e : UInt32} {o : Option ℕ}
    (hb : b ∈ Set.Icc s.bucketLimit maxLevel)
    (he : ∀ k x, st k = live → some k ≠ o → Inside k x → x ≠ e) :
    Spares s.mem st o (listPush s.mem (s.image.bucket b) e) := by
  obtain ⟨nodes, hnodes⟩ := h.lists
  exact fun k x hk hne hx =>
    hnodes.push_cell hb hx.heapStart_le (h.inside_ne_free hk hx) (he k x hk hne hx)

/-! ## Growing -/

/-- **One round of growing the tree.** -/
lemma Represents.growTree_spares (h : Represents s st) (hL : s.bucketLimit = L + 1) :
    Spares s.mem st none s.growTree.2.mem := by
  have hroot := h.nodeForPtr_root
  have hsplit := h.parentIsSplit_root hL
  rw [hL] at hroot
  unfold Heap.growTree
  dsimp only
  rw [hL, hroot, hsplit]
  by_cases hfree : st (root (L + 1)) = free
  · -- nothing is in use
    intro k x hk _ _
    rw [h.eq_root hL hfree (ne_absent_of_live hk), hfree] at hk
    exact absurd hk (by decide)
  · have htree := hL ▸ h.tree
    have hLmax : L < maxLevel := htree.root_le
    have hright : level (2 * root L + 2) ≤ maxLevel := by
      rw [level_right, level_root]
      exact hLmax
    obtain ⟨m, bits, heq, -⟩ := h.growUsedRoot_eq hL
    rw [decide_eq_false hfree, if_neg (by decide), heq]
    intro k x hk hne hx
    have hpush := h.push_spares (b := L + 1) (e := addr (2 * root L + 2)) (o := none)
      ⟨hL.le, hLmax⟩ (fun k x hk _ hx => ?_) k x hk hne hx
    · exact (listInit_cell _ hLmax.le hx.heapStart_le).trans hpush
    · -- the new half lies behind all blocks
      rintro rfl
      obtain ⟨hlo, hhi⟩ := hx
      rw [toNat_addr hright, toNat_heapStart, offset_right_root hLmax] at hlo hhi
      have hcover : Covers maxAllocLog2 k (2 ^ (31 - (L + 1))) := by
        rw [Covers, ← offset]
        omega
      exact lt_irrefl _ (htree.covers_root maxLevel_le k (ne_absent_of_live hk) hcover)

/-- **Growing the tree.** -/
lemma Represents.lowerBucketLimit_spares (h : Represents s st) (bucket : ℕ) :
    Spares s.mem st none (s.lowerBucketLimit bucket).2.mem := by
  obtain ⟨n, hn⟩ : ∃ n, s.bucketLimit = n := ⟨_, rfl⟩
  induction n generalizing s st with
  | zero =>
      rw [Heap.lowerBucketLimit, dif_neg (by omega)]
      exact Spares.refl _ _ _
  | succ n ih =>
      rw [Heap.lowerBucketLimit]
      by_cases hlt : bucket < s.bucketLimit
      · obtain ⟨hok, hlimit, st₁, hrep, hkeeps, -⟩ := h.growTree hn
        rw [dif_pos hlt, dif_pos hok]
        exact (h.growTree_spares hn).trans hkeeps (ih hrep hlimit)
      · rw [dif_neg hlt]
        exact Spares.refl _ _ _

/-! ## Allocating -/

/-- **The loop that splits a block** writes inside that block only. -/
lemma Represents.splitDown_spares (n : ℕ) : ∀ {s : Heap} {st : ℕ → Status} {i b : ℕ}, Represents s st →
    st i = live → level i = b → b + n ≤ maxLevel →
    (0 < n → (addr i).toNat + size maxAllocLog2 i / 2 + 8 ≤ s.maxPtr.toNat) →
    Spares s.mem st (some i) (s.splitDown n i b).mem := by
  induction n with
  | zero => exact fun _ _ _ _ _ => Spares.refl _ _ _
  | succ n ih =>
      intro s st i b h hi hb hn htop
      have hlevel : level i < maxLevel := by omega
      have hmax : level i < maxAllocLog2 := hlevel.trans_le maxLevel_le
      obtain ⟨-, hsize⟩ := size_half hmax
      have hright : level (2 * i + 2) ≤ maxLevel := by
        rw [level_right]
        exact hlevel
      have haddr : (addr (2 * i + 2)).toNat = (addr i).toNat + size maxAllocLog2 (2 * i + 1) := by
        rw [toNat_addr hright, toNat_addr hlevel.le, offset, offset, start_right hmax, Nat.add_assoc]
      have hroom := htop (Nat.succ_pos n)
      obtain ⟨h₁, hkeeps₁⟩ := h.halveBlock hi hlevel (by omega)
      have hleft : halve st i (2 * i + 1) = live := by
        have hne : 2 * i + 1 ≠ 2 * i + 2 := by omega
        rw [halve_apply, if_neg hne, if_pos rfl]
      have hlevels := h.tree.level_mem i (ne_absent_of_live hi)
      have hpush : Spares s.mem st (some i)
          (listPush s.mem (s.image.bucket (level i + 1)) (addr (2 * i + 2))) := by
        refine h.push_spares ⟨by omega, hlevel⟩ fun k x hk hne hx => ?_
        refine (h.inside_ne hk hx (Or.inr hi) (fun hik => hne (by rw [hik])) hright ?_).symm
        rw [covers_iff hmax]
        exact Or.inr (covers_start _ _)
      rw [h.splitDown_succ n hb]
      refine hpush.trans hkeeps₁ (ih h₁ hleft (by rw [level_left, hb]) (by omega) fun _ => ?_)
      show (addr (2 * i + 1)).toNat + _ + 8 ≤ s.maxPtr.toNat
      rw [addr_left hlevel]
      omega

/-- Writing the header of a block in use. -/
lemma Represents.header_spares (h : Represents s st) (hi : st i = live) (request : UInt32)
    (o : Option ℕ) : Spares s.mem st o (setPrev s.mem (addr i) request) :=
  fun _ _ hk _ hx => Function.update_of_ne (h.inside_ne_block hk hx (Or.inr hi)).symm _ _

/-- **Cutting a block to size.** -/
lemma Represents.place_spares (h : Represents s st) (hi : st i = free) (request : UInt32) {b orig : ℕ}
    (hb : level i = b) (hle : b ≤ orig) (horig : orig ≤ maxLevel) : Spares s.mem st none
      (Heap.place { s with mem := listRemove s.mem (addr i) } request orig b (addr i)).2.mem := by
  obtain ⟨t, hplace, hmem, hrep, hkeeps, hroom⟩ := h.place_eq hi request hb hle horig
  have hlive : toggle st i live i = live := by rw [toggle_apply, if_pos rfl]
  obtain ⟨st', i', hrep', hi', -, haddr, hkeeps'⟩ :=
    Represents.splitDown (orig - b) hrep hlive hb (by omega) hroom
  have hsplit := Represents.splitDown_spares (orig - b) hrep hlive hb (by omega) hroom
  have hremove : Spares s.mem st none t.mem := by
    rw [hmem]
    exact h.remove_spares hi none
  have hheader := hrep'.header_spares hi' request (some i')
  rw [haddr] at hheader
  rw [hplace]
  exact hremove.trans hkeeps (hsplit.trans hkeeps' hheader)

/-- **The loop that looks for a block.** -/
lemma Represents.mallocFrom_spares (h : Represents s st) (request : UInt32) {orig n : ℕ}
    (horig : orig ≤ maxLevel) (hn : n ≤ orig + 1) :
    Spares s.mem st none (s.mallocFrom request orig n).2.mem := by
  refine Represents.mallocFrom_rule request horig (P := fun s st r => Spares s.mem st none r.2.mem)
    (fun s st h => Spares.refl _ _ _) (fun s st bucket st' r h _ hkeeps hr => ?_)
    (fun s st i b h hi hb hle => h.place_spares hi request hb hle horig) n h hn
  exact (h.lowerBucketLimit_spares bucket).trans hkeeps hr

/-- **A call of `malloc`** leaves the blocks in use alone. -/
lemma Represents.malloc_spares (h : Represents s st) (request : UInt32) :
    Spares s.mem st none (s.malloc request).2.mem := by
  by_cases hr : request + headerSize > maxAlloc
  · rw [malloc_of_gt hr]
    exact Spares.refl _ _ _
  · have hbase : s.basePtr ≠ 0 := by
      rw [h.base]
      decide
    obtain ⟨hbucket, -⟩ := bucketForRequest_le hr
    rw [Heap.malloc, if_neg hr, if_neg hbase]
    exact h.mallocFrom_spares request hbucket le_rfl

/-! ## Releasing -/

/-- **The loop of `free`, and the push behind it.** -/
lemma Represents.mergeUp_spares : ∀ (i : ℕ) {s : Heap} {st : ℕ → Status} {b : ℕ}, Represents s st →
    st i = live → level i = b → ∀ {t : Heap} {j c : ℕ}, s.mergeUp i b = (t, j, c) →
    Spares s.mem st (some i) (listPush t.mem (t.bucket c) (t.ptrForNode j c)) := by
  intro i
  induction i using Nat.strong_induction_on with
  | _ i ih =>
      intro s st b h hi hb t j c hr
      rcases h.mergeUp_cases hi hb with ⟨-, hround⟩ | ⟨p, q, hpiq, hp, hq, hlt, hround⟩
      · have hlevels := h.tree.level_mem i (ne_absent_of_live hi)
        obtain ⟨bits, hbits, -⟩ := flip_unless_spec s i
        rw [hround, hbits, Prod.mk.injEq, Prod.mk.injEq] at hr
        have hptr : Heap.ptrForNode { s with nodeIsSplit := bits } i b = addr i :=
          Heap.ptrForNode_addr h.base hb
        rw [← hr.1, ← hr.2.1, ← hr.2.2, hptr, ← hb]
        exact h.push_spares hlevels fun k x hk hne hx => (h.inside_ne_block hk hx (Or.inr hi)).symm
      · obtain ⟨hrep, hkeeps⟩ := h.mergeBuddy hpiq hp hi hq
        obtain ⟨hlevel, -⟩ := hpiq.level
        have hlive : merge st p p = live := by rw [merge_apply, if_pos rfl]
        rw [hround] at hr
        exact (h.remove_spares hq (some i)).trans hkeeps (ih p hlt hrep hlive (b := b - 1) (by omega) hr)

/-- **A call of `free`** leaves the other blocks in use alone. -/
lemma Represents.free_spares (h : Represents s st) (hi : st i = live)
    (hb : level i = bucketForRequest ((s.mem (addr i)).prev + headerSize)) :
    Spares s.mem st (some i) (s.free (addr i + headerSize)).mem := by
  have hlevel : level i ≤ maxLevel := h.level_le (ne_absent_of_live hi)
  have hne := addr_add_header_ne_zero hlevel
  have hptr : addr i + headerSize - headerSize = addr i := UInt32.add_sub_cancel ..
  have hnode := Heap.nodeForPtr_addr h.base hlevel hb
  have hspares := Represents.mergeUp_spares i h hi hb rfl
  unfold Heap.free
  rw [if_neg hne]
  dsimp only
  rw [hptr, hnode]
  exact hspares

/-! ## Runs -/

/-- The block of a pointer is that of a node in use, and the node tells the pointers apart. -/
lemma Granted.inside (ho : Granted s.mem st allocs) (h : Represents s st) {e : UInt32 × UInt32}
    (he : e ∈ allocs) : ∃ k, st k = live ∧ e.1 = addr k + headerSize ∧
      level k = bucketForRequest ((s.mem (addr k)).prev + headerSize) ∧ ∀ x, InBlock e x → Inside k x := by
  obtain ⟨k, hk, hptr, hlevel, hhead⟩ := ho.block e he
  have hmax := h.level_le (ne_absent_of_live hk)
  refine ⟨k, hk, hptr, by rw [hhead, hlevel], fun x hx => ?_⟩
  obtain ⟨hlo, hhi⟩ := hx
  have hstart : e.1.toNat = heapStart.toNat + offset k + 8 := by
    rw [hptr, toNat_heapStart]
    exact toNat_addr_add_eight hmax
  have hspan : liveSpan e = nodeSpan k := by
    rw [liveSpan, hptr, UInt32.add_sub_cancel]
    exact blockSpan_addr hmax hlevel
  rw [hspan, nodeSpan] at hhi
  exact ⟨by omega, hhi⟩

/-- `malloc` leaves every granted block as it is. -/
lemma contents_of_malloc (h : HeapReach image s allocs) (request : UInt32) :
    ∀ e ∈ allocs, ∀ x, InBlock e x → (s.malloc request).2.mem x = s.mem x := by
  intro e he x hx
  rcases h.inv with ⟨mem, rfl, rfl⟩ | ⟨st, hrep, ho⟩
  · exact absurd he List.not_mem_nil
  · obtain ⟨k, hk, -, -, hin⟩ := ho.inside hrep he
    exact hrep.malloc_spares request k x hk (Option.some_ne_none k) (hin x hx)

/-- `free` leaves every other granted block as it is. -/
lemma contents_of_free (h : HeapReach image s allocs) {e : UInt32 × UInt32} (he : e ∈ allocs) :
    ∀ e' ∈ allocs, e'.1 ≠ e.1 → ∀ x, InBlock e' x → (s.free e.1).mem x = s.mem x := by
  intro e' he' hne x hx
  rcases h.inv with ⟨mem, rfl, rfl⟩ | ⟨st, hrep, ho⟩
  · exact absurd he List.not_mem_nil
  · obtain ⟨i, hi, hptr, hlevel, -⟩ := ho.inside hrep he
    obtain ⟨k, hk, hptr', -, hin⟩ := ho.inside hrep he'
    have hspares := hrep.free_spares hi hlevel
    rw [← hptr] at hspares
    refine hspares k x hk (fun hki => hne ?_) (hin x hx)
    rw [hptr, hptr', Option.some.inj hki]

/-- **What owners wrote stays.**  In every run, a call of `malloc` leaves every granted block as it is,
behind its header, and a call of `free` every one but the block that is freed. -/
theorem contents_kept (h : HeapReach image s allocs) :
    (∀ request, ∀ e ∈ allocs, ∀ x, InBlock e x → (s.malloc request).2.mem x = s.mem x) ∧
    ∀ e ∈ allocs, ∀ e' ∈ allocs, e'.1 ≠ e.1 → ∀ x, InBlock e' x → (s.free e.1).mem x = s.mem x :=
  ⟨fun request => contents_of_malloc h request, fun _ he => contents_of_free h he⟩

/-- A word that the owner of the first block wrote survives a second call. -/
theorem contents_kept_example :
    (Heap.malloc { (zeroedHeap.malloc 100).2 with
        mem := setPrev (zeroedHeap.malloc 100).2.mem 52428816 42 } 200).2.mem 52428816 = ⟨42, 0⟩ := by
  have hptr : (zeroedHeap.malloc 100).1 = 52428808 := by decide +kernel
  have hstart : HeapReach zeroedHeap.image zeroedHeap [] := HeapReach.start zeroedHeap.mem
  have hrun : HeapReach _ (zeroedHeap.malloc 100).2 _ := hstart.malloc
  rw [hptr, grant, if_neg (by decide)] at hrun
  have hin : InBlock (52428808, 100) 52428816 := ⟨by decide, by decide⟩
  have hwritten : HeapReach _ { (zeroedHeap.malloc 100).2 with
      mem := setPrev (zeroedHeap.malloc 100).2.mem 52428816 42 } _ := hrun.write fun a ha => by
    refine Function.update_of_ne (fun heq : a = 52428816 => ?_) _ _
    exact ha _ (List.mem_singleton_self _) (heq ▸ hin)
  rw [(contents_kept hwritten).1 200 _ (List.mem_singleton_self _) _ hin]
  decide +kernel

end GrubKernel
