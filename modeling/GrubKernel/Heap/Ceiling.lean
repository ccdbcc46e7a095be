import GrubKernel.Heap.Requests

/-!
# The break stays above the blocks

`malloc` raises the program break before it hands out a block, and `free` never lowers it.

* `Heap.le_updateMaxPtr`, `Heap.le_lowerBucketLimit`, `Heap.maxPtr_mergeUp` — what the parts of `malloc` and
  `free` do to `max_ptr`.
* **`Represents.mallocFrom_below`** — the loop of `malloc` raises `max_ptr` above the block that it returns.
* **`granted_below_break`** — in every run all granted blocks lie below the break, and it never moves back.
-/

namespace GrubKernel

open BuddyTree LinkRing Status RangeList

variable {s : Heap} {st : ℕ → Status} {allocs : List (UInt32 × UInt32)} {image : KernelImage}
  {request : UInt32} {i : ℕ}

namespace Heap

/-! ## The parts of `malloc` and `free` -/

lemma le_updateMaxPtr (s : Heap) (newValue : UInt32) :
    s.maxPtr.toNat ≤ (s.updateMaxPtr newValue).2.maxPtr.toNat ∧
      newValue.toNat ≤ (s.updateMaxPtr newValue).2.maxPtr.toNat := by
  unfold updateMaxPtr
  by_cases hlt : newValue > s.maxPtr
  · rw [if_pos hlt]
    rw [gt_iff_lt, UInt32.lt_iff_toNat_lt] at hlt
    exact ⟨hlt.le, le_rfl⟩
  · rw [if_neg hlt]
    rw [gt_iff_lt, UInt32.lt_iff_toNat_lt] at hlt
    exact ⟨le_rfl, not_lt.mp hlt⟩

lemma le_growTree (s : Heap) : s.maxPtr.toNat ≤ s.growTree.2.maxPtr.toNat := by
  by_cases hsplit : s.parentIsSplit (s.nodeForPtr s.basePtr s.bucketLimit) = true
  · have hle := (s.le_updateMaxPtr
      (s.ptrForNode (s.nodeForPtr s.basePtr s.bucketLimit + 1) s.bucketLimit + sizeofListT)).1
    unfold growTree
    dsimp only
    rw [if_neg (not_not.mpr hsplit)]
    unfold growUsedRoot
    dsimp only
    split_ifs
    · exact hle
    · exact hle
    · exact hle
  · unfold growTree
    dsimp only
    rw [if_pos hsplit]
    exact le_rfl

/-- Growing the tree raises `max_ptr`. -/
lemma le_lowerBucketLimit (s : Heap) (bucket : ℕ) :
    s.maxPtr.toNat ≤ (s.lowerBucketLimit bucket).2.maxPtr.toNat := by
  fun_induction lowerBucketLimit s bucket with
  | case1 s hlt hok ih => exact s.le_growTree.trans ih
  | case2 s hlt hok => exact s.le_growTree
  | case3 s hlt => exact le_rfl

lemma maxPtr_splitDown (n : ℕ) : ∀ (s : Heap) (i bucket : ℕ), (s.splitDown n i bucket).maxPtr = s.maxPtr := by
  induction n with
  | zero => exact fun _ _ _ => rfl
  | succ n ih =>
      intro s i bucket
      rw [splitDown, ih]
      rfl

/-- Merging does not touch `max_ptr`. -/
lemma maxPtr_mergeUp (s : Heap) (i bucket : ℕ) : (s.mergeUp i bucket).1.maxPtr = s.maxPtr := by
  fun_induction mergeUp s i bucket with
  | case1 s bucket => rfl
  | case2 s i bucket hi t hstop => rfl
  | case3 s i bucket hi t hstop mem ih => exact ih

lemma maxPtr_free (s : Heap) (ptr : UInt32) : (s.free ptr).maxPtr = s.maxPtr := by
  unfold free
  dsimp only
  split_ifs
  · rfl
  · exact maxPtr_mergeUp s _ _

/-- Handing out a block raises `max_ptr` for what the block needs, and only for that. -/
lemma maxPtr_place (s : Heap) (request : UInt32) (originalBucket bucket : ℕ) (ptr : UInt32) :
    (s.place request originalBucket bucket ptr).2.maxPtr
      = (s.updateMaxPtr (ptr + if bucket < originalBucket then
          (1 : UInt32) <<< UInt32.ofNat (maxAllocLog2 - bucket) / 2 + sizeofListT
        else (1 : UInt32) <<< UInt32.ofNat (maxAllocLog2 - bucket))).2.maxPtr := by
  unfold place
  dsimp only
  generalize s.updateMaxPtr _ = r
  by_cases hok : r.1 = true
  · rw [if_neg (not_not.mpr hok)]
    dsimp only
    rw [maxPtr_splitDown]
    split_ifs
    · rfl
    · rfl
  · rw [if_pos hok]

end Heap

/-! ## `malloc` -/

/-- A call went from `s` to `r`: it did not lower `max_ptr`, and if it returned a block of bucket `orig`,
the block lies below `max_ptr`. -/
def Below (s : Heap) (orig : ℕ) (r : UInt32 × Heap) : Prop :=
  s.maxPtr.toNat ≤ r.2.maxPtr.toNat ∧
    (r.1 = 0 ∨ (blockSpan (r.1 - headerSize) orig).hi ≤ r.2.maxPtr.toNat)

/-- What happens before the call only raises `max_ptr`. -/
lemma Below.after {t : Heap} {orig : ℕ} {r : UInt32 × Heap} (h : Below t orig r)
    (hle : s.maxPtr.toNat ≤ t.maxPtr.toNat) : Below s orig r :=
  ⟨hle.trans h.1, h.2⟩

/-- **A block that was found** lies below `max_ptr` once it is handed out. -/
lemma Heap.place_below (htop : s.maxPtr = s.heapEnd) (hi : level i ≤ maxLevel) {b orig : ℕ}
    (hb : level i = b) (hle : b ≤ orig) (horig : orig ≤ maxLevel) (request : UInt32) :
    Below s orig (s.place request orig b (addr i)) := by
  have hb' : b ≤ 27 := hb ▸ hi
  have hsize : size maxAllocLog2 i = 2 ^ (maxAllocLog2 - b) := by rw [size, hb]
  have hsixteen := sixteen_le_size hi
  obtain ⟨hold, hnew⟩ := s.le_updateMaxPtr (addr i + if b < orig then
      (1 : UInt32) <<< UInt32.ofNat (maxAllocLog2 - b) / 2 + sizeofListT
    else (1 : UInt32) <<< UInt32.ofNat (maxAllocLog2 - b))
  rw [Below, s.maxPtr_place]
  refine ⟨hold, Or.inr (le_trans ?_ hnew)⟩
  rw [Heap.place_fst htop, UInt32.add_sub_cancel, blockSpan]
  dsimp only
  by_cases hlt : b < orig
  · -- the block is cut: it lies in the left half
    have hneed := toNat_bytesNeeded (show b < maxLevel from lt_of_lt_of_le hlt horig)
    have hhalf : 2 ^ (maxAllocLog2 - orig) ≤ 2 ^ (maxAllocLog2 - b) / 2 := by
      rw [Nat.le_div_iff_mul_le (by decide), ← pow_succ]
      refine Nat.pow_le_pow_right (by decide) ?_
      rw [show maxAllocLog2 = 31 from rfl]
      omega
    rw [if_pos hlt, toNat_addr_add hi (by omega), ← toNat_addr hi]
    omega
  · obtain rfl : b = orig := by omega
    have hfull : ((1 : UInt32) <<< UInt32.ofNat (maxAllocLog2 - b)).toNat = 2 ^ (maxAllocLog2 - b) :=
      Bitmap.toNat_one_shiftLeft (by rw [show maxAllocLog2 = 31 from rfl]; omega)
    rw [if_neg hlt, toNat_addr_add hi (by omega), hfull, toNat_addr hi]

/-- **The search** raises `max_ptr` above the block that it returns. -/
lemma Represents.mallocFrom_below (h : Represents s st) (request : UInt32) {orig n : ℕ}
    (horig : orig ≤ maxLevel) (hn : n ≤ orig + 1) : Below s orig (s.mallocFrom request orig n) := by
  refine Represents.mallocFrom_rule request horig (P := fun s _ r => Below s orig r)
    (fun s st h => ⟨le_rfl, Or.inl rfl⟩)
    (fun s st bucket st' r _ _ _ h => h.after (s.le_lowerBucketLimit bucket))
    (fun s st i b h hi hb hle => ?_) n h hn
  exact Heap.place_below (s := { s with mem := listRemove s.mem (addr i) }) h.top
    (h.level_le (ne_absent_of_free hi)) hb hle horig request

/-- **A call whose size passes the check** raises `max_ptr` above the block that it returns. -/
lemma Represents.malloc_below (h : Represents s st) (hr : ¬ request + headerSize > maxAlloc) :
    Below s (bucketForRequest (request + headerSize)) (s.malloc request) := by
  have hbase : s.basePtr ≠ 0 := by
    rw [h.base]
    decide
  obtain ⟨hbucket, -⟩ := bucketForRequest_le hr
  rw [Heap.malloc, if_neg hr, if_neg hbase]
  exact h.mallocFrom_below request hbucket le_rfl

/-! ## Runs -/

/-- All granted blocks lie below `max_ptr`. -/
def AllBelow (s : Heap) (allocs : List (UInt32 × UInt32)) : Prop :=
  ∀ e ∈ allocs, (liveSpan e).hi ≤ s.maxPtr.toNat

/-- The blocks stay below when a call has raised `max_ptr` above its own. -/
lemma AllBelow.granted (h : AllBelow s allocs)
    (hbelow : Below s (bucketForRequest (request + headerSize)) (s.malloc request)) :
    AllBelow (s.malloc request).2 (grant (s.malloc request).1 request allocs) := by
  obtain ⟨hle, hnew⟩ := hbelow
  intro e he
  unfold grant at he
  split_ifs at he with hnull
  · exact (h e he).trans hle
  · rcases List.mem_cons.mp he with rfl | he
    · exact hnew.resolve_left hnull
    · exact (h e he).trans hle

/-- **In every run** the granted blocks lie below `max_ptr`. -/
lemma HeapReach.allBelow (h : HeapReach image s allocs) : AllBelow s allocs := by
  induction h with
  | start mem => exact fun e he => absurd he List.not_mem_nil
  | @malloc s allocs request h ih =>
      by_cases hr : request + headerSize > maxAlloc
      · rw [malloc_of_gt hr, grant, if_pos rfl]
        exact ih
      · rcases h.inv with ⟨mem, rfl, rfl⟩ | ⟨st, hrep, -⟩
        · have hfirst := (represents_initHeap image mem).malloc_below hr
          rw [malloc_start image mem hr]
          exact AllBelow.granted (fun e he => absurd he List.not_mem_nil) hfirst
        · exact ih.granted (hrep.malloc_below hr)
  | @free s allocs e h he ih =>
      intro e' he'
      rw [Heap.maxPtr_free]
      exact ih e' (List.mem_of_mem_erase he')
  | write h hmem ih => exact ih

/-- A block lies behind the start of the heap. -/
lemma Granted.heapStart_le (ho : Granted s.mem st allocs) (h : Represents s st) {e : UInt32 × UInt32}
    (he : e ∈ allocs) : heapStart.toNat ≤ (liveSpan e).lo := by
  obtain ⟨i, -, hspan, -, -⟩ := ho.block_spec h he
  rw [hspan, nodeSpan]
  exact Nat.le_add_right _ _

/-- **The break stays above the blocks.**  In every run all granted blocks lie between the start of the
heap and the program break; no call of `malloc`, whatever it returns, moves the break back; and `free` does
not move it. -/
theorem granted_below_break (h : HeapReach image s allocs) :
    (∀ e ∈ allocs, heapStart.toNat ≤ (liveSpan e).lo ∧ (liveSpan e).hi ≤ s.heapEnd.toNat) ∧
    (∀ request, s.heapEnd ≤ (s.malloc request).2.heapEnd) ∧
    ∀ e ∈ allocs, (s.free e.1).heapEnd = s.heapEnd := by
  have hbelow := h.allBelow
  rcases h.inv with ⟨mem, rfl, rfl⟩ | ⟨st, hrep, ho⟩
  · refine ⟨fun e he => absurd he List.not_mem_nil, fun request => ?_, fun e he => absurd he List.not_mem_nil⟩
    by_cases hr : request + headerSize > maxAlloc
    · rw [malloc_of_gt hr]
      exact UInt32.le_refl _
    · obtain ⟨st', hrep', -⟩ := h.inv.malloc_step hr
      have hinit := represents_initHeap image mem
      have hroot : IsBlock firstTree (root maxLevel) := Or.inl (by rw [firstTree_apply, if_pos rfl])
      have hfirst := hinit.below _ hroot
      have hraised := (hinit.malloc_below hr).1
      rw [addr_root] at hfirst
      rw [← malloc_start image mem hr] at hraised
      rw [UInt32.le_iff_toNat_le, ← hrep'.top]
      exact le_trans (Nat.le_of_add_right_le hfirst) hraised
  · refine ⟨fun e he => ⟨ho.heapStart_le hrep he, ?_⟩, fun request => ?_, fun e he => ?_⟩
    · rw [← hrep.top]
      exact hbelow e he
    · by_cases hr : request + headerSize > maxAlloc
      · rw [malloc_of_gt hr]
        exact UInt32.le_refl _
      · obtain ⟨st', hrep', -⟩ := ho.malloc_step hrep hr
        rw [UInt32.le_iff_toNat_le, ← hrep'.top, ← hrep.top]
        exact (hrep.malloc_below hr).1
    · obtain ⟨st', hrep', -⟩ := ho.free_step hrep he
      rw [← hrep'.top, ← hrep.top]
      exact s.maxPtr_free e.1

/-- The block of the first call for 100 bytes lies below the break. -/
theorem granted_below_break_example :
    (liveSpan (52428808, 100)).hi ≤ (zeroedHeap.malloc 100).2.heapEnd.toNat := by
  have hptr : (zeroedHeap.malloc 100).1 = 52428808 := by decide +kernel
  have hstart : HeapReach zeroedHeap.image zeroedHeap [] := HeapReach.start zeroedHeap.mem
  have hrun : HeapReach _ (zeroedHeap.malloc 100).2 _ := hstart.malloc
  rw [hptr, grant, if_neg (by decide)] at hrun
  exact ((granted_below_break hrun).1 _ (List.mem_singleton_self _)).2

end GrubKernel
