import GrubKernel.Heap.Runs

/-!
# Requests of any size

`malloc` adds the size of the header to the request in 32 bits.  From `2 ^ 32 - 8` bytes on the sum wraps
to a few bytes, passes the check, and a block of the smallest size is handed out.

* `Heap.Exhausted` — the tree cannot grow and no block is free.
* **`Represents.mallocFrom_eq_zero_iff`** — when the loop of `malloc` finds nothing.
* `MallocFits` — the result is null, or a pointer into a block that is large enough.
* **`mallocFits_iff`** — in which reachable states, and for which requests, that holds.
-/

namespace GrubKernel

open BuddyTree LinkRing Status RangeList

variable {s : Heap} {st : ℕ → Status} {allocs : List (UInt32 × UInt32)} {image : KernelImage}
  {request : UInt32}

/-- The tree has its full size, and the lists of all buckets are empty. -/
def Heap.Exhausted (s : Heap) : Prop :=
  s.basePtr ≠ 0 ∧ s.bucketLimit = 0 ∧ ∀ b < bucketCount, (s.mem (s.bucket b)).prev = s.bucket b

instance : DecidablePred Heap.Exhausted := fun s =>
  inferInstanceAs (Decidable (s.basePtr ≠ 0 ∧ s.bucketLimit = 0 ∧
    ∀ b < bucketCount, (s.mem (s.bucket b)).prev = s.bucket b))

/-! ## The search -/

/-- The break can always be raised, so a block that was found is handed out. -/
lemma Heap.place_fst (htop : s.maxPtr = s.heapEnd) (request : UInt32) (orig b : ℕ) (ptr : UInt32) :
    (s.place request orig b ptr).1 = ptr + headerSize := by
  unfold Heap.place
  dsimp only
  obtain ⟨m, hm, -, -⟩ := Heap.updateMaxPtr_spec htop (ptr + if b < orig then
    (1 : UInt32) <<< UInt32.ofNat (maxAllocLog2 - b) / 2 + sizeofListT
  else (1 : UInt32) <<< UInt32.ofNat (maxAllocLog2 - b))
  rw [hm, if_neg (not_not.mpr rfl)]

/-- **The loop of `malloc` finds nothing** iff the tree cannot grow and all its buckets are empty.  This
is for a request whose bucket is in the tree. -/
lemma Represents.mallocFrom_eq_zero_iff (h : Represents s st) (request : UInt32) {orig n : ℕ}
    (hn : n ≤ maxLevel + 1) (hlimit : s.bucketLimit < n) :
    (s.mallocFrom request orig n).1 = 0 ↔
      s.bucketLimit = 0 ∧ ∀ b < n, ∀ i, st i = free → level i ≠ b := by
  induction n with
  | zero => omega
  | succ b ih =>
      have hgrown : s.lowerBucketLimit b = (true, s) := by
        rw [Heap.lowerBucketLimit, dif_neg (by omega)]
      rw [Heap.mallocFrom, hgrown]
      dsimp only
      rw [if_neg (not_not.mpr rfl)]
      rcases h.pop (b := b) (by omega) (by omega) with ⟨hpop, hempty⟩ | ⟨i, hi, hlevel, hpop⟩
      · have hall : (∀ c < b + 1, ∀ i, st i = free → level i ≠ c) ↔
            ∀ c < b, ∀ i, st i = free → level i ≠ c := by
          refine ⟨fun hc c hlt => hc c (by omega), fun hc c hlt => ?_⟩
          rcases Nat.lt_succ_iff_lt_or_eq.mp hlt with hlt | rfl
          · exact hc c hlt
          · exact hempty
        rw [hpop, if_pos rfl, hall]
        by_cases hmore : b ≠ s.bucketLimit ∨ b = 0
        · rw [if_pos hmore]
          by_cases hzero : b = 0
          · -- the bucket of the largest blocks was the last one
            subst hzero
            exact iff_of_true rfl ⟨by omega, fun c hc => absurd hc (Nat.not_lt_zero c)⟩
          · exact ih (by omega) (by omega)
        · -- the root is in use: doubling the tree makes a free block
          rw [not_or, not_not] at hmore
          obtain ⟨L, rfl⟩ : ∃ L, b = L + 1 := Nat.exists_eq_succ_of_ne_zero hmore.2
          have hused : st (root (L + 1)) ≠ free := fun hfree => hempty _ hfree (level_root _)
          obtain ⟨hok, hlimit', st', h', -, j, hj, hjlevel⟩ :=
            h.lowerBucketLimit_one hmore.1.symm hused
          have hstop : ¬ (L + 1 ≠ s.bucketLimit ∨ L + 1 = 0) := by omega
          rw [if_neg hstop, Nat.add_sub_cancel, if_neg (not_not.mpr hok)]
          generalize (s.lowerBucketLimit L).2 = s' at h' hlimit' ⊢
          rcases h'.pop (b := L + 1) (by omega) (by omega) with ⟨-, hempty'⟩ | ⟨i, hi, hlevel, hpop'⟩
          · exact absurd hjlevel (hempty' j hj)
          · rw [hpop', Heap.place_fst (by exact h'.top)]
            refine iff_of_false (addr_add_header_ne_zero (by omega)) fun hall => ?_
            omega
      · have hne : addr i ≠ 0 := addr_ne_zero (by omega)
        rw [hpop, if_neg hne, Heap.place_fst (by exact h.top)]
        refine iff_of_false (addr_add_header_ne_zero (by omega)) fun hall => ?_
        exact hall.2 b (by omega) i hi hlevel

/-- Which states are exhausted, in terms of the tree. -/
lemma Represents.exhausted_iff (h : Represents s st) :
    s.Exhausted ↔ s.bucketLimit = 0 ∧ ∀ b < maxLevel + 1, ∀ i, st i = free → level i ≠ b := by
  have hbase : s.basePtr ≠ 0 := by
    rw [h.base]
    decide
  obtain ⟨nodes, hnodes⟩ := h.lists
  have hlist : s.bucketLimit = 0 → ∀ b < bucketCount,
      ((s.mem (s.bucket b)).prev = s.bucket b ↔ ∀ i, st i = free → level i ≠ b) :=
    fun hzero b hb => hnodes.prev_head_eq_iff ⟨by omega, Nat.le_of_lt_succ hb⟩
  constructor
  · rintro ⟨-, hzero, hempty⟩
    exact ⟨hzero, fun b hb => (hlist hzero b hb).mp (hempty b hb)⟩
  · rintro ⟨hzero, hempty⟩
    exact ⟨hbase, hzero, fun b hb => (hlist hzero b hb).mpr (hempty b hb)⟩

/-! ## Requests that wrap -/

/-- A request whose sum wraps passes the check, and gets the bucket of the smallest blocks. -/
lemma wraps_spec (hr : 2 ^ 32 - 8 ≤ request.toNat) : ¬ request + headerSize > maxAlloc ∧
    bucketForRequest (request + headerSize) = maxLevel := by
  have hlt := request.toNat_lt
  have height : headerSize.toNat = 8 := rfl
  have hmax : maxAlloc.toNat = 2 ^ 31 := rfl
  have hmin : minAlloc.toNat = 16 := rfl
  have hsum : (request + headerSize).toNat < 8 := by
    rw [UInt32.toNat_add, height]
    omega
  constructor
  · rw [gt_iff_lt, UInt32.lt_iff_toNat_lt, hmax]
    omega
  · refine if_neg ?_
    rw [UInt32.lt_iff_toNat_lt, hmin]
    omega

/-- **A request that wraps is refused** only by a heap that is exhausted. -/
lemma Represents.malloc_eq_zero_iff (h : Represents s st) (hr : 2 ^ 32 - 8 ≤ request.toNat) :
    (s.malloc request).1 = 0 ↔ s.Exhausted := by
  obtain ⟨hcheck, hbucket⟩ := wraps_spec hr
  have hbase : s.basePtr ≠ 0 := by
    rw [h.base]
    decide
  rw [h.exhausted_iff, Heap.malloc, if_neg hcheck, if_neg hbase]
  dsimp only
  rw [hbucket]
  exact h.mallocFrom_eq_zero_iff request le_rfl (Nat.lt_succ_of_le h.tree.root_le)

/-- **The same in every reachable state.** -/
lemma HeapInv.malloc_eq_zero_iff (h : HeapInv image s allocs) (hr : 2 ^ 32 - 8 ≤ request.toNat) :
    (s.malloc request).1 = 0 ↔ s.Exhausted := by
  rcases h with ⟨mem, rfl, rfl⟩ | ⟨st, hrep, -⟩
  · -- the first call starts a tree of one free block
    have hrep := represents_initHeap image mem
    rw [malloc_start image mem (wraps_spec hr).1, hrep.malloc_eq_zero_iff hr]
    refine iff_of_false (fun hex => ?_) fun hex => hex.1 rfl
    have hroot : firstTree (root maxLevel) = free := by
      rw [firstTree_apply, if_pos rfl]
    exact (hrep.exhausted_iff.mp hex).2 maxLevel (Nat.lt_succ_self _) _ hroot (level_root _)
  · exact hrep.malloc_eq_zero_iff hr

/-! ## What is handed out -/

/-- The granted blocks and the blocks on the lists partition the range of the root. -/
structure HeapPartition (s : Heap) (allocs : List (UInt32 × UInt32)) (lists : ℕ → List UInt32) :
    Prop where
  rings : Rings s.mem (Set.Ico s.bucketLimit bucketCount) s.bucket lists
  apart : (blocks s allocs lists).Pairwise fun a b => Disjoint a.toSet b.toSet
  covered : addresses (blocks s allocs lists) =
    Set.Ico s.basePtr.toNat (s.basePtr.toNat + 2 ^ (maxAllocLog2 - s.bucketLimit))

/-- The pointer lies in its block, and the block has room for the request and the header. -/
def HasRoom (e : UInt32 × UInt32) : Prop :=
  e.1.toNat ∈ (liveSpan e).toSet ∧ (liveSpan e).lo + (e.2.toNat + 8) ≤ (liveSpan e).hi

/-- **The result is never a block that is too small**: it is null, or a pointer into a block of the heap
that has room; and it is null if the request is too large for any block. -/
def MallocFits (s : Heap) (allocs : List (UInt32 × UInt32)) (request : UInt32) : Prop :=
  ((s.malloc request).1 = 0 ∨
    (∃ lists, HeapPartition (s.malloc request).2 (((s.malloc request).1, request) :: allocs) lists) ∧
      HasRoom ((s.malloc request).1, request)) ∧
    (2 ^ 31 - 8 < request.toNat → (s.malloc request).1 = 0)

/-- A pointer that was granted for a request that fits into a block has room. -/
lemma Granted.hasRoom (ho : Granted s.mem st allocs) (h : Represents s st) {e : UInt32 × UInt32}
    (he : e ∈ allocs) (hr : e.2.toNat ≤ 2 ^ 31 - 8) : HasRoom e := by
  obtain ⟨i, hi, hspan, hptr, hsize⟩ := ho.block_spec h he
  have hfit := bucketForRequest_spec hr
  have hsixteen := sixteen_le_size (h.level_le (ne_absent_of_live hi))
  rw [HasRoom, hspan, nodeSpan, Span.mem_toSet]
  dsimp only
  omega

/-- **A request that fits into a block** gets one that is large enough. -/
lemma HeapInv.mallocFits (h : HeapInv image s allocs) (hr : request.toNat ≤ 2 ^ 31 - 8) :
    MallocFits s allocs request := by
  refine ⟨?_, fun hlt => absurd hr (not_le.mpr hlt)⟩
  by_cases hnull : (s.malloc request).1 = 0
  · exact Or.inl hnull
  · obtain ⟨st', hrep, ho⟩ := h.malloc_step (not_gt_maxAlloc hr)
    rw [grant, if_neg hnull] at ho
    obtain ⟨nodes, hnodes⟩ := hrep.lists
    obtain ⟨hapart, hcovered⟩ := hrep.partition ho hnodes
    exact Or.inr ⟨⟨_, hnodes.rings_Ico, hapart, hcovered⟩, ho.hasRoom hrep List.mem_cons_self hr⟩

/-- **Exactly when `malloc` hands out no block that is too small** in a reachable state: for a request
whose sum with the header does not wrap, or when no block is left at all. -/
theorem mallocFits_iff (h : HeapReach image s allocs) (request : UInt32) :
    MallocFits s allocs request ↔ request.toNat < 2 ^ 32 - 8 ∨ s.Exhausted := by
  by_cases hr : request.toNat < 2 ^ 32 - 8
  · refine iff_of_true ?_ (Or.inl hr)
    by_cases hlarge : 2 ^ 31 - 8 < request.toNat
    · have hnull := malloc_of_gt (s := s) ((gt_maxAlloc_iff hr).mpr hlarge)
      rw [MallocFits, hnull]
      exact ⟨Or.inl rfl, fun _ => rfl⟩
    · exact h.inv.mallocFits (not_lt.mp hlarge)
  · have hiff := h.inv.malloc_eq_zero_iff (not_lt.mp hr)
    rw [or_iff_right hr, ← hiff]
    exact ⟨fun hfits => hfits.2 (by omega), fun hnull => ⟨Or.inl hnull, fun _ => hnull⟩⟩

/-- After a call for 100 bytes a request of `2 ^ 32 - 1` bytes gets a block; after a call for all there is
it gets none. -/
theorem mallocFits_iff_example :
    ¬ MallocFits (zeroedHeap.malloc 100).2 [(52428808, 100)] 0xFFFFFFFF ∧
      MallocFits (zeroedHeap.malloc 0x7FFFFFF8).2 [(52428808, 0x7FFFFFF8)] 0xFFFFFFFF := by
  have hsmall : (zeroedHeap.malloc 100).1 = 52428808 := by decide +kernel
  have hlarge : (zeroedHeap.malloc 0x7FFFFFF8).1 = 52428808 := by decide +kernel
  have hleft : ¬ (zeroedHeap.malloc 100).2.Exhausted := by decide +kernel
  have hnone : (zeroedHeap.malloc 0x7FFFFFF8).2.Exhausted := by decide +kernel
  have hne : (52428808 : UInt32) ≠ 0 := by decide
  have hstart : HeapReach zeroedHeap.image zeroedHeap [] := HeapReach.start zeroedHeap.mem
  have hrun : HeapReach _ (zeroedHeap.malloc 100).2 _ := hstart.malloc
  rw [hsmall, grant, if_neg hne] at hrun
  have hfull : HeapReach _ (zeroedHeap.malloc 0x7FFFFFF8).2 _ := hstart.malloc
  rw [hlarge, grant, if_neg hne] at hfull
  refine ⟨fun hfits => ?_, (mallocFits_iff hfull 0xFFFFFFFF).mpr (Or.inr hnone)⟩
  rcases (mallocFits_iff hrun 0xFFFFFFFF).mp hfits with hlt | hex
  · exact absurd hlt (by decide)
  · exact hleft hex

/-- **The first call for `2 ^ 32 - 1` bytes** returns a pointer into a block of 16 bytes. -/
theorem not_mallocFits_first : HeapReach zeroedHeap.image zeroedHeap [] ∧
    (zeroedHeap.malloc 0xFFFFFFFF).1 = 52428808 ∧
    liveSpan (52428808, 0xFFFFFFFF) = ⟨52428800, 52428816⟩ ∧ ¬ MallocFits zeroedHeap [] 0xFFFFFFFF := by
  have hptr : (zeroedHeap.malloc 0xFFFFFFFF).1 = 52428808 := by decide +kernel
  refine ⟨HeapReach.start zeroedHeap.mem, hptr, by decide +kernel, fun hfits => ?_⟩
  have hnull := hfits.2 (by decide)
  rw [hptr] at hnull
  exact absurd hnull (by decide)

end GrubKernel
