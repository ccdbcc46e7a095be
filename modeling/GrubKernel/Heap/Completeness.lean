import GrubKernel.Heap.Requests
import Mathlib.Data.Nat.Log

/-!
# What the heap can still hand out

* `blockLog2` — the size of the block for a request, as a power of two.
* **`Represents.malloc_null_iff`** — when a call returns null, in terms of the tree.
* **`malloc_complete`** — `malloc` returns a block whenever the granted blocks leave a place for one.
* **`malloc_drained`** — once all pointers are freed, every request is served as in the first call.
-/

namespace GrubKernel

open BuddyTree LinkRing Status RangeList

variable {s : Heap} {st : ℕ → Status} {allocs : List (UInt32 × UInt32)} {image : KernelImage}
  {request : UInt32}

/-! ## The size of a block -/

/-- The block for a request has `2 ^ blockLog2 request` bytes: the least power of two from 16 on that has
room for the request and the header. -/
def blockLog2 (request : UInt32) : ℕ := max minAllocLog2 (Nat.clog 2 (request.toNat + 8))

/-- The search for a bucket ends in the last one whose blocks are large enough. -/
lemma bucketFrom_least {request : UInt32} : ∀ (b : ℕ) (sz : UInt32), b ≤ maxLevel →
    sz.toNat = 2 ^ (31 - b) → (b = maxLevel ∨ 2 ^ (30 - b) < request.toNat) →
      bucketFrom request b sz = maxLevel ∨ 2 ^ (30 - bucketFrom request b sz) < request.toNat := by
  intro b
  induction b with
  | zero => exact fun sz _ _ hleast => hleast
  | succ b ih =>
      intro sz hb hsz hleast
      have hb' : b + 1 ≤ 27 := hb
      unfold bucketFrom
      split_ifs with hlt
      · rw [UInt32.lt_iff_toNat_lt, hsz] at hlt
        have hexp : 31 - (b + 1) = 30 - b := by omega
        have hdouble : (sz * 2).toNat = 2 ^ (31 - b) := by
          have hle : 2 ^ (31 - b) ≤ 2 ^ 31 := Nat.pow_le_pow_right (by decide) (Nat.sub_le 31 b)
          rw [UInt32.toNat_mul, hsz, show (2 : UInt32).toNat = 2 from rfl, ← pow_succ,
            show 31 - (b + 1) + 1 = 31 - b by omega]
          exact Nat.mod_eq_of_lt (hle.trans_lt (by decide))
        rw [hexp] at hlt
        exact ih (sz * 2) (by omega) hdouble (Or.inr hlt)
      · exact hleast

/-- **The bucket of a request** has the smallest blocks that are large enough. -/
lemma blockLog2_eq (hr : request.toNat ≤ 2 ^ 31 - 8) :
    blockLog2 request = 31 - bucketForRequest (request + headerSize) := by
  obtain ⟨hmax, hfit⟩ := bucketForRequest_le (not_gt_maxAlloc hr)
  have hleast := @bucketFrom_least (request + headerSize) (bucketCount - 1) minAlloc le_rfl rfl
    (Or.inl rfl)
  rw [← bucketForRequest] at hleast
  rw [toNat_request (by omega)] at hfit hleast
  have hmax' : bucketForRequest (request + headerSize) ≤ 27 := hmax
  generalize bucketForRequest (request + headerSize) = c at hfit hleast hmax' ⊢
  rw [blockLog2, show minAllocLog2 = 4 from rfl]
  have hle := Nat.clog_le_of_le_pow hfit
  rcases hleast with rfl | hlt
  · rw [show 31 - maxLevel = 4 from rfl] at hle ⊢
    exact max_eq_left hle
  · have hgt := (Nat.lt_clog_iff_pow_lt (by decide)).mpr hlt
    omega

/-! ## When a call returns null -/

/-- The loop of `malloc` starts by growing the tree. -/
lemma Represents.mallocFrom_grown (h : Represents s st) (request : UInt32) (orig b : ℕ) :
    s.mallocFrom request orig (b + 1) = (s.lowerBucketLimit b).2.mallocFrom request orig (b + 1) := by
  obtain ⟨hok, hlimit, -⟩ := h.lowerBucketLimit b
  have hdone : (s.lowerBucketLimit b).2.lowerBucketLimit b = (true, (s.lowerBucketLimit b).2) := by
    rw [Heap.lowerBucketLimit, dif_neg (by omega)]
  rw [Heap.mallocFrom, Heap.mallocFrom, hdone]
  dsimp only
  rw [hok]

/-- **When a call returns null**: if the tree, grown as far as the request needs, has its full size and no
free block that is large enough. -/
lemma Represents.malloc_null_iff (h : Represents s st) (hr : ¬ request + headerSize > maxAlloc) {b : ℕ}
    (hb : bucketForRequest (request + headerSize) = b) :
    ∃ t st', Represents t st' ∧ Keeps s.mem st none t.mem st' none ∧ t.bucketLimit = min s.bucketLimit b ∧
      s.malloc request = t.mallocFrom request b (b + 1) ∧
      ((s.malloc request).1 = 0 ↔ t.bucketLimit = 0 ∧ ¬ ∃ i, st' i = free ∧ level i ≤ b) := by
  have hbase : s.basePtr ≠ 0 := by
    rw [h.base]
    decide
  obtain ⟨hmax, -⟩ := bucketForRequest_le hr
  obtain ⟨-, hlimit, st', h', hkeeps⟩ := h.lowerBucketLimit b
  have hmalloc : s.malloc request = (s.lowerBucketLimit b).2.mallocFrom request b (b + 1) := by
    rw [Heap.malloc, if_neg hr, if_neg hbase]
    dsimp only
    rw [hb]
    exact h.mallocFrom_grown request b b
  refine ⟨_, st', h', hkeeps, hlimit, hmalloc, ?_⟩
  rw [hmalloc, h'.mallocFrom_eq_zero_iff request (by omega) (by omega)]
  refine and_congr_right fun _ => ⟨fun hnone => ?_, fun hnone c hc i hi hlevel => ?_⟩
  · rintro ⟨i, hi, hlevel⟩
    exact hnone (level i) (by omega) i hi rfl
  · exact hnone ⟨i, hi, by omega⟩

/-! ## Places -/

/-- A place of `2 ^ n` bytes at an offset that no granted block meets. -/
def IsPlace (allocs : List (UInt32 × UInt32)) (n x : ℕ) : Prop :=
  2 ^ n ∣ x ∧ x + 2 ^ n ≤ 2 ^ maxAllocLog2 ∧
    ∀ e ∈ allocs, Disjoint (liveSpan e).toSet
      (Set.Ico (heapStart.toNat + x) (heapStart.toNat + x + 2 ^ n))

/-- The granted blocks are the blocks in use. -/
lemma Granted.disjoint_iff (ho : Granted s.mem st allocs) (h : Represents s st) {n x : ℕ} :
    (∀ e ∈ allocs, Disjoint (liveSpan e).toSet
      (Set.Ico (heapStart.toNat + x) (heapStart.toNat + x + 2 ^ n))) ↔
    ∀ i, st i = live → ∀ y, x ≤ y → y < x + 2 ^ n → ¬ Covers maxAllocLog2 i y := by
  obtain ⟨ns, hspans, -, hns⟩ := ho.exists_nodes h
  have hall : (∀ e ∈ allocs, Disjoint (liveSpan e).toSet
      (Set.Ico (heapStart.toNat + x) (heapStart.toNat + x + 2 ^ n))) ↔
      ∀ a ∈ allocs.map liveSpan, Disjoint a.toSet
        (Set.Ico (heapStart.toNat + x) (heapStart.toNat + x + 2 ^ n)) := by
    rw [List.forall_mem_map]
  rw [hall, hspans, List.forall_mem_map]
  refine forall_congr' fun i => ?_
  rw [hns]
  refine imp_congr_right fun _ => ?_
  rw [Set.disjoint_left]
  constructor
  · intro hoff y hlo hhi hcov
    refine hoff (a := heapStart.toNat + y) ?_ ⟨by omega, by omega⟩
    rw [mem_nodeSpan, Nat.add_sub_cancel_left]
    exact ⟨Nat.le_add_right _ _, hcov⟩
  · rintro hoff y hy ⟨hlo, hhi⟩
    rw [mem_nodeSpan] at hy
    exact hoff (y - heapStart.toNat) (by omega) (by omega) hy.2

/-- A tree of full size has a free block for a bucket iff there is a place. -/
lemma Granted.exists_free_iff (ho : Granted s.mem st allocs) (h : Represents s st)
    (hlimit : s.bucketLimit = 0) {b : ℕ} (hb : b ≤ maxLevel) :
    (∃ i, st i = free ∧ level i ≤ b) ↔ ∃ x, IsPlace allocs (maxAllocLog2 - b) x := by
  rw [h.tree.exists_free_iff maxLevel_le (hlimit.trans_le (Nat.zero_le b)) hb, hlimit, Nat.sub_zero]
  exact exists_congr fun x => and_congr_right fun _ => and_congr_right fun _ => (ho.disjoint_iff h).symm

/-- Behind a tree that can grow there is a place. -/
lemma Granted.isPlace_behind (ho : Granted s.mem st allocs) (h : Represents s st)
    (hlimit : s.bucketLimit ≠ 0) {n : ℕ} (hn : n ≤ 30) : IsPlace allocs n (2 ^ 30) := by
  have hhalf : 2 ^ (maxAllocLog2 - s.bucketLimit) ≤ 2 ^ 30 :=
    Nat.pow_le_pow_right (by decide) (by rw [show maxAllocLog2 = 31 from rfl]; omega)
  have hle : 2 ^ n ≤ 2 ^ 30 := Nat.pow_le_pow_right (by decide) hn
  refine ⟨Nat.pow_dvd_pow 2 hn, ?_, (ho.disjoint_iff h).mpr fun i hi y hy _ hcov => ?_⟩
  · rw [show maxAllocLog2 = 31 from rfl]
    omega
  · have hlt := h.tree.covers_root maxLevel_le i (ne_absent_of_live hi) hcov
    omega

/-- **While there is a tree**, a request that passes the check is refused iff there is no place. -/
lemma Granted.malloc_null_iff (ho : Granted s.mem st allocs) (h : Represents s st)
    (hr : ¬ request + headerSize > maxAlloc) :
    (s.malloc request).1 = 0 ↔
      ∀ x, ¬ IsPlace allocs (maxAllocLog2 - bucketForRequest (request + headerSize)) x := by
  obtain ⟨hmax, -⟩ := bucketForRequest_le hr
  obtain ⟨t, st', h', hkeeps, hlimit, -, hnull⟩ := h.malloc_null_iff hr rfl
  generalize bucketForRequest (request + headerSize) = b at hmax hlimit hnull ⊢
  have ho' := ho.keep hkeeps
  rw [hnull, ← not_exists]
  by_cases hfull : t.bucketLimit = 0
  · rw [and_iff_right hfull, ho'.exists_free_iff h' hfull hmax]
  · refine iff_of_false (fun hcon => hfull hcon.1) (not_not.mpr ⟨2 ^ 30, ho'.isPlace_behind h' hfull ?_⟩)
    rw [show maxAllocLog2 = 31 from rfl]
    omega

/-- The same in every reachable state. -/
lemma HeapInv.malloc_null_iff (h : HeapInv image s allocs) (hr : ¬ request + headerSize > maxAlloc) :
    (s.malloc request).1 = 0 ↔
      ∀ x, ¬ IsPlace allocs (maxAllocLog2 - bucketForRequest (request + headerSize)) x := by
  rcases h with ⟨mem, rfl, rfl⟩ | ⟨st, hrep, ho⟩
  · rw [malloc_start image mem hr]
    exact (granted_initHeap image mem).malloc_null_iff (represents_initHeap image mem) hr
  · exact ho.malloc_null_iff hrep hr

/-- **`malloc` finds a block whenever there is a place for one.**  In every reachable state, a request is
refused iff each aligned range of the size of its block, in the 2 GiB from the start of the heap, meets a
granted block. -/
theorem malloc_complete (h : HeapReach image s allocs) (hr : request.toNat < 2 ^ 32 - 8) :
    (s.malloc request).1 = 0 ↔ ∀ x, ¬ IsPlace allocs (blockLog2 request) x := by
  by_cases hlarge : 2 ^ 31 - 8 < request.toNat
  · refine iff_of_true ?_ fun x hx => ?_
    · rw [malloc_of_gt ((gt_maxAlloc_iff hr).mpr hlarge)]
    · -- the block would be larger than all there is
      have hlog : 31 < Nat.clog 2 (request.toNat + 8) := (Nat.lt_clog_iff_pow_lt (by decide)).mpr (by omega)
      have hpow : 2 ^ 32 ≤ 2 ^ blockLog2 request := Nat.pow_le_pow_right (by decide) (le_max_of_le_right hlog)
      have hfit := hx.2.1
      rw [show maxAllocLog2 = 31 from rfl] at hfit
      omega
  · rw [blockLog2_eq (not_lt.mp hlarge)]
    exact h.inv.malloc_null_iff (not_gt_maxAlloc (not_lt.mp hlarge))

/-- After a call for all there is, every place for 128 bytes is taken, and so a call for 100 is refused. -/
theorem malloc_complete_example :
    ((zeroedHeap.malloc 0x7FFFFFF8).2.malloc 100).1 = 0 ∧ blockLog2 100 = 7 ∧
      ∀ x, ¬ IsPlace [(52428808, 0x7FFFFFF8)] (blockLog2 100) x := by
  have hptr : (zeroedHeap.malloc 0x7FFFFFF8).1 = 52428808 := by decide +kernel
  have hnull : ((zeroedHeap.malloc 0x7FFFFFF8).2.malloc 100).1 = 0 := by decide +kernel
  have hstart : HeapReach zeroedHeap.image zeroedHeap [] := HeapReach.start zeroedHeap.mem
  have hrun : HeapReach _ (zeroedHeap.malloc 0x7FFFFFF8).2 _ := hstart.malloc
  rw [hptr, grant, if_neg (by decide)] at hrun
  refine ⟨hnull, ?_, (malloc_complete hrun (by decide)).mp hnull⟩
  rw [blockLog2_eq (by decide)]
  decide

/-! ## After everything is freed -/

/-- **From a free root** the loop of `malloc` hands out the start of the heap. -/
lemma Represents.mallocFrom_root (h : Represents s st) (hfree : st (root s.bucketLimit) = free)
    (request : UInt32) {orig n : ℕ} (hn : n ≤ maxLevel + 1) (hlimit : s.bucketLimit < n) :
    (s.mallocFrom request orig n).1 = heapStart + headerSize := by
  induction n with
  | zero => omega
  | succ b ih =>
      have hgrown : s.lowerBucketLimit b = (true, s) := by
        rw [Heap.lowerBucketLimit, dif_neg (by omega)]
      rw [Heap.mallocFrom, hgrown]
      dsimp only
      rw [if_neg (not_not.mpr rfl)]
      rcases h.pop (b := b) (by omega) (by omega) with ⟨hpop, hempty⟩ | ⟨i, hi, hlevel, hpop⟩
      · -- the root is on the list of another bucket
        have hne : b ≠ s.bucketLimit := by
          rintro rfl
          exact hempty _ hfree (level_root _)
        rw [hpop, if_pos rfl, if_pos (Or.inl hne)]
        exact ih (by omega) (by omega)
      · obtain rfl := h.eq_root rfl hfree (ne_absent_of_free hi)
        rw [hpop, if_neg (addr_ne_zero (by omega)), Heap.place_fst (by exact h.top), addr_root]

/-- **Without blocks in use** every request that passes the check gets the start of the heap. -/
lemma Granted.malloc_without_blocks (ho : Granted s.mem st []) (h : Represents s st)
    (hr : ¬ request + headerSize > maxAlloc) : (s.malloc request).1 = heapStart + headerSize := by
  obtain ⟨hmax, -⟩ := bucketForRequest_le hr
  obtain ⟨t, st', h', hkeeps, hlimit, hmalloc, -⟩ := h.malloc_null_iff hr rfl
  have hroot : st' (root t.bucketLimit) = free :=
    h'.tree.root_free fun i hi => absurd ((ho.keep hkeeps).all i hi) List.not_mem_nil
  rw [hmalloc]
  exact h'.mallocFrom_root hroot request (by omega) (by omega)

/-- **The heap does not stay fragmented.**  Whatever calls were made and in whatever order the pointers
were freed, once all are freed every request up to `2 ^ 31 - 8` bytes gets the first block of the heap. -/
theorem malloc_drained (h : HeapReach image s []) (hr : request.toNat ≤ 2 ^ 31 - 8) :
    (s.malloc request).1 = heapStart + headerSize := by
  have hcheck := not_gt_maxAlloc hr
  rcases h.inv with ⟨mem, rfl, -⟩ | ⟨st, hrep, ho⟩
  · rw [malloc_start image mem hcheck]
    exact (granted_initHeap image mem).malloc_without_blocks (represents_initHeap image mem) hcheck
  · exact ho.malloc_without_blocks hrep hcheck

/-- Two blocks are granted and freed in the order they were granted; then the whole heap can be granted. -/
theorem malloc_drained_example :
    (((((zeroedHeap.malloc 100).2.malloc 200).2.free 52428808).free 52429064).malloc 0x7FFFFFF8).1
      = 52428808 := by
  have hfirst : (zeroedHeap.malloc 100).1 = 52428808 := by decide +kernel
  have hsecond : ((zeroedHeap.malloc 100).2.malloc 200).1 = 52429064 := by decide +kernel
  have hstart : HeapReach zeroedHeap.image zeroedHeap [] := HeapReach.start zeroedHeap.mem
  have hrun : HeapReach _ (zeroedHeap.malloc 100).2 _ := hstart.malloc
  rw [hfirst, grant, if_neg (by decide)] at hrun
  have hrun' : HeapReach _ ((zeroedHeap.malloc 100).2.malloc 200).2 _ := hrun.malloc
  rw [hsecond, grant, if_neg (by decide)] at hrun'
  have hfreed := hrun'.free (e := (52428808, 100)) (by decide)
  have hdrained := hfreed.free (e := (52429064, 200)) (by decide)
  exact malloc_drained hdrained (by decide)

end GrubKernel
