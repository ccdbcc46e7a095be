import GrubKernel.Lib.LinkRing
import Mathlib.Data.UInt

/-!
# The kernel heap

The buddy allocator of the kernel: `malloc` and `free` over a tree of power-of-two blocks, whose free
blocks carry the links of the list of their bucket, and the program break that it grows.

* `Heap` — the variables of the allocator, the program break, and memory as cells of eight bytes.
* `listInit`, `listPush`, `listRemove`, `listPop` — the free lists.
* `ptrForNode`, `nodeForPtr`, `parentIsSplit`, `flipParentIsSplit` — the tree.
* `lowerBucketLimit`, `malloc`, `free` — the allocator.

Pointers and sizes are words.  Buckets and node indices stay below `2 ^ 28` and are natural numbers.
-/

namespace GrubKernel

open LinkRing

/-- `HEADER_SIZE`. -/
def headerSize : UInt32 := 8

/-- `MIN_ALLOC_LOG2`. -/
def minAllocLog2 : ℕ := 4

/-- `MIN_ALLOC`. -/
def minAlloc : UInt32 := (1 : UInt32) <<< 4

/-- `MAX_ALLOC_LOG2`. -/
def maxAllocLog2 : ℕ := 31

/-- `MAX_ALLOC`. -/
def maxAlloc : UInt32 := (1 : UInt32) <<< 31

/-- `BUCKET_COUNT`. -/
def bucketCount : ℕ := maxAllocLog2 - minAllocLog2 + 1

/-- The initial value of `heap_end`. -/
def heapStart : UInt32 := 50 * 1024 * 1024

/-- `list_t`, the cell of eight bytes at an address. -/
abbrev ListT := Links UInt32

/-- `sizeof(list_t)`. -/
def sizeofListT : UInt32 := 8

/-- Where the linker put the array `buckets`: with the kernel's image, below the heap. -/
structure KernelImage where
  buckets : UInt32
  below : buckets.toNat + 8 * bucketCount ≤ heapStart.toNat

/-- The allocator and the program break.  `NULL` is `0`. -/
structure Heap where
  image : KernelImage
  mem : UInt32 → ListT
  bucketLimit : ℕ
  nodeIsSplit : ℕ → UInt8
  basePtr : UInt32
  maxPtr : UInt32
  heapEnd : UInt32

/-- The kernel before the first call, with anything in memory. -/
def Heap.start (image : KernelImage) (mem : UInt32 → ListT) : Heap :=
  ⟨image, mem, 0, fun _ => 0, 0, 0, heapStart⟩

/-! ## Free lists -/

/-- `list_init`. -/
def listInit (mem : UInt32 → ListT) (list : UInt32) : UInt32 → ListT :=
  setNext (setPrev mem list list) list list

/-- `list_push`. -/
def listPush (mem : UInt32 → ListT) (list entry : UInt32) : UInt32 → ListT :=
  let prev := (mem list).prev
  let mem := setPrev mem entry prev
  let mem := setNext mem entry list
  let mem := setNext mem prev entry
  setPrev mem list entry

/-- `list_remove`. -/
def listRemove (mem : UInt32 → ListT) (entry : UInt32) : UInt32 → ListT :=
  let prev := (mem entry).prev
  let next := (mem entry).next
  setPrev (setNext mem prev next) next prev

/-- `list_pop`. -/
def listPop (mem : UInt32 → ListT) (list : UInt32) : UInt32 × (UInt32 → ListT) :=
  let back := (mem list).prev
  if back = list then (0, mem) else (back, listRemove mem back)

/-- `bucket_for_request`: the loop, from bucket `bucket` with blocks of `size` bytes. -/
def bucketFrom (request : UInt32) : ℕ → UInt32 → ℕ
  | 0, _ => 0
  | bucket + 1, size => if size < request then bucketFrom request bucket (size * 2) else bucket + 1

/-- `bucket_for_request`. -/
def bucketForRequest (request : UInt32) : ℕ := bucketFrom request (bucketCount - 1) minAlloc

namespace Heap

/-- `&buckets[bucket]`. -/
def bucket (s : Heap) (bucket : ℕ) : UInt32 := s.image.buckets + 8 * UInt32.ofNat bucket

/-! ## The program break -/

/-- `brk`. -/
def brk (s : Heap) (addr : UInt32) : ℤ × Heap := (0, { s with heapEnd := addr })

/-- `sbrk`.  The break is a pointer to words. -/
def sbrk (s : Heap) (incr : UInt32) : UInt32 × Heap :=
  (s.heapEnd, { s with heapEnd := s.heapEnd + 4 * incr })

/-- `update_max_ptr`. -/
def updateMaxPtr (s : Heap) (newValue : UInt32) : Bool × Heap :=
  if newValue > s.maxPtr then
    let r := s.brk newValue
    if r.1 ≠ 0 then (false, r.2) else (true, { r.2 with maxPtr := newValue })
  else (true, s)

/-! ## The tree -/

/-- `ptr_for_node`.  The difference `index - (1 << bucket)` may wrap; adding one brings it back. -/
def ptrForNode (s : Heap) (index bucket : ℕ) : UInt32 :=
  s.basePtr + UInt32.ofNat ((index + 1 - 1 <<< bucket) <<< (maxAllocLog2 - bucket))

/-- `node_for_ptr`. -/
def nodeForPtr (s : Heap) (ptr : UInt32) (bucket : ℕ) : ℕ :=
  ((ptr - s.basePtr).toNat >>> (maxAllocLog2 - bucket)) + (1 <<< bucket) - 1

/-- The bit of a node in `node_is_split`. -/
def isSplit (s : Heap) (index : ℕ) : Bool :=
  (s.nodeIsSplit (index / 8) >>> UInt8.ofNat (index % 8)) &&& 1 ≠ 0

/-- `parent_is_split`. -/
def parentIsSplit (s : Heap) (index : ℕ) : Bool := s.isSplit ((index - 1) / 2)

/-- `flip_parent_is_split`. -/
def flipParentIsSplit (s : Heap) (index : ℕ) : Heap :=
  let index := (index - 1) / 2
  let byte := s.nodeIsSplit (index / 8) ^^^ ((1 : UInt8) <<< UInt8.ofNat (index % 8))
  { s with nodeIsSplit := Function.update s.nodeIsSplit (index / 8) byte }

/-! ## `lower_bucket_limit` -/

/-- The branch of `lower_bucket_limit` for a root that is not in use. -/
def growFreeRoot (s : Heap) : Heap :=
  let mem := listRemove s.mem s.basePtr
  let limit := s.bucketLimit - 1
  let mem := listInit mem (s.bucket limit)
  { s with mem := listPush mem (s.bucket limit) s.basePtr, bucketLimit := limit }

/-- The branch of `lower_bucket_limit` for a root that is in use. -/
def growUsedRoot (s : Heap) (root : ℕ) : Bool × Heap :=
  let rightChild := s.ptrForNode (root + 1) s.bucketLimit
  let r := s.updateMaxPtr (rightChild + sizeofListT)
  if ¬ r.1 then (false, r.2)
  else
    let s := r.2
    let mem := listPush s.mem (s.bucket s.bucketLimit) rightChild
    let limit := s.bucketLimit - 1
    let s := { s with mem := listInit mem (s.bucket limit), bucketLimit := limit }
    let root := (root - 1) / 2
    (true, if root ≠ 0 then s.flipParentIsSplit root else s)

/-- One round of the loop of `lower_bucket_limit`. -/
def growTree (s : Heap) : Bool × Heap :=
  let root := s.nodeForPtr s.basePtr s.bucketLimit
  if ¬ s.parentIsSplit root then (true, s.growFreeRoot) else s.growUsedRoot root

@[simp] lemma updateMaxPtr_bucketLimit (s : Heap) (newValue : UInt32) :
    (s.updateMaxPtr newValue).2.bucketLimit = s.bucketLimit := by
  unfold updateMaxPtr
  split_ifs
  · rfl
  · rfl

lemma growUsedRoot_bucketLimit (s : Heap) (root : ℕ) (h : (s.growUsedRoot root).1 = true) :
    (s.growUsedRoot root).2.bucketLimit = s.bucketLimit - 1 := by
  unfold growUsedRoot at h ⊢
  dsimp only at h ⊢
  by_cases hr : (s.updateMaxPtr (s.ptrForNode (root + 1) s.bucketLimit + sizeofListT)).1 = true
  · rw [if_neg (not_not.mpr hr)]
    split_ifs
    · show (s.updateMaxPtr _).2.bucketLimit - 1 = _
      rw [updateMaxPtr_bucketLimit]
    · show (s.updateMaxPtr _).2.bucketLimit - 1 = _
      rw [updateMaxPtr_bucketLimit]
  · rw [if_pos hr] at h
    simp at h

/-- A round that succeeds lowers the limit by one. -/
lemma growTree_bucketLimit (s : Heap) (h : s.growTree.1 = true) :
    s.growTree.2.bucketLimit = s.bucketLimit - 1 := by
  unfold growTree at h ⊢
  dsimp only at h ⊢
  by_cases hsplit : s.parentIsSplit (s.nodeForPtr s.basePtr s.bucketLimit) = true
  · rw [if_neg (not_not.mpr hsplit)] at h ⊢
    exact growUsedRoot_bucketLimit s _ h
  · rw [if_pos hsplit]
    rfl

/-- `lower_bucket_limit`. -/
def lowerBucketLimit (s : Heap) (bucket : ℕ) : Bool × Heap :=
  if _h : bucket < s.bucketLimit then
    if _hr : s.growTree.1 = true then lowerBucketLimit s.growTree.2 bucket else s.growTree
  else (true, s)
termination_by s.bucketLimit
decreasing_by
  rw [growTree_bucketLimit s _hr]
  omega

/-! ## `malloc` -/

/-- The initialization at the first call of `malloc`. -/
def initHeap (s : Heap) : Heap :=
  let r := s.sbrk 0
  let s := { r.2 with basePtr := r.1, maxPtr := r.1 }
  let s := { s with bucketLimit := bucketCount - 1 }
  let s := (s.updateMaxPtr (s.basePtr + sizeofListT)).2
  let mem := listInit s.mem (s.bucket (bucketCount - 1))
  { s with mem := listPush mem (s.bucket (bucketCount - 1)) s.basePtr }

/-- The loop of `malloc` that splits a node, with `n` rounds to go. -/
def splitDown (s : Heap) : ℕ → ℕ → ℕ → Heap
  | 0, _, _ => s
  | n + 1, i, bucket =>
      let i := i * 2 + 1
      let bucket := bucket + 1
      let s := s.flipParentIsSplit i
      let mem := listPush s.mem (s.bucket bucket) (s.ptrForNode (i + 1) bucket)
      splitDown { s with mem := mem } n i bucket

/-- The part of `malloc` from the block that was found to the result. -/
def place (s : Heap) (request : UInt32) (originalBucket bucket : ℕ) (ptr : UInt32) : UInt32 × Heap :=
  let size := (1 : UInt32) <<< UInt32.ofNat (maxAllocLog2 - bucket)
  let bytesNeeded := if bucket < originalBucket then size / 2 + sizeofListT else size
  let r := s.updateMaxPtr (ptr + bytesNeeded)
  if ¬ r.1 then (0, { r.2 with mem := listPush r.2.mem (r.2.bucket bucket) ptr })
  else
    let s := r.2
    let i := s.nodeForPtr ptr bucket
    let s := if i ≠ 0 then s.flipParentIsSplit i else s
    let s := s.splitDown (originalBucket - bucket) i bucket
    (ptr + headerSize, { s with mem := setPrev s.mem ptr request })

/-- The loop of `malloc` that looks for a block, for the buckets below `n`. -/
def mallocFrom (request : UInt32) (originalBucket : ℕ) : ℕ → Heap → UInt32 × Heap
  | 0, s => (0, s)
  | bucket + 1, s =>
      let r := s.lowerBucketLimit bucket
      if ¬ r.1 then (0, r.2)
      else
        let s := r.2
        let found := listPop s.mem (s.bucket bucket)
        let s := { s with mem := found.2 }
        if found.1 = 0 then
          if bucket ≠ s.bucketLimit ∨ bucket = 0 then mallocFrom request originalBucket bucket s
          else
            let r := s.lowerBucketLimit (bucket - 1)
            if ¬ r.1 then (0, r.2)
            else
              let s := r.2
              let found := listPop s.mem (s.bucket bucket)
              place { s with mem := found.2 } request originalBucket bucket found.1
        else place s request originalBucket bucket found.1

/-- `malloc`. -/
def malloc (s : Heap) (request : UInt32) : UInt32 × Heap :=
  if request + headerSize > maxAlloc then (0, s)
  else
    let s := if s.basePtr = 0 then s.initHeap else s
    let bucket := bucketForRequest (request + headerSize)
    mallocFrom request bucket (bucket + 1) s

/-! ## `free` -/

/-- The loop of `free`: the node and its bucket after merging. -/
def mergeUp (s : Heap) (i bucket : ℕ) : Heap × ℕ × ℕ :=
  if _h : i = 0 then (s, i, bucket)
  else
    let s := s.flipParentIsSplit i
    if s.parentIsSplit i ∨ bucket = s.bucketLimit then (s, i, bucket)
    else
      let mem := listRemove s.mem (s.ptrForNode (((i - 1) ^^^ 1) + 1) bucket)
      mergeUp { s with mem := mem } ((i - 1) / 2) (bucket - 1)
termination_by i
decreasing_by omega

/-- `free`. -/
def free (s : Heap) (ptr : UInt32) : Heap :=
  if ptr = 0 then s
  else
    let ptr := ptr - headerSize
    let bucket := bucketForRequest ((s.mem ptr).prev + headerSize)
    let r := s.mergeUp (s.nodeForPtr ptr bucket) bucket
    { r.1 with mem := listPush r.1.mem (r.1.bucket r.2.2) (r.1.ptrForNode r.2.1 r.2.2) }

end Heap
end GrubKernel
