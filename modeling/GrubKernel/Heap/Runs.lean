import GrubKernel.Heap.Partition

/-!
# Runs of the heap

* `Granted.keep`, `Granted.add`, `Granted.release`, `Granted.write` — what the operations do to the
  pointers.
* `HeapReach`, `HeapRun` — the states after calls of `malloc` and `free` with any requests, and with
  bounded ones; in between, owners write to their blocks.
* **`HeapReach.inv`** — in every run the heap is a buddy tree.
* **`heap_sound`** — after every call of a run the heap is sound.
-/

namespace GrubKernel

open BuddyTree LinkRing Status RangeList

variable {s : Heap} {st st' : ℕ → Status} {mem mem' : UInt32 → ListT} {i : ℕ}
  {allocs : List (UInt32 × UInt32)}

/-! ## Pointers -/

lemma Granted.keep (ho : Granted mem st allocs) (hkeeps : Keeps mem st none mem' st' none) :
    Granted mem' st' allocs := by
  refine ⟨fun e he => ?_, fun j hj => ho.all j ((hkeeps.same j).mp ⟨hj, by simp⟩).1, ho.nodup⟩
  obtain ⟨j, hj, hptr, hlevel, hhead⟩ := ho.block e he
  obtain ⟨hj', -⟩ := (hkeeps.same j).mpr ⟨hj, by simp⟩
  refine ⟨j, hj', hptr, hlevel, ?_⟩
  rw [hkeeps.cell j hj (by simp)]
  exact hhead

/-- **A new block is granted.** -/
lemma Granted.add (ho : Granted mem st allocs) (h : Represents s st')
    (hkeeps : Keeps mem st none s.mem st' (some i)) (hi : st' i = live) {request : UInt32}
    (hlevel : level i = bucketForRequest (request + headerSize))
    (hhead : (s.mem (addr i)).prev = request) :
    Granted s.mem st' ((addr i + headerSize, request) :: allocs) := by
  refine ⟨fun e he => ?_, fun j hj => ?_, ?_⟩
  · rcases List.mem_cons.mp he with rfl | he
    · exact ⟨i, hi, rfl, hlevel, hhead⟩
    · obtain ⟨j, hj, hptr, hlevel', hhead'⟩ := ho.block e he
      obtain ⟨hj', -⟩ := (hkeeps.same j).mpr ⟨hj, by simp⟩
      refine ⟨j, hj', hptr, hlevel', ?_⟩
      rw [hkeeps.cell j hj (by simp)]
      exact hhead'
  · rw [List.map_cons]
    by_cases hji : j = i
    · rw [hji]
      exact List.mem_cons_self
    · obtain ⟨hj', -⟩ := (hkeeps.same j).mp ⟨hj, by simp [hji]⟩
      exact List.mem_cons_of_mem _ (ho.all j hj')
  · rw [List.map_cons]
    refine List.nodup_cons.mpr ⟨fun hmem => ?_, ho.nodup⟩
    obtain ⟨e, he, heq⟩ := List.mem_map.mp hmem
    obtain ⟨j, hj, hptr, -⟩ := ho.block e he
    obtain ⟨hj', hne⟩ := (hkeeps.same j).mpr ⟨hj, by simp⟩
    have haddr := h.addr_ne (Or.inr hj') (Or.inr hi) fun hji => hne (congrArg some hji)
    rw [hptr] at heq
    exact haddr (add_right_cancel heq)

/-- **A block is released.** -/
lemma Granted.release (ho : Granted mem st allocs) (h : Represents s st)
    (hkeeps : Keeps mem st (some i) mem' st' none) (hi : st i = live) {e : UInt32 × UInt32}
    (he : e ∈ allocs) (hptr : e.1 = addr i + headerSize) : Granted mem' st' (allocs.erase e) := by
  have hallocs : allocs.Nodup := ho.nodup.of_map _
  refine ⟨fun e' he' => ?_, fun j hj => ?_, ho.nodup.sublist (List.erase_sublist.map _)⟩
  · obtain ⟨hne, he'⟩ := hallocs.mem_erase_iff.mp he'
    obtain ⟨j, hj, hptr', hlevel, hhead⟩ := ho.block e' he'
    have hji : some j ≠ some i := by
      intro hji
      rw [Option.some.inj hji, ← hptr] at hptr'
      exact hne (List.inj_on_of_nodup_map ho.nodup he' he hptr')
    obtain ⟨hj', -⟩ := (hkeeps.same j).mpr ⟨hj, hji⟩
    refine ⟨j, hj', hptr', hlevel, ?_⟩
    rw [hkeeps.cell j hj hji]
    exact hhead
  · obtain ⟨hj', hji⟩ := (hkeeps.same j).mp ⟨hj, by simp⟩
    obtain ⟨e', he', heq⟩ := List.mem_map.mp (ho.all j hj')
    refine List.mem_map.mpr ⟨e', hallocs.mem_erase_iff.mpr ⟨?_, he'⟩, heq⟩
    rintro rfl
    have haddr := h.addr_ne (Or.inr hj') (Or.inr hi) fun hji' => hji (congrArg some hji')
    rw [hptr] at heq
    exact haddr (add_right_cancel heq).symm

/-- The address lies in the block of a pointer, behind the header. -/
def InBlock (e : UInt32 × UInt32) (a : UInt32) : Prop :=
  e.1.toNat ≤ a.toNat ∧ a.toNat < (liveSpan e).hi

/-- The address lies in the bytes that were asked for. -/
def InPayload (e : UInt32 × UInt32) (a : UInt32) : Prop :=
  e.1.toNat ≤ a.toNat ∧ a.toNat < e.1.toNat + e.2.toNat

/-- A pointer is behind the header of its block. -/
lemma Granted.block_spec (ho : Granted mem st allocs) (h : Represents s st) {e : UInt32 × UInt32}
    (he : e ∈ allocs) : ∃ i, st i = live ∧ liveSpan e = nodeSpan i ∧
      e.1.toNat = heapStart.toNat + offset i + 8 ∧
      size maxAllocLog2 i = 2 ^ (31 - bucketForRequest (e.2 + headerSize)) := by
  obtain ⟨i, hi, hptr, hlevel, -⟩ := ho.block e he
  have hmax := h.level_le (ne_absent_of_live hi)
  refine ⟨i, hi, ?_, ?_, ?_⟩
  · rw [liveSpan, hptr, UInt32.add_sub_cancel]
    exact blockSpan_addr hmax hlevel
  · rw [hptr, toNat_heapStart]
    exact toNat_addr_add_eight hmax
  · rw [size, hlevel]
    rfl

/-- No block starts inside the block of a pointer, and no list head lies there. -/
lemma Granted.not_inBlock (ho : Granted mem st allocs) (h : Represents s st) {e : UInt32 × UInt32}
    (he : e ∈ allocs) {a : UInt32} (ha : a.toNat < heapStart.toNat ∨ ∃ j, IsBlock st j ∧ a = addr j) :
    ¬ InBlock e a := by
  rintro ⟨hlo, hhi⟩
  obtain ⟨i, hi, hspan, hptr, -⟩ := ho.block_spec h he
  have hblock : IsBlock st i := Or.inr hi
  rw [hspan, nodeSpan] at hhi
  dsimp only at hhi
  rcases ha with ha | ⟨j, hj, rfl⟩
  · omega
  · have haddr := toNat_addr (h.level_le hj.ne_absent)
    rw [← toNat_heapStart] at haddr
    have hcover : Covers maxAllocLog2 i (offset j) := by
      rw [Covers]
      rw [offset] at hhi hptr
      omega
    obtain rfl := h.tree.block_unique maxLevel_le hblock hj hcover (covers_start maxAllocLog2 j)
    omega

/-- The bytes that were asked for lie in the block, unless the request was taken too small. -/
lemma Granted.inBlock_of_inPayload (ho : Granted mem st allocs) (h : Represents s st)
    {e : UInt32 × UInt32} (he : e ∈ allocs) (hr : e.2.toNat ≤ 2 ^ 31 - 8) {a : UInt32}
    (ha : InPayload e a) : InBlock e a := by
  obtain ⟨i, -, hspan, hptr, hsize⟩ := ho.block_spec h he
  have hfit := bucketForRequest_spec hr
  refine ⟨ha.1, ?_⟩
  obtain ⟨-, hhi⟩ := ha
  rw [hspan, nodeSpan]
  dsimp only
  omega

/-- **The owners write to their blocks.** -/
lemma Granted.write (ho : Granted s.mem st allocs) (h : Represents s st)
    (hmem : ∀ a, (∀ e ∈ allocs, ¬ InBlock e a) → mem a = s.mem a) :
    Represents { s with mem := mem } st ∧ Granted mem st allocs := by
  refine ⟨h.write fun x hx => hmem x fun e he => ho.not_inBlock h he ?_,
    ho.keep ⟨fun j => Iff.rfl, fun j hj _ => hmem _ fun e he => ho.not_inBlock h he ?_⟩⟩
  · rcases hx with hx | ⟨j, hj, rfl⟩
    · exact Or.inl hx
    · exact Or.inr ⟨j, Or.inl hj, rfl⟩
  · exact Or.inr ⟨j, Or.inr hj, rfl⟩

/-! ## Calls -/

/-- The pointers after a call of `malloc` that returned `ptr`. -/
def grant (ptr request : UInt32) (allocs : List (UInt32 × UInt32)) : List (UInt32 × UInt32) :=
  if ptr = 0 then allocs else (ptr, request) :: allocs

/-- **A call of `malloc`** whose size passes the check. -/
lemma Granted.malloc_step (ho : Granted s.mem st allocs) (h : Represents s st) {request : UInt32}
    (hr : ¬ request + headerSize > maxAlloc) : ∃ st', Represents (s.malloc request).2 st' ∧
      Granted (s.malloc request).2.mem st' (grant (s.malloc request).1 request allocs) := by
  rcases h.malloc_spec hr with
    ⟨hnull, st', hrep, hkeeps⟩ | ⟨st', i, hptr, hrep, hi, hlevel, hhead, hkeeps⟩
  · refine ⟨st', hrep, ?_⟩
    rw [grant, if_pos hnull]
    exact ho.keep hkeeps
  · have hne := addr_add_header_ne_zero (hrep.level_le (ne_absent_of_live hi))
    refine ⟨st', hrep, ?_⟩
    rw [grant, hptr, if_neg hne]
    exact ho.add hrep hkeeps hi hlevel hhead

/-- **A call of `free`.** -/
lemma Granted.free_step (ho : Granted s.mem st allocs) (h : Represents s st) {e : UInt32 × UInt32}
    (he : e ∈ allocs) : ∃ st', Represents (s.free e.1) st' ∧
      Granted (s.free e.1).mem st' (allocs.erase e) := by
  obtain ⟨i, hi, hptr, hlevel, hhead⟩ := ho.block e he
  obtain ⟨st', hrep, hkeeps⟩ := h.free_spec hi (by rw [hhead, hlevel])
  rw [← hptr] at hrep hkeeps
  exact ⟨st', hrep, ho.release h hkeeps hi he hptr⟩

/-- Nothing is granted when the tree starts. -/
lemma granted_initHeap (image : KernelImage) (mem : UInt32 → ListT) :
    Granted (Heap.start image mem).initHeap.mem firstTree [] := by
  refine ⟨fun e he => absurd he List.not_mem_nil, fun i hi => absurd hi ?_, List.nodup_nil⟩
  rw [firstTree_apply]
  split_ifs
  · decide
  · decide

/-! ## Runs -/

/-- The states that are reached, with the pointers that were granted and not freed yet, each with its
request.  Requests are any words, and between the calls the owners may write to their blocks. -/
inductive HeapReach (image : KernelImage) : Heap → List (UInt32 × UInt32) → Prop where
  | start (mem : UInt32 → ListT) : HeapReach image (Heap.start image mem) []
  | malloc {s : Heap} {allocs : List (UInt32 × UInt32)} {request : UInt32}
      (h : HeapReach image s allocs) :
      HeapReach image (s.malloc request).2 (grant (s.malloc request).1 request allocs)
  | free {s : Heap} {allocs : List (UInt32 × UInt32)} {e : UInt32 × UInt32} (h : HeapReach image s allocs)
      (he : e ∈ allocs) : HeapReach image (s.free e.1) (allocs.erase e)
  | write {s : Heap} {allocs : List (UInt32 × UInt32)} {mem : UInt32 → ListT}
      (h : HeapReach image s allocs) (hmem : ∀ a, (∀ e ∈ allocs, ¬ InBlock e a) → mem a = s.mem a) :
      HeapReach image { s with mem := mem } allocs

/-- The states that are reached with requests of at most `2 ^ 31 - 8` bytes.  Between the calls the bytes
that were asked for may change. -/
inductive HeapRun (image : KernelImage) : Heap → List (UInt32 × UInt32) → Prop where
  | start (mem : UInt32 → ListT) : HeapRun image (Heap.start image mem) []
  | malloc {s : Heap} {allocs : List (UInt32 × UInt32)} {request : UInt32} (h : HeapRun image s allocs)
      (hr : request.toNat ≤ 2 ^ 31 - 8) :
      HeapRun image (s.malloc request).2 (grant (s.malloc request).1 request allocs)
  | free {s : Heap} {allocs : List (UInt32 × UInt32)} {e : UInt32 × UInt32} (h : HeapRun image s allocs)
      (he : e ∈ allocs) : HeapRun image (s.free e.1) (allocs.erase e)
  | write {s : Heap} {allocs : List (UInt32 × UInt32)} {mem : UInt32 → ListT}
      (h : HeapRun image s allocs) (hmem : ∀ a, (∀ e ∈ allocs, ¬ InPayload e a) → mem a = s.mem a) :
      HeapRun image { s with mem := mem } allocs

variable {image : KernelImage} {request : UInt32}

/-- The heap is as at the start, or it is a buddy tree. -/
def HeapInv (image : KernelImage) (s : Heap) (allocs : List (UInt32 × UInt32)) : Prop :=
  (∃ mem, s = Heap.start image mem ∧ allocs = []) ∨ ∃ st, Represents s st ∧ Granted s.mem st allocs

/-- A request that does not pass the check changes nothing. -/
lemma malloc_of_gt (hr : request + headerSize > maxAlloc) : s.malloc request = (0, s) := by
  rw [Heap.malloc, if_pos hr]

/-- **After a call whose size passes the check** there is a tree. -/
lemma HeapInv.malloc_step (h : HeapInv image s allocs) (hr : ¬ request + headerSize > maxAlloc) :
    ∃ st', Represents (s.malloc request).2 st' ∧
      Granted (s.malloc request).2.mem st' (grant (s.malloc request).1 request allocs) := by
  rcases h with ⟨mem, rfl, rfl⟩ | ⟨st, hrep, ho⟩
  · rw [malloc_start image mem hr]
    exact (granted_initHeap image mem).malloc_step (represents_initHeap image mem) hr
  · exact ho.malloc_step hrep hr

lemma HeapInv.malloc (h : HeapInv image s allocs) (request : UInt32) :
    HeapInv image (s.malloc request).2 (grant (s.malloc request).1 request allocs) := by
  by_cases hr : request + headerSize > maxAlloc
  · rw [malloc_of_gt hr, grant, if_pos rfl]
    exact h
  · exact Or.inr (h.malloc_step hr)

lemma HeapInv.free_step (h : HeapInv image s allocs) {e : UInt32 × UInt32} (he : e ∈ allocs) :
    ∃ st', Represents (s.free e.1) st' ∧ Granted (s.free e.1).mem st' (allocs.erase e) := by
  rcases h with ⟨mem, rfl, rfl⟩ | ⟨st, hrep, ho⟩
  · exact absurd he List.not_mem_nil
  · exact ho.free_step hrep he

lemma HeapInv.write (h : HeapInv image s allocs)
    (hmem : ∀ a, (∀ e ∈ allocs, ¬ InBlock e a) → mem a = s.mem a) :
    HeapInv image { s with mem := mem } allocs := by
  rcases h with ⟨mem₀, rfl, rfl⟩ | ⟨st, hrep, ho⟩
  · exact Or.inl ⟨mem, rfl, rfl⟩
  · exact Or.inr ⟨st, ho.write hrep hmem⟩

/-- **In every run the heap is a buddy tree**, from the first call that passes the check on. -/
theorem HeapReach.inv (h : HeapReach image s allocs) : HeapInv image s allocs := by
  induction h with
  | start mem => exact Or.inl ⟨mem, rfl, rfl⟩
  | malloc h ih => exact ih.malloc _
  | free h he ih => exact Or.inr (ih.free_step he)
  | write h hmem ih => exact ih.write hmem

/-- What holds of the requests so far and of the new one holds of all after the call. -/
lemma forall_grant {P : UInt32 → Prop} {ptr : UInt32} (hr : P request)
    (h : ∀ e ∈ allocs, P e.2) : ∀ e ∈ grant ptr request allocs, P e.2 := by
  intro e he
  unfold grant at he
  split_ifs at he
  · exact h e he
  · rcases List.mem_cons.mp he with rfl | he
    · exact hr
    · exact h e he

/-- **The runs with bounded requests** are among all runs. -/
theorem HeapRun.reach (h : HeapRun image s allocs) :
    HeapReach image s allocs ∧ ∀ e ∈ allocs, e.2.toNat ≤ 2 ^ 31 - 8 := by
  induction h with
  | start mem => exact ⟨HeapReach.start mem, fun e he => absurd he List.not_mem_nil⟩
  | malloc h hr ih =>
      exact ⟨ih.1.malloc, forall_grant (P := fun r => r.toNat ≤ 2 ^ 31 - 8) hr ih.2⟩
  | free h he ih => exact ⟨ih.1.free he, fun e' he' => ih.2 e' (List.mem_of_mem_erase he')⟩
  | @write s allocs mem h hmem ih =>
      refine ⟨ih.1.write fun a ha => hmem a fun e he hin => ha e he ?_, ih.2⟩
      rcases ih.1.inv with ⟨mem₀, rfl, rfl⟩ | ⟨st, hrep, ho⟩
      · exact absurd he List.not_mem_nil
      · exact ho.inBlock_of_inPayload hrep he (ih.2 e he) hin

/-- **After every call of a run the heap is sound.** -/
theorem heap_sound (h : HeapRun image s allocs) :
    (∀ request : UInt32, request.toNat ≤ 2 ^ 31 - 8 →
      ∃ lists, HeapSound (s.malloc request).2 (grant (s.malloc request).1 request allocs) lists) ∧
    ∀ e ∈ allocs, ∃ lists, HeapSound (s.free e.1) (allocs.erase e) lists := by
  obtain ⟨hreach, hbound⟩ := h.reach
  refine ⟨fun request hr => ?_, fun e he => ?_⟩
  · obtain ⟨st', hrep, ho⟩ := hreach.inv.malloc_step (not_gt_maxAlloc hr)
    exact hrep.sound (owned_iff.mpr ⟨ho, (h.malloc hr).reach.2⟩)
  · obtain ⟨st', hrep, ho⟩ := hreach.inv.free_step he
    exact hrep.sound (owned_iff.mpr ⟨ho, (h.free he).reach.2⟩)

/-- A kernel image with `buckets` above the first MiB, and a memory of zeros. -/
def zeroedHeap : Heap := Heap.start ⟨0x120000, by decide⟩ fun _ => ⟨0, 0⟩

/-- After a call of `malloc` for 100 bytes, both for one more block and for the release of the first. -/
theorem heap_sound_example : (zeroedHeap.malloc 100).1 = 52428808 ∧
    (∃ lists, HeapSound ((zeroedHeap.malloc 100).2.malloc 200).2
      (grant ((zeroedHeap.malloc 100).2.malloc 200).1 200 [(52428808, 100)]) lists) ∧
    ∃ lists, HeapSound ((zeroedHeap.malloc 100).2.free 52428808) [] lists := by
  have hptr : (zeroedHeap.malloc 100).1 = 52428808 := by decide +kernel
  have hne : (52428808 : UInt32) ≠ 0 := by decide
  have hstart : HeapRun zeroedHeap.image zeroedHeap [] := HeapRun.start zeroedHeap.mem
  have hrun := hstart.malloc (show (100 : UInt32).toNat ≤ 2 ^ 31 - 8 by decide)
  rw [hptr, grant, if_neg hne] at hrun
  have hsound := heap_sound hrun
  refine ⟨hptr, hsound.1 200 (by decide), ?_⟩
  have hfree := hsound.2 (52428808, 100) (List.mem_singleton_self _)
  rwa [List.erase_cons_head] at hfree

end GrubKernel
