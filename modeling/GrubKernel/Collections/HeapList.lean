import GrubKernel.Collections.DeleteList
import GrubKernel.Heap.Completeness
import GrubKernel.Heap.Contents

/-!
# Lists on the heap

`linked_list.c` takes its nodes from the heap of the kernel.  Here both share one memory: the operations of
the list are the writes of other owners between the calls of `malloc` and `free`, and what the heap writes
must spare the nodes.

* `HeapList`, `HeapList.addToList`, `HeapList.deleteList` — the operations over the memory of the heap.
* `Follows` — after any stores to nodes, the memory looks as the list of `LinkedList` does.
* `Owned` — the granted blocks are those of the nodes and those of the others.
* `ListRun` — runs in which calls for the list and calls of others alternate in any order.
* **`heapList_spec`** — in every run the list holds its entries, and deleting it gives back exactly its
  nodes.
-/

namespace GrubKernel

open BuddyTree LinkRing LinkedList Status RangeList

variable {image : KernelImage} {allocs : List (UInt32 × UInt32)}

/-- `sizeof(linked_list_item_t)`. -/
def sizeofLinkedListItem : UInt32 := 12

/-- A node in the memory of the heap: its links are the cell at its address, and its payload is the first
word of the next cell. -/
def nodeAt (mem : UInt32 → ListT) (a : UInt32) : LinkedListItem :=
  ⟨(mem a).prev, (mem a).next, (mem (a + 8)).prev⟩

/-- The heap and a list pointer.  `NULL` is `0`. -/
structure HeapList where
  heap : Heap
  linkedList : UInt32

namespace HeapList

/-! ## The operations -/

/-- The list that the nodes in memory make. -/
def list (s : HeapList) : LinkedList := ⟨nodeAt s.heap.mem, s.linkedList⟩

/-- `a->prev = b`. -/
def storePrev (s : HeapList) (a b : UInt32) : HeapList :=
  { s with heap := { s.heap with mem := setPrev s.heap.mem a b } }

/-- `a->next = b`. -/
def storeNext (s : HeapList) (a b : UInt32) : HeapList :=
  { s with heap := { s.heap with mem := setNext s.heap.mem a b } }

/-- `a->payload = p`. -/
def storePayload (s : HeapList) (a p : UInt32) : HeapList :=
  { s with heap := { s.heap with mem := setPrev s.heap.mem (a + 8) p } }

/-- `free(a)`. -/
def free (s : HeapList) (a : UInt32) : HeapList := { s with heap := s.heap.free a }

/-- `add_to_list` after its call of `malloc`. -/
def link (s : HeapList) (ptr payload : UInt32) : ℤ × HeapList :=
  if ptr = 0 then (-1, s)
  else if s.linkedList = 0 then
    let s := { s with linkedList := ptr }
    let s := s.storeNext s.linkedList s.linkedList
    let s := s.storePrev s.linkedList s.linkedList
    (0, s.storePayload s.linkedList payload)
  else
    let new := ptr
    let s := s.storeNext new s.linkedList
    let s := s.storePrev new (nodeAt s.heap.mem s.linkedList).prev
    let s := s.storeNext (nodeAt s.heap.mem s.linkedList).prev new
    let s := s.storePrev s.linkedList new
    (0, s.storePayload new payload)

/-- `add_to_list`. -/
def addToList (s : HeapList) (payload : UInt32) : ℤ × HeapList :=
  let r := s.heap.malloc sizeofLinkedListItem
  { s with heap := r.2 }.link r.1 payload

/-- The loop of `delete_list`, for at most `n` rounds.  It returns the cursor. -/
def deleteFrom : ℕ → UInt32 → HeapList → Option (UInt32 × HeapList)
  | 0, _, _ => none
  | n + 1, ptr, s =>
      if (nodeAt s.heap.mem ptr).next ≠ 0 then
        let ptr := (nodeAt s.heap.mem ptr).next
        let s := s.free (nodeAt s.heap.mem ptr).prev
        deleteFrom n ptr (s.storePrev ptr 0)
      else some (ptr, s)

/-- `delete_list`. -/
def deleteList (s : HeapList) (n : ℕ) : Option HeapList :=
  if s.linkedList = 0 then some s
  else if (nodeAt s.heap.mem s.linkedList).next = s.linkedList then
    let s := s.free s.linkedList
    some { s with linkedList := 0 }
  else
    let ptr := s.linkedList
    let s := s.storeNext (nodeAt s.heap.mem ptr).prev 0
    let s := s.storePrev ptr 0
    (deleteFrom n ptr s).map fun r => { r.2.free r.1 with linkedList := 0 }

end HeapList

@[simp] lemma HeapList.storePrev_linkedList (s : HeapList) (a b : UInt32) :
    (s.storePrev a b).linkedList = s.linkedList := rfl

@[simp] lemma HeapList.storeNext_linkedList (s : HeapList) (a b : UInt32) :
    (s.storeNext a b).linkedList = s.linkedList := rfl

/-! ## Stores to nodes -/

/-- No node is where the payload of a node is. -/
def Spaced (nodes : Set UInt32) : Prop := ∀ a ∈ nodes, ∀ b ∈ nodes, a + 8 ≠ b

/-- After stores to nodes, starting from the heap `h`: the list in memory is `l`, as far as the nodes go,
and nothing but nodes has changed. -/
structure Follows (nodes : Set UInt32) (h : Heap) (s : HeapList) (l : LinkedList) : Prop where
  pointer : s.linkedList = l.linkedList
  node : ∀ a ∈ nodes, nodeAt s.heap.mem a = l.mem a
  same : s.heap = { h with mem := s.heap.mem }
  off : ∀ x, (∀ a ∈ nodes, x ≠ a ∧ x ≠ a + 8) → s.heap.mem x = h.mem x

variable {nodes : Set UInt32} {h : Heap} {s : HeapList} {l : LinkedList} {a b : UInt32}

lemma Follows.refl (nodes : Set UInt32) (s : HeapList) : Follows nodes s.heap s s.list :=
  ⟨rfl, fun _ _ => rfl, rfl, fun _ _ => rfl⟩

lemma Follows.storeNext (hf : Follows nodes h s l) (ha : a ∈ nodes) (b : UInt32) :
    Follows nodes h (s.storeNext a b) (l.storeNext a b) := by
  refine ⟨hf.pointer, fun x hx => ?_, ?_, fun x hx => ?_⟩
  · have hnode := hf.node x hx
    show nodeAt (setNext s.heap.mem a b) x = Function.update l.mem a _ x
    rw [nodeAt, setNext_prev, setNext_next, setNext_prev, Function.update_apply]
    split_ifs with heq
    · rw [← heq, ← hnode, nodeAt]
    · exact hnode
  · show ({ s.heap with mem := _ } : Heap) = _
    rw [hf.same]
    rfl
  · exact (Function.update_of_ne (hx a ha).1 _ _).trans (hf.off x hx)

lemma Follows.storePrev (hf : Follows nodes h s l) (hspaced : Spaced nodes) (ha : a ∈ nodes)
    (b : UInt32) : Follows nodes h (s.storePrev a b) (l.storePrev a b) := by
  refine ⟨hf.pointer, fun x hx => ?_, ?_, fun x hx => ?_⟩
  · have hnode := hf.node x hx
    show nodeAt (setPrev s.heap.mem a b) x = Function.update l.mem a _ x
    rw [nodeAt, setPrev_prev, setPrev_next, setPrev_prev, if_neg (hspaced x hx a ha),
      Function.update_apply]
    split_ifs with heq
    · rw [← heq, ← hnode, nodeAt]
    · exact hnode
  · show ({ s.heap with mem := _ } : Heap) = _
    rw [hf.same]
    rfl
  · exact (Function.update_of_ne (hx a ha).1 _ _).trans (hf.off x hx)

lemma Follows.storePayload (hf : Follows nodes h s l) (hspaced : Spaced nodes) (ha : a ∈ nodes)
    (p : UInt32) : Follows nodes h (s.storePayload a p) (l.storePayload a p) := by
  refine ⟨hf.pointer, fun x hx => ?_, ?_, fun x hx => ?_⟩
  · have hnode := hf.node x hx
    show nodeAt (setPrev s.heap.mem (a + 8) p) x = Function.update l.mem a _ x
    rw [nodeAt, setPrev_prev, if_neg (hspaced a ha x hx).symm, setPrev_next, setPrev_prev,
      Function.update_apply]
    by_cases heq : x = a
    · rw [heq, if_pos rfl, if_pos rfl, ← heq, ← hnode, nodeAt]
    · rw [if_neg fun h8 => heq (add_right_cancel h8), if_neg heq]
      exact hnode
  · show ({ s.heap with mem := _ } : Heap) = _
    rw [hf.same]
    rfl
  · exact (Function.update_of_ne (hx a ha).2 _ _).trans (hf.off x hx)

/-- **Linking a node in** is what `add_to_list` does. -/
lemma Follows.link (hf : Follows nodes h s l) (hspaced : Spaced nodes) {ptr : UInt32} (hptr : ptr ∈ nodes)
    (hlist : l.linkedList ≠ 0 → l.linkedList ∈ nodes ∧ l.linkedList ≠ ptr ∧
      (l.mem l.linkedList).prev ∈ nodes) (payload : UInt32) :
    Follows nodes h (s.link ptr payload).2 (l.addToList ptr payload).2 := by
  unfold HeapList.link LinkedList.addToList
  by_cases hnull : ptr = 0
  · rw [if_pos hnull, if_pos hnull]
    exact hf
  · rw [if_neg hnull, if_neg hnull, hf.pointer]
    by_cases hempty : l.linkedList = 0
    · rw [if_pos hempty, if_pos hempty]
      have hset : Follows nodes h { s with linkedList := ptr } { l with linkedList := ptr } :=
        ⟨rfl, hf.node, hf.same, hf.off⟩
      exact ((hset.storeNext hptr ptr).storePrev hspaced hptr ptr).storePayload hspaced hptr payload
    · obtain ⟨hhead, hne, hprev⟩ := hlist hempty
      have hnew := hf.storeNext hptr l.linkedList
      have hback := hnew.storePrev hspaced hptr ((l.storeNext ptr l.linkedList).mem l.linkedList).prev
      have hlast := congrArg LinkedListItem.prev (hnew.node _ hhead)
      have hlast' := congrArg LinkedListItem.prev (hback.node _ hhead)
      -- the writes to the new node do not touch the first one
      have hsame : (((l.storeNext ptr l.linkedList).storePrev ptr
          ((l.storeNext ptr l.linkedList).mem l.linkedList).prev).mem l.linkedList).prev
          = (l.mem l.linkedList).prev := by
        show (LinkedList.links _ l.linkedList).prev = (l.links l.linkedList).prev
        rw [links_storePrev, setPrev_prev, if_neg hne, links_storeNext, setNext_prev]
      rw [← hsame] at hprev
      have hdone := ((hback.storeNext hprev ptr).storePrev hspaced hhead ptr).storePayload hspaced hptr payload
      rw [if_neg hempty, if_neg hempty]
      dsimp only
      simp only [HeapList.storeNext_linkedList, HeapList.storePrev_linkedList, storeNext_linkedList,
        storePrev_linkedList, hf.pointer]
      rw [hlast, hlast']
      exact hdone

/-! ## Blocks of nodes -/

/-- **The block of a node** has room for its cells. -/
lemma HeapReach.inBlock_node (hreach : HeapReach image h allocs) (ha : (a, sizeofLinkedListItem) ∈ allocs) :
    InBlock (a, sizeofLinkedListItem) a ∧ InBlock (a, sizeofLinkedListItem) (a + 8) := by
  rcases hreach.inv with ⟨mem, rfl, rfl⟩ | ⟨st, hrep, ho⟩
  · exact absurd ha List.not_mem_nil
  · obtain ⟨i, hi, hspan, hptr, hsize⟩ := ho.block_spec hrep ha
    have hbytes : 2 ^ (31 - bucketForRequest (sizeofLinkedListItem + headerSize)) = 32 := by decide
    have hle := offset_add_size_le (hrep.level_le (ne_absent_of_live hi))
    have height : (8 : UInt32).toNat = 8 := rfl
    dsimp only at hptr hsize
    rw [hbytes] at hsize
    have hstart := toNat_heapStart
    have hnext : (a + 8).toNat = a.toNat + 8 := by
      rw [UInt32.toNat_add, height]
      omega
    rw [InBlock, InBlock, hspan, nodeSpan, hnext]
    dsimp only
    omega

/-- Granted blocks do not overlap. -/
lemma HeapReach.inBlock_unique (hreach : HeapReach image h allocs) {e e' : UInt32 × UInt32} (he : e ∈ allocs)
    (he' : e' ∈ allocs) {x : UInt32} (hx : InBlock e x) (hx' : InBlock e' x) : e.1 = e'.1 := by
  rcases hreach.inv with ⟨mem, rfl, rfl⟩ | ⟨st, hrep, ho⟩
  · exact absurd he List.not_mem_nil
  · obtain ⟨k, hk, hptr, -, hin⟩ := ho.inside hrep he
    obtain ⟨k', hk', hptr', -, hin'⟩ := ho.inside hrep he'
    have hcovers : ∀ j, Inside j x → Covers maxAllocLog2 j (x.toNat - heapStart.toNat) := by
      rintro j ⟨hlo, hhi⟩
      rw [Covers, ← offset]
      omega
    rw [hptr, hptr', hrep.tree.block_unique maxLevel_le (Or.inr hk) (Or.inr hk') (hcovers k (hin x hx))
      (hcovers k' (hin' x hx'))]

lemma HeapReach.nodup (hreach : HeapReach image h allocs) : (allocs.map Prod.fst).Nodup := by
  rcases hreach.inv with ⟨mem, rfl, rfl⟩ | ⟨st, hrep, ho⟩
  · exact List.nodup_nil
  · exact ho.nodup

lemma HeapReach.ne_null (hreach : HeapReach image h allocs) {e : UInt32 × UInt32} (he : e ∈ allocs) :
    e.1 ≠ 0 := by
  rcases hreach.inv with ⟨mem, rfl, rfl⟩ | ⟨st, hrep, ho⟩
  · exact absurd he List.not_mem_nil
  · obtain ⟨i, hi, hptr, -⟩ := ho.block e he
    rw [hptr]
    exact addr_add_header_ne_zero (hrep.level_le (ne_absent_of_live hi))

section Nodes

variable (hreach : HeapReach image h allocs) (hnodes : ∀ a ∈ nodes, (a, sizeofLinkedListItem) ∈ allocs)
include hreach hnodes

/-- Nodes are spaced. -/
lemma HeapReach.spaced : Spaced nodes := by
  intro a ha b hb heq
  have hin := (hreach.inBlock_node (hnodes a ha)).2
  rw [heq] at hin
  have hab : a = b := hreach.inBlock_unique (hnodes a ha) (hnodes b hb) hin
    (hreach.inBlock_node (hnodes b hb)).1
  rw [hab] at heq
  exact absurd (add_eq_left.mp heq) (by decide)

/-- Stores to nodes are writes of their owner. -/
lemma HeapReach.follows (hf : Follows nodes h s l) : HeapReach image s.heap allocs := by
  rw [hf.same]
  refine hreach.write fun x hx => hf.off x fun a ha => ⟨?_, ?_⟩
  · rintro rfl
    exact hx _ (hnodes x ha) (hreach.inBlock_node (hnodes x ha)).1
  · rintro rfl
    exact hx _ (hnodes a ha) (hreach.inBlock_node (hnodes a ha)).2

/-- Stores to nodes leave the blocks of others alone. -/
lemma Follows.others (hf : Follows nodes h s l) {e : UInt32 × UInt32} (he : e ∈ allocs) (hout : e.1 ∉ nodes)
    {x : UInt32} (hx : InBlock e x) : s.heap.mem x = h.mem x := by
  refine hf.off x fun a ha => ⟨?_, ?_⟩
  · rintro rfl
    have heq : e.1 = x := hreach.inBlock_unique he (hnodes x ha) hx (hreach.inBlock_node (hnodes x ha)).1
    exact hout (heq ▸ ha)
  · rintro rfl
    have heq : e.1 = a := hreach.inBlock_unique he (hnodes a ha) hx (hreach.inBlock_node (hnodes a ha)).2
    exact hout (heq ▸ ha)

end Nodes

/-! ## What the list and the others own -/

/-- The blocks of the others hold what they held. -/
def Untouched (foreign : List (UInt32 × UInt32)) (mem mem' : UInt32 → ListT) : Prop :=
  ∀ e ∈ foreign, ∀ x, InBlock e x → mem' x = mem x

lemma Untouched.trans {foreign : List (UInt32 × UInt32)} {m₁ m₂ m₃ : UInt32 → ListT}
    (h₁ : Untouched foreign m₁ m₂) (h₂ : Untouched foreign m₂ m₃) : Untouched foreign m₁ m₃ :=
  fun e he x hx => (h₂ e he x hx).trans (h₁ e he x hx)

/-- A granted node is as before where its block is untouched. -/
lemma nodeAt_untouched (hreach : HeapReach image h allocs) (ha : (a, sizeofLinkedListItem) ∈ allocs)
    {mem : UInt32 → ListT} (hmem : ∀ x, InBlock (a, sizeofLinkedListItem) x → mem x = h.mem x) :
    nodeAt mem a = nodeAt h.mem a := by
  obtain ⟨hlinks, hpayload⟩ := hreach.inBlock_node ha
  rw [nodeAt, nodeAt, hmem _ hlinks, hmem _ hpayload]

/-- The blocks of nodes. -/
def nodeBlocks (nodes : List UInt32) : List (UInt32 × UInt32) := nodes.map fun a => (a, sizeofLinkedListItem)

lemma mem_nodeBlocks {ns : List UInt32} : (a, sizeofLinkedListItem) ∈ nodeBlocks ns ↔ a ∈ ns := by
  rw [nodeBlocks, List.mem_map]
  exact ⟨fun ⟨b, hb, heq⟩ => (Prod.mk.inj heq).1 ▸ hb, fun ha => ⟨a, ha, rfl⟩⟩

/-- **What is granted**: the nodes `ns`, and the blocks of the others. -/
def Granting (image : KernelImage) (h : Heap) (ns : List UInt32) (foreign : List (UInt32 × UInt32)) : Prop :=
  ∃ allocs, HeapReach image h allocs ∧ allocs.Perm (nodeBlocks ns ++ foreign)

variable {ns : List UInt32} {foreign : List (UInt32 × UInt32)} {mem : UInt32 → ListT}

/-- A node is not a block of the others. -/
lemma Granting.out (hreach : HeapReach image h allocs) (hperm : allocs.Perm (nodeBlocks ns ++ foreign)) :
    ∀ e ∈ foreign, e.1 ∉ ns := by
  intro e he hns
  have hnodup := (hperm.map Prod.fst).nodup_iff.mp hreach.nodup
  rw [List.map_append] at hnodup
  exact (List.nodup_append.mp hnodup).2.2 e.1 (List.mem_map.mpr ⟨_, mem_nodeBlocks.mpr hns, rfl⟩) e.1
    (List.mem_map_of_mem he) rfl

/-- **Stores to nodes** leave the blocks of the others and what is granted as they are. -/
lemma Granting.follows (hg : Granting image h ns foreign) (hf : Follows {a | a ∈ ns} h s l) :
    Granting image s.heap ns foreign ∧ Untouched foreign h.mem s.heap.mem := by
  obtain ⟨allocs, hreach, hperm⟩ := hg
  have hnodes : ∀ a ∈ {a | a ∈ ns}, (a, sizeofLinkedListItem) ∈ allocs :=
    fun a ha => hperm.mem_iff.mpr (List.mem_append_left _ (mem_nodeBlocks.mpr ha))
  refine ⟨⟨allocs, hreach.follows hnodes hf, hperm⟩, fun e he x hx => ?_⟩
  exact hf.others hreach hnodes (hperm.mem_iff.mpr (List.mem_append_right _ he))
    (Granting.out hreach hperm e he) hx

lemma Granting.spaced (hg : Granting image h ns foreign) : Spaced {a | a ∈ ns} := by
  obtain ⟨allocs, hreach, hperm⟩ := hg
  exact hreach.spaced fun a ha => hperm.mem_iff.mpr (List.mem_append_left _ (mem_nodeBlocks.mpr ha))

/-- `malloc` leaves all granted blocks alone. -/
lemma Granting.malloc_kept (hg : Granting image h ns foreign) (request : UInt32) :
    (∀ a ∈ ns, nodeAt (h.malloc request).2.mem a = nodeAt h.mem a) ∧
      Untouched foreign h.mem (h.malloc request).2.mem := by
  obtain ⟨allocs, hreach, hperm⟩ := hg
  have hkept := contents_of_malloc hreach request
  refine ⟨fun a ha => ?_, fun e he => hkept e (hperm.mem_iff.mpr (List.mem_append_right _ he))⟩
  have ha' := hperm.mem_iff.mpr (List.mem_append_left _ (mem_nodeBlocks.mpr ha))
  exact nodeAt_untouched hreach ha' (hkept _ ha')

/-- **Another node is granted**, unless `malloc` fails. -/
lemma Granting.malloc (hg : Granting image h ns foreign) :
    if (h.malloc sizeofLinkedListItem).1 = 0 then
      Granting image (h.malloc sizeofLinkedListItem).2 ns foreign
    else (h.malloc sizeofLinkedListItem).1 ∉ ns ∧ Granting image (h.malloc sizeofLinkedListItem).2
      (ns ++ [(h.malloc sizeofLinkedListItem).1]) foreign := by
  obtain ⟨allocs, hreach, hperm⟩ := hg
  have hnext : HeapReach image (h.malloc sizeofLinkedListItem).2 _ := hreach.malloc
  unfold grant at hnext
  split_ifs with hnull
  · rw [if_pos hnull] at hnext
    exact ⟨allocs, hnext, hperm⟩
  · rw [if_neg hnull] at hnext
    refine ⟨fun hmem => ?_, _, hnext, ?_⟩
    · have hin := hperm.mem_iff.mpr (List.mem_append_left _ (mem_nodeBlocks.mpr hmem))
      exact (List.nodup_cons.mp hnext.nodup).1 (List.mem_map_of_mem hin)
    · rw [nodeBlocks, List.map_append, List.append_assoc]
      exact (hperm.cons _).trans List.perm_middle.symm

/-- The others get a block. -/
lemma Granting.malloc_others (hg : Granting image h ns foreign) (request : UInt32) :
    Granting image (h.malloc request).2 ns (grant (h.malloc request).1 request foreign) := by
  obtain ⟨allocs, hreach, hperm⟩ := hg
  have hnext : HeapReach image (h.malloc request).2 _ := hreach.malloc
  unfold grant at hnext ⊢
  split_ifs at hnext ⊢ with hnull
  · exact ⟨allocs, hnext, hperm⟩
  · exact ⟨_, hnext, (hperm.cons _).trans List.perm_middle.symm⟩

/-- The others free a block of theirs. -/
lemma Granting.free_others (hg : Granting image h ns foreign) {e : UInt32 × UInt32} (he : e ∈ foreign) :
    (∀ a ∈ ns, nodeAt (h.free e.1).mem a = nodeAt h.mem a) ∧
      Granting image (h.free e.1) ns (foreign.erase e) := by
  obtain ⟨allocs, hreach, hperm⟩ := hg
  have hout := Granting.out hreach hperm e he
  have hmem := hperm.mem_iff.mpr (List.mem_append_right _ he)
  refine ⟨fun a ha => ?_, _, hreach.free hmem, ?_⟩
  · have ha' := hperm.mem_iff.mpr (List.mem_append_left _ (mem_nodeBlocks.mpr ha))
    exact nodeAt_untouched hreach ha' (contents_of_free hreach hmem _ ha' fun heq => hout (heq ▸ ha))
  · have herase := hperm.erase e
    rwa [List.erase_append_right] at herase
    intro hin
    obtain ⟨a, ha, rfl⟩ := List.mem_map.mp hin
    exact hout ha

/-- The others write to their blocks. -/
lemma Granting.write_others (hg : Granting image h ns foreign)
    (hmem : ∀ x, (∀ e ∈ foreign, ¬ InBlock e x) → mem x = h.mem x) :
    (∀ a ∈ ns, nodeAt mem a = nodeAt h.mem a) ∧ Granting image { h with mem := mem } ns foreign := by
  obtain ⟨allocs, hreach, hperm⟩ := hg
  refine ⟨fun a ha => ?_, allocs, hreach.write fun x hx => hmem x fun e he => hx e ?_, hperm⟩
  · have ha' := hperm.mem_iff.mpr (List.mem_append_left _ (mem_nodeBlocks.mpr ha))
    refine nodeAt_untouched hreach ha' fun x hx => hmem x fun e he hin => ?_
    have heq : e.1 = a := hreach.inBlock_unique (hperm.mem_iff.mpr (List.mem_append_right _ he)) ha' hin hx
    exact Granting.out hreach hperm e he (heq ▸ ha)
  · exact hperm.mem_iff.mpr (List.mem_append_right _ he)

/-- **A node is freed.** -/
lemma Granting.free (hg : Granting image h (a :: ns) foreign) :
    (∀ b ∈ ns, nodeAt (h.free a).mem b = nodeAt h.mem b) ∧ Untouched foreign h.mem (h.free a).mem ∧
    Granting image (h.free a) ns foreign := by
  obtain ⟨allocs, hreach, hperm⟩ := hg
  have ha : (a, sizeofLinkedListItem) ∈ allocs :=
    hperm.mem_iff.mpr (List.mem_append_left _ (mem_nodeBlocks.mpr List.mem_cons_self))
  have hkept := contents_of_free hreach ha
  have hnodup := (hperm.map Prod.fst).nodup_iff.mp hreach.nodup
  have hne : a ∉ (nodeBlocks ns ++ foreign).map Prod.fst := (List.nodup_cons.mp hnodup).1
  have hothers : ∀ e ∈ nodeBlocks ns ++ foreign, ∀ x, InBlock e x → (h.free a).mem x = h.mem x :=
    fun e he => hkept e (hperm.mem_iff.mpr (List.mem_cons_of_mem _ he))
      fun heq : e.1 = a => hne (heq ▸ List.mem_map_of_mem he)
  refine ⟨fun b hb => ?_, fun e he => hothers e (List.mem_append_right _ he), ?_⟩
  · have hb' := mem_nodeBlocks.mpr hb
    exact nodeAt_untouched hreach (hperm.mem_iff.mpr (List.mem_append_left _ (mem_nodeBlocks.mpr
      (List.mem_cons_of_mem a hb)))) (hothers _ (List.mem_append_left _ hb'))
  · have herase := hperm.erase (a, sizeofLinkedListItem)
    rw [nodeBlocks, List.map_cons, List.cons_append, List.erase_cons_head] at herase
    exact ⟨_, hreach.free ha, herase⟩

/-! ## Adding -/

/-- **The list holds the entries**, and the heap has granted their nodes and the blocks of the others. -/
structure Shares (image : KernelImage) (s : HeapList) (foreign entries : List (UInt32 × UInt32)) : Prop where
  granting : Granting image s.heap (entries.map Prod.fst) foreign
  holds : s.list.Appended entries

/-- The entries after a call of `add_to_list`. -/
def HeapList.appended (s : HeapList) (payload : UInt32) (entries : List (UInt32 × UInt32)) :
    List (UInt32 × UInt32) :=
  if (s.heap.malloc sizeofLinkedListItem).1 = 0 then entries
  else entries ++ [((s.heap.malloc sizeofLinkedListItem).1, payload)]

variable {entries : List (UInt32 × UInt32)}

/-- Where the new node is linked in. -/
lemma appended_head (hl : l.Appended entries) (hlist : l.linkedList ≠ 0) {ptr : UInt32}
    (hptr : ptr ∉ entries.map Prod.fst) : l.linkedList ∈ entries.map Prod.fst ∧ l.linkedList ≠ ptr ∧
      (l.mem l.linkedList).prev ∈ entries.map Prod.fst := by
  have hhead : l.linkedList ∈ entries.map Prod.fst := by
    cases entries with
    | nil => exact absurd hl.nodes hlist
    | cons e es =>
        rw [hl.nodes.1]
        exact List.mem_cons_self
  exact ⟨hhead, fun heq => hptr (heq ▸ hhead), (hl.inverse _ hhead).2.2.1⟩

/-- **One call of `add_to_list`.** -/
theorem Shares.add (hs : Shares image s foreign entries) (payload : UInt32) :
    Shares image (s.addToList payload).2 foreign (s.appended payload entries) ∧
      Untouched foreign s.heap.mem (s.addToList payload).2.heap.mem := by
  obtain ⟨hnode, hothers⟩ := hs.granting.malloc_kept sizeofLinkedListItem
  have hgrant := hs.granting.malloc
  rw [HeapList.addToList, HeapList.appended]
  generalize s.heap.malloc sizeofLinkedListItem = r at hnode hothers hgrant ⊢
  have hlist : (HeapList.list { s with heap := r.2 }).Appended entries := hs.holds.congr rfl hnode
  by_cases hnull : r.1 = 0
  · rw [if_pos hnull] at hgrant ⊢
    rw [HeapList.link, if_pos hnull]
    exact ⟨⟨hgrant, hlist⟩, hothers⟩
  · rw [if_neg hnull] at hgrant ⊢
    obtain ⟨hnew, hgrant⟩ := hgrant
    have hlinked := (Follows.refl {a | a ∈ entries.map Prod.fst ++ [r.1]} { s with heap := r.2 }).link
      hgrant.spaced (List.mem_append_right _ (List.mem_singleton_self _)) (fun hne => by
        obtain ⟨hhead, hother, hprev⟩ := appended_head hlist hne hnew
        exact ⟨List.mem_append_left _ hhead, hother, List.mem_append_left _ hprev⟩) payload
    obtain ⟨hgrant', hothers'⟩ := hgrant.follows hlinked
    obtain ⟨-, hadded⟩ := hlist.add hnull hnew payload
    have hmap : (entries ++ [(r.1, payload)]).map Prod.fst = entries.map Prod.fst ++ [r.1] := List.map_append
    refine ⟨⟨?_, hadded.congr hlinked.pointer fun a ha => hlinked.node a ?_⟩, hothers.trans hothers'⟩
    · rw [hmap]
      exact hgrant'
    · rw [hmap] at ha
      exact ha

/-! ## Deleting -/

/-- The nodes from `a` on are still granted, and make a chain. -/
structure Cutting (image : KernelImage) (s : HeapList) (foreign : List (UInt32 × UInt32)) (a : UInt32)
    (as : List UInt32) : Prop where
  granting : Granting image s.heap (a :: as) foreign
  nodup : (a :: as).Nodup
  ne_null : ∀ x ∈ as, x ≠ 0
  chain : Chain 0 s.list.links a as

/-- **One round frees the node behind the cursor.** -/
lemma Cutting.round {as : List UInt32} (hc : Cutting image s foreign a (b :: as)) :
    Cutting image ((s.free a).storePrev b 0) foreign b as ∧
      Untouched foreign s.heap.mem ((s.free a).storePrev b 0).heap.mem := by
  obtain ⟨-, hnodup⟩ := List.nodup_cons.mp hc.nodup
  obtain ⟨hnode, hothers, hgrant⟩ := hc.granting.free
  have hfollows := (Follows.refl {x | x ∈ b :: as} (s.free a)).storePrev hgrant.spaced
    List.mem_cons_self 0
  obtain ⟨hgrant', hothers'⟩ := hgrant.follows hfollows
  refine ⟨⟨hgrant', hnodup, fun x hx => hc.ne_null x (List.mem_cons_of_mem _ hx),
    hc.chain.2.congr (fun x hx => ?_) fun x hx => ?_⟩, hothers.trans hothers'⟩
  · have hx' := congrArg LinkedListItem.next (hfollows.node x hx)
    refine hx'.trans ?_
    show ((LinkedList.storePrev _ b 0).links x).next = _
    rw [links_storePrev, setPrev_next]
    exact congrArg LinkedListItem.next (hnode x hx)
  · have hne : x ≠ b := fun heq => (List.nodup_cons.mp hnodup).1 (heq ▸ hx)
    have hmem := List.mem_cons_of_mem b hx
    have hx' := congrArg LinkedListItem.prev (hfollows.node x hmem)
    refine hx'.trans ?_
    show ((LinkedList.storePrev _ b 0).links x).prev = _
    rw [links_storePrev, setPrev_prev, if_neg hne]
    exact congrArg LinkedListItem.prev (hnode x hmem)

/-- **The loop of `delete_list`**, by induction on the nodes that are left. -/
lemma Cutting.deleteFrom (as : List UInt32) : ∀ {s : HeapList} {a : UInt32} {n : ℕ},
    Cutting image s foreign a as → as.length < n → ∃ last t,
      HeapList.deleteFrom n a s = some (last, t) ∧ Granting image t.heap [last] foreign ∧
        Untouched foreign s.heap.mem t.heap.mem := by
  induction as with
  | nil =>
      intro s a n hc hn
      obtain ⟨m, rfl⟩ : ∃ m, n = m + 1 := ⟨n - 1, by simp at hn; omega⟩
      have hnext : (nodeAt s.heap.mem a).next = 0 := hc.chain
      rw [HeapList.deleteFrom, if_neg (not_not.mpr hnext)]
      exact ⟨a, s, rfl, hc.granting, fun _ _ _ _ => rfl⟩
  | cons b as ih =>
      intro s a n hc hn
      obtain ⟨m, rfl⟩ : ∃ m, n = m + 1 := ⟨n - 1, by simp at hn; omega⟩
      have hnext : (nodeAt s.heap.mem a).next = b := hc.chain.1.1
      have hprev : (nodeAt s.heap.mem b).prev = a := hc.chain.1.2
      have hb : b ≠ 0 := hc.ne_null b List.mem_cons_self
      obtain ⟨hround, hothers⟩ := hc.round
      obtain ⟨last, t, hrun, hgrant, hothers'⟩ := ih (n := m) hround (by simpa using hn)
      refine ⟨last, t, ?_, hgrant, hothers.trans hothers'⟩
      rw [HeapList.deleteFrom, hnext, if_pos hb]
      dsimp only
      rw [hprev]
      exact hrun

/-- **Deleting a list** gives back its nodes. -/
theorem Shares.delete (hs : Shares image s foreign entries) {n : ℕ} (hn : entries.length ≤ n) :
    ∃ t, s.deleteList n = some t ∧ t.linkedList = 0 ∧ Granting image t.heap [] foreign ∧
      Untouched foreign s.heap.mem t.heap.mem := by
  obtain ⟨hgrant, hholds⟩ := hs
  have hnull : ∀ x ∈ entries.map Prod.fst, x ≠ 0 := by
    intro x hx
    obtain ⟨e, he, rfl⟩ := List.mem_map.mp hx
    exact hholds.ne_null e he
  have hnodup := hholds.nodup
  have hnodes := hholds.nodes
  have hlen : (entries.map Prod.fst).length ≤ n := by rwa [List.length_map]
  generalize entries.map Prod.fst = ns at hgrant hnull hnodup hnodes hlen
  rw [HeapList.deleteList]
  cases ns with
  | nil =>
      have hempty : s.linkedList = 0 := hnodes
      rw [if_pos hempty]
      exact ⟨s, rfl, hempty, hgrant, fun _ _ _ _ => rfl⟩
  | cons a as =>
      obtain ⟨hlist, hseg⟩ := hnodes
      have hfirst : s.linkedList = a := hlist
      rw [hfirst, if_neg (hnull a List.mem_cons_self)]
      cases as with
      | nil =>
          have hnext : (nodeAt s.heap.mem a).next = a := hseg.1
          obtain ⟨-, hothers, hfreed⟩ := hgrant.free
          rw [if_pos hnext]
          exact ⟨_, rfl, rfl, hfreed, hothers⟩
      | cons b as =>
          have hnext : (nodeAt s.heap.mem a).next = b := hseg.1.1
          have hne : ¬ b = a := fun heq => (List.nodup_cons.mp hnodup).1 (heq ▸ List.mem_cons_self)
          rw [hnext, if_neg hne]
          -- the ring is cut open behind its last node
          have hlast : (nodeAt s.heap.mem a).prev ∈ a :: b :: as := by
            have hend := hseg.prev_end
            rw [show (nodeAt s.heap.mem a).prev = (s.list.links a).prev from rfl, hend]
            exact List.getLast_mem _
          have hcut := ((Follows.refl {x | x ∈ a :: b :: as} s).storeNext hlast 0).storePrev hgrant.spaced
            List.mem_cons_self 0
          obtain ⟨hgrant', hothers⟩ := hgrant.follows hcut
          have hclean : NoUseAfterFree [] := List.Pairwise.nil
          have hchain := (deleting_cut hseg hnodup (fun x hx => hnull x (List.mem_cons_of_mem a hx))
            hclean rfl).chain
          have hcutting : Cutting image ((s.storeNext (nodeAt s.heap.mem a).prev 0).storePrev a 0) foreign a
              (b :: as) := by
            refine ⟨hgrant', hnodup, fun x hx => hnull x (List.mem_cons_of_mem a hx),
              hchain.congr (fun x hx => ?_) fun x hx => ?_⟩
            · exact congrArg LinkedListItem.next (hcut.node x hx)
            · exact congrArg LinkedListItem.prev (hcut.node x (List.mem_cons_of_mem a hx))
          obtain ⟨last, t, hrun, hgrant'', hothers'⟩ := Cutting.deleteFrom (b :: as) (n := n) hcutting hlen
          obtain ⟨-, hothers'', hfreed⟩ := hgrant''.free
          refine ⟨{ t.free last with linkedList := 0 }, ?_, rfl, hfreed,
            (hothers.trans hothers').trans hothers''⟩
          dsimp only
          rw [hrun]
          rfl

/-! ## Runs -/

/-- **Runs of the list and the others** on one heap.  The list starts empty on a heap in any state.  Calls of
`add_to_list` and `delete_list` alternate with the others' calls of `malloc` and `free` and with writes to
their blocks. -/
inductive ListRun (image : KernelImage) :
    HeapList → List (UInt32 × UInt32) → List (UInt32 × UInt32) → Prop where
  | start {h : Heap} {allocs : List (UInt32 × UInt32)} (hreach : HeapReach image h allocs) :
      ListRun image ⟨h, 0⟩ allocs []
  | add {s : HeapList} {foreign entries : List (UInt32 × UInt32)} {payload : UInt32}
      (hrun : ListRun image s foreign entries) :
      ListRun image (s.addToList payload).2 foreign (s.appended payload entries)
  | delete {s t : HeapList} {foreign entries : List (UInt32 × UInt32)} {n : ℕ}
      (hrun : ListRun image s foreign entries) (hn : entries.length ≤ n) (ht : s.deleteList n = some t) :
      ListRun image t foreign []
  | malloc {s : HeapList} {foreign entries : List (UInt32 × UInt32)} {request : UInt32}
      (hrun : ListRun image s foreign entries) :
      ListRun image { s with heap := (s.heap.malloc request).2 }
        (grant (s.heap.malloc request).1 request foreign) entries
  | free {s : HeapList} {foreign entries : List (UInt32 × UInt32)} {e : UInt32 × UInt32}
      (hrun : ListRun image s foreign entries) (he : e ∈ foreign) :
      ListRun image (s.free e.1) (foreign.erase e) entries
  | write {s : HeapList} {foreign entries : List (UInt32 × UInt32)} {mem : UInt32 → ListT}
      (hrun : ListRun image s foreign entries)
      (hmem : ∀ x, (∀ e ∈ foreign, ¬ InBlock e x) → mem x = s.heap.mem x) :
      ListRun image { s with heap := { s.heap with mem := mem } } foreign entries

/-- An empty list. -/
lemma shares_nil (hnull : s.linkedList = 0) (hg : Granting image s.heap [] foreign) :
    Shares image s foreign [] :=
  ⟨hg, hnull, List.nodup_nil, fun _ he => absurd he List.not_mem_nil, fun _ he => absurd he List.not_mem_nil⟩

/-- **In every run** the list and the others share the heap. -/
theorem ListRun.shares (hrun : ListRun image s foreign entries) : Shares image s foreign entries := by
  induction hrun with
  | start hreach => exact shares_nil rfl ⟨_, hreach, List.Perm.refl _⟩
  | add hrun ih => exact (ih.add _).1
  | delete hrun hn ht ih =>
      obtain ⟨t, hdelete, hnull, hgrant, -⟩ := ih.delete hn
      rw [ht] at hdelete
      obtain rfl := Option.some.inj hdelete
      exact shares_nil hnull hgrant
  | malloc hrun ih =>
      exact ⟨ih.granting.malloc_others _, ih.holds.congr rfl (ih.granting.malloc_kept _).1⟩
  | free hrun he ih =>
      obtain ⟨hnode, hgrant⟩ := ih.granting.free_others he
      exact ⟨hgrant, ih.holds.congr rfl hnode⟩
  | write hrun hmem ih =>
      obtain ⟨hnode, hgrant⟩ := ih.granting.write_others hmem
      exact ⟨hgrant, ih.holds.congr rfl hnode⟩

/-- **Lists on the heap.**  In every run of the list and the others, the list has its entries in order, each
with its payload; a call of `add_to_list` leaves the blocks of the others alone; and `delete_list` ends,
leaves them alone too, and gives back exactly the nodes: what is granted afterwards are the blocks of the
others. -/
theorem heapList_spec (hrun : ListRun image s foreign entries) {n : ℕ} (hn : entries.length ≤ n) :
    s.list.iterateOverList n = some (entries.map Prod.fst) ∧
    (∀ e ∈ entries, (nodeAt s.heap.mem e.1).payload = e.2) ∧
    (∀ payload, Untouched foreign s.heap.mem (s.addToList payload).2.heap.mem) ∧
    ∃ t, s.deleteList n = some t ∧ t.linkedList = 0 ∧ Untouched foreign s.heap.mem t.heap.mem ∧
      ∃ allocs, HeapReach image t.heap allocs ∧ allocs.Perm foreign := by
  have hs := hrun.shares
  obtain ⟨t, hdelete, hnull, hgrant, hothers⟩ := hs.delete hn
  exact ⟨hs.holds.iterateOverList hn, hs.holds.payload, fun payload => (hs.add payload).2, t, hdelete, hnull,
    hothers, hgrant⟩

/-- A list of two entries on a new heap. -/
def twoEntries : HeapList := (((⟨zeroedHeap, 0⟩ : HeapList).addToList 1).2.addToList 2).2

/-- It has its nodes in order, and deleting it leaves nothing granted. -/
theorem heapList_spec_twoEntries : twoEntries.list.iterateOverList 2 = some [52428808, 52428840] ∧
    ∃ t, twoEntries.deleteList 2 = some t ∧ HeapReach zeroedHeap.image t.heap [] := by
  have hfirst : (⟨zeroedHeap, 0⟩ : HeapList).appended 1 [] = [(52428808, 1)] := by decide +kernel
  have hsecond : ((⟨zeroedHeap, 0⟩ : HeapList).addToList 1).2.appended 2 [(52428808, 1)]
      = [(52428808, 1), (52428840, 2)] := by decide +kernel
  have hstart : ListRun zeroedHeap.image ⟨zeroedHeap, 0⟩ [] [] :=
    ListRun.start (HeapReach.start zeroedHeap.mem)
  have hone : ListRun _ ((⟨zeroedHeap, 0⟩ : HeapList).addToList 1).2 _ _ := hstart.add
  rw [hfirst] at hone
  have htwo : ListRun _ twoEntries _ _ := hone.add
  rw [hsecond] at htwo
  obtain ⟨hiterate, -, -, t, ht, -, -, allocs, hreach, hperm⟩ :=
    heapList_spec (n := 2) htwo (by decide)
  rw [hperm.eq_nil] at hreach
  exact ⟨hiterate, t, ht, hreach⟩

end GrubKernel
