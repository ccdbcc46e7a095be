import GrubKernel.Heap.Release
import GrubKernel.Lib.RangeList

/-!
# Blocks of the heap

What the state of the allocator says about the bytes of the heap.

* `liveSpan`, `freeSpans`, `blocks` — the ranges of the blocks that are granted and of those on lists.
* `HeapSound` — these ranges partition the range of the root, no buddies are both free, and the bits, the
  links and the break are as they should be.
* `Owned`, `Granted` — the pointers that were granted are those of the blocks in use.
* **`Represents.partition`** — the blocks partition the range of the root.
* **`Represents.sound`** — the heap of a buddy tree is sound.
-/

namespace GrubKernel

open BuddyTree LinkRing Status RangeList

/-! ## Ranges -/

/-- The range of a block of a bucket. -/
def blockSpan (ptr : UInt32) (bucket : ℕ) : Span ℕ :=
  ⟨ptr.toNat, ptr.toNat + 2 ^ (maxAllocLog2 - bucket)⟩

/-- The block of a pointer that was granted for a request, with its header. -/
def liveSpan (e : UInt32 × UInt32) : Span ℕ :=
  blockSpan (e.1 - headerSize) (bucketForRequest (e.2 + headerSize))

/-- The blocks on the lists of the buckets from the limit on. -/
def freeSpans (s : Heap) (lists : ℕ → List UInt32) : List (Span ℕ) :=
  (List.range' s.bucketLimit (bucketCount - s.bucketLimit)).flatMap fun bucket =>
    (lists bucket).map fun ptr => blockSpan ptr bucket

/-- All blocks. -/
def blocks (s : Heap) (allocs : List (UInt32 × UInt32)) (lists : ℕ → List UInt32) : List (Span ℕ) :=
  allocs.map liveSpan ++ freeSpans s lists

/-- The node at an index of a bucket is unused: its bytes lie in free blocks. -/
def NodeUnused (s : Heap) (lists : ℕ → List UInt32) (index bucket : ℕ) : Prop :=
  (blockSpan (s.ptrForNode index bucket) bucket).toSet ⊆ addresses (freeSpans s lists)

/-- **The state of the heap** with the pointers `allocs`, each with its request, and with the free lists
`lists`. -/
structure HeapSound (s : Heap) (allocs : List (UInt32 × UInt32)) (lists : ℕ → List UInt32) : Prop where
  limit : s.bucketLimit < bucketCount
  rings : Rings s.mem (Set.Ico s.bucketLimit bucketCount) s.bucket lists
  fits : ∀ e ∈ allocs, e.2.toNat + 8 ≤ 2 ^ (maxAllocLog2 - bucketForRequest (e.2 + headerSize))
  apart : (blocks s allocs lists).Pairwise fun a b => Disjoint a.toSet b.toSet
  covered : addresses (blocks s allocs lists) =
    Set.Ico s.basePtr.toNat (s.basePtr.toNat + 2 ^ (maxAllocLog2 - s.bucketLimit))
  merged : ∀ b, s.bucketLimit ≤ b → b < bucketCount - 1 → ∀ k < 2 ^ (b - s.bucketLimit),
    ¬ (s.ptrForNode (2 * (2 ^ b - 1 + k) + 1) (b + 1) ∈ lists (b + 1) ∧
      s.ptrForNode (2 * (2 ^ b - 1 + k) + 2) (b + 1) ∈ lists (b + 1))
  bits : ∀ b, s.bucketLimit ≤ b → b < bucketCount - 1 → ∀ k < 2 ^ (b - s.bucketLimit),
    (s.isSplit (2 ^ b - 1 + k) = true ↔
      Xor (NodeUnused s lists (2 * (2 ^ b - 1 + k) + 1) (b + 1))
        (NodeUnused s lists (2 * (2 ^ b - 1 + k) + 2) (b + 1)))
  below : ∀ b, s.bucketLimit ≤ b → b < bucketCount → ∀ ptr ∈ s.bucket b :: lists b,
    ptr.toNat + 8 ≤ s.maxPtr.toNat
  top : s.maxPtr = s.heapEnd

/-! ## Pointers and blocks -/

/-- The pointers that were granted are those of the blocks in use, and the headers hold the requests. -/
structure Owned (mem : UInt32 → ListT) (st : ℕ → Status) (allocs : List (UInt32 × UInt32)) : Prop where
  block : ∀ e ∈ allocs, ∃ i, st i = live ∧ e.1 = addr i + headerSize ∧
    level i = bucketForRequest (e.2 + headerSize) ∧ (mem (addr i)).prev = e.2 ∧ e.2.toNat ≤ 2 ^ 31 - 8
  all : ∀ i, st i = live → addr i + headerSize ∈ allocs.map Prod.fst
  nodup : (allocs.map Prod.fst).Nodup

/-- The same for requests of any size. -/
structure Granted (mem : UInt32 → ListT) (st : ℕ → Status) (allocs : List (UInt32 × UInt32)) :
    Prop where
  block : ∀ e ∈ allocs, ∃ i, st i = live ∧ e.1 = addr i + headerSize ∧
    level i = bucketForRequest (e.2 + headerSize) ∧ (mem (addr i)).prev = e.2
  all : ∀ i, st i = live → addr i + headerSize ∈ allocs.map Prod.fst
  nodup : (allocs.map Prod.fst).Nodup

lemma owned_iff {mem : UInt32 → ListT} {st : ℕ → Status} {allocs : List (UInt32 × UInt32)} :
    Owned mem st allocs ↔ Granted mem st allocs ∧ ∀ e ∈ allocs, e.2.toNat ≤ 2 ^ 31 - 8 := by
  constructor
  · intro ho
    refine ⟨⟨fun e he => ?_, ho.all, ho.nodup⟩, fun e he => ?_⟩
    · obtain ⟨i, hi, hptr, hlevel, hhead, -⟩ := ho.block e he
      exact ⟨i, hi, hptr, hlevel, hhead⟩
    · obtain ⟨-, -, -, -, -, hr⟩ := ho.block e he
      exact hr
  · rintro ⟨hg, hr⟩
    refine ⟨fun e he => ?_, hg.all, hg.nodup⟩
    obtain ⟨i, hi, hptr, hlevel, hhead⟩ := hg.block e he
    exact ⟨i, hi, hptr, hlevel, hhead, hr e he⟩

variable {s : Heap} {st : ℕ → Status} {allocs : List (UInt32 × UInt32)} {nodes : ℕ → List ℕ}

/-- The range of a node. -/
def nodeSpan (i : ℕ) : Span ℕ :=
  ⟨heapStart.toNat + offset i, heapStart.toNat + offset i + size maxAllocLog2 i⟩

lemma blockSpan_addr {i b : ℕ} (hi : level i ≤ maxLevel) (hb : level i = b) :
    blockSpan (addr i) b = nodeSpan i := by
  rw [blockSpan, nodeSpan, toNat_addr hi, size, hb, toNat_heapStart]

lemma mem_nodeSpan {i x : ℕ} : x ∈ (nodeSpan i).toSet ↔
    heapStart.toNat ≤ x ∧ Covers maxAllocLog2 i (x - heapStart.toNat) := by
  rw [nodeSpan, Span.mem_toSet, Covers, offset]
  dsimp only
  omega

/-- **Different blocks do not overlap.** -/
lemma Represents.disjoint (h : Represents s st) {i j : ℕ} (hi : IsBlock st i) (hj : IsBlock st j)
    (hne : i ≠ j) : Disjoint (nodeSpan i).toSet (nodeSpan j).toSet := by
  rw [Set.disjoint_left]
  intro x hxi hxj
  rw [mem_nodeSpan] at hxi hxj
  exact hne (h.tree.block_unique maxLevel_le hi hj hxi.2 hxj.2)

/-- **The blocks cover the range of the root**, and no more. -/
lemma Represents.exists_block_iff (h : Represents s st) {x : ℕ} :
    (∃ i, IsBlock st i ∧ x ∈ (nodeSpan i).toSet) ↔
      heapStart.toNat ≤ x ∧ x < heapStart.toNat + 2 ^ (maxAllocLog2 - s.bucketLimit) := by
  constructor
  · rintro ⟨i, hi, hx⟩
    rw [mem_nodeSpan] at hx
    have hlt := h.tree.covers_root maxLevel_le i hi.ne_absent hx.2
    exact ⟨hx.1, by omega⟩
  · rintro ⟨hlo, hhi⟩
    obtain ⟨i, hi, hx⟩ := h.tree.exists_block (h := maxAllocLog2) (x := x - heapStart.toNat) maxLevel_le
      (by omega)
    exact ⟨i, hi, mem_nodeSpan.mpr ⟨hlo, hx⟩⟩

/-- The ranges on the lists are those of the free nodes. -/
lemma FreeLists.freeSpans_eq (h : FreeLists s.image s.mem s.bucketLimit st nodes) :
    freeSpans s (fun b => (nodes b).map addr) =
      ((List.range' s.bucketLimit (bucketCount - s.bucketLimit)).flatMap nodes).map nodeSpan := by
  rw [freeSpans, List.map_flatMap]
  congr 1
  funext b
  rw [List.map_map]
  refine List.map_congr_left fun i hi => ?_
  obtain ⟨hfree, hlevel⟩ := (h.listed b i).mp hi
  exact blockSpan_addr (h.levels i hfree).2 hlevel

lemma FreeLists.mem_flatMap (h : FreeLists s.image s.mem s.bucketLimit st nodes) {i : ℕ} :
    i ∈ (List.range' s.bucketLimit (bucketCount - s.bucketLimit)).flatMap nodes ↔ st i = free := by
  rw [List.mem_flatMap]
  constructor
  · rintro ⟨b, -, hi⟩
    exact ((h.listed b i).mp hi).1
  · intro hfree
    obtain ⟨hlo, hhi⟩ := h.levels i hfree
    refine ⟨level i, ?_, (h.listed _ i).mpr ⟨hfree, rfl⟩⟩
    rw [List.mem_range'_1]
    have hcount : maxLevel = bucketCount - 1 := rfl
    have hpos : bucketCount = 28 := rfl
    omega

lemma FreeLists.nodup_flatMap (h : FreeLists s.image s.mem s.bucketLimit st nodes) :
    ((List.range' s.bucketLimit (bucketCount - s.bucketLimit)).flatMap nodes).Nodup := by
  rw [List.nodup_flatMap]
  refine ⟨fun b hb => h.nodup ?_, ?_⟩
  · rw [List.mem_range'_1] at hb
    have hcount : maxLevel = bucketCount - 1 := rfl
    have hpos : bucketCount = 28 := rfl
    exact ⟨hb.1, by omega⟩
  · have hrange : (List.range' s.bucketLimit (bucketCount - s.bucketLimit)).Nodup := List.nodup_range'
    refine hrange.pairwise_of_forall_ne fun b _ c _ hbc i hib hic => ?_
    exact hbc (((h.listed b i).mp hib).2.symm.trans ((h.listed c i).mp hic).2)

/-- The ranges of the pointers are those of the nodes in use. -/
lemma Granted.exists_nodes (ho : Granted s.mem st allocs) (h : Represents s st) : ∃ ns : List ℕ,
    allocs.map liveSpan = ns.map nodeSpan ∧ ns.Nodup ∧ ∀ i, i ∈ ns ↔ st i = live := by
  choose! node hlive hptr hlevel _ using ho.block
  have hfst : (allocs.map node).map (fun i => addr i + headerSize) = allocs.map Prod.fst := by
    rw [List.map_map]
    exact List.map_congr_left fun e he => (hptr e he).symm
  refine ⟨allocs.map node, ?_, ?_, fun i => ⟨fun hi => ?_, fun hi => ?_⟩⟩
  · rw [List.map_map]
    refine List.map_congr_left fun e he => ?_
    have hmax := h.level_le (ne_absent_of_live (hlive e he))
    rw [liveSpan, hptr e he, UInt32.add_sub_cancel]
    exact blockSpan_addr hmax (hlevel e he)
  · have hnodup := ho.nodup
    rw [← hfst] at hnodup
    exact hnodup.of_map _
  · obtain ⟨e, he, rfl⟩ := List.mem_map.mp hi
    exact hlive e he
  · obtain ⟨e, he, heq⟩ := List.mem_map.mp (ho.all i hi)
    refine List.mem_map.mpr ⟨e, he, ?_⟩
    by_contra hne
    rw [hptr e he] at heq
    have haddr := h.addr_ne (Or.inr (hlive e he)) (Or.inr hi) hne
    exact haddr (add_right_cancel heq)

/-! ## Soundness -/

/-- A node of a level of the current tree. -/
lemma node_of_level {L b k : ℕ} (hL : L ≤ b) (hb : b ≤ maxAllocLog2) (hk : k < 2 ^ (b - L)) :
    level (2 ^ b - 1 + k) = b ∧ offset (2 ^ b - 1 + k) < 2 ^ (maxAllocLog2 - L) := by
  have hpos := Nat.two_pow_pos b
  have hle : 2 ^ (b - L) ≤ 2 ^ b := Nat.pow_le_pow_right (by decide) (Nat.sub_le b L)
  have hsum : 2 ^ b - 1 + k + 1 = 2 ^ b + k := by omega
  have hlevel : level (2 ^ b - 1 + k) = b := by
    refine level_unique ?_ ?_
    · omega
    · rw [pow_succ]
      omega
  refine ⟨hlevel, ?_⟩
  rw [offset, BuddyTree.start, size, hlevel, hsum, Nat.add_sub_cancel_left]
  calc k * 2 ^ (maxAllocLog2 - b) < 2 ^ (b - L) * 2 ^ (maxAllocLog2 - b) :=
        Nat.mul_lt_mul_of_pos_right hk (Nat.two_pow_pos _)
    _ = 2 ^ (maxAllocLog2 - L) := by
        rw [← pow_add]
        congr 1
        omega

lemma FreeLists.mem_addresses (h : FreeLists s.image s.mem s.bucketLimit st nodes) {x : ℕ} :
    x ∈ addresses (freeSpans s fun b => (nodes b).map addr) ↔
      ∃ i, st i = free ∧ x ∈ (nodeSpan i).toSet := by
  rw [h.freeSpans_eq]
  constructor
  · rintro ⟨a, ha, hx⟩
    obtain ⟨i, hi, rfl⟩ := List.mem_map.mp ha
    exact ⟨i, h.mem_flatMap.mp hi, hx⟩
  · rintro ⟨i, hi, hx⟩
    exact ⟨nodeSpan i, List.mem_map_of_mem (h.mem_flatMap.mpr hi), hx⟩

/-- Being unused means the same in the tree and in the heap. -/
lemma Represents.nodeUnused_iff (h : Represents s st)
    (hnodes : FreeLists s.image s.mem s.bucketLimit st nodes) {j b : ℕ} (hj : level j = b)
    (hb : b ≤ maxLevel) :
    NodeUnused s (fun b => (nodes b).map addr) j b ↔ Unused maxAllocLog2 st j := by
  rw [NodeUnused, Heap.ptrForNode_addr h.base hj, blockSpan_addr (by omega) hj]
  constructor
  · intro hun x hx
    have hmem : heapStart.toNat + x ∈ (nodeSpan j).toSet := by
      rw [mem_nodeSpan, Nat.add_sub_cancel_left]
      exact ⟨Nat.le_add_right _ _, hx⟩
    obtain ⟨i, hi, hxi⟩ := hnodes.mem_addresses.mp (hun hmem)
    rw [mem_nodeSpan, Nat.add_sub_cancel_left] at hxi
    exact ⟨i, hi, hxi.2⟩
  · intro hun x hx
    rw [mem_nodeSpan] at hx
    obtain ⟨i, hi, hxi⟩ := hun _ hx.2
    exact hnodes.mem_addresses.mpr ⟨i, hi, mem_nodeSpan.mpr ⟨hx.1, hxi⟩⟩

/-- A node is on the list of its level iff it is free. -/
lemma Represents.mem_list_iff (h : Represents s st)
    (hnodes : FreeLists s.image s.mem s.bucketLimit st nodes) {j b : ℕ} (hj : level j = b)
    (hb : b ≤ maxLevel) : s.ptrForNode j b ∈ (nodes b).map addr ↔ st j = free := by
  rw [Heap.ptrForNode_addr h.base hj]
  constructor
  · intro hmem
    obtain ⟨i, hi, haddr⟩ := List.mem_map.mp hmem
    obtain ⟨hfree, hlevel⟩ := (hnodes.listed b i).mp hi
    rw [addr_inj (by omega) (by omega)] at haddr
    have hcover : Covers maxAllocLog2 j (offset i) := by
      rw [haddr]
      exact covers_start _ _
    rwa [← covers_unique (hlevel.trans hj.symm) (covers_start maxAllocLog2 i) hcover]
  · exact fun hfree => List.mem_map_of_mem ((hnodes.listed b j).mpr ⟨hfree, hj⟩)

/-- The heads of the lists lie below the break as well. -/
lemma Represents.head_below (h : Represents s st) {b : ℕ} (hb : b ≤ maxLevel) :
    (s.bucket b).toNat + 8 ≤ s.maxPtr.toNat := by
  obtain ⟨i, hi, -⟩ := h.exists_block_iff (x := heapStart.toNat).mpr
    ⟨le_rfl, Nat.lt_add_of_pos_right (Nat.two_pow_pos _)⟩
  have hbelow := h.below i hi
  have hstart := h.heapStart_le hi.ne_absent
  have hlt : (s.bucket b).toNat < heapStart.toNat := bucket_lt s.image hb
  omega

/-- The ranges of all blocks are those of the leaves of the tree. -/
lemma Represents.exists_leaves (h : Represents s st) (ho : Granted s.mem st allocs)
    (hnodes : FreeLists s.image s.mem s.bucketLimit st nodes) : ∃ l : List ℕ,
    blocks s allocs (fun b => (nodes b).map addr) = l.map nodeSpan ∧ l.Nodup ∧
      ∀ i, i ∈ l ↔ IsBlock st i := by
  obtain ⟨ns, hspans, hnodup, hns⟩ := ho.exists_nodes h
  refine ⟨ns ++ (List.range' s.bucketLimit (bucketCount - s.bucketLimit)).flatMap nodes, ?_, ?_,
    fun i => ?_⟩
  · rw [blocks, hspans, hnodes.freeSpans_eq, List.map_append]
  · refine List.Nodup.append hnodup hnodes.nodup_flatMap fun i hi hi' => ?_
    have hlive := (hns i).mp hi
    rw [hnodes.mem_flatMap.mp hi'] at hlive
    exact absurd hlive (by decide)
  · rw [List.mem_append, hns, hnodes.mem_flatMap, IsBlock]
    exact Or.comm

/-- **No buddies are both on a list.** -/
lemma Represents.not_both_listed (h : Represents s st)
    (hnodes : FreeLists s.image s.mem s.bucketLimit st nodes) {i b : ℕ} (hi : level i = b)
    (hlo : s.bucketLimit ≤ b) (hhi : b < maxLevel) :
    ¬ (s.ptrForNode (2 * i + 1) (b + 1) ∈ (nodes (b + 1)).map addr ∧
      s.ptrForNode (2 * i + 2) (b + 1) ∈ (nodes (b + 1)).map addr) := by
  have hl : level (2 * i + 1) = b + 1 := by rw [level_left, hi]
  have hr : level (2 * i + 2) = b + 1 := by rw [level_right, hi]
  rw [h.mem_list_iff hnodes hl hhi, h.mem_list_iff hnodes hr hhi]
  rintro ⟨hleft, hright⟩
  rcases h.tree.up (2 * i + 1) (ne_absent_of_free hleft) with heq | ⟨p, hp, hip⟩
  · rw [heq, level_root] at hl
    omega
  · obtain rfl : p = i := by omega
    exact h.tree.merged p hp ⟨hleft, hright⟩

/-- **The bit of a node of the tree** is the exclusive or of its halves being unused. -/
lemma Represents.isSplit_iff_xor (h : Represents s st)
    (hnodes : FreeLists s.image s.mem s.bucketLimit st nodes) {i b : ℕ} (hi : level i = b)
    (hlo : s.bucketLimit ≤ b) (hhi : b < maxLevel)
    (hinside : offset i < 2 ^ (maxAllocLog2 - s.bucketLimit)) :
    s.isSplit i = true ↔ Xor (NodeUnused s (fun b => (nodes b).map addr) (2 * i + 1) (b + 1))
      (NodeUnused s (fun b => (nodes b).map addr) (2 * i + 2) (b + 1)) := by
  have hl : level (2 * i + 1) = b + 1 := by rw [level_left, hi]
  have hr : level (2 * i + 2) = b + 1 := by rw [level_right, hi]
  rw [h.nodeUnused_iff hnodes hl hhi, h.nodeUnused_iff hnodes hr hhi, h.flags]
  exact h.tree.flag_eq maxLevel_le (by omega) (by omega) hinside

/-- **The blocks partition the range of the root**, whatever the requests were. -/
theorem Represents.partition (h : Represents s st) (ho : Granted s.mem st allocs)
    (hnodes : FreeLists s.image s.mem s.bucketLimit st nodes) :
    ((blocks s allocs fun b => (nodes b).map addr).Pairwise fun a b => Disjoint a.toSet b.toSet) ∧
      addresses (blocks s allocs fun b => (nodes b).map addr) =
        Set.Ico s.basePtr.toNat (s.basePtr.toNat + 2 ^ (maxAllocLog2 - s.bucketLimit)) := by
  obtain ⟨l, hblocks, hdistinct, hall⟩ := h.exists_leaves ho hnodes
  constructor
  · rw [hblocks, List.pairwise_map]
    refine hdistinct.pairwise_of_forall_ne fun i hi j hj hne => ?_
    exact h.disjoint ((hall i).mp hi) ((hall j).mp hj) hne
  · ext x
    rw [hblocks, Set.mem_Ico, h.base, ← h.exists_block_iff]
    constructor
    · rintro ⟨a, ha, hx⟩
      obtain ⟨i, hi, rfl⟩ := List.mem_map.mp ha
      exact ⟨i, (hall i).mp hi, hx⟩
    · rintro ⟨i, hi, hx⟩
      exact ⟨nodeSpan i, List.mem_map_of_mem ((hall i).mpr hi), hx⟩

/-- The lists are those of the buckets from the limit on. -/
lemma FreeLists.rings_Ico (h : FreeLists s.image s.mem s.bucketLimit st nodes) :
    Rings s.mem (Set.Ico s.bucketLimit bucketCount) s.bucket fun b => (nodes b).map addr := by
  have hcount : bucketCount = maxLevel + 1 := rfl
  have hset : Set.Icc s.bucketLimit maxLevel = Set.Ico s.bucketLimit bucketCount := by
    ext b
    rw [Set.mem_Icc, Set.mem_Ico]
    omega
  rw [← hset]
  exact h.rings

/-- **The heap of a buddy tree is sound.** -/
theorem Represents.sound (h : Represents s st) (ho : Owned s.mem st allocs) :
    ∃ lists, HeapSound s allocs lists := by
  obtain ⟨hgranted, hr⟩ := owned_iff.mp ho
  obtain ⟨nodes, hnodes⟩ := h.lists
  obtain ⟨hapart, hcovered⟩ := h.partition hgranted hnodes
  have hcount : bucketCount = maxLevel + 1 := rfl
  have hle : s.bucketLimit ≤ maxLevel := h.tree.root_le
  have hmax := maxLevel_le
  refine ⟨fun b => (nodes b).map addr, by omega, hnodes.rings_Ico,
    fun e he => bucketForRequest_spec (hr e he), hapart, hcovered, fun b hlo hhi k hk => ?_,
    fun b hlo hhi k hk => ?_, fun b hlo hhi ptr hptr => ?_, h.top⟩
  · obtain ⟨hlevel, -⟩ := node_of_level hlo (show b ≤ maxAllocLog2 by omega) hk
    exact h.not_both_listed hnodes hlevel hlo (by omega)
  · obtain ⟨hlevel, hinside⟩ := node_of_level hlo (show b ≤ maxAllocLog2 by omega) hk
    exact h.isSplit_iff_xor hnodes hlevel hlo (by omega) hinside
  · rcases List.mem_cons.mp hptr with rfl | hptr
    · exact h.head_below (by omega)
    · obtain ⟨i, hi, rfl⟩ := List.mem_map.mp hptr
      exact h.below i (Or.inl ((hnodes.listed b i).mp hi).1)

end GrubKernel
