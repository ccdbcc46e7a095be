import GrubKernel.Heap.Model
import GrubKernel.Lib.BuddyTree

/-!
# What the variables of the heap stand for

The allocator keeps a buddy tree of 2 GiB over the addresses from `heap_start` on.  This file relates its
variables to the tree.

* `addr`, `Heap.ptrForNode_addr`, `Heap.nodeForPtr_addr` — addresses and nodes.
* `Heap.isSplit_flip` — the bits of `node_is_split`.
* `bucketForRequest_spec` — the bucket of a request.
* `FreeLists` — the lists of the buckets hold the free blocks of the tree; `FreeLists.push`,
  `FreeLists.remove` and `FreeLists.init` say what the operations on the lists do.
* **`Represents`** — the flags, the free lists, the limit and the break are those of a buddy tree.
* `Keeps` — between two states all blocks in use but one are the same.
-/

namespace GrubKernel

open BuddyTree LinkRing Status

/-! ## Addresses -/

/-- The deepest level of the tree. -/
def maxLevel : ℕ := bucketCount - 1

/-- The offset of a node from `base_ptr`. -/
def offset (i : ℕ) : ℕ := BuddyTree.start maxAllocLog2 i

/-- The address of a node. -/
def addr (i : ℕ) : UInt32 := heapStart + UInt32.ofNat (offset i)

lemma toNat_heapStart : heapStart.toNat = 52428800 := rfl

/-- A node ends inside the 2 GiB. -/
lemma offset_add_size_le {i : ℕ} (hi : level i ≤ maxLevel) :
    offset i + size maxAllocLog2 i ≤ 2 ^ 31 := by
  have hhi := lt_pow_level i
  have hlo := pow_level_le i
  rw [pow_succ] at hhi
  have hpos : i + 1 - 2 ^ level i + 1 ≤ 2 ^ level i := by omega
  have hmax : level i ≤ 31 := hi.trans (by decide)
  calc offset i + size maxAllocLog2 i
      = (i + 1 - 2 ^ level i + 1) * 2 ^ (31 - level i) := by
        rw [offset, BuddyTree.start, size, maxAllocLog2, Nat.add_mul _ 1, Nat.one_mul]
    _ ≤ 2 ^ level i * 2 ^ (31 - level i) := Nat.mul_le_mul_right _ hpos
    _ = 2 ^ 31 := by rw [← pow_add, Nat.add_sub_cancel' hmax]

/-- A node is large enough for a header and for the links of a list. -/
lemma sixteen_le_size {i : ℕ} (hi : level i ≤ maxLevel) : 16 ≤ size maxAllocLog2 i := by
  have hlevel : level i ≤ 27 := hi
  calc 16 = 2 ^ 4 := rfl
    _ ≤ 2 ^ (31 - level i) := Nat.pow_le_pow_right (by decide) (by omega)

lemma toNat_addr {i : ℕ} (hi : level i ≤ maxLevel) : (addr i).toNat = 52428800 + offset i := by
  have hle := offset_add_size_le hi
  have hpos := size_pos maxAllocLog2 i
  rw [addr, UInt32.toNat_add, UInt32.toNat_ofNat', toNat_heapStart]
  omega

/-- An address inside a node does not wrap around. -/
lemma toNat_addr_add {i : ℕ} {n : UInt32} (hi : level i ≤ maxLevel)
    (hn : n.toNat ≤ size maxAllocLog2 i) : (addr i + n).toNat = 52428800 + offset i + n.toNat := by
  have hle := offset_add_size_le hi
  rw [UInt32.toNat_add, toNat_addr hi]
  omega

lemma toNat_addr_add_eight {i : ℕ} (hi : level i ≤ maxLevel) :
    (addr i + 8).toNat = 52428800 + offset i + 8 := by
  have hsize := sixteen_le_size hi
  have height : (8 : UInt32).toNat = 8 := rfl
  rw [toNat_addr_add hi (by omega), height]

/-- The addresses of nodes are the same where their offsets are. -/
lemma addr_inj {i j : ℕ} (hi : level i ≤ maxLevel) (hj : level j ≤ maxLevel) :
    addr i = addr j ↔ offset i = offset j := by
  rw [← UInt32.toNat_inj, toNat_addr hi, toNat_addr hj]
  omega

lemma addr_ne_zero {i : ℕ} (hi : level i ≤ maxLevel) : addr i ≠ 0 := by
  intro heq
  have hnat := toNat_addr hi
  rw [heq, UInt32.toNat_zero] at hnat
  omega

/-- A pointer that `malloc` returns is not null. -/
lemma addr_add_header_ne_zero {i : ℕ} (hi : level i ≤ maxLevel) : addr i + headerSize ≠ 0 := by
  intro hnull
  have hnat := toNat_addr_add_eight hi
  rw [show (8 : UInt32) = headerSize from rfl, hnull, UInt32.toNat_zero] at hnat
  omega

lemma addr_root (L : ℕ) : addr (root L) = heapStart := by
  rw [addr, offset, start_root]
  rfl

/-- The left half of a node starts where the node starts. -/
lemma addr_left {i : ℕ} (hi : level i < maxLevel) : addr (2 * i + 1) = addr i := by
  rw [addr, offset, start_left (hi.trans (by decide)), addr, offset]

namespace Heap

variable {s : Heap}

lemma ptrForNode_addr (hs : s.basePtr = heapStart) {i b : ℕ} (hb : level i = b) :
    s.ptrForNode i b = addr i := by
  rw [ptrForNode, hs, addr, offset, BuddyTree.start, size, hb, Nat.shiftLeft_eq, Nat.shiftLeft_eq,
    Nat.one_mul]

lemma nodeForPtr_addr (hs : s.basePtr = heapStart) {i b : ℕ} (hi : level i ≤ maxLevel)
    (hb : level i = b) : s.nodeForPtr (addr i) b = i := by
  have hle := offset_add_size_le hi
  have hpos := size_pos maxAllocLog2 i
  have hlo := pow_level_le i
  have hoff : (addr i - s.basePtr).toNat = offset i := by
    rw [hs, addr, UInt32.add_comm, UInt32.add_sub_cancel, UInt32.toNat_ofNat']
    omega
  subst hb
  rw [nodeForPtr, hoff, Nat.shiftRight_eq_div_pow, Nat.shiftLeft_eq, Nat.one_mul, offset,
    BuddyTree.start, size, Nat.mul_div_cancel _ (Nat.two_pow_pos _)]
  omega

/-! ## Bits -/

lemma toNat_shift_mod {k : ℕ} (hk : k < 8) : (UInt8.ofNat k).toNat % 8 = k := by
  rw [UInt8.toNat_ofNat']
  omega

lemma isSplit_iff (s : Heap) (i : ℕ) :
    s.isSplit i = (s.nodeIsSplit (i / 8)).toNat.testBit (i % 8) := by
  have hmod := toNat_shift_mod (Nat.mod_lt i (show 0 < 8 by decide))
  unfold isSplit
  rw [Bool.eq_iff_iff, decide_eq_true_iff, ne_eq, ← UInt8.toNat_inj, UInt8.toNat_and,
    UInt8.toNat_shiftRight, hmod, UInt8.toNat_one, UInt8.toNat_zero, Nat.and_comm, Nat.testBit,
    bne_iff_ne]

/-- **Flipping the bit of the parent** changes that bit only. -/
lemma isSplit_flip (s : Heap) (i j : ℕ) :
    (s.flipParentIsSplit i).isSplit j = (s.isSplit j ^^ decide (j = (i - 1) / 2)) := by
  have hlt := Nat.mod_lt ((i - 1) / 2) (show 0 < 8 by decide)
  have hpow : 2 ^ ((i - 1) / 2 % 8) < 2 ^ 8 := Nat.pow_lt_pow_right (by decide) hlt
  rw [isSplit_iff, isSplit_iff]
  unfold flipParentIsSplit
  dsimp only
  rw [Function.update_apply]
  split_ifs with hbyte
  · rw [UInt8.toNat_xor, UInt8.toNat_shiftLeft, toNat_shift_mod hlt, UInt8.toNat_one,
      Nat.shiftLeft_eq, Nat.one_mul, Nat.mod_eq_of_lt hpow, Nat.testBit_xor, Nat.testBit_two_pow, hbyte]
    congr 1
    rw [decide_eq_decide]
    omega
  · have hne : j ≠ (i - 1) / 2 := by
      rintro rfl
      exact hbyte rfl
    simp [hne]

/-! ## The program break -/

/-- **Raising `max_ptr`** does not fail, and the break follows. -/
lemma updateMaxPtr_spec (htop : s.maxPtr = s.heapEnd) (newValue : UInt32) : ∃ m : UInt32,
    s.updateMaxPtr newValue = (true, { s with maxPtr := m, heapEnd := m }) ∧
      s.maxPtr.toNat ≤ m.toNat ∧ newValue.toNat ≤ m.toNat := by
  unfold updateMaxPtr
  by_cases hlt : newValue > s.maxPtr
  · rw [if_pos hlt]
    rw [gt_iff_lt, UInt32.lt_iff_toNat_lt] at hlt
    exact ⟨newValue, rfl, by omega, le_rfl⟩
  · rw [if_neg hlt]
    rw [gt_iff_lt, UInt32.lt_iff_toNat_lt] at hlt
    refine ⟨s.maxPtr, ?_, le_rfl, by omega⟩
    obtain ⟨image, mem, bucketLimit, nodeIsSplit, basePtr, maxPtr, heapEnd⟩ := s
    obtain rfl : maxPtr = heapEnd := htop
    rfl

end Heap

/-! ## Buckets -/

/-- `&buckets[bucket]`. -/
def KernelImage.bucket (image : KernelImage) (bucket : ℕ) : UInt32 :=
  image.buckets + 8 * UInt32.ofNat bucket

variable {image : KernelImage}

lemma toNat_bucket (image : KernelImage) {b : ℕ} (hb : b ≤ maxLevel) :
    (image.bucket b).toNat = image.buckets.toNat + 8 * b := by
  have hbelow := image.below
  have hb' : b ≤ 27 := hb
  have height : (8 : UInt32).toNat = 8 := rfl
  have hcount : bucketCount = 28 := rfl
  rw [toNat_heapStart] at hbelow
  rw [KernelImage.bucket, UInt32.toNat_add, UInt32.toNat_mul, UInt32.toNat_ofNat', height]
  omega

lemma bucket_inj {b c : ℕ} (hb : b ≤ maxLevel) (hc : c ≤ maxLevel)
    (heq : image.bucket b = image.bucket c) : b = c := by
  have hnat := congrArg UInt32.toNat heq
  rw [toNat_bucket image hb, toNat_bucket image hc] at hnat
  omega

/-- The array `buckets` lies below the heap. -/
lemma bucket_lt (image : KernelImage) {b : ℕ} (hb : b ≤ maxLevel) :
    (image.bucket b).toNat < heapStart.toNat := by
  have hbelow := image.below
  have hb' : b ≤ 27 := hb
  have hcount : bucketCount = 28 := rfl
  rw [toNat_bucket image hb]
  omega

/-- The search for a bucket ends in one whose blocks are large enough. -/
lemma bucketFrom_spec {request : UInt32} (hr : request.toNat ≤ 2 ^ 31) : ∀ (b : ℕ) (sz : UInt32),
    b ≤ maxLevel → sz.toNat = 2 ^ (31 - b) →
      bucketFrom request b sz ≤ b ∧ request.toNat ≤ 2 ^ (31 - bucketFrom request b sz) := by
  intro b
  induction b with
  | zero =>
      intro sz _ _
      exact ⟨le_rfl, hr⟩
  | succ b ih =>
      intro sz hb hsz
      have hb' : b + 1 ≤ 27 := hb
      unfold bucketFrom
      split_ifs with hlt
      · have hdouble : (sz * 2).toNat = 2 ^ (31 - b) := by
          have htwo : (2 : UInt32).toNat = 2 := rfl
          have hexp : 31 - b = 31 - (b + 1) + 1 := by omega
          have hle : 2 ^ (31 - b) ≤ 2 ^ 31 := Nat.pow_le_pow_right (by decide) (by omega)
          rw [UInt32.toNat_mul, hsz, htwo, ← pow_succ, ← hexp]
          exact Nat.mod_eq_of_lt (hle.trans_lt (by decide))
        obtain ⟨hle, hfit⟩ := ih (sz * 2) (by omega) hdouble
        exact ⟨by omega, hfit⟩
      · rw [UInt32.lt_iff_toNat_lt, hsz] at hlt
        exact ⟨le_rfl, by omega⟩

/-- **A request that passes the check** has a bucket, whose blocks are as large as was computed. -/
lemma bucketForRequest_le {size : UInt32} (hsize : ¬ size > maxAlloc) :
    bucketForRequest size ≤ maxLevel ∧ size.toNat ≤ 2 ^ (31 - bucketForRequest size) := by
  have hmax : maxAlloc.toNat = 2 ^ 31 := rfl
  rw [gt_iff_lt, UInt32.lt_iff_toNat_lt, hmax] at hsize
  exact bucketFrom_spec (not_lt.mp hsize) (bucketCount - 1) minAlloc le_rfl rfl

lemma toNat_request {request : UInt32} (hr : request.toNat < 2 ^ 32 - 8) :
    (request + headerSize).toNat = request.toNat + 8 := by
  have height : headerSize.toNat = 8 := rfl
  rw [UInt32.toNat_add, height]
  omega

/-- **What the check at the start of `malloc` decides** while the sum does not wrap. -/
lemma gt_maxAlloc_iff {request : UInt32} (hr : request.toNat < 2 ^ 32 - 8) :
    request + headerSize > maxAlloc ↔ 2 ^ 31 - 8 < request.toNat := by
  have hmax : maxAlloc.toNat = 2 ^ 31 := rfl
  rw [gt_iff_lt, UInt32.lt_iff_toNat_lt, toNat_request hr, hmax]
  omega

lemma not_gt_maxAlloc {request : UInt32} (hr : request.toNat ≤ 2 ^ 31 - 8) :
    ¬ request + headerSize > maxAlloc := by
  rw [gt_maxAlloc_iff (by omega)]
  omega

/-- **The blocks of the bucket of a request** are large enough for it and its header. -/
lemma bucketForRequest_spec {request : UInt32} (hr : request.toNat ≤ 2 ^ 31 - 8) :
    request.toNat + 8 ≤ 2 ^ (31 - bucketForRequest (request + headerSize)) := by
  obtain ⟨-, hfit⟩ := bucketForRequest_le (not_gt_maxAlloc hr)
  rwa [toNat_request (by omega)] at hfit

/-! ## Free lists -/

/-- The lists of the buckets from the limit on hold the free blocks: the block at a node is on the list
of its level. -/
structure FreeLists (image : KernelImage) (mem : UInt32 → ListT) (L : ℕ) (st : ℕ → Status)
    (nodes : ℕ → List ℕ) : Prop where
  rings : Rings mem (Set.Icc L maxLevel) image.bucket fun b => (nodes b).map addr
  listed : ∀ b i, i ∈ nodes b ↔ st i = free ∧ level i = b
  levels : ∀ i, st i = free → L ≤ level i ∧ level i ≤ maxLevel

variable {mem : UInt32 → ListT} {L : ℕ} {st st' : ℕ → Status} {nodes : ℕ → List ℕ}

lemma map_update (nodes : ℕ → List ℕ) (b : ℕ) (l : List ℕ) :
    (fun c => (Function.update nodes b l c).map addr) =
      Function.update (fun c => (nodes c).map addr) b (l.map addr) := by
  funext c
  exact Function.apply_update (fun _ l => List.map addr l) nodes b l c

/-- What is neither a free block nor below the heap lies in no list. -/
lemma FreeLists.not_mem (h : FreeLists image mem L st nodes) {x : UInt32}
    (hx : heapStart.toNat ≤ x.toNat) (hfree : ∀ j, st j = free → addr j ≠ x) :
    ∀ c ∈ Set.Icc L maxLevel, x ∉ image.bucket c :: (nodes c).map addr := by
  intro c hc hmem
  rcases List.mem_cons.mp hmem with rfl | hmem
  · have hlt := bucket_lt image hc.2
    omega
  · obtain ⟨j, hj, hjx⟩ := List.mem_map.mp hmem
    exact hfree j ((h.listed c j).mp hj).1 hjx

lemma FreeLists.nodup (h : FreeLists image mem L st nodes) {b : ℕ} (hb : b ∈ Set.Icc L maxLevel) :
    (nodes b).Nodup := by
  have hnodup := (List.nodup_cons.mp (h.rings.nodup b hb)).2
  exact hnodup.of_map addr

/-- **Putting a block on the list of its level.** -/
lemma FreeLists.push (h : FreeLists image mem L st nodes) {e b : ℕ} (hb : level e = b)
    (hlo : L ≤ b) (hhi : b ≤ maxLevel) (hout : ∀ j, st j = free → addr j ≠ addr e)
    (hst : ∀ j, st' j = free ↔ st j = free ∨ j = e) :
    FreeLists image (listPush mem (image.bucket b) (addr e)) L st'
      (Function.update nodes b (nodes b ++ [e])) := by
  have hx : heapStart.toNat ≤ (addr e).toNat := by
    rw [toNat_addr (by omega), toNat_heapStart]
    omega
  refine ⟨?_, fun c i => ?_, fun i hi => ?_⟩
  · rw [map_update, List.map_append]
    exact h.rings.push ⟨hlo, hhi⟩ (h.not_mem hx hout)
  · rw [hst, Function.update_apply]
    split_ifs with hc
    · rw [List.mem_append, List.mem_singleton, h.listed, hc]
      constructor
      · rintro (⟨hi, hlevel⟩ | rfl)
        · exact ⟨Or.inl hi, hlevel⟩
        · exact ⟨Or.inr rfl, hb⟩
      · rintro ⟨hi | hi, hlevel⟩
        · exact Or.inl ⟨hi, hlevel⟩
        · exact Or.inr hi
    · rw [h.listed]
      constructor
      · rintro ⟨hi, hlevel⟩
        exact ⟨Or.inl hi, hlevel⟩
      · rintro ⟨hi | rfl, hlevel⟩
        · exact ⟨hi, hlevel⟩
        · exact absurd (hlevel.symm.trans hb) hc
  · rcases (hst i).mp hi with hi | rfl
    · exact h.levels i hi
    · rw [hb]
      exact ⟨hlo, hhi⟩

/-- A free block is somewhere on the list of its level. -/
lemma FreeLists.exists_split (h : FreeLists image mem L st nodes) {e : ℕ} (he : st e = free) :
    ∃ ys zs, nodes (level e) = ys ++ e :: zs ∧
      (nodes (level e)).map addr = ys.map addr ++ addr e :: zs.map addr := by
  obtain ⟨ys, zs, hsplit⟩ := List.append_of_mem ((h.listed (level e) e).mpr ⟨he, rfl⟩)
  refine ⟨ys, zs, hsplit, ?_⟩
  rw [hsplit, List.map_append, List.map_cons]

/-- **Taking a free block off its list.** -/
lemma FreeLists.remove (h : FreeLists image mem L st nodes) {e : ℕ} (he : st e = free)
    (hst : ∀ j, st' j = free ↔ st j = free ∧ j ≠ e) :
    ∃ nodes', FreeLists image (listRemove mem (addr e)) L st' nodes' := by
  have hlevel := h.levels e he
  obtain ⟨ys, zs, hsplit, hmap⟩ := h.exists_split he
  refine ⟨Function.update nodes (level e) (ys ++ zs), ?_, fun c i => ?_, fun i hi => ?_⟩
  · rw [map_update, List.map_append]
    exact h.rings.remove hlevel hmap
  · have hnodup := h.nodup hlevel
    rw [hsplit] at hnodup
    have hnot : e ∉ ys ++ zs := (List.nodup_middle.mp hnodup).notMem
    have hmem : i ∈ ys ++ zs ↔ i ∈ nodes (level e) ∧ i ≠ e := by
      rw [hsplit]
      constructor
      · intro hi
        refine ⟨?_, fun heq => hnot (heq ▸ hi)⟩
        rcases List.mem_append.mp hi with hi | hi
        · exact List.mem_append_left _ hi
        · exact List.mem_append_right _ (List.mem_cons_of_mem _ hi)
      · rintro ⟨hi, hne⟩
        rcases List.mem_append.mp hi with hi | hi
        · exact List.mem_append_left _ hi
        · exact List.mem_append_right _ ((List.mem_cons.mp hi).resolve_left hne)
    rw [hst, Function.update_apply]
    split_ifs with hc
    · rw [hmem, h.listed, hc]
      tauto
    · rw [h.listed]
      constructor
      · rintro ⟨hi, hci⟩
        refine ⟨⟨hi, ?_⟩, hci⟩
        rintro rfl
        exact hc hci.symm
      · exact fun hi => ⟨hi.1.1, hi.2⟩
  · exact h.levels i ((hst i).mp hi).1

/-- **Starting the list of one more bucket.** -/
lemma FreeLists.init (h : FreeLists image mem (L + 1) st nodes) (hL : L ≤ maxLevel) :
    FreeLists image (listInit mem (image.bucket L)) L st nodes := by
  have hempty : nodes L = [] := by
    refine List.eq_nil_iff_forall_not_mem.mpr fun i hi => ?_
    obtain ⟨hfree, hlevel⟩ := (h.listed L i).mp hi
    have hle := (h.levels i hfree).1
    omega
  have hset : insert L (Set.Icc (L + 1) maxLevel) = Set.Icc L maxLevel := by
    ext b
    simp only [Set.mem_insert_iff, Set.mem_Icc]
    omega
  have hnew : L ∉ Set.Icc (L + 1) maxLevel := by
    rintro ⟨hle, -⟩
    omega
  have hhead : ∀ c ∈ Set.Icc (L + 1) maxLevel,
      image.bucket L ∉ image.bucket c :: (nodes c).map addr := by
    intro c hc hmem
    rcases List.mem_cons.mp hmem with heq | hmem
    · have hcL := bucket_inj hL hc.2 heq
      exact hnew (hcL ▸ hc)
    · obtain ⟨j, hj, hjL⟩ := List.mem_map.mp hmem
      have hlt := bucket_lt image hL
      rw [← hjL, toNat_addr (h.levels j ((h.listed c j).mp hj).1).2, toNat_heapStart] at hlt
      omega
  refine ⟨?_, h.listed, fun i hi => ⟨by have := h.levels i hi; omega, (h.levels i hi).2⟩⟩
  have hrings := h.rings.init hnew hhead
  have hsame : Function.update (fun b => (nodes b).map addr) L [] = fun b => (nodes b).map addr := by
    rw [Function.update_eq_self_iff, hempty, List.map_nil]
  rw [hset, hsame] at hrings
  exact hrings

/-- **Popping** finds a block of the bucket unless there is none. -/
lemma FreeLists.pop (h : FreeLists image mem L st nodes) {b : ℕ} (hb : b ∈ Set.Icc L maxLevel) :
    (listPop mem (image.bucket b) = (0, mem) ∧ ∀ i, st i = free → level i ≠ b) ∨
      ∃ i, st i = free ∧ level i = b ∧
        listPop mem (image.bucket b) = (addr i, listRemove mem (addr i)) := by
  rcases List.eq_nil_or_concat (nodes b) with hnil | ⟨l, i, hlast⟩
  · left
    have hprev := h.rings.prev_head_nil hb (by rw [hnil, List.map_nil])
    refine ⟨if_pos hprev, fun i hi hlevel => ?_⟩
    have hmem := (h.listed b i).mpr ⟨hi, hlevel⟩
    rw [hnil] at hmem
    exact List.not_mem_nil hmem
  · right
    have hmap : (nodes b).map addr = l.map addr ++ [addr i] := by
      rw [hlast, List.concat_eq_append, List.map_append, List.map_singleton]
    have hprev := h.rings.prev_head_concat hb hmap
    have hmem : i ∈ nodes b := by
      rw [hlast, List.concat_eq_append]
      exact List.mem_append_right _ (List.mem_singleton_self i)
    obtain ⟨hi, hlevel⟩ := (h.listed b i).mp hmem
    have hne : addr i ≠ image.bucket b := by
      intro heq
      have hlt := bucket_lt image hb.2
      rw [← heq, toNat_addr (h.levels i hi).2, toNat_heapStart] at hlt
      omega
    refine ⟨i, hi, hlevel, ?_⟩
    unfold listPop
    dsimp only
    rw [hprev, if_neg hne]

/-- A list is empty iff no block of its bucket is free. -/
lemma FreeLists.prev_head_eq_iff (h : FreeLists image mem L st nodes) {b : ℕ}
    (hb : b ∈ Set.Icc L maxLevel) :
    (mem (image.bucket b)).prev = image.bucket b ↔ ∀ i, st i = free → level i ≠ b := by
  constructor
  · intro hprev i hi hlevel
    rcases h.pop hb with ⟨-, hempty⟩ | ⟨j, hj, hjlevel, hpop⟩
    · exact hempty i hi hlevel
    · rw [listPop, if_pos hprev, Prod.ext_iff] at hpop
      exact addr_ne_zero (h.levels j hj).2 hpop.1.symm
  · intro hempty
    have hnil : nodes b = [] := by
      refine List.eq_nil_iff_forall_not_mem.mpr fun i hi => ?_
      obtain ⟨hfree, hlevel⟩ := (h.listed b i).mp hi
      exact hempty i hfree hlevel
    exact h.rings.prev_head_nil hb (by rw [hnil, List.map_nil])

/-- The lists depend on the heads and on the free blocks. -/
lemma FreeLists.congr (h : FreeLists image mem L st nodes) {mem' : UInt32 → ListT}
    (hmem : ∀ x, x.toNat < heapStart.toNat ∨ (∃ j, st j = free ∧ x = addr j) → mem' x = mem x) :
    FreeLists image mem' L st nodes := by
  refine ⟨h.rings.congr fun c hc x hx => hmem x ?_, h.listed, h.levels⟩
  rcases List.mem_cons.mp hx with rfl | hx
  · exact Or.inl (bucket_lt image hc.2)
  · obtain ⟨j, hj, rfl⟩ := List.mem_map.mp hx
    exact Or.inr ⟨j, ((h.listed c j).mp hj).1, rfl⟩

/-- What is neither a free block nor below the heap is left alone. -/
lemma FreeLists.push_cell (h : FreeLists image mem L st nodes) {b : ℕ} {e x : UInt32}
    (hb : b ∈ Set.Icc L maxLevel) (hx : heapStart.toNat ≤ x.toNat)
    (hfree : ∀ j, st j = free → addr j ≠ x) (hxe : x ≠ e) :
    listPush mem (image.bucket b) e x = mem x :=
  h.rings.push_keeps hb (h.not_mem hx hfree b hb) hxe

lemma FreeLists.remove_cell (h : FreeLists image mem L st nodes) {e : ℕ} {x : UInt32}
    (he : st e = free) (hx : heapStart.toNat ≤ x.toNat) (hfree : ∀ j, st j = free → addr j ≠ x) :
    listRemove mem (addr e) x = mem x := by
  have hlevel := h.levels e he
  obtain ⟨ys, zs, hsplit, hmap⟩ := h.exists_split he
  exact h.rings.remove_keeps hlevel hmap (h.not_mem hx hfree _ hlevel)

lemma listInit_cell (mem : UInt32 → ListT) {b : ℕ} {x : UInt32} (hb : b ≤ maxLevel)
    (hx : heapStart.toNat ≤ x.toNat) : listInit mem (image.bucket b) x = mem x := by
  refine init_off ?_
  rintro rfl
  have hlt := bucket_lt image hb
  omega

/-! ## The invariant -/

/-- **The heap is a buddy tree.** -/
structure Represents (s : Heap) (st : ℕ → Status) : Prop where
  base : s.basePtr = heapStart
  tree : Tree maxLevel s.bucketLimit st
  flags : ∀ i, s.isSplit i = flag s.bucketLimit st i
  lists : ∃ nodes, FreeLists s.image s.mem s.bucketLimit st nodes
  below : ∀ i, IsBlock st i → (addr i).toNat + 8 ≤ s.maxPtr.toNat
  top : s.maxPtr = s.heapEnd

variable {s : Heap}

lemma Represents.level_le (h : Represents s st) {i : ℕ} (hi : st i ≠ absent) : level i ≤ maxLevel :=
  (h.tree.level_mem i hi).2

lemma maxLevel_le : maxLevel ≤ maxAllocLog2 := by decide

/-- **Popping a bucket of the tree** finds one of its free blocks unless there is none. -/
lemma Represents.pop (h : Represents s st) {b : ℕ} (hlo : s.bucketLimit ≤ b) (hhi : b ≤ maxLevel) :
    (listPop s.mem (s.bucket b) = (0, s.mem) ∧ ∀ i, st i = free → level i ≠ b) ∨
      ∃ i, st i = free ∧ level i = b ∧
        listPop s.mem (s.bucket b) = (addr i, listRemove s.mem (addr i)) := by
  obtain ⟨nodes, hnodes⟩ := h.lists
  exact hnodes.pop ⟨hlo, hhi⟩

/-- Different blocks have different addresses. -/
lemma Represents.addr_ne (h : Represents s st) {i j : ℕ} (hi : IsBlock st i) (hj : IsBlock st j)
    (hne : i ≠ j) : addr i ≠ addr j := by
  intro heq
  rw [addr_inj (h.level_le hi.ne_absent) (h.level_le hj.ne_absent)] at heq
  exact hne (h.tree.start_inj maxLevel_le hi hj heq)

lemma Represents.heapStart_le (h : Represents s st) {i : ℕ} (hi : st i ≠ absent) :
    heapStart.toNat ≤ (addr i).toNat := by
  rw [toNat_addr (h.level_le hi), toNat_heapStart]
  omega

/-- A block in use is none of the free blocks. -/
lemma Represents.free_ne_live (h : Represents s st) {i : ℕ} (hi : st i = live) :
    ∀ j, st j = free → addr j ≠ addr i := by
  intro j hj
  refine h.addr_ne (Or.inl hj) (Or.inr hi) ?_
  rintro rfl
  rw [hj] at hi
  exact absurd hi (by decide)

/-- **The flip that is left out at the topmost node** changes the bit above the node. -/
lemma flip_unless_spec (s : Heap) (i : ℕ) : ∃ bits : ℕ → UInt8,
    (if i ≠ 0 then s.flipParentIsSplit i else s) = { s with nodeIsSplit := bits } ∧
      ∀ j, Heap.isSplit { s with nodeIsSplit := bits } j =
        (s.isSplit j ^^ decide (i = 2 * j + 1 ∨ i = 2 * j + 2)) := by
  by_cases hi : i ≠ 0
  · refine ⟨(s.flipParentIsSplit i).nodeIsSplit, if_pos hi, fun j => ?_⟩
    have hiff : (j = (i - 1) / 2) = (i = 2 * j + 1 ∨ i = 2 * j + 2) := by
      rw [eq_iff_iff]
      omega
    show (s.flipParentIsSplit i).isSplit j = _
    rw [Heap.isSplit_flip]
    simp only [hiff]
  · refine ⟨s.nodeIsSplit, if_neg hi, fun j => ?_⟩
    have hnot : ¬ (i = 2 * j + 1 ∨ i = 2 * j + 2) := by omega
    rw [decide_eq_false hnot, Bool.xor_false]

/-! ## Blocks in use -/

/-- The blocks in use are the same before and after, but for the block `o` before and the block `o'`
after, and so are the cells at their start. -/
structure Keeps (mem : UInt32 → ListT) (st : ℕ → Status) (o : Option ℕ)
    (mem' : UInt32 → ListT) (st' : ℕ → Status) (o' : Option ℕ) : Prop where
  same : ∀ j, st' j = live ∧ some j ≠ o' ↔ st j = live ∧ some j ≠ o
  cell : ∀ j, st j = live → some j ≠ o → mem' (addr j) = mem (addr j)

lemma Keeps.refl (mem : UInt32 → ListT) (st : ℕ → Status) (o : Option ℕ) : Keeps mem st o mem st o :=
  ⟨fun _ => Iff.rfl, fun _ _ _ => rfl⟩

lemma Keeps.trans {m₁ m₂ m₃ : UInt32 → ListT} {t₁ t₂ t₃ : ℕ → Status} {o₁ o₂ o₃ : Option ℕ}
    (h : Keeps m₁ t₁ o₁ m₂ t₂ o₂) (h' : Keeps m₂ t₂ o₂ m₃ t₃ o₃) : Keeps m₁ t₁ o₁ m₃ t₃ o₃ := by
  refine ⟨fun j => (h'.same j).trans (h.same j), fun j hj ho => ?_⟩
  obtain ⟨hj', ho'⟩ := (h.same j).mpr ⟨hj, ho⟩
  exact (h'.cell j hj' ho').trans (h.cell j hj ho)

end GrubKernel
