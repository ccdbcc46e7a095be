import GrubKernel.Bitmap.Frames
import GrubKernel.PlacementMemory.Insert
import GrubKernel.PlacementMemory.Reserve

/-!
# The two memory managers at boot

`main` hands physical memory from the placement memory over to the frame bitmap: it blocks the first
40 MiB, takes a block of 5 MiB for the page directory and the page tables, and marks the frames of the
first 45 MiB in the bitmap.  The two agree on the block only if first fit finds it at 40 MiB.

* `bootMemory` — that part of `main`.
* `Marked` — the frame lies in the bitmap and is in use.
* `placement_eq` — where the block is.
* **`block_marked_iff`** — the frames of the block are marked, and never handed out later, iff one area
  of the free list contains `[40 MiB, 45 MiB)`.
-/

namespace GrubKernel

open RangeList PlacementMemory Bitmap

/-! ## The code -/

/-- `RESERVED_MEMORY_IN_BYTES`. -/
def reservedMemoryInBytes : ℕ := 40 * 1024 * 1024

/-- `PLACEMENT_MEMORY_SIZE_IN_BYTES`. -/
def placementMemorySizeInBytes : ℕ := 5 * 1024 * 1024

/-- What `main` leaves: the block, the free list and the bitmap. -/
structure Booted where
  placementMemoryAddress : UInt64
  freeList : PlacementMemory
  bitmap : ℕ → UInt32

/-- The part of `main` from `allocate_area_cover` to `use_frames_in_bytes`; no result where `main`
gives up. -/
def bootMemory (s : PlacementMemory) (bitmap : ℕ → UInt32) : Option Booted :=
  let s := (s.allocateAreaCover 0 (UInt64.ofNat reservedMemoryInBytes)).2
  let block := s.allocate (UInt64.ofNat placementMemorySizeInBytes)
  if block.1 = 0 then none
  else
    let frames := useFramesInBytes (resetBitmap bitmap bitmapElementCount) bitmapElementCount
      (reservedMemoryInBytes + placementMemorySizeInBytes)
    if frames.1 ≠ 0 then none
    else some ⟨block.1, block.2, frames.2⟩

/-! ## Marked frames -/

/-- The frame has a bit in the bitmap, and the bit is set. -/
def Marked (bitmap : ℕ → UInt32) (frame : ℕ) : Prop :=
  frame < bitmapElementCount * 32 ∧ inUse bitmap frame = true

instance (bitmap : ℕ → UInt32) (frame : ℕ) : Decidable (Marked bitmap frame) :=
  inferInstanceAs (Decidable (_ ∧ _))

/-- Marking frames leaves marked frames marked. -/
lemma Marked.foldl_set {bitmap : ℕ → UInt32} {frame : ℕ} (h : Marked bitmap frame) (fs : List ℕ) :
    Marked (fs.foldl (fun b f => (set b bitmapElementCount f 1).2) bitmap) frame := by
  induction fs generalizing bitmap with
  | nil => exact h
  | cons f fs ih =>
      refine ih ⟨h.1, ?_⟩
      show inUse (set bitmap bitmapElementCount f 1).2 frame = true
      rcases Nat.lt_or_ge bitmapElementCount (f / 32) with hlt | hge
      · rw [set_of_gt hlt]
        exact h.2
      · rw [inUse_set hge, h.2, Bool.or_true]

/-- A marked frame is not handed out. -/
lemma Marked.ne_nextFree {bitmap : ℕ → UInt32} {frame : ℕ} (h : Marked bitmap frame) :
    nextFreeFrameIndex bitmap bitmapElementCount ≠ frame := by
  intro heq
  rcases nextFreeFrameIndex_spec bitmap bitmapElementCount with ⟨f, hf, -, hfree, -⟩ | ⟨hf, -⟩
  · obtain rfl : f = frame := by rw [hf] at heq; exact_mod_cast heq
    rw [h.2] at hfree
    simp at hfree
  · rw [hf] at heq
    omega

/-- The frame has a byte in common with `[p, p + size)`. -/
def Intersects (frame p size : ℕ) : Prop := 4096 * frame < p + size ∧ p < 4096 * (frame + 1)

/-! ## Where the block is -/

/-- The ranges that are free once the first 40 MiB are blocked. -/
lemma spans_allocateAreaCover {s : PlacementMemory} (hs : s.WellFormed) :
    (s.allocateAreaCover 0 (UInt64.ofNat reservedMemoryInBytes)).2.WellFormed ∧
    (s.allocateAreaCover 0 (UInt64.ofNat reservedMemoryInBytes)).2.spans
      = carve 0 reservedMemoryInBytes s.spans := by
  have hv : (⟨0, UInt64.ofNat reservedMemoryInBytes⟩ : MemoryArea).Valid := by decide
  have hspan : (⟨0, UInt64.ofNat reservedMemoryInBytes⟩ : MemoryArea).span
      = ⟨0, reservedMemoryInBytes⟩ := rfl
  rcases allocateAreaCover_spec hs hv with ⟨-, -, hspans, hidx⟩ | ⟨⟨-, a, -, hlo, -⟩, -⟩
  · rw [hspan] at hspans
    exact ⟨hs.of_carve (Nat.zero_le _) hspans hidx, hspans⟩
  · -- nothing starts below address 0
    rw [hspan] at hlo
    exact absurd hlo (Nat.not_lt_zero _)

/-- What a successful boot says: the block is the start of the first area of the blocked list that is
large enough, and the frames of the first 45 MiB are those in use. -/
lemma bootMemory_spec {s : PlacementMemory} (hs : s.WellFormed) {bitmap : ℕ → UInt32} {t : Booted}
    (h : bootMemory s bitmap = some t) :
    (∃ u : PlacementMemory, u.WellFormed ∧ u.spans = carve 0 reservedMemoryInBytes s.spans ∧
      ∃ j < u.freeMemoryAreaIndex,
        placementMemorySizeInBytes ≤ (u.freeMemoryAreas j).size.toNat ∧
        (∀ k < j, (u.freeMemoryAreas k).size.toNat < placementMemorySizeInBytes) ∧
        t.placementMemoryAddress = (u.freeMemoryAreas j).start) ∧
    ∀ f < bitmapElementCount * 32,
      inUse t.bitmap f = decide (f < (reservedMemoryInBytes + placementMemorySizeInBytes) / 0x1000) := by
  obtain ⟨hwf, hspans⟩ := spans_allocateAreaCover hs
  have hsize : 0 < (UInt64.ofNat placementMemorySizeInBytes).toNat := by decide
  unfold bootMemory at h
  dsimp only at h
  split_ifs at h with hp hr
  obtain rfl := Option.some.inj h
  refine ⟨⟨_, hwf, hspans, ?_⟩, fun f hf => ?_⟩
  · rcases allocate_spec hwf hsize with ⟨j, hj, hle, hbelow, hret, -⟩ | ⟨-, hret, -⟩
    · exact ⟨j, hj, hle, hbelow, hret⟩
    · exact absurd hret hp
  · show inUse (useFramesInBytes _ _ _).2 f = _
    rw [inUse_useFramesInBytes (by decide), inUse_resetBitmap bitmap hf, Bool.or_false]

/-- **The block lies at 40 MiB iff one free area contains its 5 MiB there.** -/
theorem placement_eq {s : PlacementMemory} (hs : s.WellFormed) {bitmap : ℕ → UInt32} {t : Booted}
    (h : bootMemory s bitmap = some t) :
    reservedMemoryInBytes ≤ t.placementMemoryAddress.toNat ∧
    (t.placementMemoryAddress.toNat = reservedMemoryInBytes ↔
      ∃ a ∈ s.spans, a.lo ≤ reservedMemoryInBytes ∧
        reservedMemoryInBytes + placementMemorySizeInBytes ≤ a.hi) := by
  obtain ⟨⟨u, hu, hspans, j, hj, hsize, hbelow, hp⟩, -⟩ := bootMemory_spec hs h
  have hpos : 0 < placementMemorySizeInBytes := by decide
  -- everything that is left lies above the blocked part
  have habove : ∀ k < u.freeMemoryAreaIndex,
      reservedMemoryInBytes ≤ (u.freeMemoryAreas k).span.lo := by
    intro k hk
    have hlt := (hu.valid hk).lo_lt_hi
    have hmem : (u.freeMemoryAreas k).span.lo ∈ addresses u.spans :=
      ⟨_, mem_spans.mpr ⟨k, hk, rfl⟩, le_rfl, hlt⟩
    rw [hspans, addresses_carve] at hmem
    by_contra hcon
    exact hmem.2 ⟨Nat.zero_le _, not_le.mp hcon⟩
  have hjspan : (u.freeMemoryAreas j).span ∈ carve 0 reservedMemoryInBytes s.spans :=
    hspans ▸ mem_spans.mpr ⟨j, hj, rfl⟩
  rw [hp]
  refine ⟨habove j hj, ?_, ?_⟩
  · intro heq
    obtain ⟨a, ha, -, hlo, hhi⟩ := mem_carve hjspan
    rw [MemoryArea.span_lo] at hlo
    rw [MemoryArea.span_hi] at hhi
    exact ⟨a, ha, by omega, by omega⟩
  · rintro ⟨a, ha, hlo, hhi⟩
    -- the part of `a` above 40 MiB is an area of its own, and it is the lowest one
    have hminus : a.minus 0 reservedMemoryInBytes = [⟨reservedMemoryInBytes, a.hi⟩] :=
      Span.minus_start (Nat.zero_le _) hlo (by omega)
    have hmem : (⟨reservedMemoryInBytes, a.hi⟩ : Span ℕ) ∈ u.spans := by
      rw [hspans]
      exact List.mem_flatMap.mpr ⟨a, ha, by rw [hminus]; exact List.mem_singleton_self _⟩
    obtain ⟨i, hi, hspan⟩ := mem_spans.mp hmem
    have hilo : (u.freeMemoryAreas i).start.toNat = reservedMemoryInBytes := congrArg Span.lo hspan
    have hihi : (u.freeMemoryAreas i).start.toNat + (u.freeMemoryAreas i).size.toNat = a.hi :=
      congrArg Span.hi hspan
    rcases lt_trichotomy j i with hlt | rfl | hgt
    · have hord := hu.ordered hlt hi
      have hjlt := (hu.valid hj).lo_lt_hi
      have hjlo := habove j hj
      rw [MemoryArea.span_lo, hilo] at hord
      omega
    · exact hilo
    · have := hbelow i hgt
      omega

/-- **The two managers agree iff first fit finds the block at 40 MiB.**  After a successful boot on a
well-formed free list, every frame of the block is marked, and no later search hands it out, however
many frames have been marked since, iff one free area contains `[40 MiB, 45 MiB)`. -/
theorem block_marked_iff {s : PlacementMemory} (hs : s.WellFormed) {bitmap : ℕ → UInt32}
    {t : Booted} (h : bootMemory s bitmap = some t) :
    (∀ f, Intersects f t.placementMemoryAddress.toNat placementMemorySizeInBytes →
      Marked t.bitmap f ∧ ∀ fs : List ℕ, nextFreeFrameIndex
        (fs.foldl (fun b g => (set b bitmapElementCount g 1).2) t.bitmap) bitmapElementCount ≠ f) ↔
    ∃ a ∈ s.spans, a.lo ≤ reservedMemoryInBytes ∧
      reservedMemoryInBytes + placementMemorySizeInBytes ≤ a.hi := by
  obtain ⟨-, hbits⟩ := bootMemory_spec hs h
  obtain ⟨hlow, hplace⟩ := placement_eq hs h
  have hsize : placementMemorySizeInBytes = 5242880 := rfl
  have hres : reservedMemoryInBytes = 41943040 := rfl
  have hcount : bitmapElementCount * 32 = 51232 := rfl
  rw [← hplace]
  constructor
  · intro hall
    -- the last frame of the block is marked, so the block ends at 45 MiB
    obtain ⟨⟨hf, huse⟩, -⟩ := hall ((t.placementMemoryAddress.toNat + placementMemorySizeInBytes - 1) / 4096)
      ⟨by omega, by omega⟩
    rw [hbits _ hf, decide_eq_true_eq] at huse
    omega
  · rintro heq f ⟨hlo, hhi⟩
    have hmarked : Marked t.bitmap f := by
      refine ⟨by omega, ?_⟩
      rw [hbits f (by omega), decide_eq_true_eq]
      omega
    exact ⟨hmarked, fun fs => (hmarked.foldl_set fs).ne_nextFree⟩

/-- A machine with a hole over the 40 MiB line: the block is at 48 MiB, and its frames are not marked. -/
theorem block_above_hole_not_marked :
    let s := (ofAreas []).clearPlacementMemoryArray.insertAll
      [⟨0, 0x9fc00⟩, ⟨0x100000, 0x2900000⟩, ⟨0x3000000, 0x5000000⟩]
    ∃ t, s.WellFormed ∧ bootMemory s (fun _ => 0) = some t ∧
      t.placementMemoryAddress = 0x3000000 ∧
      Intersects 0x3000 t.placementMemoryAddress.toNat placementMemorySizeInBytes ∧
      ¬ Marked t.bitmap 0x3000 := by
  have hs : ((ofAreas []).clearPlacementMemoryArray.insertAll
      [⟨0, 0x9fc00⟩, ⟨0x100000, 0x2900000⟩, ⟨0x3000000, 0x5000000⟩]).WellFormed := by
    have hused : ((ofAreas []).clearPlacementMemoryArray.insertAll
        [⟨0, 0x9fc00⟩, ⟨0x100000, 0x2900000⟩, ⟨0x3000000, 0x5000000⟩]).usedAreas
          = [⟨0, 0x9fc00⟩, ⟨0x100000, 0x2900000⟩, ⟨0x3000000, 0x5000000⟩] := by decide
    refine ⟨by decide, ?_, ?_⟩
    · rw [spans, hused]
      decide
    · rw [spans, hused]
      decide
  have hblock : (bootMemory ((ofAreas []).clearPlacementMemoryArray.insertAll
      [⟨0, 0x9fc00⟩, ⟨0x100000, 0x2900000⟩, ⟨0x3000000, 0x5000000⟩]) (fun _ => 0)).map
        (·.placementMemoryAddress) = some 0x3000000 := by decide +kernel
  obtain ⟨t, ht, haddr⟩ := Option.map_eq_some_iff.mp hblock
  refine ⟨t, hs, ht, haddr, by rw [haddr]; exact ⟨by decide, by decide⟩, ?_⟩
  rintro ⟨hf, huse⟩
  rw [(bootMemory_spec hs ht).2 _ hf] at huse
  exact absurd huse (by decide)

/-- A machine with one RAM region from 1 MiB to 128 MiB. -/
theorem block_marked_iff_example :
    let s := ofAreas [⟨0, 0x9fc00⟩, ⟨0x100000, 0x7ee0000⟩]
    ∃ t, bootMemory s (fun _ => 0) = some t ∧
      ∀ f, Intersects f t.placementMemoryAddress.toNat placementMemorySizeInBytes →
        Marked t.bitmap f ∧ ∀ fs : List ℕ, nextFreeFrameIndex
          (fs.foldl (fun b g => (set b bitmapElementCount g 1).2) t.bitmap) bitmapElementCount ≠ f := by
  have hblock : (bootMemory (ofAreas [⟨0, 0x9fc00⟩, ⟨0x100000, 0x7ee0000⟩]) (fun _ => 0)).map
      (·.placementMemoryAddress) = some 0x2800000 := by decide +kernel
  obtain ⟨t, ht, -⟩ := Option.map_eq_some_iff.mp hblock
  have hs : (ofAreas [⟨0, 0x9fc00⟩, ⟨0x100000, 0x7ee0000⟩]).WellFormed := wellFormed_ofAreas (by decide)
  refine ⟨t, ht, (block_marked_iff hs ht).mpr ?_⟩
  rw [spans_ofAreas]
  decide

end GrubKernel
