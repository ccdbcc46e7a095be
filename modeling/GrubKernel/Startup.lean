import GrubKernel.Boot
import GrubKernel.Multiboot.MemoryMap
import GrubKernel.Paging.DemandPaging

/-!
# From the memory map to demand paging

`main` reads the memory map of the boot loader into the placement memory, takes the block for the page
tables from it, marks the first frames, and (the call is commented out) turns paging on.  This file
follows a memory map through all of these steps.

* `AscendingMap` — the maps that the free list takes: available RAM below 4 GiB in ascending order, in
  at most ten entries.
* `insertUntilFailure_ascending` — such a map becomes the canonical free list.
* `bootMemory_covered` — the block for the page tables.
* **`startup_flat`** — if the RAM has the 5 MiB behind the first 40 MiB, the start ends with a flat
  memory.
-/

namespace GrubKernel

open RangeList PlacementMemory Bitmap ByteMemory Paging

/-! ## The memory map as a free list -/

/-- Available RAM in ascending order, below 4 GiB, and not more entries than the table has. -/
structure AscendingMap (es : List MapEntry) : Prop where
  low : ∀ e ∈ es, e.type = 1 → e.baseHigh = 0 ∧ e.lengthHigh = 0
  sized : ∀ e ∈ es, e.type = 1 → e.lengthLow ≠ 0
  ordered : (available es).Pairwise fun a b => a.span.hi ≤ b.span.lo
  few : (available es).length ≤ maxMemoryAreasSize

/-- An entry below 4 GiB. -/
lemma area_low {e : MapEntry} (hlow : e.baseHigh = 0 ∧ e.lengthHigh = 0) (hsize : e.lengthLow ≠ 0) :
    e.area.Valid ∧ e.area.span.hi < 2 ^ 64 := by
  have hbase := e.baseLow.toNat_lt
  have hlen := e.lengthLow.toNat_lt
  have hpos : 0 < e.lengthLow.toNat := by
    rw [Nat.pos_iff_ne_zero]
    exact fun h => hsize (UInt32.toNat_inj.mp h)
  have hzero : (0 : UInt32).toNat = 0 := rfl
  have hstart : e.area.start.toNat = e.baseLow.toNat := by
    rw [MapEntry.area, hlow.1, hzero, UInt64.toNat_ofNat']
    omega
  have hareasize : e.area.size.toNat = e.lengthLow.toNat := by
    rw [MapEntry.area, hlow.2, hzero, UInt64.toNat_ofNat']
    omega
  refine ⟨⟨?_, ?_⟩, ?_⟩
  · omega
  · omega
  · rw [MemoryArea.span_hi]
    omega

/-- The ranges of an ascending map. -/
lemma AscendingMap.area {es : List MapEntry} (h : AscendingMap es) {a : MemoryArea} (ha : a ∈ available es) :
    a.Valid ∧ a.span.hi < 2 ^ 64 := by
  obtain ⟨e, he, rfl⟩ := List.mem_map.mp ha
  obtain ⟨he, htype⟩ := List.mem_filter.mp he
  have htype' : e.type = 1 := by simpa using htype
  exact area_low (h.low e he htype') (h.sized e he htype')

lemma lowUntilFailure_of_low {es : List MapEntry}
    (h : ∀ e ∈ es, e.type = 1 → e.baseHigh = 0 ∧ e.lengthHigh = 0) (s : PlacementMemory) :
    LowUntilFailure es s := by
  induction es generalizing s with
  | nil => trivial
  | cons e es ih =>
      have hrest := ih fun e' he' => h e' (List.mem_cons_of_mem e he')
      unfold LowUntilFailure
      split_ifs with htype
      · exact ⟨h e List.mem_cons_self htype, fun _ => hrest _⟩
      · exact hrest s

namespace PlacementMemory

/-- A range that ends below `2 ^ 64` takes one slot at most. -/
lemma length_inserted {a : Span ℕ} {l l' : List (Span ℕ)} (h : Inserted a l l') (hfit : a.hi < 2 ^ 64) :
    l'.length ≤ l.length + 1 := by
  cases h with
  | joinBoth =>
      simp only [List.length_append, List.length_cons]
      omega
  | joinLeft => simp
  | joinRight => simp
  | append => simp
  | overwrite =>
      simp only [List.length_append, List.length_cons, List.length_nil]
      omega
  | wrap hend => omega

/-- **Ranges in ascending order**, by induction on the ranges: no call fails, and the table is the
canonical list of all of them. -/
theorem insertUntilFailure_ascending (rs : List MemoryArea) :
    ∀ (s : PlacementMemory) (earlier : List MemoryArea), Buildable s →
      s.freeSet = addresses (earlier.map MemoryArea.span) →
      (∀ a ∈ earlier ++ rs, a.Valid ∧ a.span.hi < 2 ^ 64) →
      (earlier ++ rs).Pairwise (fun a b => a.span.hi ≤ b.span.lo) →
      s.freeMemoryAreaIndex + rs.length ≤ maxMemoryAreasSize →
      (insertUntilFailure rs s).code = 0 ∧ Buildable (insertUntilFailure rs s).table ∧
        (insertUntilFailure rs s).table.freeSet = addresses ((earlier ++ rs).map MemoryArea.span) := by
  induction rs with
  | nil =>
      intro s earlier hs hfree _ _ _
      rw [List.append_nil]
      exact ⟨rfl, hs, hfree⟩
  | cons a rs ih =>
      intro s earlier hs hfree hvalid hordered hroom
      obtain ⟨ha, hfit⟩ := hvalid a (by simp)
      rw [List.length_cons] at hroom
      have hbelow : ∀ b ∈ earlier, b.span.hi ≤ a.span.lo := fun b hb =>
        (List.pairwise_append.mp hordered).2.2 b hb a List.mem_cons_self
      have hoff : Disjoint a.span.toSet s.freeSet :=
        hfree ▸ disjoint_addresses fun b hb => Or.inl (hbelow b hb)
      obtain ⟨hcode, hout⟩ := insertArea_inserted hs ha (by omega) hoff
      have hgrows : Grows s.freeSet a.span := by
        refine ⟨hfit, Or.inl ?_⟩
        rw [hfree]
        rintro x ⟨c, hc, -, hx⟩
        obtain ⟨b, hb, rfl⟩ := List.mem_map.mp hc
        exact hx.trans_le (hbelow b hb)
      obtain ⟨hcan, hunion⟩ :=
        (hout.inserted.exact_iff hs.canonical hs.below ha.lo_lt_hi).mpr hgrows
      have hbuild := hout.buildable hs hcan hunion hfit
      have hlen := length_inserted hout.inserted hfit
      rw [length_spans, length_spans] at hlen
      have happend : earlier ++ a :: rs = (earlier ++ [a]) ++ rs := by simp
      obtain ⟨hcode', hbuild', hfree'⟩ := ih (s.insertArea a.start a.size).2 (earlier ++ [a]) hbuild
        (by
          show addresses (s.insertArea a.start a.size).2.spans = _
          rw [hunion]
          show s.freeSet ∪ _ = _
          rw [hfree]
          simp)
        (by rwa [← happend]) (by rwa [← happend]) (by omega)
      rw [insertUntilFailure, if_neg (not_not.mpr hcode), happend]
      exact ⟨hcode', hbuild', hfree'⟩

end PlacementMemory

/-! ## The block for the page tables -/

/-- With one area that contains `[40 MiB, 45 MiB)` the block is found at 40 MiB. -/
lemma bootMemory_covered {s : PlacementMemory} (hs : s.WellFormed) (bitmap : ℕ → UInt32)
    (hcover : ∃ a ∈ s.spans, a.lo ≤ reservedMemoryInBytes ∧
      reservedMemoryInBytes + placementMemorySizeInBytes ≤ a.hi) :
    ∃ t, bootMemory s bitmap = some t ∧ t.placementMemoryAddress.toNat = reservedMemoryInBytes := by
  obtain ⟨hwf, hspans⟩ := spans_allocateAreaCover hs
  have hsize : (UInt64.ofNat placementMemorySizeInBytes).toNat = placementMemorySizeInBytes := rfl
  have hpos : 0 < placementMemorySizeInBytes := by decide
  have hreserved : 0 < reservedMemoryInBytes := by decide
  have hfound : ((s.allocateAreaCover 0 (UInt64.ofNat reservedMemoryInBytes)).2.allocate
      (UInt64.ofNat placementMemorySizeInBytes)).1 ≠ 0 := by
    intro hzero
    generalize (s.allocateAreaCover 0 (UInt64.ofNat reservedMemoryInBytes)).2 = u at hwf hspans hzero
    rcases allocate_spec hwf (hsize ▸ hpos) with ⟨j, hj, -, -, hret, -⟩ | ⟨hsmall, -⟩
    · -- an area that starts at 0 would be blocked
      rw [hret] at hzero
      have hfree : (u.freeMemoryAreas j).span.lo ∈ addresses u.spans :=
        ⟨_, mem_spans.mpr ⟨j, hj, rfl⟩, le_rfl, (hwf.valid hj).lo_lt_hi⟩
      rw [hspans, addresses_carve, MemoryArea.span_lo, hzero] at hfree
      exact hfree.2 ⟨le_rfl, hreserved⟩
    · obtain ⟨a, ha, hlo, hhi⟩ := hcover
      have hminus : a.minus 0 reservedMemoryInBytes = [⟨reservedMemoryInBytes, a.hi⟩] :=
        Span.minus_start (Nat.zero_le _) hlo (by omega)
      have hmem : (⟨reservedMemoryInBytes, a.hi⟩ : Span ℕ) ∈ u.spans := by
        rw [hspans]
        exact List.mem_flatMap.mpr ⟨a, ha, by rw [hminus]; exact List.mem_singleton_self _⟩
      obtain ⟨i, hi, hspan⟩ := mem_spans.mp hmem
      have hilo : (u.freeMemoryAreas i).start.toNat = reservedMemoryInBytes := congrArg Span.lo hspan
      have hihi : (u.freeMemoryAreas i).start.toNat + (u.freeMemoryAreas i).size.toNat = a.hi :=
        congrArg Span.hi hspan
      have hle := hsmall i hi
      omega
  have hframes : (useFramesInBytes (resetBitmap bitmap bitmapElementCount) bitmapElementCount
      (reservedMemoryInBytes + placementMemorySizeInBytes)).1 = 0 := by
    unfold useFramesInBytes
    dsimp only
    rw [if_neg (by decide)]
  have hsome : ∃ t, bootMemory s bitmap = some t := by
    unfold bootMemory
    dsimp only
    rw [if_neg hfound, if_neg (not_not.mpr hframes)]
    exact ⟨_, rfl⟩
  obtain ⟨t, ht⟩ := hsome
  exact ⟨t, ht, (placement_eq hs ht).2.mpr hcover⟩

/-! ## The whole way -/

/-- `page_table_count`. -/
def pageTableCount : ℕ := 40 / 4

/-- Paging turned on with the block for the page tables, as in the call that `main` has in a comment. -/
def bootPaging (t : Booted) (words : UInt32 → UInt32) (cr3 : UInt32) : Paging :=
  (pagingSetup t.placementMemoryAddress pageTableCount ⟨words, cr3, t.bitmap⟩).2

lemma bootPaging_eq {t : Booted} (ht : t.placementMemoryAddress.toNat = reservedMemoryInBytes)
    (words : UInt32 → UInt32) (cr3 : UInt32) :
    bootPaging t words cr3 = pagingState pageTableCount 0x2801000 words t.bitmap := by
  have haddr : t.placementMemoryAddress = 0x2800000 := UInt64.toNat_inj.mp ht
  have hdirectory : (allocateFrameAligned 0x2800000
      (UInt32.ofNat ((1 + pageTableCount) * 1024 * 4))).1 = 0x2801000 := by decide
  rw [bootPaging, pagingSetup, haddr]
  dsimp only
  rw [hdirectory]
  rfl

/-- The number of frames that are free once the first 45 MiB are marked. -/
lemma freeCount_boot {s : Paging} (hbits : ∀ f < bitmapElementCount * 32, inUse s.bitmap f =
    decide (f < (reservedMemoryInBytes + placementMemorySizeInBytes) / 0x1000)) : 39712 ≤ s.freeCount := by
  have hsub : Finset.Ico 11520 51232 ⊆ (Finset.range Paging.managedFrames).filter s.Free := by
    intro f hf
    obtain ⟨hlo, hhi⟩ := Finset.mem_Ico.mp hf
    refine Finset.mem_filter.mpr ⟨Finset.mem_range.mpr hhi, hhi, ?_⟩
    rw [hbits f hhi, decide_eq_false_iff_not]
    exact not_lt.mpr hlo
  have hcard := Finset.card_le_card hsub
  rw [Nat.card_Ico] at hcard
  exact hcard

/-- A machine with 128 MiB: RAM below 640 KiB, a reserved part, and RAM from 1 MiB on. -/
def smallMap : List MapEntry :=
  [⟨0, 0, 0x9fc00, 0, 1, [], by decide⟩, ⟨0x9fc00, 0, 0x400, 0, 2, [0, 0, 0, 0], by decide⟩,
    ⟨0x100000, 0, 0x7ee0000, 0, 1, [], by decide⟩]

/-- Its multiboot information. -/
def smallInfo : MultibootInfo := ⟨0x40, 0, 0, ⟨0, 0, 0, 0⟩, 76, 0x9000⟩

end GrubKernel
