import GrubKernel.Multiboot.MemoryMap

/-!
# Walking over the memory map

The loop over the memory map steps by the size field of each entry and looks only at whether the address
of the next entry is below the end of the buffer.  So it ends, and reads entries of the buffer only, for
the buffers that hold a chain of whole entries; a size field can as well lead to the last few bytes,
below the buffer, or back to the same entry.

* `walkEntries`, `walkMultibootMemoryMap` — the walk with the addresses of the entries that it reads;
  `walkEntries_fst` says that it is the walk.
* `EntryChain` — a chain of whole entries from an address on.
* **`walkStays_iff`** — the walk ends and stays in the buffer iff the buffer holds such a chain.
* `entryChain_encode` — a map as the boot loader writes it is one.
-/

namespace GrubKernel

open ByteMemory

/-! ## The entries that are read -/

/-- The loop of `process_multiboot_memory_map`, with the addresses of the entries read. -/
def walkEntries (mem : UInt32 → UInt8) (stop : UInt32) :
    ℕ → UInt32 → PlacementMemory → Option (MapResult × List UInt32)
  | 0, _, _ => none
  | fuel + 1, mmap, s =>
      if mmap < stop then
        let e := memoryMapAt mem mmap
        let next := mmap + e.size + 4
        if e.type = 1 then
          let r := s.insertArea e.area.start e.area.size
          if r.1 ≠ 0 then some (⟨-2, [e.area], r.2⟩, [mmap])
          else (walkEntries mem stop fuel next r.2).map fun w => (w.1.after e.area, mmap :: w.2)
        else (walkEntries mem stop fuel next s).map fun w => (w.1, mmap :: w.2)
      else some (⟨0, [], s⟩, [])

/-- `process_multiboot_memory_map`, with the addresses of the entries read. -/
def walkMultibootMemoryMap (fuel : ℕ) (mem : UInt32 → UInt8) (mbi : MultibootInfo)
    (s : PlacementMemory) : Option (MapResult × List UInt32) :=
  if ¬ checkFlag mbi.flags 6 then some (⟨-1, [], s⟩, [])
  else walkEntries mem (mbi.mmapAddr + mbi.mmapLength) fuel mbi.mmapAddr s

/-- Writing the addresses down changes nothing else. -/
lemma walkEntries_fst (mem : UInt32 → UInt8) (stop : UInt32) (fuel : ℕ) :
    ∀ mmap s, (walkEntries mem stop fuel mmap s).map Prod.fst = processEntries mem stop fuel mmap s := by
  induction fuel with
  | zero =>
      intro mmap s
      rfl
  | succ fuel ih =>
      intro mmap s
      rw [walkEntries, processEntries]
      by_cases hin : mmap < stop
      · rw [if_pos hin, if_pos hin]
        dsimp only
        by_cases htype : (memoryMapAt mem mmap).type = 1
        · rw [if_pos htype, if_pos htype]
          by_cases hcode : (s.insertArea (memoryMapAt mem mmap).area.start
              (memoryMapAt mem mmap).area.size).1 ≠ 0
          · rw [if_pos hcode, if_pos hcode]
            rfl
          · rw [if_neg hcode, if_neg hcode, ← ih, Option.map_map, Option.map_map]
            rfl
        · rw [if_neg htype, if_neg htype, ← ih, Option.map_map]
          rfl
      · rw [if_neg hin, if_neg hin]
        rfl

theorem walkMultibootMemoryMap_fst (fuel : ℕ) (mem : UInt32 → UInt8) (mbi : MultibootInfo)
    (s : PlacementMemory) :
    (walkMultibootMemoryMap fuel mem mbi s).map Prod.fst = processMultibootMemoryMap fuel mem mbi s := by
  rw [walkMultibootMemoryMap, processMultibootMemoryMap]
  by_cases hflag : ¬ checkFlag mbi.flags 6
  · rw [if_pos hflag, if_pos hflag]
    rfl
  · rw [if_neg hflag, if_neg hflag, walkEntries_fst]

/-! ## Chains of entries -/

/-- The table after the range of an entry has been inserted, if it is of available RAM. -/
def insertEntry (e : MemoryMap) (s : PlacementMemory) : PlacementMemory :=
  if e.type = 1 then (s.insertArea e.area.start e.area.size).2 else s

/-- The range of an entry is one that `insert_area` refuses. -/
def Refused (e : MemoryMap) (s : PlacementMemory) : Prop :=
  e.type = 1 ∧ (s.insertArea e.area.start e.area.size).1 ≠ 0

/-- All six words of an entry lie in the buffer. -/
def WholeEntry (start stop mmap : UInt32) : Prop := start ≤ mmap ∧ mmap.toNat + 24 ≤ stop.toNat

/-- The buffer from `start` to `stop` holds a chain of whole entries from address `a` on, at the
addresses `es`: each follows the one before at the distance of its size field and four, and the last one
leads behind the buffer or has a range that is refused. -/
def EntryChain (mem : UInt32 → UInt8) (start stop : UInt32) :
    UInt32 → List UInt32 → PlacementMemory → Prop
  | a, [], _ => stop ≤ a
  | a, e :: es, s =>
      e = a ∧ WholeEntry start stop e ∧
        ((Refused (memoryMapAt mem e) s ∧ es = []) ∨
          (¬ Refused (memoryMapAt mem e) s ∧
            EntryChain mem start stop (e + (memoryMapAt mem e).size + 4) es
              (insertEntry (memoryMapAt mem e) s)))

variable {mem : UInt32 → UInt8} {start stop : UInt32}

/-- One step of the walk at an entry of the buffer. -/
lemma walkEntries_step (fuel : ℕ) {a : UInt32} {s : PlacementMemory} (h : a < stop)
    (haccepted : ¬ Refused (memoryMapAt mem a) s) :
    ∃ f : MapResult → MapResult, walkEntries mem stop (fuel + 1) a s
      = (walkEntries mem stop fuel (a + (memoryMapAt mem a).size + 4)
          (insertEntry (memoryMapAt mem a) s)).map fun w => (f w.1, a :: w.2) := by
  rw [walkEntries, if_pos h]
  dsimp only
  by_cases htype : (memoryMapAt mem a).type = 1
  · have hcode : ¬ (s.insertArea (memoryMapAt mem a).area.start (memoryMapAt mem a).area.size).1 ≠ 0 :=
      fun hne => haccepted ⟨htype, hne⟩
    rw [if_pos htype, if_neg hcode, insertEntry, if_pos htype]
    exact ⟨(·.after (memoryMapAt mem a).area), rfl⟩
  · rw [if_neg htype, insertEntry, if_neg htype]
    exact ⟨id, rfl⟩

/-- The walk at an entry with a range that is refused. -/
lemma walkEntries_refused (fuel : ℕ) {a : UInt32} {s : PlacementMemory} (h : a < stop)
    (hrefused : Refused (memoryMapAt mem a) s) :
    ∃ r, walkEntries mem stop (fuel + 1) a s = some (r, [a]) := by
  obtain ⟨htype, hcode⟩ := hrefused
  rw [walkEntries, if_pos h]
  dsimp only
  rw [if_pos htype, if_pos hcode]
  exact ⟨_, rfl⟩

lemma WholeEntry.lt {a : UInt32} (h : WholeEntry start stop a) : a < stop := by
  have hend := h.2
  rw [UInt32.lt_iff_toNat_lt]
  omega

/-- The walk follows a chain to its end. -/
lemma walk_of_entryChain (es : List UInt32) :
    ∀ a s, EntryChain mem start stop a es s →
      ∃ fuel r, walkEntries mem stop fuel a s = some (r, es) := by
  induction es with
  | nil =>
      intro a s h
      refine ⟨1, ⟨0, [], s⟩, ?_⟩
      rw [walkEntries, if_neg (UInt32.not_lt.mpr h)]
  | cons e es ih =>
      rintro a s ⟨rfl, hwhole, hrest⟩
      rcases hrest with ⟨hrefused, rfl⟩ | ⟨haccepted, hchain⟩
      · obtain ⟨r, hr⟩ := walkEntries_refused 0 hwhole.lt hrefused
        exact ⟨1, r, hr⟩
      · obtain ⟨fuel, r, hr⟩ := ih _ _ hchain
        obtain ⟨f, hf⟩ := walkEntries_step fuel hwhole.lt haccepted
        exact ⟨fuel + 1, f r, by rw [hf, hr, Option.map_some]⟩

/-- A walk that ends has followed a chain, if the entries it read are whole. -/
lemma entryChain_of_walk (fuel : ℕ) :
    ∀ a s r es, walkEntries mem stop fuel a s = some (r, es) →
      (∀ e ∈ es, WholeEntry start stop e) → EntryChain mem start stop a es s := by
  induction fuel with
  | zero =>
      intro a s r es h
      simp [walkEntries] at h
  | succ fuel ih =>
      intro a s r es h hwhole
      by_cases hin : a < stop
      · by_cases hrefused : Refused (memoryMapAt mem a) s
        · obtain ⟨r', hr'⟩ := walkEntries_refused fuel hin hrefused
          rw [hr', Option.some_inj, Prod.mk.injEq] at h
          obtain ⟨-, rfl⟩ := h
          exact ⟨rfl, hwhole a List.mem_cons_self, Or.inl ⟨hrefused, rfl⟩⟩
        · obtain ⟨f, hf⟩ := walkEntries_step fuel hin hrefused
          rw [hf] at h
          obtain ⟨⟨r', es'⟩, hrest, heq⟩ := Option.map_eq_some_iff.mp h
          obtain ⟨-, rfl⟩ := Prod.mk.inj heq
          have hchain := ih _ _ r' es' hrest fun e he => hwhole e (List.mem_cons_of_mem a he)
          exact ⟨rfl, hwhole a List.mem_cons_self, Or.inr ⟨hrefused, hchain⟩⟩
      · rw [walkEntries, if_neg hin, Option.some_inj, Prod.mk.injEq] at h
        obtain ⟨-, rfl⟩ := h
        exact UInt32.not_lt.mp hin

/-- The entries of a chain are whole. -/
lemma EntryChain.whole (es : List UInt32) :
    ∀ a s, EntryChain mem start stop a es s → ∀ e ∈ es, WholeEntry start stop e := by
  induction es with
  | nil =>
      intro a s _ e he
      simp at he
  | cons b es ih =>
      rintro a s ⟨rfl, hwhole, hrest⟩ e he
      rcases List.mem_cons.mp he with rfl | he
      · exact hwhole
      · rcases hrest with ⟨-, rfl⟩ | ⟨-, hchain⟩
        · simp at he
        · exact ih _ _ hchain e he

/-! ## The walk and its buffer -/

/-- The walk ends, and every entry that it reads lies in the buffer with all of its words. -/
def WalkStays (mem : UInt32 → UInt8) (mbi : MultibootInfo) (s : PlacementMemory) : Prop :=
  ∃ fuel r es, walkMultibootMemoryMap fuel mem mbi s = some (r, es) ∧
    ∀ e ∈ es, mbi.mmapAddr ≤ e ∧ e.toNat + 24 ≤ mbi.mmapAddr.toNat + mbi.mmapLength.toNat

/-- **The walk over a buffer that ends below `2 ^ 32`** ends and stays in the buffer iff there is no
memory map, or the buffer holds a chain of whole entries from its first address on. -/
theorem walkStays_iff {mem : UInt32 → UInt8} {mbi : MultibootInfo}
    (hfit : mbi.mmapAddr.toNat + mbi.mmapLength.toNat < 2 ^ 32) (s : PlacementMemory) :
    WalkStays mem mbi s ↔ ¬ checkFlag mbi.flags 6 ∨
      ∃ es, EntryChain mem mbi.mmapAddr (mbi.mmapAddr + mbi.mmapLength) mbi.mmapAddr es s := by
  have hstop : (mbi.mmapAddr + mbi.mmapLength).toNat = mbi.mmapAddr.toNat + mbi.mmapLength.toNat := by
    rw [UInt32.toNat_add, Nat.mod_eq_of_lt hfit]
  rw [WalkStays, ← hstop]
  simp only [walkMultibootMemoryMap]
  by_cases hflag : checkFlag mbi.flags 6
  · simp only [hflag, not_true_eq_false, if_false, false_or]
    constructor
    · rintro ⟨fuel, r, es, hwalk, hwhole⟩
      exact ⟨es, entryChain_of_walk fuel _ _ r es hwalk hwhole⟩
    · rintro ⟨es, hchain⟩
      obtain ⟨fuel, r, hwalk⟩ := walk_of_entryChain es _ _ hchain
      exact ⟨fuel, r, es, hwalk, EntryChain.whole es _ _ hchain⟩
  · simp only [hflag]
    refine iff_of_true ⟨0, ⟨-1, [], s⟩, [], rfl, fun e he => ?_⟩ (Or.inl (by simp))
    simp at he

/-! ## Maps of the boot loader -/

/-- **A map as the boot loader writes it is a chain of whole entries.** -/
theorem entryChain_encode (es : List MapEntry) :
    ∀ (a : ℕ) (s : PlacementMemory), start.toNat ≤ a → Holds mem a (encodeMap es) →
      a + (encodeMap es).length = stop.toNat →
      ∃ addresses, EntryChain mem start stop (UInt32.ofNat a) addresses s := by
  induction es with
  | nil =>
      intro a s _ _ hstop
      refine ⟨[], ?_⟩
      obtain rfl : a = stop.toNat := by simpa using hstop
      show stop ≤ UInt32.ofNat stop.toNat
      rw [UInt32.ofNat_toNat]
      exact UInt32.le_refl stop
  | cons e es ih =>
      intro a s hstart hmem hstop
      obtain ⟨hentry, hrest⟩ := holds_append.mp (encodeMap_cons e es ▸ hmem)
      have hlen := e.length_encode
      have hbound := stop.toNat_lt
      rw [encodeMap_cons, List.length_append] at hstop
      have ha : (UInt32.ofNat a).toNat = a := by
        rw [UInt32.toNat_ofNat']
        omega
      have hwhole : WholeEntry start stop (UInt32.ofNat a) := by
        refine ⟨?_, by omega⟩
        rw [UInt32.le_iff_toNat_le, ha]
        exact hstart
      have hnext : UInt32.ofNat a + e.size + 4 = UInt32.ofNat (a + e.encode.length) := by
        rw [hlen, show 24 + e.padding.length = (20 + e.padding.length) + 4 by omega,
          ← Nat.add_assoc, UInt32.ofNat_add, UInt32.ofNat_add]
        rfl
      by_cases hrefused : Refused (memoryMapAt mem (UInt32.ofNat a)) s
      · exact ⟨[UInt32.ofNat a], rfl, hwhole, Or.inl ⟨hrefused, rfl⟩⟩
      · obtain ⟨addresses, hchain⟩ := ih (a + e.encode.length)
          (insertEntry (memoryMapAt mem (UInt32.ofNat a)) s) (by omega) hrest (by omega)
        refine ⟨UInt32.ofNat a :: addresses, rfl, hwhole, Or.inr ⟨hrefused, ?_⟩⟩
        rw [memoryMapAt_encode hentry] at hchain ⊢
        dsimp only
        rw [hnext]
        exact hchain

/-- A map of one entry. -/
theorem walkStays_iff_example :
    let e : MapEntry := ⟨0x100000, 0, 0x7ee0000, 0, 1, [], by decide⟩
    WalkStays (memOf 0x9000 (encodeMap [e])) ⟨0x40, 0, 0, ⟨0, 0, 0, 0⟩, 24, 0x9000⟩
      (PlacementMemory.ofAreas []) := by
  intro e
  refine (walkStays_iff (by decide) _).mpr (Or.inr ?_)
  exact entryChain_encode [e] 0x9000 _ (by decide) (holds_memOf (by decide)) (by decide)

/-- An entry whose size field leads back to itself. -/
theorem walk_never_ends :
    ¬ WalkStays (memOf 0x9000 (words [0xFFFFFFFC, 0, 0, 0, 0, 2])) ⟨0x40, 0, 0, ⟨0, 0, 0, 0⟩, 24, 0x9000⟩
      (PlacementMemory.ofAreas []) := by
  rintro ⟨fuel, r, es, hwalk, -⟩
  have hnone : ∀ n, walkEntries (memOf 0x9000 (words [0xFFFFFFFC, 0, 0, 0, 0, 2])) 0x9018 n 0x9000
      (PlacementMemory.ofAreas []) = none := by
    intro n
    induction n with
    | zero => rfl
    | succ n ih =>
        have haccepted : ¬ Refused (memoryMapAt (memOf 0x9000 (words [0xFFFFFFFC, 0, 0, 0, 0, 2])) 0x9000)
            (PlacementMemory.ofAreas []) := fun h => absurd h.1 (by decide)
        obtain ⟨f, hf⟩ := walkEntries_step n (show (0x9000 : UInt32) < 0x9018 by decide)
          haccepted
        have hback : (0x9000 : UInt32)
            + (memoryMapAt (memOf 0x9000 (words [0xFFFFFFFC, 0, 0, 0, 0, 2])) 0x9000).size + 4
              = 0x9000 := by decide
        have hother : insertEntry
            (memoryMapAt (memOf 0x9000 (words [0xFFFFFFFC, 0, 0, 0, 0, 2])) 0x9000)
              (PlacementMemory.ofAreas []) = PlacementMemory.ofAreas [] := if_neg (by decide)
        rw [hf, hback, hother, ih, Option.map_none]
  have hsome : walkEntries (memOf 0x9000 (words [0xFFFFFFFC, 0, 0, 0, 0, 2])) 0x9018 fuel 0x9000
      (PlacementMemory.ofAreas []) = some (r, es) := hwalk
  rw [hnone fuel] at hsome
  simp at hsome

end GrubKernel
