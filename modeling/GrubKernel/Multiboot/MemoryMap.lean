import GrubKernel.Multiboot.Model
import GrubKernel.PlacementMemory.FreeList

/-!
# Decoding the memory map

A memory map is a sequence of entries of varying length.  `MapEntry` is one entry as the boot loader
means it, `encodeMap` the bytes of a sequence, and `faithful` what the kernel should do with it.  The
code assembles 64-bit quantities with `high * sizeof(long) + low` in 32 bits, which is right for
the entries whose high words are zero only.

* `memoryMapAt_encode` — the record read from the bytes of an entry.
* `processEntries_iff` — the walk over the rest of a map, by induction on the entries.
* **`memory_map_iff`** — the map is decoded faithfully iff no entry that is reached has a high word.
-/

namespace GrubKernel

open ByteMemory

/-! ## Entries and their bytes -/

/-- One entry of a memory map.  The bytes behind the type are padding. -/
structure MapEntry where
  baseLow : UInt32
  baseHigh : UInt32
  lengthLow : UInt32
  lengthHigh : UInt32
  type : UInt32
  padding : List UInt8
  fits : 20 + padding.length < 2 ^ 32

namespace MapEntry

/-- The size field: it does not count itself. -/
def size (e : MapEntry) : UInt32 := UInt32.ofNat (20 + e.padding.length)

/-- The words of the entry. -/
def fields (e : MapEntry) : List UInt32 :=
  [e.size, e.baseLow, e.baseHigh, e.lengthLow, e.lengthHigh, e.type]

/-- The bytes of the entry. -/
def encode (e : MapEntry) : List UInt8 := words e.fields ++ e.padding

/-- The range that the entry describes. -/
def area (e : MapEntry) : MemoryArea where
  start := UInt64.ofNat (e.baseHigh.toNat * 2 ^ 32 + e.baseLow.toNat)
  size := UInt64.ofNat (e.lengthHigh.toNat * 2 ^ 32 + e.lengthLow.toNat)

lemma length_encode (e : MapEntry) : e.encode.length = 24 + e.padding.length := by
  rw [encode, List.length_append, length_words]
  rfl

end MapEntry

/-- The bytes of a memory map. -/
def encodeMap (es : List MapEntry) : List UInt8 := es.flatMap MapEntry.encode

@[simp] lemma encodeMap_nil : encodeMap [] = [] := rfl

lemma encodeMap_cons (e : MapEntry) (es : List MapEntry) :
    encodeMap (e :: es) = e.encode ++ encodeMap es := rfl

/-- The record that the code reads where an entry lies. -/
lemma memoryMapAt_encode {mem : UInt32 → UInt8} {a : ℕ} {e : MapEntry} (h : Holds mem a e.encode) :
    memoryMapAt mem (UInt32.ofNat a)
      = ⟨e.size, e.baseLow, e.baseHigh, e.lengthLow, e.lengthHigh, e.type⟩ := by
  have hw := load32_of_holds e.fields (holds_append.mp h).1
  have hfield : ∀ k (hk : k < 6),
      load32 mem (UInt32.ofNat a + UInt32.ofNat (4 * k)) = e.fields[k] := by
    intro k hk
    rw [← UInt32.ofNat_add]
    exact hw k hk
  have hzero : UInt32.ofNat a + UInt32.ofNat (4 * 0) = UInt32.ofNat a := UInt32.add_zero _
  rw [memoryMapAt, MemoryMap.mk.injEq]
  refine ⟨?_, hfield 1 (by omega), hfield 2 (by omega), hfield 3 (by omega), hfield 4 (by omega),
    hfield 5 (by omega)⟩
  rw [← hzero]
  exact hfield 0 (by omega)

/-! ## What the kernel should do -/

/-- Insert the ranges in order until a call fails. -/
def insertUntilFailure : List MemoryArea → PlacementMemory → MapResult
  | [], s => ⟨0, [], s⟩
  | a :: as, s =>
      if (s.insertArea a.start a.size).1 ≠ 0 then ⟨-2, [a], (s.insertArea a.start a.size).2⟩
      else (insertUntilFailure as (s.insertArea a.start a.size).2).after a

/-- The ranges of available RAM, in map order. -/
def available (es : List MapEntry) : List MemoryArea :=
  (es.filter (·.type = 1)).map MapEntry.area

/-- The memory map, decoded faithfully. -/
def faithful (mbi : MultibootInfo) (es : List MapEntry) (s : PlacementMemory) : MapResult :=
  if checkFlag mbi.flags 6 then insertUntilFailure (available es) s else ⟨-1, [], s⟩

/-- No entry of available RAM has a high word, as far as the insertion gets. -/
def LowUntilFailure : List MapEntry → PlacementMemory → Prop
  | [], _ => True
  | e :: es, s =>
      if e.type = 1 then
        (e.baseHigh = 0 ∧ e.lengthHigh = 0) ∧
          ((s.insertArea e.area.start e.area.size).1 = 0 →
            LowUntilFailure es (s.insertArea e.area.start e.area.size).2)
      else LowUntilFailure es s

/-! ## The range of one entry -/

/-- Four times the high word in place of `b` times: right for a high word of zero only. -/
lemma assembled_eq_iff {b high low : ℕ} (hhigh : high < b) (hlow : low < b) :
    (high * 4 % b + low) % b = (high * b + low) % (b * b) ↔ high = 0 := by
  have hfit : high * b + low < b * b := by
    calc high * b + low < high * b + b := Nat.add_lt_add_left hlow _
      _ = (high + 1) * b := (Nat.succ_mul high b).symm
      _ ≤ b * b := Nat.mul_le_mul_right b hhigh
  rw [Nat.mod_eq_of_lt hfit]
  constructor
  · intro heq
    have hlt : high * b + low < b := heq ▸ Nat.mod_lt _ (by omega)
    have hquot : (high * b + low) / b = high := by
      rw [Nat.mul_comm, Nat.mul_add_div (by omega), Nat.div_eq_of_lt hlow, Nat.add_zero]
    rw [← hquot, Nat.div_eq_of_lt hlt]
  · rintro rfl
    simp [Nat.mod_eq_of_lt hlow]

/-- The code computes the range of an entry iff both high words are zero. -/
lemma area_eq_iff (e : MapEntry) :
    (⟨e.size, e.baseLow, e.baseHigh, e.lengthLow, e.lengthHigh, e.type⟩ : MemoryMap).area = e.area ↔
      e.baseHigh = 0 ∧ e.lengthHigh = 0 := by
  have hword : ∀ high low : UInt32,
      (high * sizeofLong + low).toUInt64 = UInt64.ofNat (high.toNat * 2 ^ 32 + low.toNat) ↔
        high = 0 := by
    intro high low
    have hsize : sizeofLong.toNat = 4 := rfl
    rw [← UInt64.toNat_inj, ← UInt32.toNat_inj, UInt32.toNat_toUInt64, UInt32.toNat_add,
      UInt32.toNat_mul, hsize, UInt64.toNat_ofNat', UInt32.toNat_zero,
      show 2 ^ 64 = 2 ^ 32 * 2 ^ 32 from rfl]
    exact assembled_eq_iff high.toNat_lt low.toNat_lt
  rw [MemoryMap.area, MapEntry.area, MemoryArea.mk.injEq, hword, hword]

/-! ## The walk -/

lemma available_cons (e : MapEntry) (es : List MapEntry) :
    available (e :: es) = if e.type = 1 then e.area :: available es else available es := by
  unfold available
  by_cases h : e.type = 1
  · rw [List.filter_cons_of_pos (by simpa using h), if_pos h, List.map_cons]
  · rw [List.filter_cons_of_neg (by simpa using h), if_neg h]

lemma MapResult.after_inj {r₁ r₂ : MapResult} {a : MemoryArea} :
    r₁.after a = r₂.after a ↔ r₁ = r₂ := by
  cases r₁
  cases r₂
  simp [MapResult.after]

/-- The first call of a walk that starts at an entry of available RAM. -/
lemma head_calls_insertUntilFailure (a : MemoryArea) (as : List MemoryArea) (s : PlacementMemory) :
    (insertUntilFailure (a :: as) s).calls.head? = some a := by
  rw [insertUntilFailure]
  split_ifs
  · rfl
  · rfl

/-- **The walk over the rest of a map.**  The induction is on the entries that are left. -/
lemma processEntries_iff {mem : UInt32 → UInt8} {stop : UInt32} (es : List MapEntry) :
    ∀ (fuel a : ℕ) (s : PlacementMemory), es.length < fuel → Holds mem a (encodeMap es) →
      a + (encodeMap es).length = stop.toNat →
      (processEntries mem stop fuel (UInt32.ofNat a) s
          = some (insertUntilFailure (available es) s) ↔ LowUntilFailure es s) := by
  induction es with
  | nil =>
      intro fuel a s hfuel _ hstop
      obtain ⟨fuel, rfl⟩ := Nat.exists_eq_add_of_lt hfuel
      have hend : ¬ UInt32.ofNat a < stop := by
        have : a = stop.toNat := by simpa using hstop
        rw [this, UInt32.ofNat_toNat]
        exact UInt32.lt_irrefl _
      refine iff_of_true ?_ trivial
      show processEntries mem stop (0 + fuel + 1) _ s = _
      rw [processEntries, if_neg hend]
      rfl
  | cons e es ih =>
      intro fuel a s hfuel hmem hstop
      obtain ⟨fuel, rfl⟩ : ∃ f, fuel = f + 1 := ⟨fuel - 1, by omega⟩
      obtain ⟨hentry, hrest⟩ := holds_append.mp (encodeMap_cons e es ▸ hmem)
      have hlen := e.length_encode
      have hbound := stop.toNat_lt
      rw [encodeMap_cons, List.length_append] at hstop
      have hlt : UInt32.ofNat a < stop := by
        rw [UInt32.lt_iff_toNat_lt, UInt32.toNat_ofNat']
        omega
      have hnext : UInt32.ofNat a + e.size + 4 = UInt32.ofNat (a + e.encode.length) := by
        rw [hlen, show 24 + e.padding.length = (20 + e.padding.length) + 4 by omega,
          ← Nat.add_assoc, UInt32.ofNat_add, UInt32.ofNat_add]
        rfl
      have hread := memoryMapAt_encode hentry
      have ih' := fun s => ih fuel (a + e.encode.length) s (by simpa using hfuel) hrest (by omega)
      rw [processEntries, if_pos hlt]
      dsimp only
      rw [hread]
      dsimp only
      rw [hnext, available_cons, LowUntilFailure]
      by_cases htype : e.type = 1
      · rw [if_pos htype, if_pos htype, if_pos htype, ← area_eq_iff e]
        by_cases harea : (⟨e.size, e.baseLow, e.baseHigh, e.lengthLow, e.lengthHigh, e.type⟩ :
            MemoryMap).area = e.area
        · rw [harea, insertUntilFailure]
          by_cases hcode : (s.insertArea e.area.start e.area.size).1 = 0
          · have hstep := ih' (s.insertArea e.area.start e.area.size).2
            simp only [hcode, ne_eq, not_true_eq_false, if_false, Option.map_eq_some_iff,
              MapResult.after_inj, exists_eq_right, hstep, true_and, forall_const]
          · simp [hcode]
        · -- the first call already has another range
          refine iff_of_false (fun heq => harea ?_) fun h => harea h.1
          have hhead := head_calls_insertUntilFailure e.area (available es) s
          split_ifs at heq with hcode
          · rw [← Option.some.inj heq] at hhead
            exact Option.some.inj hhead
          · obtain ⟨r, -, hr⟩ := Option.map_eq_some_iff.mp heq
            rw [← hr] at hhead
            exact Option.some.inj hhead
      · rw [if_neg htype, if_neg htype, if_neg htype]
        exact ih' s

lemma lowUntilFailure_of_none (es : List MapEntry) (h : ∀ e ∈ es, e.type ≠ 1) :
    ∀ s, LowUntilFailure es s := by
  induction es with
  | nil =>
      intro s
      trivial
  | cons e es ih =>
      intro s
      rw [LowUntilFailure, if_neg (h e List.mem_cons_self)]
      exact ih (fun e' he' => h e' (List.mem_cons_of_mem _ he')) s

lemma available_eq_nil_iff {es : List MapEntry} : available es = [] ↔ ∀ e ∈ es, e.type ≠ 1 := by
  simp [available, List.filter_eq_nil_iff]

/-- **Decoding the memory map.**  Let the memory hold the map `es` where the multiboot information says,
and let the bound exceed the number of entries.  The code does what it should (return value, calls of
`insert_area` in order, and table) iff the flag is clear, or no entry is available RAM, or the map
ends below `2 ^ 32` and no entry of available RAM has a high word, up to the first one that
`insert_area` rejects. -/
theorem memory_map_iff {mem : UInt32 → UInt8} {mbi : MultibootInfo} {es : List MapEntry}
    (hmap : checkFlag mbi.flags 6 → Holds mem mbi.mmapAddr.toNat (encodeMap es) ∧
      mbi.mmapLength.toNat = (encodeMap es).length ∧
      mbi.mmapAddr.toNat + mbi.mmapLength.toNat ≤ 2 ^ 32)
    (s : PlacementMemory) {fuel : ℕ} (hfuel : es.length < fuel) :
    processMultibootMemoryMap fuel mem mbi s = some (faithful mbi es s) ↔
      (checkFlag mbi.flags 6 → (∀ e ∈ es, e.type ≠ 1) ∨
        (mbi.mmapAddr.toNat + mbi.mmapLength.toNat < 2 ^ 32 ∧ LowUntilFailure es s)) := by
  unfold processMultibootMemoryMap faithful
  by_cases hflag : checkFlag mbi.flags 6
  · obtain ⟨hmem, hlen, hfit⟩ := hmap hflag
    rw [if_neg (not_not.mpr hflag), if_pos hflag]
    simp only [hflag, forall_const]
    rcases Nat.lt_or_eq_of_le hfit with hlt | htop
    · have hstop : mbi.mmapAddr.toNat + (encodeMap es).length
          = (mbi.mmapAddr + mbi.mmapLength).toNat := by
        rw [UInt32.toNat_add, Nat.mod_eq_of_lt hlt, hlen]
      have hwalk := processEntries_iff es fuel _ s hfuel hmem hstop
      rw [UInt32.ofNat_toNat] at hwalk
      rw [hwalk]
      constructor
      · intro hlow
        exact Or.inr ⟨hlt, hlow⟩
      · rintro (hnone | ⟨-, hlow⟩)
        · exact lowUntilFailure_of_none es hnone s
        · exact hlow
    · -- the end of the map wraps to zero, and the walk does not start
      have hstop : mbi.mmapAddr + mbi.mmapLength = 0 := by
        rw [← UInt32.toNat_inj, UInt32.toNat_add, htop]
        rfl
      obtain ⟨fuel, rfl⟩ : ∃ f, fuel = f + 1 := ⟨fuel - 1, by omega⟩
      rw [hstop, processEntries, if_neg (UInt32.not_lt.mpr (UInt32.zero_le)), Option.some_inj,
        ← available_eq_nil_iff]
      constructor
      · intro heq
        left
        cases hav : available es with
        | nil => rfl
        | cons a as =>
            rw [hav] at heq
            have hhead := head_calls_insertUntilFailure a as s
            rw [← heq] at hhead
            simp at hhead
      · rintro (hnone | ⟨hbad, -⟩)
        · rw [hnone]
          rfl
        · exact absurd htop hbad.ne
  · rw [if_pos hflag, if_neg hflag]
    exact iff_of_true rfl fun h => absurd h hflag

/-- One gigabyte of RAM at 4 GiB: `insert_area` is called with the start `4`. -/
theorem ram_at_four_gib_inserted_at_four :
    let e : MapEntry := ⟨0, 1, 0x40000000, 0, 1, [], by decide⟩
    let mbi : MultibootInfo := ⟨0x40, 0, 0, ⟨0, 0, 0, 0⟩, 24, 0x9000⟩
    let mem := memOf 0x9000 (encodeMap [e])
    checkFlag mbi.flags 6 ∧ Holds mem mbi.mmapAddr.toNat (encodeMap [e]) ∧
      (processMultibootMemoryMap 2 mem mbi (PlacementMemory.ofAreas [])).map (·.calls)
        = some [⟨4, 0x40000000⟩] ∧
      (faithful mbi [e] (PlacementMemory.ofAreas [])).calls = [⟨0x100000000, 0x40000000⟩] :=
  ⟨by decide, holds_memOf (by decide), by decide, by decide⟩

/-- Two RAM regions below 4 GiB with a reserved one between them. -/
theorem memory_map_iff_example :
    let es : List MapEntry := [⟨0, 0, 0x9fc00, 0, 1, [], by decide⟩,
      ⟨0x9fc00, 0, 0x400, 0, 2, [0, 0, 0, 0], by decide⟩, ⟨0x100000, 0, 0x7ee0000, 0, 1, [], by decide⟩]
    let mbi : MultibootInfo := ⟨0x40, 0, 0, ⟨0, 0, 0, 0⟩, 76, 0x9000⟩
    processMultibootMemoryMap 4 (memOf 0x9000 (encodeMap es)) mbi (PlacementMemory.ofAreas [])
      = some (faithful mbi es (PlacementMemory.ofAreas [])) :=
  (memory_map_iff (fun _ => ⟨holds_memOf (by decide), by decide, by decide⟩) _ (by decide)).mpr
    fun _ => Or.inr ⟨by decide, ⟨rfl, rfl⟩, fun _ => ⟨⟨rfl, rfl⟩, fun _ => trivial⟩⟩

end GrubKernel
