import GrubKernel.Lib.ByteStore
import GrubKernel.Lib.Loop

/-!
# Copying and filling memory

`k_memcpy` and `k_memset` count `len` down and move their pointers up, one byte a round.  Nothing keeps
the two areas of a copy apart, so a round may read a byte that an earlier round wrote.

* `kMemcpy`, `kMemset` — the functions.
* `kMemset_eq` — the fill is one store.
* **`kMemcpy_eq`** — every copy, however the areas lie.  With `dest` a distance `d` above `src`, the
  first `d` bytes of the source repeat.
* **`kMemcpy_copies_iff`** — when that is a copy.
-/

namespace GrubKernel

open ByteMemory Loop

/-! ## The functions -/

/-- The pointers and the memory of a copy. -/
structure MemCopy where
  dp : UInt32
  sp : UInt32
  mem : UInt32 → UInt8

/-- One round: `*dp++ = *sp++`. -/
def MemCopy.next (s : MemCopy) : MemCopy :=
  ⟨s.dp + 1, s.sp + 1, Function.update s.mem s.dp (s.mem s.sp)⟩

/-- `k_memcpy`. -/
def kMemcpy (dest src len : UInt32) (mem : UInt32 → UInt8) : UInt32 → UInt8 :=
  (forLoop len.toNat (fun _ => MemCopy.next) ⟨dest, src, mem⟩).mem

/-- `k_memset`. -/
def kMemset (dest : UInt32) (val : UInt8) (len : UInt32) (mem : UInt32 → UInt8) : UInt32 → UInt8 :=
  (forLoop len.toNat (fun _ (s : UInt32 × (UInt32 → UInt8)) =>
    (s.1 + 1, Function.update s.2 s.1 val)) (dest, mem)).2

/-! ## Filling -/

/-- The fill is one store of `len` equal bytes. -/
lemma kMemset_eq (dest : UInt32) (val : UInt8) (len : UInt32) (mem : UInt32 → UInt8) :
    kMemset dest val len mem = storeBytes mem dest (List.replicate len.toNat val) := by
  have hlen := len.toNat_lt
  have hinv : ∀ n ≤ len.toNat, forLoop n (fun _ (s : UInt32 × (UInt32 → UInt8)) =>
      (s.1 + 1, Function.update s.2 s.1 val)) (dest, mem)
        = (dest + UInt32.ofNat n, storeBytes mem dest (List.replicate n val)) := by
    intro n hn
    induction n with
    | zero =>
        rw [forLoop_zero, show UInt32.ofNat 0 = 0 from rfl, UInt32.add_zero]
        rfl
    | succ n ih =>
        rw [forLoop_succ, ih (by omega), UInt32.ofNat_add, ← UInt32.add_assoc,
          List.replicate_succ', storeBytes_snoc (by rw [List.length_replicate]; omega),
          List.length_replicate]
        rfl
  rw [kMemset, hinv len.toNat le_rfl]

/-! ## Copying -/

/-- The first `n` bytes that a copy writes: those of the source, again from its start once the source
pointer has reached the destination. -/
def copied (dest src : UInt32) (mem : UInt32 → UInt8) (n : ℕ) : List UInt8 :=
  (List.range n).map fun i => mem (src + UInt32.ofNat (i % (dest - src).toNat))

@[simp] lemma length_copied (dest src : UInt32) (mem : UInt32 → UInt8) (n : ℕ) :
    (copied dest src mem n).length = n := by
  rw [copied, List.length_map, List.length_range]

/-- The byte that round `n` reads. -/
lemma read_copied (dest src : UInt32) (mem : UInt32 → UInt8) {n : ℕ} (hn : n < 2 ^ 32) :
    storeBytes mem dest (copied dest src mem n) (src + UInt32.ofNat n)
      = mem (src + UInt32.ofNat (n % (dest - src).toNat)) := by
  have hd := (dest - src).toNat_lt
  -- the distance from the destination to the byte read
  have hpos : (src + UInt32.ofNat n - dest).toNat = (2 ^ 32 - (dest - src).toNat + n) % 2 ^ 32 := by
    have h₁ := dest.toNat_lt
    have h₂ := src.toNat_lt
    rw [UInt32.toNat_sub, UInt32.toNat_add, UInt32.toNat_ofNat', UInt32.toNat_sub]
    omega
  by_cases hover : 0 < (dest - src).toNat ∧ (dest - src).toNat ≤ n
  · -- an earlier round wrote it
    have hj : (src + UInt32.ofNat n - dest).toNat = n - (dest - src).toNat := by omega
    rw [storeBytes, hj, List.getD_eq_getElem _ _ (by rw [length_copied]; omega)]
    simp only [copied, List.getElem_map, List.getElem_range]
    rw [← Nat.mod_eq_sub_mod hover.2]
  · -- it is still the byte of the source
    rw [storeBytes_off (by rw [length_copied]; omega)]
    congr 3
    rcases Nat.eq_zero_or_pos (dest - src).toNat with hzero | hpos
    · rw [hzero, Nat.mod_zero]
    · rw [Nat.mod_eq_of_lt (by omega)]

/-- The copy is one store. -/
lemma kMemcpy_store (dest src len : UInt32) (mem : UInt32 → UInt8) :
    kMemcpy dest src len mem = storeBytes mem dest (copied dest src mem len.toNat) := by
  have hlen := len.toNat_lt
  have hinv : ∀ n ≤ len.toNat, forLoop n (fun _ => MemCopy.next) ⟨dest, src, mem⟩
      = ⟨dest + UInt32.ofNat n, src + UInt32.ofNat n,
          storeBytes mem dest (copied dest src mem n)⟩ := by
    intro n hn
    induction n with
    | zero =>
        rw [forLoop_zero, show UInt32.ofNat 0 = 0 from rfl, UInt32.add_zero, UInt32.add_zero]
        rfl
    | succ n ih =>
        rw [forLoop_succ, ih (by omega)]
        dsimp only [MemCopy.next]
        rw [read_copied dest src mem (by omega), UInt32.ofNat_add, ← UInt32.add_assoc,
          ← UInt32.add_assoc]
        have hsnoc : copied dest src mem (n + 1)
            = copied dest src mem n ++ [mem (src + UInt32.ofNat (n % (dest - src).toNat))] := by
          rw [copied, List.range_succ, List.map_append]
          rfl
        rw [hsnoc, storeBytes_snoc (by rw [length_copied]; omega), length_copied]
        rfl
  rw [kMemcpy, hinv len.toNat le_rfl]

/-- **Every copy.**  Byte `i` of the destination becomes byte `i % d` of the source as it was before,
where `d` is the distance from the source up to the destination, and nothing else changes. -/
theorem kMemcpy_eq (dest src len x : UInt32) (mem : UInt32 → UInt8) :
    kMemcpy dest src len mem x
      = if (x - dest).toNat < len.toNat then
          mem (src + UInt32.ofNat ((x - dest).toNat % (dest - src).toNat))
        else mem x := by
  rw [kMemcpy_store]
  split_ifs with h
  · rw [storeBytes, List.getD_eq_getElem _ _ (by rwa [length_copied])]
    simp only [copied, List.getElem_map, List.getElem_range]
  · exact storeBytes_off (by rw [length_copied]; omega)

/-- **When `k_memcpy` copies.**  The destination holds the old bytes of the source, whatever they are,
iff it does not start inside the source. -/
theorem kMemcpy_copies_iff (dest src len : UInt32) :
    (∀ mem, ∀ i < len.toNat,
      kMemcpy dest src len mem (dest + UInt32.ofNat i) = mem (src + UInt32.ofNat i)) ↔
    dest = src ∨ len.toNat ≤ (dest - src).toNat := by
  have hlen := len.toNat_lt
  constructor
  · intro h
    by_contra hcon
    obtain ⟨hne, hlt⟩ := not_or.mp hcon
    have hd : 0 < (dest - src).toNat := by
      rw [Nat.pos_iff_ne_zero]
      intro hzero
      rw [← UInt32.toNat_zero, UInt32.toNat_inj] at hzero
      rw [← UInt32.sub_add_cancel dest src, hzero, UInt32.zero_add] at hne
      exact hne rfl
    -- a source whose first byte differs from all others
    have hread := h (fun x => if x = src then 1 else 0) (dest - src).toNat (by omega)
    rw [kMemcpy_eq, toNat_add_sub (by omega), if_pos (by omega), Nat.mod_self,
      show UInt32.ofNat 0 = 0 from rfl, UInt32.add_zero, if_pos rfl, if_neg] at hread
    · exact absurd hread (by decide)
    · intro heq
      have hsub := toNat_add_sub (a := src) (i := (dest - src).toNat) (by omega)
      rw [heq, UInt32.sub_self, UInt32.toNat_zero] at hsub
      omega
  · intro h mem i hi
    rw [kMemcpy_eq, toNat_add_sub (by omega), if_pos hi]
    rcases h with rfl | hle
    · rw [UInt32.sub_self, UInt32.toNat_zero, Nat.mod_zero]
    · rw [Nat.mod_eq_of_lt (by omega)]

end GrubKernel
