import GrubKernel.Lib.Bump
import GrubKernel.Paging.Model

/-!
# Aligned frames

`allocate_frame_aligned` hands out memory for page tables from the placement pointer on, which it first
moves to a page boundary.  It tests `pointer & 0xFFFFF000` to find out whether it has to, which is the
wrong half of the pointer: the test says that the pointer is not in the first page.

* `frameCalls` — the calls for a sequence of sizes.
* `RoundsUp` — the pointers from which one call is exact.
* `AllRoundUp` — the same for a sequence of sizes.
* **`frameCalls_bump_iff`** — the calls bump, with page alignment, iff all of them start from such a
  pointer.
-/

namespace GrubKernel

open Bump

/-- A call of `allocate_frame_aligned`. -/
def frameCall (placementMemory : UInt64) (sizeInByte : UInt32) : Grant :=
  let r := allocateFrameAligned placementMemory sizeInByte
  ⟨placementMemory.toNat, r.1.toNat, sizeInByte.toNat, r.2.toNat⟩

/-- The calls for a sequence of sizes. -/
def frameCalls : UInt64 → List UInt32 → List Grant
  | _, [] => []
  | placementMemory, size :: sizes =>
      frameCall placementMemory size :: frameCalls (allocateFrameAligned placementMemory size).2 sizes

lemma chained_frameCalls (sizes : List UInt32) : ∀ p, Chained p.toNat (frameCalls p sizes) := by
  induction sizes with
  | nil =>
      intro p
      trivial
  | cons size sizes ih =>
      intro p
      exact ⟨rfl, ih _⟩

/-- The pointers that one call rounds up as it should: the null pointer, and those behind the first page
that are not on a boundary and have a boundary above them in 32 bits. -/
def RoundsUp (p : ℕ) : Prop := p = 0 ∨ (4096 < p ∧ p < 2 ^ 32 - 4096 ∧ ¬ 4096 ∣ p)

instance (p : ℕ) : Decidable (RoundsUp p) := inferInstanceAs (Decidable (_ ∨ _))

/-- All pointers of an exact run for a sequence of sizes are such. -/
def AllRoundUp : ℕ → List UInt32 → Prop
  | _, [] => True
  | p, size :: sizes => RoundsUp p ∧ AllRoundUp (alignUp 4096 p + size.toNat) sizes

/-! ## One call -/

/-- The mask keeps the number of the page, in 32 bits. -/
lemma toNat_pageMask (p : UInt64) : (p &&& 0xFFFFF000).toNat = 4096 * (p.toNat / 4096 % 2 ^ 20) := by
  have hmask : (0xFFFFF000 : UInt64).toNat = 2 ^ 12 * (2 ^ 20 - 1) := rfl
  rw [UInt64.toNat_and, hmask]
  refine Nat.eq_of_testBit_eq fun i => ?_
  rw [Nat.testBit_and, Nat.testBit_two_pow_mul, Nat.testBit_two_pow_sub_one,
    show 4096 = 2 ^ 12 from rfl, Nat.testBit_two_pow_mul, Nat.testBit_mod_two_pow,
    Nat.testBit_div_two_pow]
  by_cases hi : 12 ≤ i
  · rw [Nat.sub_add_cancel hi]
    simp [hi, Bool.and_comm]
  · simp [hi]

/-- A call from a pointer in the first page of the 32 bits that the mask keeps. -/
lemma frameCall_first {p : UInt64} (size : UInt32) (h : p.toNat / 4096 % 2 ^ 20 = 0) :
    frameCall p size = ⟨p.toNat, p.toNat % 2 ^ 32, size.toNat, (p.toNat + size.toNat) % 2 ^ 64⟩ := by
  have hmask : p &&& 0xFFFFF000 = 0 := by
    rw [← UInt64.toNat_inj, toNat_pageMask, h]
    rfl
  rw [frameCall, allocateFrameAligned, if_neg (not_not.mpr hmask), UInt64.toNat_toUInt32,
    UInt64.toNat_add, UInt32.toNat_toUInt64]

/-- A call from any other pointer moves it to the boundary above its page. -/
lemma frameCall_masked {p : UInt64} (size : UInt32) (h : p.toNat / 4096 % 2 ^ 20 ≠ 0) :
    frameCall p size = ⟨p.toNat, (4096 * (p.toNat / 4096 % 2 ^ 20) + 4096) % 2 ^ 32, size.toNat,
      4096 * (p.toNat / 4096 % 2 ^ 20) + 4096 + size.toNat⟩ := by
  have hmask : p &&& 0xFFFFF000 ≠ 0 := by
    rw [ne_eq, ← UInt64.toNat_inj, toNat_pageMask]
    intro hzero
    exact h ((Nat.mul_eq_zero.mp hzero).resolve_left (by decide))
  have hpage : (0x1000 : UInt64).toNat = 4096 := rfl
  have hlt : p.toNat / 4096 % 2 ^ 20 < 2 ^ 20 := Nat.mod_lt _ (by decide)
  have hsize := size.toNat_lt
  have hup : ((p &&& 0xFFFFF000) + 0x1000).toNat = 4096 * (p.toNat / 4096 % 2 ^ 20) + 4096 := by
    rw [UInt64.toNat_add, toNat_pageMask, hpage]
    exact Nat.mod_eq_of_lt (by omega)
  have hafter : ((p &&& 0xFFFFF000) + 0x1000 + size.toUInt64).toNat
      = 4096 * (p.toNat / 4096 % 2 ^ 20) + 4096 + size.toNat := by
    rw [UInt64.toNat_add, hup, UInt32.toNat_toUInt64]
    exact Nat.mod_eq_of_lt (by omega)
  rw [frameCall, allocateFrameAligned, if_pos hmask, UInt64.toNat_toUInt32, hup, hafter]

/-- **When one call is exact.** -/
lemma frameCall_exact_iff (p : UInt64) (size : UInt32) :
    (frameCall p size).Exact 4096 ↔ RoundsUp p.toNat := by
  have hsize := size.toNat_lt
  by_cases hfirst : p.toNat / 4096 % 2 ^ 20 = 0
  · rw [frameCall_first size hfirst, Grant.exact_mk]
    constructor
    · rintro ⟨⟨hdvd, hle⟩, -⟩
      left
      omega
    · rintro (hzero | ⟨hlo, hhi, -⟩)
      · rw [hzero]
        refine ⟨⟨Nat.dvd_zero 4096, le_rfl⟩, fun m _ _ => Nat.zero_le m, ?_⟩
        omega
      · omega
  · rw [frameCall_masked size hfirst, Grant.exact_mk]
    constructor
    · rintro ⟨⟨-, hle⟩, hleast, -⟩
      right
      have hdvd : ¬ 4096 ∣ p.toNat := by
        intro hdvd
        have hbelow := hleast p.toNat hdvd le_rfl
        omega
      exact ⟨by omega, by omega, hdvd⟩
    · rintro (hzero | ⟨hlo, hhi, hdvd⟩)
      · rw [hzero] at hfirst
        exact absurd rfl hfirst
      · have hup : (4096 * (p.toNat / 4096 % 2 ^ 20) + 4096) % 2 ^ 32 = 4096 * (p.toNat / 4096 + 1) := by
          omega
        rw [hup]
        refine ⟨⟨Nat.dvd_mul_right 4096 _, by omega⟩, ?_, by omega⟩
        rintro m ⟨k, rfl⟩ hm
        omega

/-! ## Runs -/

/-- A sequence of calls is exact call by call. -/
lemma frameCalls_exact_iff (sizes : List UInt32) : ∀ p : UInt64,
    (∀ g ∈ frameCalls p sizes, g.Exact 4096) ↔ AllRoundUp p.toNat sizes := by
  induction sizes with
  | nil =>
      intro p
      exact iff_of_true (fun g hg => absurd hg List.not_mem_nil) trivial
  | cons size sizes ih =>
      intro p
      rw [frameCalls, List.forall_mem_cons, ih, AllRoundUp, frameCall_exact_iff]
      refine and_congr_right fun hround => ?_
      have hexact := (frameCall_exact_iff p size).mpr hround
      have hmoves : (allocateFrameAligned p size).2.toNat
          = (allocateFrameAligned p size).1.toNat + size.toNat := hexact.moves
      have hstart : (allocateFrameAligned p size).1.toNat = alignUp 4096 p.toNat :=
        hexact.start_eq (by decide)
      rw [hmoves, hstart]

/-- **When `allocate_frame_aligned` is a page-aligned bump allocator.**  For every placement pointer and
every sequence of sizes: each call returns the least multiple of the page size that is not below the
pointer and moves the pointer behind the grant, so that the grants are aligned and disjoint and no whole
page is wasted, iff no call starts from a pointer on a boundary (other than the null pointer), inside the
first page, or so high that the boundary above it does not fit into 32 bits. -/
theorem frameCalls_bump_iff (p : UInt64) (sizes : List UInt32) :
    IsBump 4096 (frameCalls p sizes) ↔ AllRoundUp p.toNat sizes := by
  rw [← frameCalls_exact_iff sizes p]
  constructor
  · intro h
    exact h.exact_calls
  · intro h
    exact (chained_frameCalls sizes p).bump (by decide) h

/-- One page of memory from the pointer `8192`, which is on a boundary: the call returns `12288`. -/
theorem frameCalls_waste_page : ¬ IsBump 4096 (frameCalls 8192 [4096]) := by
  intro h
  have htight := h.tight _ List.mem_cons_self
  revert htight
  decide

end GrubKernel
