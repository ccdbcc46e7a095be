import GrubKernel.Bitmap.Model
import Mathlib.Data.Nat.Bitwise

/-!
# The set of frames in use

The bitmap stands for a set of frames.  `inUse` reads one of them off the bitmap; the operations of
`bitmap.c` are described by what they do to `inUse`.

* **`inUse_set_value`**, `inUse_set`, `inUse_resetBitmap`, `inUse_useFramesInBytes` — the frames in use
  after an operation; `get_eq` reads one of them.
* **`nextFreeFrameIndex_spec`** — the first frame that is not in use, or `-1` if there is none.
-/

namespace GrubKernel
namespace Bitmap

open Loop

/-- The bit of a frame. -/
def inUse (bitmap : ℕ → UInt32) (frame : ℕ) : Bool :=
  (bitmap (frame / 32)).toNat.testBit (31 - frame % 32)

/-! ## Masks -/

lemma toNat_one_shiftLeft {k : ℕ} (hk : k < 32) : ((1 : UInt32) <<< UInt32.ofNat k).toNat = 2 ^ k := by
  have hmod : (UInt32.ofNat k).toNat % 32 = k := by
    rw [UInt32.toNat_ofNat']
    omega
  rw [UInt32.toNat_shiftLeft, hmod, UInt32.toNat_one, Nat.shiftLeft_eq, Nat.one_mul]
  exact Nat.mod_eq_of_lt (Nat.pow_lt_pow_right (by decide) hk)

lemma toNat_top_shiftRight {j : ℕ} (hj : j < 32) :
    ((0x80000000 : UInt32) >>> UInt32.ofNat j).toNat = 2 ^ (31 - j) := by
  have hmod : (UInt32.ofNat j).toNat % 32 = j := by
    rw [UInt32.toNat_ofNat']
    omega
  have htop : (0x80000000 : UInt32).toNat = 2 ^ 31 := rfl
  rw [UInt32.toNat_shiftRight, hmod, htop, Nat.shiftRight_eq_div_pow]
  exact Nat.pow_div (by omega) (by decide)

lemma toNat_not (word : UInt32) : (~~~word).toNat = 2 ^ 32 - (word.toNat + 1) := by
  rw [UInt32.toNat_not, UInt32.size]
  omega

/-- The test of `next_free_frame_index` on one bit. -/
lemma and_mask_eq_zero_iff (word : UInt32) {j : ℕ} (hj : j < 32) :
    word &&& (0x80000000 >>> UInt32.ofNat j) = 0 ↔ word.toNat.testBit (31 - j) = false := by
  have hpos := Nat.two_pow_pos (31 - j)
  rw [← UInt32.toNat_inj, UInt32.toNat_and, toNat_top_shiftRight hj, UInt32.toNat_zero,
    Nat.and_two_pow, Nat.mul_eq_zero, or_iff_left hpos.ne']
  exact Bool.toNat_eq_zero

/-! ## Setting bits -/

/-- **`set` changes the bit of its frame and no other.** -/
theorem inUse_set_value {bitmap : ℕ → UInt32} {elements frame : ℕ} (h : frame / 32 ≤ elements)
    (value : UInt32) (g : ℕ) :
    inUse (set bitmap elements frame value).2 g
      = if g = frame then decide (value ≠ 0) else inUse bitmap g := by
  -- two frames of one word differ in their bits
  have hbit : g / 32 = frame / 32 → decide (31 - frame % 32 = 31 - g % 32) = decide (g = frame) := by
    intro hword
    rw [decide_eq_decide]
    omega
  have hmask := toNat_one_shiftLeft (show 31 - frame % 32 < 32 by omega)
  rw [set, if_neg (not_lt.mpr h)]
  dsimp only
  by_cases hvalue : value = 0
  · rw [if_neg (not_not.mpr hvalue)]
    dsimp only
    rw [inUse, Function.update_apply]
    by_cases hword : g / 32 = frame / 32
    · rw [if_pos hword, UInt32.toNat_and, toNat_not, hmask, Nat.testBit_and,
        Nat.testBit_two_pow_sub_succ (Nat.pow_lt_pow_right (by decide) (by omega)),
        Nat.testBit_two_pow, hbit hword, ← hword]
      by_cases hg : g = frame
      · simp [hg, hvalue]
      · have hlt : 31 - g % 32 < 32 := by omega
        simp [hg, hlt, inUse]
    · have hg : g ≠ frame := fun heq => hword (by rw [heq])
      rw [if_neg hword, if_neg hg, inUse]
  · rw [if_pos hvalue]
    dsimp only
    rw [inUse, Function.update_apply]
    by_cases hword : g / 32 = frame / 32
    · rw [if_pos hword, UInt32.toNat_or, hmask, Nat.testBit_or, Nat.testBit_two_pow,
        hbit hword, ← hword]
      by_cases hg : g = frame
      · simp [hg, hvalue]
      · simp [hg, inUse]
    · have hg : g ≠ frame := fun heq => hword (by rw [heq])
      rw [if_neg hword, if_neg hg, inUse]

/-- **Marking a frame adds it to the frames in use.** -/
theorem inUse_set {bitmap : ℕ → UInt32} {elements frame : ℕ} (h : frame / 32 ≤ elements) (g : ℕ) :
    inUse (set bitmap elements frame 1).2 g = (decide (g = frame) || inUse bitmap g) := by
  rw [inUse_set_value h]
  by_cases hg : g = frame
  · simp [hg]
  · simp [hg]

/-- A frame up to the word behind the array is accepted. -/
lemma set_fst {elements frame : ℕ} (h : frame / 32 ≤ elements) (bitmap : ℕ → UInt32)
    (value : UInt32) : (set bitmap elements frame value).1 = 0 := by
  rw [set, if_neg (not_lt.mpr h)]
  dsimp only
  by_cases hvalue : value ≠ 0
  · rw [if_pos hvalue]
  · rw [if_neg hvalue]

/-- **`get` reads the bit of its frame.** -/
theorem get_eq {elements frame : ℕ} (h : frame / 32 ≤ elements) (bitmap : ℕ → UInt32) :
    get bitmap elements frame = if inUse bitmap frame then 1 else 0 := by
  have hmask := toNat_one_shiftLeft (show 31 - frame % 32 < 32 by omega)
  have hbit : bitmap (frame / 32) &&& (1 <<< UInt32.ofNat (31 - frame % 32)) > 0
      ↔ inUse bitmap frame = true := by
    rw [inUse, gt_iff_lt, UInt32.lt_iff_toNat_lt, UInt32.toNat_and, hmask, UInt32.toNat_zero,
      Nat.and_two_pow]
    cases (bitmap (frame / 32)).toNat.testBit (31 - frame % 32)
    · simp
    · simp
  rw [get, if_neg (not_lt.mpr h)]
  dsimp only
  rw [if_congr hbit rfl rfl]

/-- A frame outside the array is not read, and `get` says so. -/
lemma get_of_gt {bitmap : ℕ → UInt32} {elements frame : ℕ} (h : elements < frame / 32) :
    get bitmap elements frame = -1 := if_pos h

/-- A frame outside the array is not marked, and `set` says so. -/
lemma set_of_gt {bitmap : ℕ → UInt32} {elements frame : ℕ} (h : elements < frame / 32)
    (value : UInt32) : set bitmap elements frame value = (-1, bitmap) := if_pos h

lemma resetBitmap_apply (bitmap : ℕ → UInt32) {elements i : ℕ} (hi : i < elements) :
    resetBitmap bitmap elements i = 0 :=
  fill_at (f := fun i => i) (g := fun _ => (0 : UInt32)) hi fun _ _ h => h

/-- After a reset no frame of the array is in use. -/
lemma inUse_resetBitmap (bitmap : ℕ → UInt32) {elements frame : ℕ} (h : frame < elements * 32) :
    inUse (resetBitmap bitmap elements) frame = false := by
  rw [inUse, resetBitmap_apply bitmap (by omega)]
  exact Nat.zero_testBit _

/-- **`use_frames_in_bytes` adds the frames that lie wholly in the first bytes.** -/
theorem inUse_useFramesInBytes {bitmap : ℕ → UInt32} {elements size : ℕ}
    (h : ¬ elements * 32 % 2 ^ 32 < size / 0x1000) (g : ℕ) :
    inUse (useFramesInBytes bitmap elements size).2 g
      = (decide (g < size / 0x1000) || inUse bitmap g) := by
  unfold useFramesInBytes
  dsimp only
  rw [if_neg h]
  refine forLoop_inv (fun i b => inUse b g = (decide (g < i) || inUse bitmap g)) _ ?_ fun i hi b hb => ?_
  · simp
  · have hle : elements * 32 % 2 ^ 32 ≤ elements * 32 := Nat.mod_le _ _
    rw [inUse_set (by omega), hb, ← Bool.or_assoc]
    congr 1
    rw [← Bool.decide_or, decide_eq_decide]
    omega

/-! ## Searching a free frame -/

lemma freeBitFrom_spec (word : UInt32) (n : ℕ) : ∀ j, j + n = 32 →
    (∀ k, freeBitFrom word n j = some k → j ≤ k ∧ k < 32 ∧ word.toNat.testBit (31 - k) = false ∧
      ∀ i, j ≤ i → i < k → word.toNat.testBit (31 - i) = true) ∧
    (freeBitFrom word n j = none → ∀ i, j ≤ i → i < 32 → word.toNat.testBit (31 - i) = true) := by
  induction n with
  | zero =>
      intro j hj
      refine ⟨fun k hk => ?_, fun _ i hi hi' => by omega⟩
      simp [freeBitFrom] at hk
  | succ n ih =>
      intro j hj
      have hmask := and_mask_eq_zero_iff word (show j < 32 by omega)
      rw [freeBitFrom]
      by_cases hbit : word.toNat.testBit (31 - j) = false
      · rw [if_pos (hmask.mpr hbit)]
        refine ⟨fun k hk => ?_, fun h => by simp at h⟩
        obtain rfl : j = k := by simpa using hk
        exact ⟨le_rfl, by omega, hbit, fun i hi hi' => by omega⟩
      · rw [if_neg fun h => hbit (hmask.mp h)]
        have hset : word.toNat.testBit (31 - j) = true := by simpa using hbit
        obtain ⟨hsome, hnone⟩ := ih (j + 1) (by omega)
        refine ⟨fun k hk => ?_, fun h i hi hi' => ?_⟩
        · obtain ⟨hjk, hk', hfree, hbelow⟩ := hsome k hk
          refine ⟨by omega, hk', hfree, fun i hi hi' => ?_⟩
          rcases Nat.eq_or_lt_of_le hi with rfl | hi
          · exact hset
          · exact hbelow i hi hi'
        · rcases Nat.eq_or_lt_of_le hi with rfl | hi
          · exact hset
          · exact hnone h i hi hi'

/-- The bits of word `i`, as frames. -/
lemma inUse_word (bitmap : ℕ → UInt32) (i : ℕ) {k : ℕ} (hk : k < 32) :
    inUse bitmap (i * 32 + k) = (bitmap i).toNat.testBit (31 - k) := by
  have hdiv : (i * 32 + k) / 32 = i := by omega
  have hmod : (i * 32 + k) % 32 = k := by omega
  rw [inUse, hdiv, hmod]

lemma freeFrameFrom_spec (bitmap : ℕ → UInt32) (n : ℕ) : ∀ i,
    (∃ f : ℕ, freeFrameFrom bitmap n i = f ∧ i * 32 ≤ f ∧ f < (i + n) * 32 ∧
      inUse bitmap f = false ∧ ∀ g, i * 32 ≤ g → g < f → inUse bitmap g = true) ∨
    (freeFrameFrom bitmap n i = -1 ∧
      ∀ g, i * 32 ≤ g → g < (i + n) * 32 → inUse bitmap g = true) := by
  induction n with
  | zero =>
      intro i
      exact Or.inr ⟨rfl, fun g hg hg' => by omega⟩
  | succ n ih =>
      intro i
      obtain ⟨hsome, hnone⟩ := freeBitFrom_spec (bitmap i) 32 0 rfl
      have hword : ∀ g, i * 32 ≤ g → g < (i + 1) * 32 →
          inUse bitmap g = (bitmap i).toNat.testBit (31 - (g - i * 32)) := by
        intro g hg hg'
        rw [← inUse_word bitmap i (by omega)]
        congr 1
        omega
      rw [freeFrameFrom]
      cases hfree : freeBitFrom (bitmap i) 32 0 with
      | some j =>
          obtain ⟨-, hj, hbit, hbelow⟩ := hsome j hfree
          left
          refine ⟨i * 32 + j, rfl, by omega, by omega, ?_, fun g hg hg' => ?_⟩
          · rw [inUse_word bitmap i hj, hbit]
          · rw [hword g hg (by omega)]
            exact hbelow _ (Nat.zero_le _) (by omega)
      | none =>
          have hfull : ∀ g, i * 32 ≤ g → g < (i + 1) * 32 → inUse bitmap g = true := by
            intro g hg hg'
            rw [hword g hg hg']
            exact hnone hfree _ (Nat.zero_le _) (by omega)
          rcases ih (i + 1) with ⟨f, hf, hlo, hhi, hbit, hbelow⟩ | ⟨hf, hall⟩
          · left
            refine ⟨f, hf, by omega, by omega, hbit, fun g hg hg' => ?_⟩
            rcases Nat.lt_or_ge g ((i + 1) * 32) with hlt | hge
            · exact hfull g hg hlt
            · exact hbelow g hge hg'
          · right
            refine ⟨hf, fun g hg hg' => ?_⟩
            rcases Nat.lt_or_ge g ((i + 1) * 32) with hlt | hge
            · exact hfull g hg hlt
            · exact hall g hge (by omega)

/-- **`next_free_frame_index` returns the first frame that is not in use**, or `-1` if all are. -/
theorem nextFreeFrameIndex_spec (bitmap : ℕ → UInt32) (elements : ℕ) :
    (∃ f : ℕ, nextFreeFrameIndex bitmap elements = f ∧ f < elements * 32 ∧
      inUse bitmap f = false ∧ ∀ g < f, inUse bitmap g = true) ∨
    (nextFreeFrameIndex bitmap elements = -1 ∧
      ∀ g < elements * 32, inUse bitmap g = true) := by
  rcases freeFrameFrom_spec bitmap elements 0 with ⟨f, hf, -, hhi, hbit, hbelow⟩ | ⟨hf, hall⟩
  · exact Or.inl ⟨f, hf, by omega, hbit, fun g hg => hbelow g (by omega) hg⟩
  · exact Or.inr ⟨hf, fun g hg => hall g (by omega) (by omega)⟩

end Bitmap
end GrubKernel
