import GrubKernel.Bitmap.Frames
import GrubKernel.Lib.CInt
import Mathlib.Data.Finset.Sort

/-!
# The bitmap as a set of frames

What the words of the bitmap are for is a finite set, the frames in use.  `set` inserts or removes a
frame, and `next_free_frame_index` returns the least frame that is not in the set.

* `usedFrames`, `freeFrames` — the set and its complement among the frames of the array.
* `usedFrames_set`, `nextFreeFrameIndex_isLeast` — the operations on the set.
* `handOut` — a run that asks for a frame and marks it, again and again; `handOut_eq` says that it goes
  through the free frames in order.
* **`bitmap_refines_frames`** — the three together, in terms of `get`.
-/

namespace GrubKernel
namespace Bitmap

open CInt

/-- The frames of the array that are in use. -/
def usedFrames (bitmap : ℕ → UInt32) (elements : ℕ) : Finset ℕ :=
  (Finset.range (32 * elements)).filter fun frame => inUse bitmap frame = true

/-- The frames of the array that are not in use. -/
def freeFrames (bitmap : ℕ → UInt32) (elements : ℕ) : Finset ℕ :=
  (Finset.range (32 * elements)).filter fun frame => inUse bitmap frame = false

variable {bitmap : ℕ → UInt32} {elements frame : ℕ}

lemma mem_usedFrames :
    frame ∈ usedFrames bitmap elements ↔ frame < 32 * elements ∧ inUse bitmap frame = true := by
  rw [usedFrames, Finset.mem_filter, Finset.mem_range]

lemma mem_freeFrames :
    frame ∈ freeFrames bitmap elements ↔ frame < 32 * elements ∧ inUse bitmap frame = false := by
  rw [freeFrames, Finset.mem_filter, Finset.mem_range]

lemma freeFrames_eq_sdiff :
    freeFrames bitmap elements = Finset.range (32 * elements) \ usedFrames bitmap elements := by
  ext g
  rw [mem_freeFrames, Finset.mem_sdiff, mem_usedFrames, Finset.mem_range]
  constructor
  · rintro ⟨hlt, hfree⟩
    exact ⟨hlt, fun hused => by simp [hfree] at hused⟩
  · rintro ⟨hlt, hused⟩
    exact ⟨hlt, by simpa [hlt] using hused⟩

/-! ## The operations -/

/-- **`set` inserts a frame into the set or removes it.** -/
theorem usedFrames_set (h : frame < 32 * elements) (value : UInt32) :
    usedFrames (set bitmap elements frame value).2 elements
      = if value ≠ 0 then insert frame (usedFrames bitmap elements)
        else (usedFrames bitmap elements).erase frame := by
  ext g
  rw [mem_usedFrames, inUse_set_value (by omega)]
  by_cases hvalue : value ≠ 0
  · rw [if_pos hvalue, Finset.mem_insert, mem_usedFrames]
    by_cases hg : g = frame
    · simp [hg, h, hvalue]
    · simp [hg]
  · rw [if_neg hvalue, Finset.mem_erase, mem_usedFrames]
    by_cases hg : g = frame
    · simp [hg, hvalue]
    · simp [hg]

lemma freeFrames_set (h : frame < 32 * elements) :
    freeFrames (set bitmap elements frame 1).2 elements = (freeFrames bitmap elements).erase frame := by
  have hone : (1 : UInt32) ≠ 0 := by decide
  rw [freeFrames_eq_sdiff, usedFrames_set h, if_pos hone, freeFrames_eq_sdiff, Finset.sdiff_insert]

/-- **`next_free_frame_index` returns the least free frame**, or `-1` if there is none. -/
theorem nextFreeFrameIndex_isLeast (bitmap : ℕ → UInt32) (elements : ℕ) :
    (∃ f : ℕ, nextFreeFrameIndex bitmap elements = f ∧
      IsLeast (freeFrames bitmap elements : Set ℕ) f) ∨
    (nextFreeFrameIndex bitmap elements = -1 ∧ freeFrames bitmap elements = ∅) := by
  rcases nextFreeFrameIndex_spec bitmap elements with ⟨f, hf, hlt, hfree, hbelow⟩ | ⟨hf, hall⟩
  · left
    refine ⟨f, hf, mem_freeFrames.mpr ⟨by omega, hfree⟩, fun g hg => ?_⟩
    obtain ⟨-, hgfree⟩ := mem_freeFrames.mp hg
    by_contra hlt
    have hgused := hbelow g (by omega)
    simp [hgfree] at hgused
  · right
    refine ⟨hf, Finset.eq_empty_of_forall_notMem fun g hg => ?_⟩
    obtain ⟨hglt, hgfree⟩ := mem_freeFrames.mp hg
    have hgused := hall g (by omega)
    simp [hgfree] at hgused

/-! ## Handing out frames -/

/-- What `next_free_frame_index` returns in each of `n` rounds, when `set` marks the frame returned at
the end of every round. -/
def handOut (elements : ℕ) : ℕ → (ℕ → UInt32) → List ℤ
  | 0, _ => []
  | n + 1, bitmap =>
      let frameIndex := toInt (nextFreeFrameIndex bitmap elements)
      frameIndex :: handOut elements n (set bitmap elements (toUnsigned frameIndex) 1).2

/-- With a frame in every `int` the value of `next_free_frame_index` reaches the caller. -/
lemma toInt_nextFreeFrameIndex (h : 32 * elements ≤ 2 ^ 31 - 1) :
    toInt (nextFreeFrameIndex bitmap elements) = nextFreeFrameIndex bitmap elements := by
  rcases nextFreeFrameIndex_spec bitmap elements with ⟨f, hf, hlt, -, -⟩ | ⟨hf, -⟩
  · rw [hf]
    exact toInt_eq (by omega) (by omega)
  · rw [hf]
    exact toInt_eq (by omega) (by omega)

/-- The least element of a finite set is the first one in its order. -/
lemma sort_of_isLeast {s : Finset ℕ} {f : ℕ} (h : IsLeast (s : Set ℕ) f) :
    s.sort = f :: (s.erase f).sort := by
  have hins : insert f (s.erase f) = s := Finset.insert_erase h.1
  have hle : ∀ g ∈ s.erase f, f ≤ g := fun g hg => h.2 (Finset.mem_of_mem_erase hg)
  calc s.sort = (insert f (s.erase f)).sort := by rw [hins]
    _ = f :: (s.erase f).sort := Finset.sort_insert _ hle (Finset.notMem_erase f s)

/-- **A run hands out the free frames in order**, and then nothing. -/
theorem handOut_eq (h : 32 * elements ≤ 2 ^ 31 - 1) (n : ℕ) : ∀ bitmap : ℕ → UInt32,
    handOut elements n bitmap
      = ((freeFrames bitmap elements).sort.take n).map (fun f : ℕ => (f : ℤ))
        ++ List.replicate (n - (freeFrames bitmap elements).card) (-1) := by
  induction n with
  | zero =>
      intro bitmap
      simp [handOut]
  | succ n ih =>
      intro bitmap
      rw [handOut, toInt_nextFreeFrameIndex h]
      rcases nextFreeFrameIndex_isLeast bitmap elements with ⟨f, hf, hleast⟩ | ⟨hf, hnone⟩
      · have hmem : f ∈ freeFrames bitmap elements := hleast.1
        have hlt : f < 32 * elements := (mem_freeFrames.mp hmem).1
        have hpos := Finset.card_pos.mpr ⟨f, hmem⟩
        have hcard : n - ((freeFrames bitmap elements).card - 1)
            = n + 1 - (freeFrames bitmap elements).card := by omega
        rw [hf, toUnsigned_natCast (by omega), ih, freeFrames_set hlt, sort_of_isLeast hleast,
          Finset.card_erase_of_mem hmem, hcard]
        simp
      · -- the answer `-1` is no frame of the array, so nothing is marked
        have hrefused : (set bitmap elements (toUnsigned (-1)) 1).2 = bitmap := by
          have hout : elements < toUnsigned (-1) / 32 := by
            rw [toUnsigned]
            omega
          rw [set_of_gt hout]
        rw [hf, hrefused, ih, hnone]
        simp [List.replicate_succ]

/-! ## The refinement -/

lemma get_eq_zero_iff (h : frame < 32 * elements) :
    get bitmap elements frame = 0 ↔ frame ∈ freeFrames bitmap elements := by
  rw [get_eq (by omega), mem_freeFrames]
  simp [h]

lemma get_eq_one_iff (h : frame < 32 * elements) :
    get bitmap elements frame = 1 ↔ frame ∉ freeFrames bitmap elements := by
  rw [get_eq (by omega), mem_freeFrames]
  simp [h]

/-- **The bitmap is a set of frames.**  For every array whose frames are `int`s: `get` after `set` reads
the value set, and what it read before for any other frame; `next_free_frame_index` returns the least
frame for which `get` is `0`, and `-1` exactly when there is none; and a run that marks what it is given
hands out frames in strictly increasing order, with a `-1` only when it has handed out all that were
free. -/
theorem bitmap_refines_frames (bitmap : ℕ → UInt32) {elements : ℕ} (h : 32 * elements ≤ 2 ^ 31 - 1) :
    (∀ f < 32 * elements, ∀ value : UInt32,
      get (set bitmap elements f value).2 elements f = (if value ≠ 0 then 1 else 0) ∧
      ∀ g < 32 * elements, g ≠ f →
        get (set bitmap elements f value).2 elements g = get bitmap elements g) ∧
    (∀ f : ℕ, toInt (nextFreeFrameIndex bitmap elements) = f ↔
      IsLeast {g | g < 32 * elements ∧ get bitmap elements g = 0} f) ∧
    (toInt (nextFreeFrameIndex bitmap elements) = -1 ↔
      ∀ f < 32 * elements, get bitmap elements f = 1) ∧
    ∀ rounds, ∃ handed : List ℕ,
      handOut elements rounds bitmap
        = handed.map (fun f : ℕ => (f : ℤ)) ++ List.replicate (rounds - handed.length) (-1) ∧
      handed.Pairwise (· < ·) ∧
      (∀ f ∈ handed, f < 32 * elements ∧ get bitmap elements f = 0) ∧
      (-1 ∈ handOut elements rounds bitmap →
        ∀ f < 32 * elements, get bitmap elements f = 0 → f ∈ handed) := by
  have hset : {g | g < 32 * elements ∧ get bitmap elements g = 0}
      = (freeFrames bitmap elements : Set ℕ) := by
    ext g
    constructor
    · rintro ⟨hg, hget⟩
      exact (get_eq_zero_iff hg).mp hget
    · intro hg
      have hlt := (mem_freeFrames.mp hg).1
      exact ⟨hlt, (get_eq_zero_iff hlt).mpr hg⟩
  rw [toInt_nextFreeFrameIndex h, hset]
  refine ⟨fun f hf value => ⟨?_, fun g hg hne => ?_⟩, fun f => ?_, ?_, fun rounds => ?_⟩
  · rw [get_eq (by omega), inUse_set_value (by omega), if_pos rfl]
    simp
  · rw [get_eq (by omega), inUse_set_value (by omega), if_neg hne, get_eq (by omega)]
  · rcases nextFreeFrameIndex_isLeast bitmap elements with ⟨g, hg, hleast⟩ | ⟨hg, hnone⟩
    · rw [hg, Nat.cast_inj]
      exact ⟨fun heq => heq ▸ hleast, fun hf => hleast.unique hf⟩
    · rw [hg, hnone]
      exact ⟨fun heq => by omega, fun hf => by simpa using hf.1⟩
  · rcases nextFreeFrameIndex_isLeast bitmap elements with ⟨g, hg, hleast⟩ | ⟨hg, hnone⟩
    · have hlt := (mem_freeFrames.mp hleast.1).1
      rw [hg]
      refine ⟨fun heq => by omega, fun hall => ?_⟩
      exact absurd hleast.1 ((get_eq_one_iff hlt).mp (hall g hlt))
    · refine ⟨fun _ f hf => (get_eq_one_iff hf).mpr ?_, fun _ => hg⟩
      rw [hnone]
      exact Finset.notMem_empty f
  · have hrun := handOut_eq h rounds bitmap
    have hlen : rounds - (((freeFrames bitmap elements).sort.take rounds).length)
        = rounds - (freeFrames bitmap elements).card := by
      rw [List.length_take, Finset.length_sort]
      omega
    refine ⟨(freeFrames bitmap elements).sort.take rounds, ?_, ?_, fun f hf => ?_, fun hout f hf hget => ?_⟩
    · rw [hlen, hrun]
    · exact (Finset.sortedLT_sort _).pairwise.take
    · have hmem := (Finset.mem_sort _).mp (List.mem_of_mem_take hf)
      have hlt := (mem_freeFrames.mp hmem).1
      exact ⟨hlt, (get_eq_zero_iff hlt).mpr hmem⟩
    · -- a `-1` means that the rounds outnumber the free frames
      have hmore : (freeFrames bitmap elements).card < rounds := by
        rw [hrun, List.mem_append] at hout
        rcases hout with hout | hout
        · obtain ⟨g, -, hg⟩ := List.mem_map.mp hout
          omega
        · have hne := (List.mem_replicate.mp hout).1
          omega
      have hfree := (get_eq_zero_iff hf).mp hget
      rw [List.take_of_length_le (by rw [Finset.length_sort]; omega)]
      exact (Finset.mem_sort _).mpr hfree

/-- In an array of one word with frame `0` in use, frame `1` is the least free one. -/
theorem bitmap_refines_frames_one :
    IsLeast {g | g < 32 * 1 ∧ get (fun _ => 0x80000000) 1 g = 0} 1 := by
  obtain ⟨-, hfirst, -, -⟩ := bitmap_refines_frames (fun _ => 0x80000000) (show 32 * 1 ≤ 2 ^ 31 - 1 by decide)
  exact (hfirst 1).mp (by decide)

end Bitmap
end GrubKernel
