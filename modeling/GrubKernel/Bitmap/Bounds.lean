import GrubKernel.Bitmap.Frames

/-!
# The edges of the bitmap

Two things happen at the end of what a caller names.  `set` and `get` compare the word of a frame with
the number of words by `>`, so the word just behind the array is taken for one of its words; and
`use_frames_in_bytes` divides the byte count by the frame size, so the last frame is left out when the
bytes end inside it.

* `Traced` — a bitmap with the accesses made to it; `setTraced` and `getTraced` are `set` and `get` with
  the accesses written down (`setTraced_eq`, `getTraced_eq`).
* **`keepsBounds_iff`** — the check of `set` and `get` is exact, and the accesses inside the array,
  unless the frame is one of the thirty-two behind the array.
* **`reservesBytes_iff`** — when `use_frames_in_bytes` reserves every frame that the bytes touch, or
  refuses.
-/

namespace GrubKernel
namespace Bitmap

/-! ## Accesses to the words -/

/-- A bitmap, and the indices of the words read and written so far. -/
structure Traced where
  bitmap : ℕ → UInt32
  accesses : List ℕ

/-- Read a word. -/
def Traced.read (t : Traced) (element : ℕ) : UInt32 × Traced :=
  (t.bitmap element, { t with accesses := t.accesses ++ [element] })

/-- Write a word. -/
def Traced.write (t : Traced) (element : ℕ) (word : UInt32) : Traced :=
  ⟨Function.update t.bitmap element word, t.accesses ++ [element]⟩

/-- `set`, with its accesses. -/
def setTraced (t : Traced) (elementsInArray frameIndex : ℕ) (value : UInt32) : ℤ × Traced :=
  let element := frameIndex / 32
  if element > elementsInArray then (-1, t)
  else
    let bitIndex := UInt32.ofNat (31 - frameIndex % 32)
    let (word, t) := t.read element
    if value ≠ 0 then (0, t.write element (word ||| (1 <<< bitIndex)))
    else (0, t.write element (word &&& ~~~(1 <<< bitIndex)))

/-- `get`, with its accesses. -/
def getTraced (t : Traced) (elementsInArray frameIndex : ℕ) : ℤ × Traced :=
  let element := frameIndex / 32
  if element > elementsInArray then (-1, t)
  else
    let bitIndex := UInt32.ofNat (31 - frameIndex % 32)
    let (word, t) := t.read element
    (if word &&& (1 <<< bitIndex) > 0 then 1 else 0, t)

/-- A fresh record of the accesses to `bitmap`. -/
def traced (bitmap : ℕ → UInt32) : Traced := ⟨bitmap, []⟩

variable {bitmap : ℕ → UInt32} {elements frame : ℕ} {value : UInt32}

/-- **What `set` accesses**: the word of the frame.  Writing the accesses down changes nothing else. -/
lemma setTraced_eq (bitmap : ℕ → UInt32) (elements frame : ℕ) (value : UInt32) :
    setTraced (traced bitmap) elements frame value
      = ((set bitmap elements frame value).1, ⟨(set bitmap elements frame value).2,
          if frame / 32 > elements then [] else [frame / 32, frame / 32]⟩) := by
  rw [setTraced, set]
  by_cases hout : frame / 32 > elements
  · simp [hout, traced]
  · by_cases hvalue : value = 0
    · simp [hout, hvalue, traced, Traced.read, Traced.write]
    · simp [hout, hvalue, traced, Traced.read, Traced.write]

lemma getTraced_eq (bitmap : ℕ → UInt32) (elements frame : ℕ) :
    getTraced (traced bitmap) elements frame
      = (get bitmap elements frame, ⟨bitmap, if frame / 32 > elements then [] else [frame / 32]⟩) := by
  rw [getTraced, get]
  by_cases hout : frame / 32 > elements
  · simp [hout, traced]
  · simp [hout, traced, Traced.read]

/-! ## The check of `set` and `get` -/

/-- `set` and `get` refuse the frames behind the array and no others, touch no word behind it, and a
refused `set` changes nothing. -/
def KeepsBounds (bitmap : ℕ → UInt32) (elements frame : ℕ) (value : UInt32) : Prop :=
  let s := setTraced (traced bitmap) elements frame value
  let g := getTraced (traced bitmap) elements frame
  (s.1 = -1 ↔ 32 * elements ≤ frame) ∧ (g.1 = -1 ↔ 32 * elements ≤ frame) ∧
  (∀ element ∈ s.2.accesses ++ g.2.accesses, element < elements) ∧
  (s.1 = -1 → s.2.bitmap = bitmap)

/-- **The check is exact but for the word just behind the array.** -/
theorem keepsBounds_iff (bitmap : ℕ → UInt32) (elements frame : ℕ) (value : UInt32) :
    KeepsBounds bitmap elements frame value ↔ frame / 32 ≠ elements := by
  rw [KeepsBounds]
  rw [setTraced_eq, getTraced_eq]
  dsimp only
  rcases Nat.lt_trichotomy (frame / 32) elements with hlt | heq | hgt
  · -- a word of the array
    have hle : frame / 32 ≤ elements := by omega
    have hgetne : get bitmap elements frame ≠ -1 := by
      rw [get_eq hle]
      cases inUse bitmap frame
      · decide
      · decide
    rw [set_fst hle, if_neg (not_lt.mpr hle), if_neg (not_lt.mpr hle)]
    refine ⟨fun _ => by omega, fun _ => ⟨by omega, ?_, fun element hmem => ?_, fun h => by omega⟩⟩
    · exact ⟨fun h => absurd h hgetne, fun h => by omega⟩
    · have hword : element = frame / 32 := by simpa using hmem
      omega
  · -- the word behind it
    refine ⟨fun ⟨hset, _⟩ => ?_, fun hne => absurd heq hne⟩
    rw [set_fst (by omega)] at hset
    omega
  · rw [set_of_gt hgt, get_of_gt hgt, if_pos hgt, if_pos hgt]
    refine ⟨fun _ => by omega, fun _ => ⟨by omega, by omega, fun element hmem => ?_, fun _ => rfl⟩⟩
    simp at hmem

/-- With one word, frame `32` is accepted. -/
theorem not_keepsBounds_one : ¬ KeepsBounds (fun _ => 0) 1 32 1 := by
  rintro ⟨hset, -, -, -⟩
  have hrefused := hset.mpr (by decide)
  exact absurd hrefused (by decide)

/-! ## Reserving the first bytes -/

/-- Every frame that the first `size` bytes touch is one of the array and is marked, with no other
frame's bit changed, or the call is refused and nothing is changed. -/
def ReservesBytes (bitmap : ℕ → UInt32) (elements size : ℕ) : Prop :=
  let r := useFramesInBytes bitmap elements size
  ((∀ f, f * 0x1000 < size → f < 32 * elements) ∧ r.1 = 0 ∧
    (∀ f, f * 0x1000 < size → get r.2 elements f = 1) ∧
    ∀ f, size ≤ f * 0x1000 → inUse r.2 f = inUse bitmap f) ∨
  (r.1 = -1 ∧ r.2 = bitmap)

/-- **The first bytes are reserved** when they end with a frame, when the call is refused, and when the
frame they end in was in use before. -/
theorem reservesBytes_iff (bitmap : ℕ → UInt32) {elements : ℕ} (h : 32 * elements < 2 ^ 32)
    (size : ℕ) :
    ReservesBytes bitmap elements size ↔
      size % 0x1000 = 0 ∨ 32 * elements < size / 0x1000 ∨
      (size / 0x1000 < 32 * elements ∧ get bitmap elements (size / 0x1000) = 1) := by
  have hcapacity : elements * 32 % 2 ^ 32 = 32 * elements := by
    rw [Nat.mod_eq_of_lt (by omega), Nat.mul_comm]
  rw [ReservesBytes]
  by_cases hrefused : 32 * elements < size / 0x1000
  · have heq : useFramesInBytes bitmap elements size = (-1, bitmap) := by
      rw [useFramesInBytes]
      rw [if_pos (by omega)]
    rw [heq]
    exact ⟨fun _ => Or.inr (Or.inl hrefused), fun _ => Or.inr ⟨rfl, rfl⟩⟩
  · have hused : ∀ g, inUse (useFramesInBytes bitmap elements size).2 g
        = (decide (g < size / 0x1000) || inUse bitmap g) := inUse_useFramesInBytes (by omega)
    have hfst : (useFramesInBytes bitmap elements size).1 = 0 := by
      rw [useFramesInBytes]
      rw [if_neg (by omega)]
    have hmarked : ∀ f < 32 * elements,
        get (useFramesInBytes bitmap elements size).2 elements f = 1 ↔
          f < size / 0x1000 ∨ get bitmap elements f = 1 := by
      intro f hf
      rw [get_eq (by omega), get_eq (by omega), hused]
      by_cases hlt : f < size / 0x1000
      · simp [hlt]
      · simp [hlt]
    constructor
    · -- the frame that the bytes end in is touched, and marked only if it was before
      rintro (⟨hmanaged, -, hall, -⟩ | ⟨hrefused', -⟩)
      · by_cases hwhole : size % 0x1000 = 0
        · exact Or.inl hwhole
        · have htouched : size / 0x1000 * 0x1000 < size := by omega
          have hin := hmanaged _ htouched
          rcases (hmarked _ hin).mp (hall _ htouched) with hlt | hbefore
          · omega
          · exact Or.inr (Or.inr ⟨hin, hbefore⟩)
      · rw [hfst] at hrefused'
        omega
    · intro hcond
      have hmanaged : ∀ f, f * 0x1000 < size → f < 32 * elements := by
        intro f hf
        rcases hcond with hwhole | hmore | ⟨hin, -⟩
        · omega
        · exact absurd hmore hrefused
        · omega
      refine Or.inl ⟨hmanaged, hfst, fun f hf => ?_, fun f hf => ?_⟩
      · rw [hmarked f (hmanaged f hf)]
        rcases Nat.lt_or_ge f (size / 0x1000) with hlt | hge
        · exact Or.inl hlt
        · -- only the frame that the bytes end in is left
          obtain rfl : f = size / 0x1000 := by omega
          rcases hcond with hwhole | hmore | ⟨-, hbefore⟩
          · omega
          · exact absurd hmore hrefused
          · exact Or.inr hbefore
      · have hout : ¬ f < size / 0x1000 := by omega
        rw [hused]
        simp [hout]

/-- One page of an array of one word. -/
theorem reservesBytes_page : ReservesBytes (fun _ => 0) 1 0x1000 :=
  (reservesBytes_iff (fun _ => 0) (by decide) 0x1000).mpr (Or.inl (by decide))

/-- One byte reserves nothing. -/
theorem not_reservesBytes_byte : ¬ ReservesBytes (fun _ => 0) 1 1 := by
  rintro (⟨-, -, hall, -⟩ | ⟨hrefused, -⟩)
  · exact absurd (hall 0 (by decide)) (by decide)
  · exact absurd hrefused (by decide)

end Bitmap
end GrubKernel
