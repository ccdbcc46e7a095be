import GrubKernel.Lib.Loop

/-!
# The frame bitmap

`bitmap.c` keeps one bit for each 4 KiB frame of physical memory, thirty-two to a word, the first frame
of a word in its highest bit.  This file translates it.

The bitmap is indexed by every natural number: the words below the number of elements are the array,
those behind it whatever lies there.
-/

namespace GrubKernel

open Loop

/-- `BITMAP_SIZE_FOR_MB`. -/
def bitmapSizeForMb : ℕ := 200

/-- `BITMAP_ELEMENT_COUNT`, with `FRAME_AMOUNT` expanded. -/
def bitmapElementCount : ℕ := bitmapSizeForMb * 1024 / 4 / 32 + 1

namespace Bitmap

/-- `reset_bitmap`. -/
def resetBitmap (bitmap : ℕ → UInt32) (elementsInArray : ℕ) : ℕ → UInt32 :=
  forLoop elementsInArray (fun i b => Function.update b i 0) bitmap

/-- `set`. -/
def set (bitmap : ℕ → UInt32) (elementsInArray frameIndex : ℕ) (value : UInt32) :
    ℤ × (ℕ → UInt32) :=
  let element := frameIndex / 32
  if element > elementsInArray then (-1, bitmap)
  else
    let bitIndex := UInt32.ofNat (31 - frameIndex % 32)
    if value ≠ 0 then
      (0, Function.update bitmap element (bitmap element ||| (1 <<< bitIndex)))
    else
      (0, Function.update bitmap element (bitmap element &&& ~~~(1 <<< bitIndex)))

/-- `get`. -/
def get (bitmap : ℕ → UInt32) (elementsInArray frameIndex : ℕ) : ℤ :=
  let element := frameIndex / 32
  if element > elementsInArray then -1
  else
    let bitIndex := UInt32.ofNat (31 - frameIndex % 32)
    if bitmap element &&& (1 <<< bitIndex) > 0 then 1 else 0

/-- `use_frames_in_bytes`. -/
def useFramesInBytes (bitmap : ℕ → UInt32) (elementsInArray sizeInBytes : ℕ) :
    ℤ × (ℕ → UInt32) :=
  let frameCount := sizeInBytes / 0x1000
  if elementsInArray * 32 % 2 ^ 32 < frameCount then (-1, bitmap)
  else (0, forLoop frameCount (fun i b => (set b elementsInArray i 1).2) bitmap)

/-- The inner loop of `next_free_frame_index`: `n` bits of one word, from bit `j` on. -/
def freeBitFrom (word : UInt32) : ℕ → ℕ → Option ℕ
  | 0, _ => none
  | n + 1, j =>
      if word &&& (0x80000000 >>> UInt32.ofNat j) = 0 then some j else freeBitFrom word n (j + 1)

/-- The outer loop of `next_free_frame_index`: `n` words, from word `i` on. -/
def freeFrameFrom (bitmap : ℕ → UInt32) : ℕ → ℕ → ℤ
  | 0, _ => -1
  | n + 1, i =>
      match freeBitFrom (bitmap i) 32 0 with
      | some j => ((i * 32 + j : ℕ) : ℤ)
      | none => freeFrameFrom bitmap n (i + 1)

/-- `next_free_frame_index`: the first frame whose bit is clear, or `-1`. -/
def nextFreeFrameIndex (bitmap : ℕ → UInt32) (elementsInArray : ℕ) : ℤ :=
  freeFrameFrom bitmap elementsInArray 0

end Bitmap
end GrubKernel
