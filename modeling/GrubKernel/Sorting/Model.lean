import GrubKernel.Lib.CInt
import GrubKernel.Lib.Exchange
import GrubKernel.Lib.Loop
import GrubKernel.Lib.Rounding

/-!
# Sorting and shuffling

`sort.c` works on any array: it is handed the size of an element, a comparison of two elements and a
function that exchanges two of them.  This file translates it, together with the generator of `random.c`
that `shuffle` draws from.

It is built for a 64-bit host, so `data` may be longer than 4 GiB, but the offset `element_size * i` of
an element is an `unsigned int`.  What a comparison sees is therefore read byte by byte: the elements
from `data` on, of which the first `element_count` are the array, are arrays of bytes.  The state also
records which elements were compared or exchanged.

* `Extent`, `elementAt` — the array, and the element that starts at an offset.
* `bubblesort`, `quicksort`, `shuffle` — the functions of `sort.c`.
* `Extent.Fits` — the offsets of all elements are below 4 GiB.
-/

namespace GrubKernel
namespace Sorting

open CInt Loop Rounding

/-- The number and the size of the elements, each an `unsigned int`. -/
structure Extent where
  elementCount : ℕ
  elementSize : ℕ
  size_pos : 0 < elementSize
  count_lt : elementCount < 2 ^ 32
  size_lt : elementSize < 2 ^ 32

/-- The bytes of an element. -/
abbrev Element (elementSize : ℕ) : Type := Fin elementSize → UInt8

variable {α : Type*}

/-- The elements from `data` on, and the positions touched so far. -/
structure State (α : Type*) where
  data : ℕ → α
  touched : List ℕ

/-- The bytes from `data + offset` on, as many as an element has. -/
def elementAt {elementSize : ℕ} (data : ℕ → Element elementSize) (offset : ℕ) : Element elementSize :=
  fun j => data ((offset + j) / elementSize) ⟨(offset + j) % elementSize, Nat.mod_lt _ j.pos⟩

/-- `element_size * i`, an `unsigned int`. -/
def offsetOf (elementSize i : ℕ) : ℕ := elementSize * i % 2 ^ 32

/-- The elements that the bytes from `offset` on belong to. -/
def elementsOf (elementSize offset : ℕ) : List ℕ :=
  [offset / elementSize, (offset + elementSize - 1) / elementSize]

/-- `comparator_fptr(data + element_size * i, data + element_size * j)`. -/
def compareAt {elementSize : ℕ} (comparatorFptr : Element elementSize → Element elementSize → ℤ)
    (s : State (Element elementSize)) (i j : ℕ) : ℤ × State (Element elementSize) :=
  let lhs := offsetOf elementSize i
  let rhs := offsetOf elementSize j
  (comparatorFptr (elementAt s.data lhs) (elementAt s.data rhs),
    { s with touched := s.touched ++ (elementsOf elementSize lhs ++ elementsOf elementSize rhs) })

/-- `swap_fptr(data, i, j)`. -/
def swapAt (swapFptr : (ℕ → α) → ℕ → ℕ → ℕ → α) (s : State α) (i j : ℕ) : State α :=
  ⟨swapFptr s.data i j, s.touched ++ [i, j]⟩

/-! ## Sorting -/

section Algorithms

variable (a : Extent) (comparatorFptr : Element a.elementSize → Element a.elementSize → ℤ)
variable (swapFptr : (ℕ → Element a.elementSize) → ℕ → ℕ → ℕ → Element a.elementSize)

/-- The inner loop of `bubblesort`. -/
def bubblePass (n : ℕ) (s : State (Element a.elementSize)) : State (Element a.elementSize) :=
  forLoop (n - 1) (fun i s =>
    let (order, s) := compareAt comparatorFptr s i (i + 1)
    if order > 0 then swapAt swapFptr s i (i + 1) else s) s

/-- The outer loop of `bubblesort`, from `n` down. -/
def bubblesortFrom : ℕ → State (Element a.elementSize) → State (Element a.elementSize)
  | 0, s => s
  | n + 1, s =>
      if n + 1 > 1 then bubblesortFrom n (bubblePass a comparatorFptr swapFptr (n + 1) s) else s

/-- `bubblesort`. -/
def bubblesort (s : State (Element a.elementSize)) : State (Element a.elementSize) :=
  bubblesortFrom a comparatorFptr swapFptr a.elementCount s

/-- The loop `while (++ptr_idx <= last)` of `quicksort_internal`.  It returns `split_index`. -/
def partitionLoop : ℕ → ℤ → ℤ → ℕ → ℕ → State (Element a.elementSize) →
    Option (ℕ × State (Element a.elementSize))
  | 0, _, _, _, _, _ => none
  | fuel + 1, first, last, ptrIdx, splitIndex, s =>
      let ptrIdx := (ptrIdx + 1) % 2 ^ 32
      if ptrIdx ≤ toUnsigned last then
        let (order, s) := compareAt comparatorFptr s ptrIdx (toUnsigned first)
        if order < 0 then
          partitionLoop fuel first last ptrIdx ((splitIndex + 1) % 2 ^ 32)
            (swapAt swapFptr s ptrIdx splitIndex)
        else partitionLoop fuel first last ptrIdx splitIndex s
      else some (splitIndex, s)

/-- `quicksort_internal`.  The fuel bounds the depth of the recursion. -/
def quicksortInternal : ℕ → ℤ → ℤ → State (Element a.elementSize) →
    Option (State (Element a.elementSize))
  | 0, _, _, _ => none
  | fuel + 1, first, last, s =>
      if last - first < 1 then some s
      else do
        let (splitIndex, s) ← partitionLoop a comparatorFptr swapFptr fuel first last
          (toUnsigned first) (toUnsigned (first + 1)) s
        let s := swapAt swapFptr s (toUnsigned first) (toUnsigned (splitIndex - 1))
        let s ← quicksortInternal fuel first (toInt (splitIndex - 1)) s
        quicksortInternal fuel (toInt splitIndex) last s

/-- `quicksort`. -/
def quicksort (fuel : ℕ) (s : State (Element a.elementSize)) : Option (State (Element a.elementSize)) :=
  quicksortInternal a comparatorFptr swapFptr fuel 0 (toInt (a.elementCount - 1)) s

end Algorithms

/-- The bytes of an `int`, from the lowest on. -/
def intOf (bytes : Element 4) : ℤ :=
  toInt ((bytes 0).toNat + 2 ^ 8 * (bytes 1).toNat + 2 ^ 16 * (bytes 2).toNat + 2 ^ 24 * (bytes 3).toNat)

/-- `int_comparator`. -/
def intComparator (lhs rhs : Element 4) : ℤ :=
  if intOf lhs < intOf rhs then -1 else if intOf lhs > intOf rhs then 1 else 0

/-- `int_swap`, on elements of any kind. -/
def intSwap (data : ℕ → α) (i j : ℕ) : ℕ → α :=
  if i < 0 ∨ j < 0 then data
  else
    let temp := data i
    Function.update (Function.update data i (data j)) j temp

/-! ## Shuffling -/

/-- `retrieve_pseudo_random`; `unsigned long` has 64 bits. -/
def retrievePseudoRandom (x0 : ℤ) : ℕ :=
  let m := 0x100000000
  let a := 1103515245
  let c := 12345
  (a * (x0 % 2 ^ 64).toNat + c) % 2 ^ 64 % m

/-- A `float` has 24 significant bits. -/
def toFloat (x : ℚ) : ℚ := roundTo 24 x

/-- `first_index` or `second_index`: a random number scaled to the elements, each operation of the type
`float`. -/
def floatIndex (randomInt : ℕ) (elementCount : ℤ) : ℕ :=
  let randomUniform := toFloat (toFloat randomInt / toFloat 0xFFFFFFFF)
  ⌊toFloat (randomUniform * toFloat elementCount)⌋₊

/-- The same without rounding on the way. -/
def scaledIndex (randomInt : ℕ) (elementCount : ℤ) : ℕ :=
  ⌊(randomInt : ℚ) / 0xFFFFFFFF * elementCount⌋₊

/-- `shuffle`, where `indexOf` scales the random numbers.  The processor says whether it has `rdrand`,
and then which number it returns. -/
def shuffle (indexOf : ℕ → ℤ → ℕ) (swapFptr : (ℕ → α) → ℕ → ℕ → ℕ → α) (rdrandAvailable : Bool)
    (rdrand : UInt32) (shuffleCount : ℤ) (elementCount : ℤ) (s : State α) : ℤ × State α :=
  if !rdrandAvailable then (0, s)
  else
    let seed := rdrand.toNat
    let x0 := retrievePseudoRandom (toInt seed)
    let (_, s) := forLoop shuffleCount.toNat (fun _ (x0, s) =>
      let firstRandomInt := retrievePseudoRandom (toInt x0)
      let secondRandomInt := retrievePseudoRandom (toInt firstRandomInt)
      let firstIndex := indexOf firstRandomInt elementCount
      let secondIndex := indexOf secondRandomInt elementCount
      (secondRandomInt, swapAt swapFptr s firstIndex secondIndex)) (x0, s)
    (1, s)

/-! ## What a caller hands over -/

/-- The comparison orders all elements. -/
structure TotalPreorder (comparatorFptr : α → α → ℤ) : Prop where
  sign : ∀ x y, comparatorFptr x y < 0 ↔ 0 < comparatorFptr y x
  trans : ∀ x y z, comparatorFptr x y ≤ 0 → comparatorFptr y z ≤ 0 → comparatorFptr x z ≤ 0

/-- The swap function exchanges two elements. -/
def Exchanges (swapFptr : (ℕ → α) → ℕ → ℕ → ℕ → α) : Prop :=
  ∀ data i j, swapFptr data i j = data ∘ Equiv.swap i j

lemma intComparator_totalPreorder : TotalPreorder intComparator := by
  have hneg : ∀ x y, intComparator x y < 0 ↔ intOf x < intOf y := by
    intro x y
    rw [intComparator]
    split_ifs <;> omega
  have hpos : ∀ x y, 0 < intComparator x y ↔ intOf y < intOf x := by
    intro x y
    rw [intComparator]
    split_ifs <;> omega
  refine ⟨fun x y => by rw [hneg, hpos], fun x y z hxy hyz => ?_⟩
  rw [← not_lt, hpos] at hxy hyz ⊢
  omega

lemma intSwap_exchanges : Exchanges (intSwap (α := α)) := by
  intro data i j
  funext k
  have hno : ¬ (i < 0 ∨ j < 0) := by omega
  rw [intSwap, if_neg hno, Function.comp_apply, Equiv.swap_apply_def]
  by_cases hj : k = j
  · subst hj
    rw [Function.update_self]
    by_cases hi : k = i
    · rw [if_pos hi, hi]
    · rw [if_neg hi, if_pos rfl]
  · rw [Function.update_of_ne hj]
    by_cases hi : k = i
    · rw [if_pos hi, hi, Function.update_self]
    · rw [if_neg hi, if_neg hj, Function.update_of_ne hi]

/-- The offset of every element is below 4 GiB. -/
def Extent.Fits (a : Extent) : Prop := a.elementSize * (a.elementCount - 1) < 2 ^ 32

instance (a : Extent) : Decidable a.Fits := inferInstanceAs (Decidable (_ < _))

/-- The extent of three `int`. -/
def threeInts : Extent := ⟨3, 4, by decide, by decide, by decide⟩

namespace TotalPreorder

variable {comparatorFptr : α → α → ℤ} (h : TotalPreorder comparatorFptr)
include h

/-- An element that is not before another comes after it. -/
lemma le_of_not_neg {x y : α} (hnot : ¬ comparatorFptr x y < 0) : comparatorFptr y x ≤ 0 := by
  rw [h.sign] at hnot
  exact not_lt.mp hnot

lemma self_le (x : α) : comparatorFptr x x ≤ 0 := by
  by_contra hpos
  have hneg := (h.sign x x).mpr (not_le.mp hpos)
  omega

end TotalPreorder

end Sorting
end GrubKernel
