import GrubKernel.Sorting.Model

/-!
# Offsets and comparisons

The sorts find an element by its offset, which is kept in 32 bits.  Where the offsets of all elements
fit, a comparison sees the elements it is meant to see.  Where they do not, no comparison sees the last
element.

* **`compareAt_eq`** — a comparison where the offsets fit.
* `smallerLast` — an array with its smallest element at the end.
* **`compareAt_smallerLast`** — where the offsets do not fit, all comparisons of this array are even.
-/

namespace GrubKernel
namespace Sorting

variable {a : Extent} {i j : ℕ}

/-! ## Offsets that do not wrap -/

lemma Extent.Fits.offsetOf_eq (hfits : a.Fits) (hi : i < a.elementCount) :
    offsetOf a.elementSize i = a.elementSize * i := by
  have hle : a.elementSize * i ≤ a.elementSize * (a.elementCount - 1) :=
    Nat.mul_le_mul_left _ (by omega)
  exact Nat.mod_eq_of_lt (lt_of_le_of_lt hle hfits)

/-- At the offset of an element stands that element. -/
lemma elementAt_mul {elementSize : ℕ} (data : ℕ → Element elementSize) (i : ℕ) :
    elementAt data (elementSize * i) = data i := by
  funext j
  have hdiv : (elementSize * i + j) / elementSize = i := by
    rw [Nat.mul_add_div j.pos, Nat.div_eq_of_lt j.isLt, Nat.add_zero]
  have hmod : (elementSize * i + j) % elementSize = j := by
    rw [Nat.mul_add_mod, Nat.mod_eq_of_lt j.isLt]
  exact congr_arg₂ (fun k l => data k l) hdiv (Fin.ext hmod)

lemma elementsOf_mul (a : Extent) (i : ℕ) : elementsOf a.elementSize (a.elementSize * i) = [i, i] := by
  have hpos := a.size_pos
  have hlast : (a.elementSize * i + a.elementSize - 1) / a.elementSize = i := by
    rw [Nat.add_sub_assoc hpos, Nat.mul_add_div hpos, Nat.div_eq_of_lt (by omega), Nat.add_zero]
  rw [elementsOf, Nat.mul_div_cancel_left i hpos, hlast]

/-- **A comparison of two elements of the array**, where the offsets do not wrap. -/
lemma compareAt_eq (hfits : a.Fits) (hi : i < a.elementCount) (hj : j < a.elementCount)
    (comparatorFptr : Element a.elementSize → Element a.elementSize → ℤ)
    (s : State (Element a.elementSize)) :
    compareAt comparatorFptr s i j
      = (comparatorFptr (s.data i) (s.data j), { s with touched := s.touched ++ [i, i, j, j] }) := by
  rw [compareAt, hfits.offsetOf_eq hi, hfits.offsetOf_eq hj, elementAt_mul, elementAt_mul,
    elementsOf_mul, elementsOf_mul]
  rfl

/-! ## Offsets that wrap -/

/-- An array whose elements are all the same, but for the last one, which is smaller. -/
def smallerLast (a : Extent) : ℕ → Element a.elementSize :=
  fun i _ => if i < a.elementCount - 1 then 1 else 0

/-- A comparison by the first byte. -/
def compareFirst (a : Extent) (lhs rhs : Element a.elementSize) : ℤ :=
  (lhs ⟨0, a.size_pos⟩).toNat - (rhs ⟨0, a.size_pos⟩).toNat

lemma compareFirst_totalPreorder (a : Extent) : TotalPreorder (compareFirst a) := by
  refine ⟨fun x y => ?_, fun x y z hxy hyz => ?_⟩
  · rw [compareFirst, compareFirst]
    omega
  · rw [compareFirst] at hxy hyz ⊢
    omega

/-- The first byte at an offset is not one of the last element. -/
lemma elementAt_smallerLast (hfits : ¬ a.Fits) (i : ℕ) :
    elementAt (smallerLast a) (offsetOf a.elementSize i) ⟨0, a.size_pos⟩ = 1 := by
  have hlt : offsetOf a.elementSize i < a.elementSize * (a.elementCount - 1) :=
    lt_of_lt_of_le (Nat.mod_lt _ (by decide)) (not_lt.mp hfits)
  have hdiv : offsetOf a.elementSize i / a.elementSize < a.elementCount - 1 :=
    Nat.div_lt_of_lt_mul hlt
  exact if_pos hdiv

/-- **No comparison sees the last element.** -/
lemma compareAt_smallerLast (hfits : ¬ a.Fits) {s : State (Element a.elementSize)}
    (hs : s.data = smallerLast a) (i j : ℕ) :
    (compareAt (compareFirst a) s i j).1 = 0 ∧
      (compareAt (compareFirst a) s i j).2.data = smallerLast a := by
  refine ⟨?_, hs⟩
  rw [compareAt, hs, compareFirst, elementAt_smallerLast hfits, elementAt_smallerLast hfits, sub_self]

/-- The array is not in order. -/
lemma not_le_smallerLast (hfits : ¬ a.Fits) :
    0 < a.elementCount - 1 ∧
      ¬ compareFirst a (smallerLast a 0) (smallerLast a (a.elementCount - 1)) ≤ 0 := by
  have hpos : 0 < a.elementCount - 1 := by
    by_contra hzero
    refine hfits ?_
    rw [Extent.Fits, Nat.eq_zero_of_not_pos hzero, Nat.mul_zero]
    decide
  refine ⟨hpos, ?_⟩
  simp only [compareFirst, smallerLast, if_pos hpos, lt_irrefl, if_false]
  decide

end Sorting
end GrubKernel
