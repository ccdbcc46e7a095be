import GrubKernel.Lib.CString
import GrubKernel.Lib.Fuel
import Mathlib.Data.UInt

/-!
# Comparing strings

The comment at `k_strcmp` promises the three-way comparison.  The function only remembers that the strings
differ, and returns `1` for that, whichever comes first.

* `compareLoop`, `kStrcmp` — the function, over the bytes behind its two pointers.
* `threeWay` — the promised result, with the characters ordered as bytes.
* `kStrcmp_returns` — the result: zero iff the strings are equal, and one otherwise.
* **`kStrcmp_threeWay_iff`** — when it is the promised one, and when it is antisymmetric.
-/

namespace GrubKernel

open CString Fuel

/-- The loop of `k_strcmp`: the variables `failed` and `i` behind it. -/
def compareLoop (str1 str2 : ℕ → UInt8) : ℕ → ℕ → Option (Int32 × ℕ)
  | 0, _ => none
  | fuel + 1, i =>
      if str1 i ≠ 0 ∧ str2 i ≠ 0 then
        if str1 i ≠ str2 i then some (1, i) else compareLoop str1 str2 fuel (i + 1)
      else some (0, i)

/-- Why did the loop exit? -/
def whyExit (str1 str2 : ℕ → UInt8) (r : Int32 × ℕ) : Int32 :=
  if (str1 r.2 = 0 ∧ str2 r.2 ≠ 0) ∨ (str1 r.2 ≠ 0 ∧ str2 r.2 = 0) then 1 else r.1

/-- `k_strcmp`. -/
def kStrcmp (str1 str2 : ℕ → UInt8) (fuel : ℕ) : Option Int32 :=
  (compareLoop str1 str2 fuel 0).map (whyExit str1 str2)

/-- The lexicographic three-way comparison. -/
def threeWay (a b : List UInt8) : Int32 := if a < b then -1 else if a = b then 0 else 1

section Loop

variable {str1 str2 : ℕ → UInt8} {i : ℕ}

variable (str1 str2 i) in
/-- The end of one of the strings. -/
lemma compareLoop_end (h : str1 i = 0 ∨ str2 i = 0) :
    Returns (fun fuel => (compareLoop str1 str2 fuel i).map (whyExit str1 str2))
      (if str1 i = str2 i then 0 else 1) := by
  have hexit : ¬ (str1 i ≠ 0 ∧ str2 i ≠ 0) := by
    rintro ⟨h₁, h₂⟩
    exact h.elim h₁ h₂
  refine Returns.of_le 1 fun fuel hfuel => ?_
  obtain ⟨fuel, rfl⟩ : ∃ f, fuel = f + 1 := ⟨fuel - 1, by omega⟩
  rw [compareLoop, if_neg hexit, Option.map_some, whyExit]
  rcases h with h | h
  · simp [h, eq_comm]
  · simp [h]

/-- A character that differs. -/
lemma compareLoop_differ (h₁ : str1 i ≠ 0) (h₂ : str2 i ≠ 0) (h : str1 i ≠ str2 i) :
    Returns (fun fuel => (compareLoop str1 str2 fuel i).map (whyExit str1 str2)) 1 := by
  refine Returns.of_le 1 fun fuel hfuel => ?_
  obtain ⟨fuel, rfl⟩ : ∃ f, fuel = f + 1 := ⟨fuel - 1, by omega⟩
  rw [compareLoop, if_pos ⟨h₁, h₂⟩, if_pos h, Option.map_some, whyExit]
  simp

/-- **The loop compares the rest of the strings.** -/
lemma compareLoop_returns {a : List UInt8} : ∀ {b : List UInt8} {i : ℕ},
    IsCString (fun k => str1 (i + k)) a → IsCString (fun k => str2 (i + k)) b →
    Returns (fun fuel => (compareLoop str1 str2 fuel i).map (whyExit str1 str2)) (if a = b then 0 else 1) := by
  induction a with
  | nil =>
      intro b i ha hb
      have hnul : str1 i = 0 := isCString_nil.mp ha
      have hend := compareLoop_end str1 str2 i (Or.inl hnul)
      cases b with
      | nil =>
          have hnul' : str2 i = 0 := isCString_nil.mp hb
          rwa [if_pos (hnul.trans hnul'.symm)] at hend
      | cons c b =>
          obtain ⟨hc, hhead, -⟩ := isCString_from_cons.mp hb
          rw [hnul, hhead, if_neg hc.symm] at hend
          exact hend
  | cons c a ih =>
      intro b i ha hb
      obtain ⟨hc, hhead, htail⟩ := isCString_from_cons.mp ha
      cases b with
      | nil =>
          have hnul : str2 i = 0 := isCString_nil.mp hb
          have hend := compareLoop_end str1 str2 i (Or.inr hnul)
          rw [hnul, hhead, if_neg hc] at hend
          exact hend
      | cons c' b =>
          obtain ⟨hc', hhead', htail'⟩ := isCString_from_cons.mp hb
          have hpos : str1 i ≠ 0 := by rwa [hhead]
          have hpos' : str2 i ≠ 0 := by rwa [hhead']
          by_cases hsame : c = c'
          · have heq : ¬ str1 i ≠ str2 i := not_not.mpr (by rw [hhead, hhead', hsame])
            rw [← returns_succ]
            simp only [List.cons.injEq, hsame, true_and]
            refine (returns_congr (Filter.Eventually.of_forall fun fuel => ?_)).mpr (ih htail htail')
            rw [compareLoop, if_pos ⟨hpos, hpos'⟩, if_neg heq]
          · rw [if_neg fun h => hsame (List.cons.inj h).1]
            exact compareLoop_differ hpos hpos' (by rwa [hhead, hhead'])

/-- **The result of `k_strcmp`.** -/
lemma kStrcmp_returns {a b : List UInt8} (ha : IsCString str1 a) (hb : IsCString str2 b) :
    Returns (kStrcmp str1 str2) (if a = b then 0 else 1) :=
  compareLoop_returns (by simpa only [Nat.zero_add] using ha) (by simpa only [Nat.zero_add] using hb)

end Loop

/-- **When `k_strcmp` keeps its promise.**  For all strings: the result is the three-way comparison iff the
first string is not before the second one; it is that, and the opposite of the result for the exchanged
strings, iff the strings are equal. -/
theorem kStrcmp_threeWay_iff {str1 str2 : ℕ → UInt8} {a b : List UInt8} (ha : IsCString str1 a)
    (hb : IsCString str2 b) :
    (Returns (kStrcmp str1 str2) (threeWay a b) ↔ ¬ a < b) ∧
    ((Returns (kStrcmp str1 str2) (threeWay a b) ∧
        ∃ r, Returns (kStrcmp str1 str2) r ∧ Returns (kStrcmp str2 str1) (-r)) ↔ a = b) := by
  have hforth := kStrcmp_returns ha hb
  have hback := kStrcmp_returns hb ha
  constructor
  · constructor
    · intro h hlt
      have hresult := h.unique hforth
      rw [threeWay, if_pos hlt] at hresult
      split_ifs at hresult with hsame
      · exact absurd hresult (by decide)
      · exact absurd hresult (by decide)
    · intro hge
      rwa [threeWay, if_neg hge]
  · constructor
    · rintro ⟨-, r, hr, hr'⟩
      by_contra hne
      rw [if_neg hne] at hforth
      rw [if_neg (Ne.symm hne)] at hback
      rw [hr.unique hforth] at hr'
      exact absurd (hr'.unique hback) (by decide)
    · rintro rfl
      rw [if_pos rfl] at hforth hback
      rw [threeWay, if_neg (List.lt_irrefl a), if_pos rfl]
      exact ⟨hforth, 0, hforth, hback⟩

/-- `"b"` against `"a"`. -/
theorem kStrcmp_threeWay_after :
    Returns (kStrcmp (fun i => [98, 0].getD i 0) (fun i => [97, 0].getD i 0)) (threeWay [98] [97]) :=
  (kStrcmp_threeWay_iff ⟨by decide, by decide, by decide⟩ ⟨by decide, by decide, by decide⟩).1.mpr
    (by decide)

/-- `"a"` against `"b"` gives `1`. -/
theorem kStrcmp_not_threeWay :
    ¬ Returns (kStrcmp (fun i => [97, 0].getD i 0) (fun i => [98, 0].getD i 0)) (threeWay [97] [98]) := by
  intro h
  have ha : IsCString (fun i => [97, 0].getD i 0) [97] := ⟨by decide, by decide, by decide⟩
  have hb : IsCString (fun i => [98, 0].getD i 0) [98] := ⟨by decide, by decide, by decide⟩
  have hresult := kStrcmp_returns ha hb
  exact absurd (h.unique hresult) (by decide)

end GrubKernel
