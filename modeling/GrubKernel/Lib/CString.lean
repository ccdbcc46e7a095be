import Mathlib.Data.List.GetD
import Mathlib.Logic.Function.Basic
import Mathlib.Tactic

/-!
# Strings that end in NUL

Memories are seen from a pointer on: byte `i` is the byte `i` cells behind it.

* `IsCString` — the memory holds a string without NUL, and then NUL.
* `storeAll` — one byte after the other; `storeAll_at`, `storeAll_off` read the memory after it.
* `mirror` — a stretch of memory turned around; `mirror_step` does it by an exchange at the two ends.
* **`mirror_storeAll`, `isCString_storeAll`** — the string stored backwards and turned around, and the
  string that was stored with its NUL.
-/

namespace CString

/-- The memory holds the string, followed by NUL. -/
structure IsCString (mem : ℕ → UInt8) (s : List UInt8) : Prop where
  noNul : (0 : UInt8) ∉ s
  bytes : ∀ i (h : i < s.length), mem i = s[i]
  nul : mem s.length = 0

variable {mem : ℕ → UInt8}

lemma isCString_nil : IsCString mem [] ↔ mem 0 = 0 := by
  constructor
  · intro h
    exact h.nul
  · intro h
    exact ⟨List.not_mem_nil, fun i hi => absurd hi (Nat.not_lt_zero i), h⟩

lemma isCString_cons {c : UInt8} {s : List UInt8} :
    IsCString mem (c :: s) ↔ c ≠ 0 ∧ mem 0 = c ∧ IsCString (fun i => mem (i + 1)) s := by
  constructor
  · intro h
    obtain ⟨hc, hs⟩ := not_or.mp (mt List.mem_cons.mpr h.noNul)
    refine ⟨fun hzero => hc hzero.symm, h.bytes 0 (Nat.succ_pos _), hs, fun i hi => ?_, h.nul⟩
    exact h.bytes (i + 1) (Nat.succ_lt_succ hi)
  · rintro ⟨hc, hhead, htail⟩
    refine ⟨?_, fun i hi => ?_, htail.nul⟩
    · intro hmem
      rcases List.mem_cons.mp hmem with hzero | hmem
      · exact hc hzero.symm
      · exact htail.noNul hmem
    · cases i with
      | zero => exact hhead
      | succ i => exact htail.bytes i (Nat.lt_of_succ_lt_succ hi)

/-- A string behind a pointer, by its first character. -/
lemma isCString_from_cons {p : ℕ} {c : UInt8} {s : List UInt8} :
    IsCString (fun i => mem (p + i)) (c :: s) ↔
      c ≠ 0 ∧ mem p = c ∧ IsCString (fun i => mem (p + 1 + i)) s := by
  rw [isCString_cons]
  simp only [Nat.add_zero, Nat.add_assoc, Nat.add_comm 1]

/-- Only the bytes of the string and its NUL matter. -/
lemma IsCString.congr {mem' : ℕ → UInt8} {s : List UInt8} (h : IsCString mem s)
    (heq : ∀ i ≤ s.length, mem' i = mem i) : IsCString mem' s :=
  ⟨h.noNul, fun i hi => (heq i hi.le).trans (h.bytes i hi), (heq _ le_rfl).trans h.nul⟩

/-- A memory with a NUL holds a string. -/
lemma exists_isCString (i : ℕ) : ∀ mem : ℕ → UInt8, mem i = 0 → ∃ s, IsCString mem s := by
  induction i with
  | zero =>
      intro mem h
      exact ⟨[], isCString_nil.mpr h⟩
  | succ i ih =>
      intro mem h
      by_cases hhead : mem 0 = 0
      · exact ⟨[], isCString_nil.mpr hhead⟩
      · obtain ⟨s, hs⟩ := ih (fun k => mem (k + 1)) h
        exact ⟨mem 0 :: s, isCString_cons.mpr ⟨hhead, rfl, hs⟩⟩

/-- A string in two parts. -/
lemma IsCString.of_append {s t : List UInt8} (h : IsCString mem (s ++ t)) :
    (∀ i (hi : i < s.length), mem i = s[i]) ∧ IsCString (fun i => mem (s.length + i)) t := by
  refine ⟨fun i hi => ?_, fun hmem => h.noNul (List.mem_append_right s hmem), fun i hi => ?_, ?_⟩
  · rw [h.bytes i (by rw [List.length_append]; omega), List.getElem_append_left hi]
  · show mem (s.length + i) = t[i]
    rw [h.bytes (s.length + i) (by rw [List.length_append]; omega),
      List.getElem_append_right (Nat.le_add_right _ _)]
    simp only [Nat.add_sub_cancel_left]
  · have hnul := h.nul
    rwa [List.length_append] at hnul

/-! ## Storing -/

/-- The bytes of a list, stored from a position on. -/
def storeAll : ℕ → List UInt8 → (ℕ → UInt8) → ℕ → UInt8
  | _, [], mem => mem
  | p, c :: s, mem => storeAll (p + 1) s (Function.update mem p c)

lemma storeAll_append (s t : List UInt8) : ∀ (p : ℕ) (mem : ℕ → UInt8),
    storeAll p (s ++ t) mem = storeAll (p + s.length) t (storeAll p s mem) := by
  induction s with
  | nil =>
      intro p mem
      rfl
  | cons c s ih =>
      intro p mem
      show storeAll (p + 1) (s ++ t) _ = _
      rw [ih, List.length_cons, Nat.add_right_comm, Nat.add_assoc p s.length 1]
      rfl

/-- A byte outside the list. -/
lemma storeAll_off (s : List UInt8) : ∀ {p i : ℕ} (mem : ℕ → UInt8), i < p ∨ p + s.length ≤ i →
    storeAll p s mem i = mem i := by
  induction s with
  | nil =>
      intro p i mem _
      rfl
  | cons c s ih =>
      intro p i mem h
      rw [List.length_cons] at h
      show storeAll (p + 1) s _ i = _
      rw [ih _ (by omega), Function.update_of_ne (by omega)]

/-- A byte of the list. -/
lemma storeAll_at (s : List UInt8) : ∀ {p k : ℕ} (mem : ℕ → UInt8) (h : k < s.length),
    storeAll p s mem (p + k) = s[k] := by
  induction s with
  | nil =>
      intro p k mem h
      exact absurd h (Nat.not_lt_zero k)
  | cons c s ih =>
      intro p k mem h
      show storeAll (p + 1) s _ (p + k) = _
      cases k with
      | zero => rw [storeAll_off s _ (by omega), Nat.add_zero, Function.update_self, List.getElem_cons_zero]
      | succ k =>
          rw [← Nat.add_assoc, Nat.add_right_comm, ih _ (Nat.lt_of_succ_lt_succ h), List.getElem_cons_succ]

lemma storeAll_apply (s : List UInt8) (p i : ℕ) (mem : ℕ → UInt8) :
    storeAll p s mem i = if h : p ≤ i ∧ i < p + s.length then s[i - p] else mem i := by
  split_ifs with h
  · have hat := storeAll_at s (p := p) (k := i - p) mem (by omega)
    rwa [Nat.add_sub_cancel' h.1] at hat
  · exact storeAll_off s mem (by omega)

/-- What was stored with its NUL is a string. -/
theorem isCString_storeAll {s : List UInt8} (h : (0 : UInt8) ∉ s) (p : ℕ) (mem : ℕ → UInt8) :
    IsCString (fun i => storeAll p (s ++ [0]) mem (p + i)) s := by
  refine ⟨h, fun i hi => ?_, ?_⟩
  · have hlen : i < (s ++ [0]).length := by
      rw [List.length_append]
      omega
    rw [storeAll_at _ mem hlen, List.getElem_append_left hi]
  · have hlen : s.length < (s ++ [0]).length := by
      rw [List.length_append, List.length_singleton]
      omega
    rw [storeAll_at _ mem hlen, List.getElem_concat_length]
    rfl

/-- What was stored is a string iff a NUL lies behind it. -/
theorem isCString_storeAll_iff {s : List UInt8} (h : (0 : UInt8) ∉ s) (p : ℕ) (mem : ℕ → UInt8) :
    IsCString (fun i => storeAll p s mem (p + i)) s ↔ mem (p + s.length) = 0 := by
  have hoff : storeAll p s mem (p + s.length) = mem (p + s.length) := storeAll_off s mem (Or.inr le_rfl)
  constructor
  · intro hs
    exact hoff.symm.trans hs.nul
  · intro hnul
    exact ⟨h, fun i hi => storeAll_at s mem hi, hoff.trans hnul⟩

/-! ## Turning around -/

/-- The bytes from `lo` to `hi` in the opposite order. -/
def mirror (lo hi : ℕ) (mem : ℕ → UInt8) (i : ℕ) : UInt8 :=
  if lo ≤ i ∧ i ≤ hi then mem (lo + hi - i) else mem i

/-- One byte, or none, is turned around already. -/
lemma mirror_of_le {lo hi : ℕ} (h : hi ≤ lo) (mem : ℕ → UInt8) : mirror lo hi mem = mem := by
  funext i
  rw [mirror]
  split_ifs with hi
  · congr 1
    omega
  · rfl

/-- Exchange the bytes at the ends, then turn the bytes between them around. -/
lemma mirror_step {lo hi : ℕ} (h : lo < hi) (mem : ℕ → UInt8) :
    mirror (lo + 1) (hi - 1) (Function.update (Function.update mem lo (mem hi)) hi (mem lo))
      = mirror lo hi mem := by
  funext i
  rw [mirror, mirror]
  by_cases hin : lo + 1 ≤ i ∧ i ≤ hi - 1
  · have hsum : lo + 1 + (hi - 1) - i = lo + hi - i := by omega
    rw [if_pos hin, if_pos (by omega), hsum, Function.update_of_ne (by omega),
      Function.update_of_ne (by omega)]
  · rw [if_neg hin]
    by_cases hlo : i = lo
    · rw [if_pos (by omega), hlo, Function.update_of_ne h.ne, Function.update_self, Nat.add_sub_cancel_left]
    · by_cases hhi : i = hi
      · rw [if_pos (by omega), hhi, Function.update_self, Nat.add_sub_cancel]
      · rw [if_neg (by omega), Function.update_of_ne hhi, Function.update_of_ne hlo]

/-- **A list that is stored, ended with NUL and turned around.** -/
theorem mirror_storeAll {s : List UInt8} (hs : s ≠ []) (p : ℕ) (mem : ℕ → UInt8) :
    mirror p (p + s.length - 1) (Function.update (storeAll p s mem) (p + s.length) 0)
      = storeAll p (s.reverse ++ [0]) mem := by
  have hpos := List.length_pos_of_ne_nil hs
  funext i
  rw [mirror, storeAll_append, List.length_reverse]
  show _ = Function.update (storeAll p s.reverse mem) (p + s.length) 0 i
  by_cases hend : i = p + s.length
  · rw [if_neg (by omega), hend, Function.update_self, Function.update_self]
  · rw [Function.update_of_ne hend, Function.update_of_ne hend, storeAll_apply s.reverse]
    by_cases hin : p ≤ i ∧ i ≤ p + s.length - 1
    · rw [if_pos hin, Function.update_of_ne (by omega), storeAll_apply, dif_pos (by omega),
        dif_pos (by rw [List.length_reverse]; omega), List.getElem_reverse]
      congr 1
      omega
    · rw [if_neg hin, storeAll_apply, dif_neg (by omega), dif_neg (by rw [List.length_reverse]; omega)]

end CString
