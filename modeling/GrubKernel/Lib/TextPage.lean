import Mathlib.Data.List.Basic
import Mathlib.Tactic

/-!
# Text on a rolled page

A text is a sequence of characters and line breaks.  On a page of a given width it is broken into lines:
a break ends a line, and so does the last column.  The page is rolled onto a cylinder of a given height,
so that lines share a row, and a newer character covers an older one.

* `lines` — the lines of a text; no line is longer than the page is wide.
* `rolled` — the character that a place of the cylinder shows.
* `rolled_put`, `rolled_break` — what one character and one break do to it.
* **`rolled_recent`** — the newest lines, one for each row, are shown in full.
-/

namespace TextPage

variable {α : Type*} {width height : ℕ}

/-! ## Lines -/

/-- The lines of a text that goes on after an unfinished line. -/
def lines (width : ℕ) : List α → List (Option α) → List (List α)
  | current, [] => [current]
  | current, none :: text => current :: lines width [] text
  | current, some a :: text =>
      if current.length + 1 < width then lines width (current ++ [a]) text
      else (current ++ [a]) :: lines width [] text

/-- No line is longer than the page is wide. -/
theorem length_le_of_mem_lines {current : List α} (hcurrent : current.length < width) {text : List (Option α)}
    {l : List α} (hl : l ∈ lines width current text) : l.length ≤ width := by
  induction text generalizing current with
  | nil =>
      rw [lines, List.mem_singleton] at hl
      rw [hl]
      exact hcurrent.le
  | cons c text ih =>
      have hwidth : ([] : List α).length < width := (Nat.zero_le _).trans_lt hcurrent
      cases c with
      | none =>
          rcases List.mem_cons.mp hl with rfl | hl
          · exact hcurrent.le
          · exact ih hwidth hl
      | some a =>
          unfold lines at hl
          split_ifs at hl with hroom
          · exact ih (by simpa using hroom) hl
          · rcases List.mem_cons.mp hl with rfl | hl
            · simpa using hcurrent
            · exact ih hwidth hl

/-- A text goes on after the last line of the text before it. -/
lemma lines_append {done done' : List (List α)} {current current' : List α} {text more : List (Option α)}
    (h : done' ++ [current'] = done ++ lines width current text) :
    done ++ lines width current (text ++ more) = done' ++ lines width current' more := by
  induction text generalizing done current with
  | nil =>
      obtain ⟨rfl, hlast⟩ := List.append_inj' h rfl
      rw [List.nil_append, List.singleton_inj.mp hlast]
  | cons c text ih =>
      cases c with
      | none =>
          rw [lines, List.append_cons done] at h
          rw [List.cons_append, lines, List.append_cons done]
          exact ih h
      | some a =>
          have hstep : ∀ t, lines width current (some a :: t) =
              if current.length + 1 < width then lines width (current ++ [a]) t
              else (current ++ [a]) :: lines width [] t := fun t => rfl
          rw [hstep] at h
          rw [List.cons_append, hstep]
          split_ifs at h ⊢
          · exact ih h
          · rw [List.append_cons done] at h ⊢
            exact ih h

/-! ## The cylinder -/

/-- The character of the newest line of a row that reaches a column. -/
def rolled (height : ℕ) (page : List (List α)) (row column : ℕ) : Option α :=
  (page.zipIdx.filterMap fun l => if l.2 % height = row then l.1[column]? else none).getLast?

@[simp] lemma rolled_nil (row column : ℕ) : rolled height ([] : List (List α)) row column = none := rfl

/-- The newest line covers the others. -/
lemma rolled_snoc (page : List (List α)) (current : List α) (row column : ℕ) :
    rolled height (page ++ [current]) row column =
      (if page.length % height = row then current[column]? else none).or (rolled height page row column) := by
  unfold rolled
  rw [List.zipIdx_append, List.filterMap_append, List.getLast?_append]
  simp only [List.zipIdx_singleton, Nat.zero_add, List.filterMap_cons, List.filterMap_nil]
  cases (if page.length % height = row then current[column]? else none) with
  | none => rfl
  | some a => rfl

/-- A line that was begun shows nothing yet. -/
lemma rolled_break (page : List (List α)) (row column : ℕ) :
    rolled height (page ++ [[]]) row column = rolled height page row column := by
  rw [rolled_snoc]
  simp

/-- A character is shown at its place, and changes no other place. -/
lemma rolled_put (page : List (List α)) (current : List α) (a : α) (row column : ℕ) :
    rolled height (page ++ [current ++ [a]]) row column =
      if row = page.length % height ∧ column = current.length then some a
      else rolled height (page ++ [current]) row column := by
  rw [rolled_snoc, rolled_snoc]
  by_cases hrow : page.length % height = row
  · rw [if_pos hrow, if_pos hrow]
    by_cases hcolumn : column = current.length
    · rw [if_pos ⟨hrow.symm, hcolumn⟩, hcolumn]
      simp
    · rw [if_neg fun h => hcolumn h.2]
      have hsame : (current ++ [a])[column]? = current[column]? := by
        rcases Nat.lt_or_ge column current.length with hlt | hge
        · rw [List.getElem?_append_left hlt]
        · rw [List.getElem?_eq_none (by simp; omega), List.getElem?_eq_none hge]
      rw [hsame]
  · rw [if_neg hrow, if_neg hrow, if_neg fun h => hrow h.1.symm]

/-- A row is not touched by lines of other rows. -/
lemma rolled_append_of_ne (page : List (List α)) {more : List (List α)} {row : ℕ} (column : ℕ)
    (h : ∀ k < more.length, (page.length + k) % height ≠ row) :
    rolled height (page ++ more) row column = rolled height page row column := by
  induction more using List.reverseRecOn with
  | nil => rw [List.append_nil]
  | append_singleton more current ih =>
      rw [List.length_append, List.length_singleton] at h
      have hlast := h more.length (by omega)
      rw [← List.append_assoc, rolled_snoc, List.length_append, if_neg hlast, Option.none_or]
      exact ih fun k hk => h k (by omega)

/-- **The newest lines are shown in full**: as many as there are rows. -/
theorem rolled_recent {page : List (List α)} {n column : ℕ} (hn : n < page.length)
    (hrecent : page.length ≤ n + height) (hcolumn : column < page[n].length) :
    rolled height page (n % height) column = some page[n][column] := by
  have hsplit : page = (page.take n ++ [page[n]]) ++ page.drop (n + 1) := by
    rw [List.append_assoc, List.singleton_append, List.getElem_cons_drop, List.take_append_drop]
  have htake : (page.take n).length = n := by
    rw [List.length_take]
    omega
  conv_lhs => rw [hsplit]
  rw [rolled_append_of_ne, rolled_snoc, htake, if_pos rfl, List.getElem?_eq_getElem hcolumn]
  · rfl
  · intro k hk heq
    rw [List.length_append, htake, List.length_singleton] at heq
    rw [List.length_drop] at hk
    -- fewer than `height` lines follow
    have hdvd := (Nat.modEq_iff_dvd' (show n ≤ n + 1 + k by omega)).mp heq.symm
    have hle := Nat.le_of_dvd (by omega) hdvd
    omega

end TextPage
