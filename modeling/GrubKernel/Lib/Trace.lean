import Mathlib.Data.List.Basic

/-!
# Events in order

A trace is the list of the events of a run, the oldest first.  A run that waits for something does one
kind of event only after another kind.

* `OnlyAfter` — no event of the second kind comes before the first event of the first kind.
* `onlyAfter_cons`, `onlyAfter_append` — one event, or a part of a run, at a time.
-/

namespace Trace

variable {ε : Type*} {P Q : ε → Prop}

/-- Before each event of the second kind there is one of the first kind. -/
def OnlyAfter (P Q : ε → Prop) (trace : List ε) : Prop :=
  ∀ before e after, trace = before ++ e :: after → Q e → ∃ e' ∈ before, P e'

lemma onlyAfter_nil : OnlyAfter P Q [] := by
  intro before e after h
  cases before <;> cases h

lemma onlyAfter_cons (e : ε) (trace : List ε) :
    OnlyAfter P Q (e :: trace) ↔ ¬ Q e ∧ (P e ∨ OnlyAfter P Q trace) := by
  constructor
  · intro h
    refine ⟨?_, ?_⟩
    · intro hQ
      obtain ⟨e', hmem, -⟩ := h [] e trace rfl hQ
      cases hmem
    · by_cases hP : P e
      · exact Or.inl hP
      · refine Or.inr fun before e₁ after htrace hQ => ?_
        obtain ⟨e', hmem, hP'⟩ := h (e :: before) e₁ after (by rw [htrace, List.cons_append]) hQ
        rcases List.mem_cons.mp hmem with rfl | hmem
        · exact absurd hP' hP
        · exact ⟨e', hmem, hP'⟩
  · rintro ⟨hQ, h⟩ before e₁ after htrace hQ₁
    cases before with
    | nil =>
      obtain ⟨rfl, -⟩ := List.cons.inj htrace
      exact absurd hQ₁ hQ
    | cons e₂ before =>
      obtain ⟨rfl, hrest⟩ := List.cons.inj htrace
      rcases h with hP | h
      · exact ⟨e, List.mem_cons_self, hP⟩
      · obtain ⟨e', hmem, hP'⟩ := h before e₁ after hrest hQ₁
        exact ⟨e', List.mem_cons_of_mem e hmem, hP'⟩

/-- A run in two parts. -/
lemma onlyAfter_append (s t : List ε) :
    OnlyAfter P Q (s ++ t) ↔ OnlyAfter P Q s ∧ ((∃ e ∈ s, P e) ∨ OnlyAfter P Q t) := by
  induction s with
  | nil => simp [onlyAfter_nil]
  | cons e s ih =>
    rw [List.cons_append, onlyAfter_cons, ih, onlyAfter_cons, List.exists_mem_cons_iff]
    by_cases hP : P e
    · simp [hP]
    · simp [hP, and_assoc]

/-- A part of a run without events of the second kind. -/
lemma OnlyAfter.of_forall_not {trace : List ε} (h : ∀ e ∈ trace, ¬ Q e) : OnlyAfter P Q trace := by
  intro before e after htrace hQ
  refine absurd hQ (h e ?_)
  rw [htrace]
  exact List.mem_append_right before List.mem_cons_self

/-- A part of a run without events of either kind makes no difference. -/
lemma onlyAfter_append_of_forall_not {s t : List ε} (hP : ∀ e ∈ s, ¬ P e) (hQ : ∀ e ∈ s, ¬ Q e) :
    OnlyAfter P Q (s ++ t) ↔ OnlyAfter P Q t := by
  have hnone : ¬ ∃ e ∈ s, P e := by
    rintro ⟨e, hmem, he⟩
    exact hP e hmem he
  rw [onlyAfter_append, and_iff_right (OnlyAfter.of_forall_not hQ), or_iff_right hnone]

end Trace
