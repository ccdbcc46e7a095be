import Mathlib.Logic.Function.Basic
import Mathlib.Tactic

/-!
# Counting loops

The loop `for (i = 0; i < n; i++)` over a state, and over a state with failure, with the invariant rule
for each.

* `forLoop`, `forLoopM` — the loops; `forLoop_mul` unfolds one loop into two nested ones.
* **`forLoop_inv`, `forLoopM_inv`** — a property of the index and the state that one round carries on
  holds at the end; **`forLoop_sim`** — so does a relation between two loops.
* `fill` — the loop that writes one cell of a memory in each round; `fill_at`, `fill_off` read the
  memory after it.
-/

namespace Loop

variable {σ : Type*}

/-- `for (i = 0; i < n; i++) body i`. -/
def forLoop : ℕ → (ℕ → σ → σ) → σ → σ
  | 0, _, s => s
  | n + 1, body, s => body n (forLoop n body s)

@[simp] lemma forLoop_zero (body : ℕ → σ → σ) (s : σ) : forLoop 0 body s = s := rfl

lemma forLoop_succ (n : ℕ) (body : ℕ → σ → σ) (s : σ) :
    forLoop (n + 1) body s = body n (forLoop n body s) := rfl

/-- **The invariant rule.** -/
theorem forLoop_inv {body : ℕ → σ → σ} {s : σ} (P : ℕ → σ → Prop) (n : ℕ) (h₀ : P 0 s)
    (hstep : ∀ i < n, ∀ t, P i t → P (i + 1) (body i t)) : P n (forLoop n body s) := by
  induction n with
  | zero => exact h₀
  | succ n ih =>
      have hn := ih fun i hi t => hstep i (by omega) t
      exact hstep n (by omega) _ hn

/-- Only the rounds made matter. -/
lemma forLoop_congr {n : ℕ} {body body' : ℕ → σ → σ} (h : ∀ i < n, body i = body' i) (s : σ) :
    forLoop n body s = forLoop n body' s := by
  induction n with
  | zero => rfl
  | succ n ih => rw [forLoop_succ, forLoop_succ, ih fun i hi => h i (by omega), h n (by omega)]

/-- **The simulation rule.**  Two loops whose rounds keep their states related. -/
theorem forLoop_sim {τ : Type*} {body : ℕ → σ → σ} {body' : ℕ → τ → τ} {s : σ} {t : τ}
    (R : σ → τ → Prop) (n : ℕ) (h₀ : R s t)
    (hstep : ∀ i < n, ∀ u w, R u w → R (body i u) (body' i w)) :
    R (forLoop n body s) (forLoop n body' t) := by
  induction n with
  | zero => exact h₀
  | succ n ih =>
      have hn := ih fun i hi => hstep i (by omega)
      exact hstep n (by omega) _ _ hn

lemma forLoop_add (a b : ℕ) (body : ℕ → σ → σ) (s : σ) :
    forLoop (a + b) body s = forLoop b (fun i => body (a + i)) (forLoop a body s) := by
  induction b with
  | zero => rfl
  | succ b ih =>
      show body (a + b) (forLoop (a + b) body s) = _
      rw [ih]
      rfl

/-- Nested loops are one loop. -/
lemma forLoop_mul (a b : ℕ) (body : ℕ → σ → σ) (s : σ) :
    forLoop (a * b) body s = forLoop a (fun i => forLoop b fun j => body (i * b + j)) s := by
  induction a with
  | zero => rw [Nat.zero_mul, forLoop_zero, forLoop_zero]
  | succ a ih => rw [Nat.succ_mul, forLoop_add, ih, forLoop_succ]

/-- `for (i = 0; i < n; i++) body i`, where a round may fail. -/
def forLoopM : ℕ → (ℕ → σ → Option σ) → σ → Option σ
  | 0, _, s => some s
  | n + 1, body, s => (forLoopM n body s).bind (body n)

/-- **The invariant rule for a loop whose rounds do not fail under the invariant.** -/
theorem forLoopM_inv {body : ℕ → σ → Option σ} {s : σ} (P : ℕ → σ → Prop) (n : ℕ) (h₀ : P 0 s)
    (hstep : ∀ i < n, ∀ t, P i t → ∃ u, body i t = some u ∧ P (i + 1) u) :
    ∃ t, forLoopM n body s = some t ∧ P n t := by
  induction n with
  | zero => exact ⟨s, rfl, h₀⟩
  | succ n ih =>
      obtain ⟨t, ht, hPt⟩ := ih fun i hi t => hstep i (by omega) t
      obtain ⟨u, hu, hPu⟩ := hstep n (by omega) t hPt
      refine ⟨u, ?_, hPu⟩
      rw [forLoopM, ht, Option.bind_some, hu]

/-- **The invariant rule for a loop that did not fail.** -/
theorem forLoopM_keeps {body : ℕ → σ → Option σ} {s t : σ} (P : σ → Prop) {n : ℕ}
    (h : forLoopM n body s = some t) (h₀ : P s)
    (hstep : ∀ i u w, P u → body i u = some w → P w) : P t := by
  induction n generalizing t with
  | zero =>
      obtain rfl := Option.some_inj.mp h
      exact h₀
  | succ n ih =>
      obtain ⟨u, hu, ht⟩ := Option.bind_eq_some_iff.mp h
      exact hstep n u t (ih hu) ht

/-! ## Filling cells -/

variable {ι β : Type*} [DecidableEq ι]

/-- Write the value `g i` to the cell `f i` in round `i`. -/
def fill (n : ℕ) (f : ℕ → ι) (g : ℕ → β) (m : ι → β) : ι → β :=
  forLoop n (fun i m => Function.update m (f i) (g i)) m

/-- Only the cells and values of the rounds made matter. -/
lemma fill_congr {n : ℕ} {f f' : ℕ → ι} {g g' : ℕ → β} (m : ι → β) (hf : ∀ i < n, f i = f' i)
    (hg : ∀ i < n, g i = g' i) : fill n f g m = fill n f' g' m := by
  induction n with
  | zero => rfl
  | succ n ih =>
      show Function.update (fill n f g m) (f n) (g n) = Function.update (fill n f' g' m) (f' n) (g' n)
      rw [ih (fun i hi => hf i (by omega)) (fun i hi => hg i (by omega)), hf n (by omega),
        hg n (by omega)]

/-- A cell that no round writes. -/
lemma fill_off {n : ℕ} {f : ℕ → ι} {g : ℕ → β} {m : ι → β} {x : ι} (h : ∀ i < n, f i ≠ x) :
    fill n f g m x = m x := by
  refine forLoop_inv (fun _ (m' : ι → β) => m' x = m x) n rfl fun i hi t ht => ?_
  rw [Function.update_of_ne (h i hi).symm, ht]

/-- A cell that one round writes. -/
lemma fill_at {n : ℕ} {f : ℕ → ι} {g : ℕ → β} {m : ι → β} {k : ℕ} (hk : k < n)
    (hinj : ∀ i < n, f i = f k → i = k) : fill n f g m (f k) = g k := by
  have h : k < n → fill n f g m (f k) = g k := by
    refine forLoop_inv (fun i (m' : ι → β) => k < i → m' (f k) = g k) n
      (fun h => absurd h (Nat.not_lt_zero k)) fun i hi t ht hki => ?_
    rcases Nat.lt_succ_iff_lt_or_eq.mp hki with hlt | rfl
    · have hne : f k ≠ f i := fun heq => hlt.ne' (hinj i hi heq.symm)
      rw [Function.update_of_ne hne]
      exact ht hlt
    · exact Function.update_self _ _ _
  exact h hk

end Loop
