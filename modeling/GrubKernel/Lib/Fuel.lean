import Mathlib.Order.Filter.AtTopBot.Basic

/-!
# Enough fuel

A function whose loops take fuel returns a result if it gives that result for every fuel from some bound
on.

* `Returns` — the result with enough fuel; `Returns.unique` — there is at most one.
* `returns_succ` — one unit of fuel more or less makes no difference.
* `Returns.map`, `Returns.bind` — calls one after the other, with the same fuel.
-/

namespace Fuel

open Filter

variable {α β : Type*}

/-- With enough fuel, the result is `a`. -/
def Returns (f : ℕ → Option α) (a : α) : Prop := ∀ᶠ fuel in atTop, f fuel = some a

lemma Returns.of_le {f : ℕ → Option α} {a : α} (bound : ℕ) (h : ∀ fuel, bound ≤ fuel → f fuel = some a) :
    Returns f a := eventually_atTop.mpr ⟨bound, h⟩

lemma Returns.unique {f : ℕ → Option α} {a b : α} (ha : Returns f a) (hb : Returns f b) : a = b := by
  obtain ⟨fuel, hfa, hfb⟩ := (Eventually.and ha hb).exists
  exact Option.some_inj.mp (hfa.symm.trans hfb)

lemma returns_succ {f : ℕ → Option α} {a : α} : Returns (fun fuel => f (fuel + 1)) a ↔ Returns f a := by
  have hshift : map (fun fuel : ℕ => fuel + 1) atTop = atTop := map_add_atTop_eq_nat 1
  constructor
  · intro h
    show ∀ᶠ fuel in atTop, f fuel = some a
    rw [← hshift, eventually_map]
    exact h
  · intro h
    exact (tendsto_add_atTop_nat 1).eventually h

/-- Two functions that agree with enough fuel return the same. -/
lemma returns_congr {f g : ℕ → Option α} {a : α} (h : ∀ᶠ fuel in atTop, f fuel = g fuel) :
    Returns f a ↔ Returns g a := by
  constructor
  · intro hf
    filter_upwards [h, hf] with fuel heq hsome
    exact heq.symm.trans hsome
  · intro hg
    filter_upwards [h, hg] with fuel heq hsome
    exact heq.trans hsome

lemma Returns.map {f : ℕ → Option α} {a : α} (h : Returns f a) (g : α → β) :
    Returns (fun fuel => (f fuel).map g) (g a) := by
  filter_upwards [h] with fuel hsome
  rw [hsome, Option.map_some]

lemma Returns.bind {f : ℕ → Option α} {a : α} {g : ℕ → α → Option β} {b : β} (h : Returns f a)
    (hg : Returns (fun fuel => g fuel a) b) : Returns (fun fuel => (f fuel).bind (g fuel)) b := by
  filter_upwards [h, hg] with fuel hsome hnext
  rw [hsome, Option.bind_some, hnext]

end Fuel
