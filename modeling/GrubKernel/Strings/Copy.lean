import GrubKernel.Lib.CString
import GrubKernel.Lib.Fuel

/-!
# Copying and concatenating strings

`k_strcpy` and `k_strcat` share a loop that tests the source for NUL after it has moved on: the NUL is not
copied, and of an empty source it is copied and the byte behind it is tested.  The loop with which `k_strcat`
looks for the end of the destination assigns `*dest = *dest++`, where C does not say whether the store goes
through the pointer before or after the increment.

* `StoreOrder` — the two readings of that assignment.
* `copyLoop`, `scanLoop`, `kStrcpy`, `kStrcat` — the functions.
* `Apart` — two strings in memory and a destination with room for both.
* `CopiesAndConcats` — what the comments say about the two calls, one after the other.
* **`copiesAndConcats_iff`** — when they do it.
-/

namespace GrubKernel

open CString Fuel

/-! ## The functions -/

/-- Memory and the two pointers. -/
structure Copying where
  mem : ℕ → UInt8
  dest : ℕ
  src : ℕ

/-- The loop `do { *dest++ = *src++; } while (*src != 0)`.  The last byte of the source that it reads is the
one that ends it. -/
def copyLoop : ℕ → Copying → Option Copying
  | 0, _ => none
  | fuel + 1, s =>
      let s : Copying := ⟨Function.update s.mem s.dest (s.mem s.src), s.dest + 1, s.src + 1⟩
      if s.mem s.src ≠ 0 then copyLoop fuel s else some s

/-- `k_strcpy`. -/
def kStrcpy (mem : ℕ → UInt8) (dest src fuel : ℕ) : Option Copying := copyLoop fuel ⟨mem, dest, src⟩

/-- The order of the store and the increment in `*dest = *dest++`.  With `advanceFirst`, which is how gcc
compiles it, the character goes to the next cell. -/
inductive StoreOrder
  | storeFirst
  | advanceFirst

/-- The loop `while (*dest != 0) { *dest = *dest++; }`. -/
def scanLoop (order : StoreOrder) : ℕ → (ℕ → UInt8) → ℕ → Option ((ℕ → UInt8) × ℕ)
  | 0, _, _ => none
  | fuel + 1, mem, dest =>
      if mem dest ≠ 0 then
        match order with
        | .storeFirst => scanLoop order fuel (Function.update mem dest (mem dest)) (dest + 1)
        | .advanceFirst => scanLoop order fuel (Function.update mem (dest + 1) (mem dest)) (dest + 1)
      else some (mem, dest)

/-- `k_strcat`. -/
def kStrcat (order : StoreOrder) (mem : ℕ → UInt8) (dest src fuel : ℕ) : Option Copying :=
  (scanLoop order fuel mem dest).bind fun r => copyLoop fuel ⟨r.1, r.2, src⟩

/-! ## What the comments say -/

/-- Two strings in memory, apart from a destination with room for both and a NUL. -/
structure Apart (mem : ℕ → UInt8) (dest src₁ src₂ : ℕ) (s t : List UInt8) : Prop where
  first : IsCString (fun i => mem (src₁ + i)) s
  second : IsCString (fun i => mem (src₂ + i)) t
  firstApart : src₁ + s.length < dest ∨ dest + s.length + t.length < src₁
  secondApart : src₂ + t.length < dest ∨ dest + s.length + t.length < src₂

/-- A call leaves a string at the destination, and reads no byte of its source behind the NUL. -/
def Leaves (r : Copying) (dest : ℕ) (s : List UInt8) (stop : ℕ) : Prop :=
  IsCString (fun i => r.mem (dest + i)) s ∧ r.src ≤ stop

/-- `k_strcpy` copies the first string, and then `k_strcat` appends the second one. -/
def CopiesAndConcats (order : StoreOrder) (mem : ℕ → UInt8) (dest src₁ src₂ : ℕ) (s t : List UInt8) :
    Prop :=
  ∃ u, Returns (kStrcpy mem dest src₁) u ∧ Leaves u dest s (src₁ + s.length) ∧
    ∃ v, Returns (kStrcat order u.mem dest src₂) v ∧ Leaves v dest (s ++ t) (src₂ + t.length)

/-! ## The loops -/

/-- One round. -/
lemma copyLoop_succ (fuel : ℕ) (mem : ℕ → UInt8) (dest src : ℕ) :
    copyLoop (fuel + 1) ⟨mem, dest, src⟩ =
      if Function.update mem dest (mem src) (src + 1) ≠ 0 then
        copyLoop fuel ⟨Function.update mem dest (mem src), dest + 1, src + 1⟩
      else some ⟨Function.update mem dest (mem src), dest + 1, src + 1⟩ := rfl

/-- The loop reads on behind the first byte. -/
lemma copyLoop_src {r : Copying} (fuel : ℕ) : ∀ {mem : ℕ → UInt8} {dest src : ℕ},
    copyLoop fuel ⟨mem, dest, src⟩ = some r → src < r.src := by
  induction fuel with
  | zero =>
      intro mem dest src h
      exact absurd h.symm (Option.some_ne_none r)
  | succ fuel ih =>
      intro mem dest src h
      rw [copyLoop_succ] at h
      split_ifs at h with hnul
      · exact (Nat.lt_succ_self _).trans (ih h)
      · obtain rfl := Option.some_inj.mp h
        exact Nat.lt_succ_self _

/-- **Copying a string that is not empty.** -/
lemma copyLoop_returns {s : List UInt8} : ∀ {mem : ℕ → UInt8} {dest src : ℕ} (c : UInt8),
    IsCString (fun i => mem (src + i)) (c :: s) → src + s.length + 1 < dest ∨ dest + s.length < src →
    Returns (fun fuel => copyLoop fuel ⟨mem, dest, src⟩)
      ⟨storeAll dest (c :: s) mem, dest + s.length + 1, src + s.length + 1⟩ := by
  induction s with
  | nil =>
      intro mem dest src c h hapart
      obtain ⟨-, hhead, htail⟩ := isCString_from_cons.mp h
      have hnul : mem (src + 1) = 0 := isCString_nil.mp htail
      rw [List.length_nil] at hapart ⊢
      refine Returns.of_le 1 fun fuel hfuel => ?_
      obtain ⟨fuel, rfl⟩ : ∃ f, fuel = f + 1 := ⟨fuel - 1, by omega⟩
      rw [copyLoop_succ, Function.update_of_ne (by omega), if_neg (not_not.mpr hnul), hhead]
      rfl
  | cons c' s ih =>
      intro mem dest src c h hapart
      obtain ⟨-, hhead, htail⟩ := isCString_from_cons.mp h
      obtain ⟨hc', hnext, -⟩ := isCString_from_cons.mp htail
      rw [List.length_cons] at hapart ⊢
      -- the byte that is stored is no byte of the source
      have hrest : IsCString (fun i => Function.update mem dest c (src + 1 + i)) (c' :: s) := by
        refine htail.congr fun i hi => ?_
        rw [List.length_cons] at hi
        exact Function.update_of_ne (by omega) _ _
      have hloop := ih c' hrest (show src + 1 + s.length + 1 < dest + 1 ∨ dest + 1 + s.length < src + 1 by
        omega)
      have hend : dest + (s.length + 1) + 1 = dest + 1 + s.length + 1 := by omega
      have hend' : src + (s.length + 1) + 1 = src + 1 + s.length + 1 := by omega
      rw [← returns_succ, hend, hend']
      refine (returns_congr (Filter.Eventually.of_forall fun fuel => ?_)).mpr hloop
      rw [copyLoop_succ, Function.update_of_ne (by omega), hnext, if_pos hc', hhead]

/-- A store through the old pointer changes nothing, and the loop finds the end. -/
lemma scanLoop_storeFirst {mem : ℕ → UInt8} {s : List UInt8} : ∀ {dest : ℕ},
    IsCString (fun i => mem (dest + i)) s →
    Returns (fun fuel => scanLoop .storeFirst fuel mem dest) (mem, dest + s.length) := by
  induction s with
  | nil =>
      intro dest h
      have hnul : mem dest = 0 := isCString_nil.mp h
      refine Returns.of_le 1 fun fuel hfuel => ?_
      obtain ⟨fuel, rfl⟩ : ∃ f, fuel = f + 1 := ⟨fuel - 1, by omega⟩
      rw [scanLoop, if_neg (not_not.mpr hnul)]
      rfl
  | cons c s ih =>
      intro dest h
      obtain ⟨hc, hhead, htail⟩ := isCString_from_cons.mp h
      have hend : dest + (s.length + 1) = dest + 1 + s.length := by omega
      rw [← returns_succ, List.length_cons, hend]
      refine (returns_congr (Filter.Eventually.of_forall fun fuel => ?_)).mpr (ih htail)
      rw [scanLoop, if_pos (by rwa [hhead]), Function.update_eq_self]

/-- A store through the new pointer carries the character along, and the loop never ends. -/
lemma scanLoop_advanceFirst (fuel : ℕ) : ∀ {mem : ℕ → UInt8} {dest : ℕ}, mem dest ≠ 0 →
    scanLoop .advanceFirst fuel mem dest = none := by
  induction fuel with
  | zero =>
      intro mem dest _
      rfl
  | succ fuel ih =>
      intro mem dest h
      rw [scanLoop, if_pos h]
      refine ih ?_
      rwa [Function.update_self]

/-! ## The calls -/

section Calls

variable {mem : ℕ → UInt8} {dest src : ℕ} {s : List UInt8} {r : Copying}

/-- A call that leaves the source alone behind its NUL has a source that is not empty. -/
lemma ne_nil_of_leaves (h : Returns (fun fuel => copyLoop fuel ⟨mem, dest, src⟩) r)
    (hstop : r.src ≤ src + s.length) : s ≠ [] := by
  rintro rfl
  obtain ⟨fuel, hsome⟩ := h.exists
  exact absurd (copyLoop_src fuel hsome) (Nat.not_lt.mpr hstop)

/-- The loop of both functions, with a source that is not empty. -/
lemma copyLoop_eq (hs : s ≠ []) (h : IsCString (fun i => mem (src + i)) s)
    (hapart : src + s.length < dest ∨ dest + s.length ≤ src) :
    Returns (fun fuel => copyLoop fuel ⟨mem, dest, src⟩)
      ⟨storeAll dest s mem, dest + s.length, src + s.length⟩ := by
  cases s with
  | nil => exact absurd rfl hs
  | cons c s =>
      rw [List.length_cons] at hapart
      exact copyLoop_returns c h (by omega)

/-- `k_strcat` behind a string, if the store comes first, is the copying loop at the end of the string. -/
lemma kStrcat_storeFirst (h : IsCString (fun i => mem (dest + i)) s) :
    Returns (kStrcat .storeFirst mem dest src) r ↔
      Returns (fun fuel => copyLoop fuel ⟨mem, dest + s.length, src⟩) r := by
  refine returns_congr ?_
  filter_upwards [scanLoop_storeFirst h] with fuel hfound
  rw [kStrcat, hfound, Option.bind_some]

/-- Otherwise it does not return. -/
lemma kStrcat_advanceFirst (hs : s ≠ []) (h : IsCString (fun i => mem (dest + i)) s) :
    ¬ Returns (kStrcat .advanceFirst mem dest src) r := by
  intro hreturns
  obtain ⟨fuel, hsome⟩ := hreturns.exists
  obtain ⟨c, s, rfl⟩ := List.exists_cons_of_ne_nil hs
  obtain ⟨hc, hhead, -⟩ := isCString_from_cons.mp h
  rw [kStrcat, scanLoop_advanceFirst fuel (by rwa [hhead])] at hsome
  exact absurd hsome.symm (Option.some_ne_none r)

end Calls

/-- **When `k_strcpy` and `k_strcat` copy and append.**  For all strings and every content of the
destination: both calls leave what the comments say and read no byte behind the NUL of their source iff the
store of `*dest = *dest++` comes before the increment, neither string is empty, and the destination held NUL
already at the two places where the strings end. -/
theorem copiesAndConcats_iff (order : StoreOrder) {mem : ℕ → UInt8} {dest src₁ src₂ : ℕ} {s t : List UInt8}
    (h : Apart mem dest src₁ src₂ s t) :
    CopiesAndConcats order mem dest src₁ src₂ s t ↔
      order = .storeFirst ∧ s ≠ [] ∧ t ≠ [] ∧ mem (dest + s.length) = 0 ∧
        mem (dest + s.length + t.length) = 0 := by
  have hfirst := h.firstApart
  have hsecond := h.secondApart
  -- the second source after the first call
  have ht : IsCString (fun i => storeAll dest s mem (src₂ + i)) t :=
    h.second.congr fun i hi => storeAll_off s mem (by omega)
  have hnul : (0 : UInt8) ∉ s ++ t := by
    rw [List.mem_append, not_or]
    exact ⟨h.first.noNul, h.second.noNul⟩
  constructor
  · rintro ⟨u, hcpy, ⟨hu, hustop⟩, v, hcat, ⟨hv, hvstop⟩⟩
    have hs : s ≠ [] := ne_nil_of_leaves hcpy hustop
    obtain rfl := hcpy.unique (copyLoop_eq hs h.first (by omega))
    dsimp only at hu hcat
    have hnuls := (isCString_storeAll_iff h.first.noNul dest mem).mp hu
    cases order with
    | advanceFirst => exact absurd hcat (kStrcat_advanceFirst hs hu)
    | storeFirst =>
        have hloop := (kStrcat_storeFirst hu).mp hcat
        have htne : t ≠ [] := ne_nil_of_leaves hloop hvstop
        obtain rfl := hloop.unique (copyLoop_eq htne ht (by omega))
        dsimp only at hv
        rw [← storeAll_append, isCString_storeAll_iff hnul, List.length_append, ← Nat.add_assoc] at hv
        exact ⟨rfl, hs, htne, hnuls, hv⟩
  · rintro ⟨rfl, hs, htne, hnuls, hnult⟩
    have hu := (isCString_storeAll_iff h.first.noNul dest mem).mpr hnuls
    refine ⟨_, copyLoop_eq hs h.first (by omega), ⟨hu, le_rfl⟩, _,
      (kStrcat_storeFirst hu).mpr (copyLoop_eq htne ht (by omega)), ?_, le_rfl⟩
    show IsCString (fun i => storeAll (dest + s.length) t (storeAll dest s mem) (dest + i)) (s ++ t)
    rw [← storeAll_append, isCString_storeAll_iff hnul, List.length_append, ← Nat.add_assoc]
    exact hnult

/-- The bytes of `"a"` and `"b"` at the addresses `0` and `2`, with one value in all other cells. -/
def twoStrings (stale : UInt8) (i : ℕ) : UInt8 := [97, 0, 98, 0].getD i stale

lemma apart_twoStrings (stale : UInt8) : Apart (twoStrings stale) 16 0 2 [97] [98] where
  first := isCString_cons.mpr ⟨by decide, rfl, isCString_nil.mpr rfl⟩
  second := isCString_cons.mpr ⟨by decide, rfl, isCString_nil.mpr rfl⟩
  firstApart := by decide
  secondApart := by decide

/-- Over zeros the missing NUL cannot be seen. -/
theorem copiesAndConcats_zeros : CopiesAndConcats .storeFirst (twoStrings 0) 16 0 2 [97] [98] :=
  (copiesAndConcats_iff .storeFirst (apart_twoStrings 0)).mpr
    ⟨rfl, by decide, by decide, by decide, by decide⟩

/-- Over other bytes the copy of `"a"` has no end. -/
theorem not_copiesAndConcats : ¬ CopiesAndConcats .storeFirst (twoStrings 0xFF) 16 0 2 [97] [98] := by
  rintro ⟨u, hcpy, ⟨hu, -⟩, -⟩
  obtain rfl := hcpy.unique (copyLoop_eq (by decide) (apart_twoStrings 0xFF).first (by decide))
  exact absurd hu.nul (by decide)

end GrubKernel
