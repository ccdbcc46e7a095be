import Mathlib.Data.List.GetD
import Mathlib.Tactic

/-!
# Little-endian words in a byte memory

A 32-bit address space of bytes, the words that a little-endian machine reads from it, and byte
strings that lie in it.

* `load32`, `bytes32` — the word at an address, and the four bytes of a word.
* `Holds` — the memory holds a byte string from an address on; it splits along `++`
  (`holds_append`).
* **`load32_of_holds`** — reading back the `k`-th word of a record of words.
-/

namespace ByteMemory

/-- The little-endian word at an address; the address arithmetic wraps. -/
def load32 (mem : UInt32 → UInt8) (a : UInt32) : UInt32 :=
  UInt32.ofNat ((mem a).toNat + 2 ^ 8 * (mem (a + 1)).toNat + 2 ^ 16 * (mem (a + 2)).toNat
    + 2 ^ 24 * (mem (a + 3)).toNat)

/-- The bytes of a word, lowest first. -/
def bytes32 (x : UInt32) : List UInt8 :=
  [UInt8.ofNat x.toNat, UInt8.ofNat (x.toNat / 2 ^ 8), UInt8.ofNat (x.toNat / 2 ^ 16),
    UInt8.ofNat (x.toNat / 2 ^ 24)]

@[simp] lemma length_bytes32 (x : UInt32) : (bytes32 x).length = 4 := rfl

/-- The bytes of a record of words. -/
def words (ws : List UInt32) : List UInt8 := ws.flatMap bytes32

@[simp] lemma length_words (ws : List UInt32) : (words ws).length = 4 * ws.length := by
  induction ws with
  | nil => rfl
  | cons w ws ih =>
      show (bytes32 w ++ words ws).length = _
      rw [List.length_append, ih, length_bytes32, List.length_cons]
      omega

/-- The memory holds the byte string from address `a` on. -/
def Holds (mem : UInt32 → UInt8) (a : ℕ) (bytes : List UInt8) : Prop :=
  ∀ i (h : i < bytes.length), mem (UInt32.ofNat (a + i)) = bytes[i]

lemma holds_append {mem : UInt32 → UInt8} {a : ℕ} {l₁ l₂ : List UInt8} :
    Holds mem a (l₁ ++ l₂) ↔ Holds mem a l₁ ∧ Holds mem (a + l₁.length) l₂ := by
  constructor
  · intro h
    refine ⟨fun i hi => ?_, fun i hi => ?_⟩
    · have hget := h i (by rw [List.length_append]; omega)
      rwa [List.getElem_append_left hi] at hget
    · have hget := h (l₁.length + i) (by rw [List.length_append]; omega)
      rw [List.getElem_append_right (by omega)] at hget
      simpa [Nat.add_assoc] using hget
  · rintro ⟨h₁, h₂⟩ i hi
    rw [List.length_append] at hi
    rcases Nat.lt_or_ge i l₁.length with hlt | hge
    · rw [List.getElem_append_left hlt]
      exact h₁ i hlt
    · rw [List.getElem_append_right hge, ← h₂ (i - l₁.length) (by omega)]
      congr 2
      omega

/-- The memory that holds a byte string from address `a` on, and zeros elsewhere. -/
def memOf (a : ℕ) (bytes : List UInt8) (x : UInt32) : UInt8 :=
  if a ≤ x.toNat then bytes.getD (x.toNat - a) 0 else 0

lemma holds_memOf {a : ℕ} {bytes : List UInt8} (h : a + bytes.length ≤ 2 ^ 32) :
    Holds (memOf a bytes) a bytes := by
  intro i hi
  have hx : (UInt32.ofNat (a + i)).toNat = a + i := by
    rw [UInt32.toNat_ofNat', Nat.mod_eq_of_lt (by omega)]
  rw [memOf, hx, if_pos (Nat.le_add_right a i), Nat.add_sub_cancel_left]
  exact List.getD_eq_getElem bytes 0 hi

/-- The four bytes of a word read back as the word. -/
lemma load32_bytes32 {mem : UInt32 → UInt8} {a : ℕ} {x : UInt32} (h : Holds mem a (bytes32 x)) :
    load32 mem (UInt32.ofNat a) = x := by
  have h₀ : mem (UInt32.ofNat a) = UInt8.ofNat x.toNat := h 0 (by simp)
  have h₁ : mem (UInt32.ofNat a + 1) = UInt8.ofNat (x.toNat / 2 ^ 8) := by
    have := h 1 (by simp)
    rwa [UInt32.ofNat_add] at this
  have h₂ : mem (UInt32.ofNat a + 2) = UInt8.ofNat (x.toNat / 2 ^ 16) := by
    have := h 2 (by simp)
    rwa [UInt32.ofNat_add] at this
  have h₃ : mem (UInt32.ofNat a + 3) = UInt8.ofNat (x.toNat / 2 ^ 24) := by
    have := h 3 (by simp)
    rwa [UInt32.ofNat_add] at this
  have hx := x.toNat_lt
  rw [load32, h₀, h₁, h₂, h₃, ← UInt32.toNat_inj]
  simp only [UInt8.toNat_ofNat', UInt32.toNat_ofNat']
  omega

/-- **Reading back a record of words.** -/
theorem load32_of_holds {mem : UInt32 → UInt8} (ws : List UInt32) : ∀ {a : ℕ},
    Holds mem a (words ws) → ∀ k (h : k < ws.length),
      load32 mem (UInt32.ofNat (a + 4 * k)) = ws[k] := by
  induction ws with
  | nil =>
      intro a _ k hk
      simp at hk
  | cons w ws ih =>
      intro a h k hk
      obtain ⟨hhead, htail⟩ := holds_append.mp (show Holds mem a (bytes32 w ++ words ws) from h)
      cases k with
      | zero => exact load32_bytes32 hhead
      | succ k =>
          have hword := ih htail k (by simpa using hk)
          rw [length_bytes32] at hword
          rw [List.getElem_cons_succ, ← hword]
          congr 2
          omega

end ByteMemory
