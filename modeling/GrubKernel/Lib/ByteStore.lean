import GrubKernel.Lib.ByteMemory

/-!
# Stores to a byte memory

Byte strings written to a 32-bit address space, and a stack of words that grows down in it.  All
address arithmetic wraps, so an interval is given by its start and its length, and a byte `x` lies in
it iff `(x - a).toNat` is below the length.

* `storeBytes`, `store16`, `store32` — a store replaces the bytes of an interval.
* `Separate` — two intervals without a common byte; a window on one does not see a store to the other.
* `Stacked` — the words that lie from an address on; `Stacked.push` is a push.
-/

namespace ByteMemory

/-- The memory after a store of a byte string from address `a` on. -/
def storeBytes (mem : UInt32 → UInt8) (a : UInt32) (bytes : List UInt8) (x : UInt32) : UInt8 :=
  bytes.getD (x - a).toNat (mem x)

/-- The bytes of a 16-bit word, lowest first. -/
def bytes16 (x : UInt16) : List UInt8 := [UInt8.ofNat x.toNat, UInt8.ofNat (x.toNat / 2 ^ 8)]

/-- A 16-bit store. -/
def store16 (mem : UInt32 → UInt8) (a : UInt32) (x : UInt16) : UInt32 → UInt8 :=
  storeBytes mem a (bytes16 x)

/-- A 32-bit store. -/
def store32 (mem : UInt32 → UInt8) (a : UInt32) (x : UInt32) : UInt32 → UInt8 :=
  storeBytes mem a (bytes32 x)

/-- The little-endian 16-bit word at an address. -/
def load16 (mem : UInt32 → UInt8) (a : UInt32) : UInt16 :=
  UInt16.ofNat ((mem a).toNat + 2 ^ 8 * (mem (a + 1)).toNat)

variable {mem : UInt32 → UInt8} {a b x : UInt32} {bytes : List UInt8}

/-! ## Intervals -/

/-- Stepping `i` bytes into an interval. -/
lemma toNat_add_sub {i : ℕ} (h : i < 2 ^ 32) : (a + UInt32.ofNat i - a).toNat = i := by
  have ha := a.toNat_lt
  rw [UInt32.toNat_sub, UInt32.toNat_add, UInt32.toNat_ofNat']
  omega

/-- A byte lies outside the `n` bytes below `a` iff it does not come within `n` bytes of wrapping around
to `a`. -/
lemma le_sub_sub_iff {n : ℕ} :
    n ≤ (x - (a - UInt32.ofNat n)).toNat ↔ (x - a).toNat + n < 2 ^ 32 := by
  have ha := a.toNat_lt
  have hx := x.toNat_lt
  rw [UInt32.toNat_sub, UInt32.toNat_sub, UInt32.toNat_ofNat', UInt32.toNat_sub]
  omega

/-- Two steps down are one. -/
lemma sub_ofNat_sub (a : UInt32) (m n : ℕ) :
    a - UInt32.ofNat m - UInt32.ofNat n = a - UInt32.ofNat (m + n) := by
  have ha := a.toNat_lt
  rw [← UInt32.toNat_inj, UInt32.toNat_sub, UInt32.toNat_sub, UInt32.toNat_sub, UInt32.toNat_ofNat',
    UInt32.toNat_ofNat', UInt32.toNat_ofNat']
  omega

/-- The intervals of `n` bytes from `a` and of `m` bytes from `b` have no byte in common. -/
def Separate (a : UInt32) (n : ℕ) (b : UInt32) (m : ℕ) : Prop :=
  n ≤ (b - a).toNat ∧ m ≤ (a - b).toNat

instance (a : UInt32) (n : ℕ) (b : UInt32) (m : ℕ) : Decidable (Separate a n b m) :=
  inferInstanceAs (Decidable (_ ∧ _))

lemma Separate.symm {n m : ℕ} (h : Separate a n b m) : Separate b m a n := ⟨h.2, h.1⟩

/-- A byte of one interval is no byte of the other. -/
lemma Separate.le_of_lt {n m : ℕ} (h : Separate a n b m) (hx : (x - a).toNat < n) : m ≤ (x - b).toNat := by
  obtain ⟨h₁, h₂⟩ := h
  have ha := a.toNat_lt
  have hb := b.toNat_lt
  have hxlt := x.toNat_lt
  rw [UInt32.toNat_sub] at h₁ h₂ hx ⊢
  omega

/-- A part of an interval. -/
lemma Separate.part {n m k n' : ℕ} (h : Separate a n b m) (hpos : 0 < n') (hle : k + n' ≤ n) :
    Separate (a + UInt32.ofNat k) n' b m := by
  obtain ⟨h₁, h₂⟩ := h
  have ha := a.toNat_lt
  have hb := b.toNat_lt
  rw [UInt32.toNat_sub] at h₁ h₂
  refine ⟨?_, ?_⟩
  · rw [UInt32.toNat_sub, UInt32.toNat_add, UInt32.toNat_ofNat']
    omega
  · rw [UInt32.toNat_sub, UInt32.toNat_add, UInt32.toNat_ofNat']
    omega

/-- Two entries of a table. -/
lemma separate_entries {size i j : ℕ} (hne : i ≠ j) (hpos : 0 < size) (hi : size * (i + 1) ≤ 2 ^ 32)
    (hj : size * (j + 1) ≤ 2 ^ 32) :
    Separate (a + UInt32.ofNat (size * i)) size (a + UInt32.ofNat (size * j)) size := by
  have ha := a.toNat_lt
  have hsub : ∀ {p q : ℕ}, p < 2 ^ 32 → q < 2 ^ 32 →
      (a + UInt32.ofNat p - (a + UInt32.ofNat q)).toNat = (2 ^ 32 - q + p) % 2 ^ 32 := by
    intro p q hp hq
    rw [UInt32.toNat_sub, UInt32.toNat_add, UInt32.toNat_add, UInt32.toNat_ofNat',
      UInt32.toNat_ofNat']
    omega
  rw [Nat.mul_add, Nat.mul_one] at hi hj
  have hgap : size * i + size ≤ size * j ∨ size * j + size ≤ size * i := by
    rcases Nat.lt_or_gt_of_ne hne with hlt | hgt
    · have := Nat.mul_le_mul_left size hlt
      rw [Nat.succ_eq_add_one, Nat.mul_add, Nat.mul_one] at this
      exact Or.inl this
    · have := Nat.mul_le_mul_left size hgt
      rw [Nat.succ_eq_add_one, Nat.mul_add, Nat.mul_one] at this
      exact Or.inr this
  generalize size * i = p at *
  generalize size * j = q at *
  refine ⟨?_, ?_⟩
  · rw [hsub (by omega) (by omega)]
    omega
  · rw [hsub (by omega) (by omega)]
    omega

/-! ## Loads after a store -/

@[simp] lemma storeBytes_nil : storeBytes mem a [] = mem := rfl

lemma storeBytes_off (h : bytes.length ≤ (x - a).toNat) : storeBytes mem a bytes x = mem x :=
  List.getD_eq_default bytes (mem x) h

lemma storeBytes_on {i : ℕ} (h : i < bytes.length) (hlen : bytes.length ≤ 2 ^ 32) :
    storeBytes mem a bytes (a + UInt32.ofNat i) = bytes[i] := by
  rw [storeBytes, toNat_add_sub (by omega)]
  exact List.getD_eq_getElem bytes _ h

/-- A store of one more byte is a store of that byte afterwards. -/
lemma storeBytes_snoc (h : bytes.length < 2 ^ 32) (v : UInt8) :
    storeBytes mem a (bytes ++ [v])
      = Function.update (storeBytes mem a bytes) (a + UInt32.ofNat bytes.length) v := by
  funext x
  by_cases hx : x = a + UInt32.ofNat bytes.length
  · rw [hx, Function.update_self, storeBytes, toNat_add_sub h,
      List.getD_append_right bytes [v] _ _ le_rfl, Nat.sub_self, List.getD_cons_zero]
  · rw [Function.update_of_ne hx, storeBytes, storeBytes]
    have hne : (x - a).toNat ≠ bytes.length := by
      intro heq
      exact hx (by rw [← heq, UInt32.ofNat_toNat, UInt32.add_comm, UInt32.sub_add_cancel])
    rcases Nat.lt_or_gt_of_ne hne with hlt | hgt
    · exact List.getD_append bytes [v] _ _ hlt
    · rw [List.getD_eq_default bytes _ hgt.le,
        List.getD_eq_default _ _ (by rw [List.length_append]; exact hgt)]

/-- A store leaves its bytes behind. -/
lemma holds_storeBytes (hlen : bytes.length ≤ 2 ^ 32) :
    Holds (storeBytes mem a bytes) a.toNat bytes := by
  intro i hi
  rw [UInt32.ofNat_add, UInt32.ofNat_toNat]
  exact storeBytes_on hi hlen

/-- A load depends on its four bytes only. -/
lemma load32_congr {mem' : UInt32 → UInt8} (h : ∀ x, (x - a).toNat < 4 → mem x = mem' x) :
    load32 mem a = load32 mem' a := by
  have hbyte : ∀ i : ℕ, i < 4 → mem (a + UInt32.ofNat i) = mem' (a + UInt32.ofNat i) := by
    intro i hi
    refine h _ ?_
    rwa [toNat_add_sub (by omega)]
  have h₀ := hbyte 0 (by omega)
  rw [show UInt32.ofNat 0 = 0 from rfl, UInt32.add_zero] at h₀
  have h₁ : mem (a + 1) = mem' (a + 1) := hbyte 1 (by omega)
  have h₂ : mem (a + 2) = mem' (a + 2) := hbyte 2 (by omega)
  have h₃ : mem (a + 3) = mem' (a + 3) := hbyte 3 (by omega)
  rw [load32, load32, h₀, h₁, h₂, h₃]

lemma load32_store32 (mem : UInt32 → UInt8) (a x : UInt32) : load32 (store32 mem a x) a = x := by
  have hx : Holds (store32 mem a x) a.toNat (bytes32 x) := holds_storeBytes (by simp)
  have h := load32_bytes32 hx
  rwa [UInt32.ofNat_toNat] at h

/-! ## Records -/

/-- The `n` bytes from `a` on. -/
def window (mem : UInt32 → UInt8) (a : UInt32) (n : ℕ) : List UInt8 :=
  (List.range n).map fun i => mem (a + UInt32.ofNat i)

@[simp] lemma length_window (mem : UInt32 → UInt8) (a : UInt32) (n : ℕ) :
    (window mem a n).length = n := by
  rw [window, List.length_map, List.length_range]

/-- Storing what is there changes nothing. -/
lemma storeBytes_window (mem : UInt32 → UInt8) (a : UInt32) (n : ℕ) :
    storeBytes mem a (window mem a n) = mem := by
  funext x
  rcases Nat.lt_or_ge (x - a).toNat n with hlt | hge
  · rw [storeBytes, List.getD_eq_getElem _ _ (by rwa [length_window])]
    simp only [window, List.getElem_map, List.getElem_range]
    rw [UInt32.ofNat_toNat, UInt32.add_comm, UInt32.sub_add_cancel]
  · exact storeBytes_off (by rwa [length_window])

/-- The bytes just stored. -/
lemma window_storeBytes (hlen : bytes.length ≤ 2 ^ 32) :
    window (storeBytes mem a bytes) a bytes.length = bytes := by
  refine List.ext_getElem (length_window _ _ _) fun i h₁ h₂ => ?_
  simp only [window, List.getElem_map, List.getElem_range]
  exact storeBytes_on h₂ hlen

/-- A window depends on its bytes only. -/
lemma window_congr {mem' : UInt32 → UInt8} {n : ℕ} (hn : n ≤ 2 ^ 32)
    (h : ∀ x, (x - a).toNat < n → mem x = mem' x) : window mem a n = window mem' a n := by
  refine List.map_congr_left fun i hi => h _ ?_
  have hin := List.mem_range.mp hi
  rwa [toNat_add_sub (by omega)]

/-- A window does not see a store elsewhere. -/
lemma window_storeBytes_off {n : ℕ} (hn : n ≤ 2 ^ 32) (h : Separate b n a bytes.length) :
    window (storeBytes mem a bytes) b n = window mem b n :=
  window_congr hn fun _ hx => storeBytes_off (h.le_of_lt hx)

/-- A word of a window. -/
lemma load32_window (mem : UInt32 → UInt8) (a : UInt32) {n k : ℕ} (hk : k + 4 ≤ n) :
    load32 mem (a + UInt32.ofNat k)
      = UInt32.ofNat (((window mem a n).getD k 0).toNat + 2 ^ 8 * ((window mem a n).getD (k + 1) 0).toNat
        + 2 ^ 16 * ((window mem a n).getD (k + 2) 0).toNat
        + 2 ^ 24 * ((window mem a n).getD (k + 3) 0).toNat) := by
  have hget : ∀ i < n, (window mem a n).getD i 0 = mem (a + UInt32.ofNat i) := by
    intro i hi
    rw [List.getD_eq_getElem _ _ (by rwa [length_window])]
    simp only [window, List.getElem_map, List.getElem_range]
  rw [hget k (by omega), hget (k + 1) (by omega), hget (k + 2) (by omega), hget (k + 3) (by omega),
    UInt32.ofNat_add k 1, UInt32.ofNat_add k 2, UInt32.ofNat_add k 3, ← UInt32.add_assoc,
    ← UInt32.add_assoc, ← UInt32.add_assoc]
  rfl

/-- The first 16-bit word of a window. -/
lemma load16_window (mem : UInt32 → UInt8) (a : UInt32) {n : ℕ} (hn : 2 ≤ n) :
    load16 mem a = UInt16.ofNat (((window mem a n).getD 0 0).toNat
      + 2 ^ 8 * ((window mem a n).getD 1 0).toNat) := by
  have hget : ∀ i < n, (window mem a n).getD i 0 = mem (a + UInt32.ofNat i) := by
    intro i hi
    rw [List.getD_eq_getElem _ _ (by rwa [length_window])]
    simp only [window, List.getElem_map, List.getElem_range]
  rw [hget 0 (by omega), hget 1 (by omega), show UInt32.ofNat 0 = 0 from rfl, UInt32.add_zero]
  rfl

/-- **Overwriting a field of a record.** -/
lemma storeBytes_field {k : ℕ} {field : List UInt8} (hk : k + field.length ≤ bytes.length)
    (hlen : bytes.length ≤ 2 ^ 32) :
    storeBytes (storeBytes mem a bytes) (a + UInt32.ofNat k) field
      = storeBytes mem a (bytes.take k ++ (field ++ bytes.drop (k + field.length))) := by
  funext x
  have hpos : (x - (a + UInt32.ofNat k)).toNat = ((x - a).toNat + 2 ^ 32 - k % 2 ^ 32) % 2 ^ 32 := by
    have h₁ := a.toNat_lt
    have h₂ := x.toNat_lt
    rw [UInt32.toNat_sub, UInt32.toNat_add, UInt32.toNat_ofNat', UInt32.toNat_sub]
    omega
  have hx := (x - a).toNat_lt
  simp only [storeBytes, hpos]
  generalize (x - a).toNat = i at hx
  have htake : (bytes.take k).length = k := by rw [List.length_take]; omega
  rcases Nat.lt_or_ge i k with hlt | hge
  · -- in front of the field
    rw [List.getD_eq_default field _ (by omega), List.getD_append _ _ _ _ (by omega),
      List.getD_eq_getElem bytes _ (by omega), List.getD_eq_getElem _ _ (by omega), List.getElem_take]
  · rw [List.getD_append_right _ _ _ _ (by omega), htake]
    rcases Nat.eq_zero_or_pos field.length with hnil | hpos'
    · rw [List.length_eq_zero_iff] at hnil
      subst hnil
      simp [List.getD_eq_getElem?_getD, Nat.add_sub_cancel' hge]
    · have hi : (i + 2 ^ 32 - k % 2 ^ 32) % 2 ^ 32 = i - k := by omega
      rw [hi]
      rcases Nat.lt_or_ge (i - k) field.length with hin | hout
      · -- in the field
        rw [List.getD_append _ _ _ _ hin, List.getD_eq_getElem field _ hin,
          List.getD_eq_getElem field _ hin]
      · -- behind it
        rw [List.getD_eq_default field _ hout, List.getD_append_right _ _ _ _ hout,
          List.getD_eq_getElem?_getD, List.getD_eq_getElem?_getD, List.getElem?_drop]
        congr 2
        omega

/-- Two stores one behind the other. -/
lemma storeBytes_append {bytes' : List UInt8} (hlen : (bytes ++ bytes').length ≤ 2 ^ 32) :
    storeBytes (storeBytes mem a bytes) (a + UInt32.ofNat bytes.length) bytes'
      = storeBytes mem a (bytes ++ bytes') := by
  induction bytes' using List.reverseRecOn with
  | nil => rw [List.append_nil, storeBytes_nil]
  | append_singleton l v ih =>
      rw [List.length_append, List.length_append, List.length_singleton] at hlen
      rw [storeBytes_snoc (by omega), ih (by rw [List.length_append]; omega), ← List.append_assoc,
        storeBytes_snoc (by rw [List.length_append]; omega), List.length_append, UInt32.ofNat_add,
        UInt32.add_assoc]

/-- The entries of a table: entry `v` holds the bytes `f v`. -/
def Entries (mem : UInt32 → UInt8) (a : UInt32) (size n : ℕ) (f : ℕ → List UInt8) : Prop :=
  ∀ v < n, window mem (a + UInt32.ofNat (size * v)) size = f v

/-- **Setting an entry of a table.** -/
lemma Entries.set {size n : ℕ} {f : ℕ → List UInt8} (h : Entries mem a size n f)
    (hn : size * n ≤ 2 ^ 32) (k : ℕ) (hk : k < n) (record : List UInt8) (hlen : record.length = size) :
    Entries (storeBytes mem (a + UInt32.ofNat (size * k)) record) a size n
      (Function.update f k record) := by
  have hbound : ∀ v < n, size * (v + 1) ≤ 2 ^ 32 :=
    fun v hv => (Nat.mul_le_mul_left size hv).trans hn
  have hsize : size ≤ 2 ^ 32 := (Nat.le_mul_of_pos_right size (Nat.succ_pos k)).trans (hbound k hk)
  intro v hv
  rcases Nat.eq_zero_or_pos size with hzero | hpos
  · subst hzero
    rw [List.length_eq_zero_iff] at hlen
    have hnil : f v = [] := by rw [← h v hv]; rfl
    by_cases hvk : v = k
    · rw [hvk, Function.update_self, hlen]
      rfl
    · rw [Function.update_of_ne hvk, hnil]
      rfl
  · by_cases hvk : v = k
    · rw [hvk, Function.update_self]
      have hself : window (storeBytes mem (a + UInt32.ofNat (size * k)) record)
          (a + UInt32.ofNat (size * k)) record.length = record := window_storeBytes (hlen.trans_le hsize)
      rwa [hlen] at hself
    · rw [Function.update_of_ne hvk, ← h v hv]
      refine window_storeBytes_off hsize ?_
      rw [hlen]
      exact separate_entries hvk hpos (hbound v hv) (hbound k hk)

/-! ## The stack -/

/-- The words `ws` lie in memory from `a` on. -/
def Stacked (mem : UInt32 → UInt8) (a : UInt32) : List UInt32 → Prop
  | [] => True
  | w :: ws => load32 mem a = w ∧ Stacked mem (a + 4) ws

lemma Stacked.of_append {us : List UInt32} : ∀ {a : UInt32} {ws : List UInt32},
    Stacked mem a (ws ++ us) → Stacked mem a ws
  | _, [], _ => trivial
  | _, _ :: _, h => ⟨h.1, Stacked.of_append h.2⟩

/-- The `k`-th word from the top. -/
lemma Stacked.get : ∀ {a : UInt32} {ws : List UInt32}, Stacked mem a ws →
    ∀ k (h : k < ws.length), load32 mem (a + UInt32.ofNat (4 * k)) = ws[k]
  | a, w :: ws, h, 0, _ => by
      rw [Nat.mul_zero, show UInt32.ofNat 0 = 0 from rfl, UInt32.add_zero]
      exact h.1
  | a, w :: ws, h, k + 1, hk => by
      have htail := h.2.get k (by simpa using hk)
      rw [Nat.mul_succ, Nat.add_comm, UInt32.ofNat_add, ← UInt32.add_assoc, List.getElem_cons_succ]
      exact htail

/-- The words depend on their bytes only. -/
lemma Stacked.congr {mem' : UInt32 → UInt8} {ws : List UInt32} (hs : Stacked mem a ws)
    (hlen : 4 * ws.length ≤ 2 ^ 32) (h : ∀ x, (x - a).toNat < 4 * ws.length → mem x = mem' x) :
    Stacked mem' a ws := by
  induction ws generalizing a with
  | nil => trivial
  | cons w ws ih =>
      rw [List.length_cons] at hlen h
      obtain ⟨hw, hws⟩ := hs
      refine ⟨?_, ih hws (by omega) fun x hx => h x ?_⟩
      · rw [← hw]
        exact (load32_congr fun x hx => h x (by omega)).symm
      · have ha := a.toNat_lt
        have hxlt := x.toNat_lt
        rw [UInt32.toNat_sub, UInt32.toNat_add, show (4 : UInt32).toNat = 4 from rfl] at hx
        rw [UInt32.toNat_sub]
        omega

/-- **A push.**  The new word lies below the words that were there. -/
theorem Stacked.push {ws : List UInt32} (hs : Stacked mem a ws) (hlen : 4 * (ws.length + 1) ≤ 2 ^ 32)
    (w : UInt32) : Stacked (store32 mem (a - 4) w) (a - 4) (w :: ws) := by
  refine ⟨load32_store32 mem (a - 4) w, ?_⟩
  rw [UInt32.sub_add_cancel]
  refine hs.congr (by omega) fun x hx => (storeBytes_off ?_).symm
  have ha := a.toNat_lt
  have hxlt := x.toNat_lt
  rw [UInt32.toNat_sub] at hx
  rw [length_bytes32, UInt32.toNat_sub, UInt32.toNat_sub, show (4 : UInt32).toNat = 4 from rfl]
  omega

end ByteMemory
