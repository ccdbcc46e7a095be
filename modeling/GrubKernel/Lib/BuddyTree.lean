import Mathlib.Data.Nat.Log
import Mathlib.Logic.Function.Basic
import Mathlib.Tactic

/-!
# Buddy trees

A range of `2 ^ h` bytes is halved over and over: node `0` is the whole range, the halves of node `i` are
the nodes `2 * i + 1` and `2 * i + 2`.  Part of the tree under one node of the leftmost path is in use;
its leaves are the blocks of an allocator.

* `level`, `size`, `start`, `Covers` — the range of a node.
* `Status`, `Tree` — what the nodes are at present, and when that is a tree whose buddies are merged.
* **`Tree.exists_block`, `Tree.block_unique`** — the blocks partition the range of the root.
* `flag` — one bit per node; **`Tree.flag_eq`** says that it is the exclusive or of the halves being
  unused.
* `Tree.toggle`, `Tree.halve`, `Tree.merge`, `Tree.growFree`, `Tree.growUsed` — the operations of the
  allocator, each with its effect on the flags.
* **`Tree.exists_free_iff`** — a free block of a size is there iff there is a place for one.
-/

namespace BuddyTree

/-! ## Nodes -/

/-- The number of halvings that lead to a node. -/
def level (i : ℕ) : ℕ := Nat.log 2 (i + 1)

/-- The size of a node. -/
def size (h i : ℕ) : ℕ := 2 ^ (h - level i)

/-- The offset of a node. -/
def start (h i : ℕ) : ℕ := (i + 1 - 2 ^ level i) * size h i

/-- The node of a level on the leftmost path. -/
def root (L : ℕ) : ℕ := 2 ^ L - 1

/-- The offset lies in the range of the node. -/
def Covers (h i x : ℕ) : Prop := start h i ≤ x ∧ x < start h i + size h i

lemma pow_level_le (i : ℕ) : 2 ^ level i ≤ i + 1 := Nat.pow_log_le_self 2 (by omega)

lemma lt_pow_level (i : ℕ) : i + 1 < 2 ^ (level i + 1) :=
  Nat.lt_pow_succ_log_self (by decide) _

lemma level_unique {i b : ℕ} (hlo : 2 ^ b ≤ i + 1) (hhi : i + 1 < 2 ^ (b + 1)) : level i = b :=
  (Nat.log_eq_iff (Or.inr ⟨by decide, by omega⟩)).mpr ⟨hlo, hhi⟩

/-- The two children of a node are one level below it. -/
lemma level_child {i c : ℕ} (hlo : 2 * i + 1 ≤ c) (hhi : c ≤ 2 * i + 2) : level c = level i + 1 := by
  have hlevel := pow_level_le i
  have hnext := lt_pow_level i
  refine level_unique ?_ ?_
  · rw [pow_succ]
    omega
  · rw [pow_succ]
    omega

@[simp] lemma level_left (i : ℕ) : level (2 * i + 1) = level i + 1 := level_child le_rfl (by omega)

@[simp] lemma level_right (i : ℕ) : level (2 * i + 2) = level i + 1 := level_child (by omega) le_rfl

lemma root_add_one (L : ℕ) : root L + 1 = 2 ^ L := by
  have hpos := Nat.two_pow_pos L
  unfold root
  omega

lemma root_succ (L : ℕ) : root (L + 1) = 2 * root L + 1 := by
  have hL := root_add_one L
  have hL' := root_add_one (L + 1)
  rw [pow_succ] at hL'
  omega

@[simp] lemma level_root (L : ℕ) : level (root L) = L := by
  refine level_unique (root_add_one L).ge ?_
  rw [root_add_one, pow_succ]
  have hpos := Nat.two_pow_pos L
  omega

lemma root_ne_right (L i : ℕ) : 2 * i + 2 ≠ root L := by
  intro h
  cases L with
  | zero => simp [root] at h
  | succ L =>
      rw [root_succ] at h
      omega

lemma size_pos (h i : ℕ) : 0 < size h i := Nat.two_pow_pos _

/-- The halves of a node have half its size. -/
lemma size_half {h i : ℕ} (hi : level i < h) :
    size h (2 * i + 1) = size h (2 * i + 2) ∧ size h i = 2 * size h (2 * i + 1) := by
  have hlevel : h - level i = h - (level i + 1) + 1 := by omega
  unfold size
  rw [level_left, level_right, hlevel, pow_succ]
  exact ⟨rfl, Nat.mul_comm _ _⟩

lemma start_left {h i : ℕ} (hi : level i < h) : start h (2 * i + 1) = start h i := by
  have hlo := pow_level_le i
  have hpos : 2 * i + 1 + 1 - 2 ^ (level i + 1) = (i + 1 - 2 ^ level i) * 2 := by
    rw [pow_succ]
    omega
  unfold start
  rw [level_left, hpos, Nat.mul_assoc, ← (size_half hi).2]

lemma start_right {h i : ℕ} (hi : level i < h) :
    start h (2 * i + 2) = start h i + size h (2 * i + 1) := by
  have hlo := pow_level_le i
  have hpos : 2 * i + 2 + 1 - 2 ^ (level i + 1) = (i + 1 - 2 ^ level i) * 2 + 1 := by
    rw [pow_succ]
    omega
  unfold start
  rw [level_right, hpos, ← (size_half hi).1, Nat.add_mul, Nat.mul_assoc, ← (size_half hi).2,
    Nat.one_mul]

lemma start_root (h L : ℕ) : start h (root L) = 0 := by
  unfold start
  rw [level_root, root_add_one, Nat.sub_self, Nat.zero_mul]

lemma size_root (h L : ℕ) : size h (root L) = 2 ^ (h - L) := by
  unfold size
  rw [level_root]

lemma covers_start (h i : ℕ) : Covers h i (start h i) :=
  ⟨le_rfl, Nat.lt_add_of_pos_right (size_pos h i)⟩

/-- A node covers what its halves cover. -/
lemma covers_iff {h i x : ℕ} (hi : level i < h) :
    Covers h i x ↔ Covers h (2 * i + 1) x ∨ Covers h (2 * i + 2) x := by
  obtain ⟨hsize, htwo⟩ := size_half hi
  unfold Covers
  rw [start_left hi, start_right hi, ← hsize, htwo]
  omega

/-- The nodes of one level do not overlap. -/
lemma covers_unique {h i j x : ℕ} (hlevel : level i = level j) (hi : Covers h i x)
    (hj : Covers h j x) : i = j := by
  have hsize : size h j = size h i := by
    unfold size
    rw [hlevel]
  have hpos := size_pos h i
  have hquot : ∀ k, level k = level i → Covers h k x → x / size h i = k + 1 - 2 ^ level i := by
    intro k hk hcov
    have hsizek : size h k = size h i := by
      unfold size
      rw [hk]
    obtain ⟨hlo, hhi⟩ := hcov
    unfold start at hlo hhi
    rw [hsizek, hk] at hlo hhi
    refine Nat.div_eq_of_lt_le hlo ?_
    rw [Nat.add_mul, Nat.one_mul]
    exact hhi
  have hqi := hquot i rfl hi
  have hqj := hquot j hlevel.symm hj
  have hloi := pow_level_le i
  have hloj := pow_level_le j
  rw [← hlevel] at hloj
  omega

/-! ## Trees -/

/-- What a node is at present: not in the tree, halved, a free block or a block in use. -/
inductive Status where
  | absent
  | split
  | free
  | live
deriving DecidableEq

open Status

/-- The node is a leaf of the tree. -/
def IsBlock (st : ℕ → Status) (i : ℕ) : Prop := st i = free ∨ st i = live

/-- The nodes that are not absent form a tree under the root of level `L`, with leaves down to level `d`,
in which no two buddies are free. -/
structure Tree (d L : ℕ) (st : ℕ → Status) : Prop where
  root_le : L ≤ d
  root : st (root L) ≠ absent
  up : ∀ i, st i ≠ absent → i = BuddyTree.root L ∨
    ∃ p, st p = split ∧ (i = 2 * p + 1 ∨ i = 2 * p + 2)
  deep : ∀ i, st i = split → level i < d
  left : ∀ i, st i = split → st (2 * i + 1) ≠ absent
  right : ∀ i, st i = split → st (2 * i + 2) ≠ absent
  merged : ∀ i, st i = split → ¬ (st (2 * i + 1) = free ∧ st (2 * i + 2) = free)

variable {d h L i x : ℕ} {st : ℕ → Status}

lemma IsBlock.ne_absent (hi : IsBlock st i) : st i ≠ absent := by
  rcases hi with hi | hi
  · rw [hi]
    decide
  · rw [hi]
    decide

lemma IsBlock.ne_split (hi : IsBlock st i) : st i ≠ split := by
  rcases hi with hi | hi
  · rw [hi]
    decide
  · rw [hi]
    decide

lemma ne_absent_of_free (hi : st i = free) : st i ≠ absent := IsBlock.ne_absent (Or.inl hi)

lemma ne_absent_of_live (hi : st i = live) : st i ≠ absent := IsBlock.ne_absent (Or.inr hi)

lemma ne_absent_of_split (hi : st i = split) : st i ≠ absent := by
  rw [hi]
  decide

lemma isBlock_of (hi : st i ≠ absent) (hi' : st i ≠ split) : IsBlock st i := by
  unfold IsBlock
  cases hst : st i with
  | absent => exact absurd hst hi
  | split => exact absurd hst hi'
  | free => exact Or.inl rfl
  | live => exact Or.inr rfl

/-- The levels of a tree. -/
lemma Tree.level_mem (ht : Tree d L st) : ∀ i, st i ≠ absent → L ≤ level i ∧ level i ≤ d := by
  intro i
  induction i using Nat.strong_induction_on with
  | _ i ih =>
      intro hi
      rcases ht.up i hi with rfl | ⟨p, hp, hip⟩
      · rw [level_root]
        exact ⟨le_rfl, ht.root_le⟩
      · have hpar := ih p (by omega) (ne_absent_of_split hp)
        have hdeep := ht.deep p hp
        rcases hip with rfl | rfl
        · rw [level_left]
          omega
        · rw [level_right]
          omega

/-- Nothing lies below a node that is not split. -/
lemma Tree.children_absent (ht : Tree d L st) (hi : L ≤ level i) (hsplit : st i ≠ split) :
    st (2 * i + 1) = absent ∧ st (2 * i + 2) = absent := by
  have hchild : ∀ c, (c = 2 * i + 1 ∨ c = 2 * i + 2) → st c = absent := by
    intro c hc
    by_contra hne
    rcases ht.up c hne with heq | ⟨p, hp, hcp⟩
    · have hlevel : level c = level i + 1 := by
        rcases hc with rfl | rfl
        · exact level_left i
        · exact level_right i
      rw [heq, level_root] at hlevel
      omega
    · have hpi : p = i := by omega
      exact hsplit (hpi ▸ hp)
  exact ⟨hchild _ (Or.inl rfl), hchild _ (Or.inr rfl)⟩

/-- The nodes of a tree lie in the range of its root. -/
lemma Tree.covers_root (ht : Tree d L st) (hd : d ≤ h) :
    ∀ i, st i ≠ absent → Covers h i x → x < 2 ^ (h - L) := by
  intro i
  induction i using Nat.strong_induction_on with
  | _ i ih =>
      intro hi hx
      rcases ht.up i hi with rfl | ⟨p, hp, hip⟩
      · obtain ⟨-, hlt⟩ := hx
        rw [start_root, size_root] at hlt
        omega
      · have hpx : Covers h p x := by
          rw [covers_iff ((ht.deep p hp).trans_le hd)]
          rcases hip with rfl | rfl
          · exact Or.inl hx
          · exact Or.inr hx
        exact ih p (by omega) (ne_absent_of_split hp) hpx

/-- Below a node of the tree there is a block for every offset. -/
lemma Tree.block_below (ht : Tree d L st) (hd : d ≤ h) (n : ℕ) :
    ∀ i, level i + n = d → st i ≠ absent → Covers h i x → ∃ j, IsBlock st j ∧ Covers h j x := by
  induction n with
  | zero =>
      intro i hn hi hx
      refine ⟨i, isBlock_of hi fun hsplit => ?_, hx⟩
      have hdeep := ht.deep i hsplit
      omega
  | succ n ih =>
      intro i hn hi hx
      by_cases hsplit : st i = split
      · rw [covers_iff ((ht.deep i hsplit).trans_le hd)] at hx
        rcases hx with hx | hx
        · exact ih _ (by rw [level_left]; omega) (ht.left i hsplit) hx
        · exact ih _ (by rw [level_right]; omega) (ht.right i hsplit) hx
      · exact ⟨i, isBlock_of hi hsplit, hx⟩

/-- **No byte is lost.** -/
theorem Tree.exists_block (ht : Tree d L st) (hd : d ≤ h) (hx : x < 2 ^ (h - L)) :
    ∃ j, IsBlock st j ∧ Covers h j x := by
  refine ht.block_below hd (d - L) (BuddyTree.root L) ?_ ht.root ?_
  · have hle := ht.root_le
    rw [level_root]
    omega
  · refine ⟨?_, ?_⟩
    · rw [start_root]
      exact Nat.zero_le x
    · rw [start_root, size_root, Nat.zero_add]
      exact hx

/-- The path from the root to a node is split above the node. -/
lemma Tree.path (ht : Tree d L st) (hd : d ≤ h) {k : ℕ} : ∀ j, st j ≠ absent → Covers h j x →
    L ≤ k → k ≤ level j → ∃ a, level a = k ∧ Covers h a x ∧ st a ≠ absent ∧ (a = j ∨ st a = split) := by
  intro j
  induction j using Nat.strong_induction_on with
  | _ j ih =>
      intro hj hx hlo hhi
      by_cases hk : k = level j
      · exact ⟨j, hk.symm, hx, hj, Or.inl rfl⟩
      rcases ht.up j hj with rfl | ⟨p, hp, hjp⟩
      · rw [level_root] at hhi hk
        omega
      · have hpx : Covers h p x := by
          rw [covers_iff ((ht.deep p hp).trans_le hd)]
          rcases hjp with rfl | rfl
          · exact Or.inl hx
          · exact Or.inr hx
        have hlevel : level j = level p + 1 := by
          rcases hjp with rfl | rfl
          · exact level_left p
          · exact level_right p
        have hp' := ne_absent_of_split hp
        obtain ⟨a, hak, hax, ha, hap⟩ := ih p (by omega) hp' hpx hlo (by omega)
        refine ⟨a, hak, hax, ha, Or.inr ?_⟩
        rcases hap with rfl | hap
        · exact hp
        · exact hap

/-- A node of the tree over an offset lies inside every block over it, or is split. -/
lemma Tree.block_eq_or_split (ht : Tree d L st) (hd : d ≤ h) {j : ℕ} (hi : IsBlock st i)
    (hix : Covers h i x) (hj : L ≤ level j) (hjx : Covers h j x) (hle : level j ≤ level i) :
    j = i ∨ st j = split := by
  obtain ⟨a, hak, hax, -, hai⟩ := ht.path hd i hi.ne_absent hix hj hle
  obtain rfl := covers_unique hak hax hjx
  exact hai

/-- **No two blocks overlap.** -/
theorem Tree.block_unique (ht : Tree d L st) (hd : d ≤ h) {j : ℕ} (hi : IsBlock st i)
    (hj : IsBlock st j) (hix : Covers h i x) (hjx : Covers h j x) : i = j := by
  rcases Nat.le_total (level i) (level j) with hle | hle
  · rcases ht.block_eq_or_split hd hj hjx (ht.level_mem i hi.ne_absent).1 hix hle with heq | hsplit
    · exact heq
    · exact absurd hsplit hi.ne_split
  · rcases ht.block_eq_or_split hd hi hix (ht.level_mem j hj.ne_absent).1 hjx hle with heq | hsplit
    · exact heq.symm
    · exact absurd hsplit hj.ne_split

/-- Different blocks start at different offsets. -/
lemma Tree.start_inj (ht : Tree d L st) (hd : d ≤ h) {j : ℕ} (hi : IsBlock st i)
    (hj : IsBlock st j) (heq : start h i = start h j) : i = j := by
  refine ht.block_unique hd hi hj (covers_start h i) ?_
  rw [heq]
  exact covers_start h j

/-! ## Operations -/

/-- A block changes hands. -/
def toggle (st : ℕ → Status) (i : ℕ) (v : Status) : ℕ → Status := Function.update st i v

/-- A block in use is halved; its left half stays in use. -/
def halve (st : ℕ → Status) (i : ℕ) : ℕ → Status :=
  Function.update (Function.update (Function.update st i split) (2 * i + 1) live) (2 * i + 2) free

/-- The halves of a node are put together to a block in use. -/
def merge (st : ℕ → Status) (i : ℕ) : ℕ → Status :=
  Function.update (Function.update (Function.update st (2 * i + 1) absent) (2 * i + 2) absent) i live

/-- The root of level `L + 1`, which is free, is replaced by the one of level `L`. -/
def growFree (L : ℕ) (st : ℕ → Status) : ℕ → Status :=
  Function.update (Function.update st (BuddyTree.root (L + 1)) absent) (BuddyTree.root L) free

/-- The root of level `L + 1`, which is not free, becomes the left half of the one of level `L`. -/
def growUsed (L : ℕ) (st : ℕ → Status) : ℕ → Status :=
  Function.update (Function.update st (2 * BuddyTree.root L + 2) free) (BuddyTree.root L) split

/-- The other half of the same node is free. -/
def BuddyFree (st : ℕ → Status) (i : ℕ) : Prop :=
  ∃ p, st p = split ∧
    ((i = 2 * p + 1 ∧ st (2 * p + 2) = free) ∨ (i = 2 * p + 2 ∧ st (2 * p + 1) = free))

lemma toggle_apply (st : ℕ → Status) (i : ℕ) (v : Status) (j : ℕ) :
    toggle st i v j = if j = i then v else st j := Function.update_apply ..

lemma isBlock_of_toggle {v : Status} {j : ℕ} (hi : IsBlock st i) (hj : IsBlock (toggle st i v) j) :
    IsBlock st j := by
  unfold IsBlock at hj
  rw [toggle_apply] at hj
  split_ifs at hj with hji
  · rw [hji]
    exact hi
  · exact hj

lemma halve_apply (st : ℕ → Status) (i j : ℕ) : halve st i j =
    if j = 2 * i + 2 then free else if j = 2 * i + 1 then live else if j = i then split else st j := by
  unfold halve
  rw [Function.update_apply, Function.update_apply, Function.update_apply]

lemma merge_apply (st : ℕ → Status) (i j : ℕ) : merge st i j =
    if j = i then live else if j = 2 * i + 2 then absent else if j = 2 * i + 1 then absent else st j := by
  unfold merge
  rw [Function.update_apply, Function.update_apply, Function.update_apply]

lemma growFree_apply (L : ℕ) (st : ℕ → Status) (j : ℕ) : growFree L st j =
    if j = BuddyTree.root L then free else if j = BuddyTree.root (L + 1) then absent else st j := by
  unfold growFree
  rw [Function.update_apply, Function.update_apply]

lemma growUsed_apply (L : ℕ) (st : ℕ → Status) (j : ℕ) : growUsed L st j =
    if j = BuddyTree.root L then split else if j = 2 * BuddyTree.root L + 2 then free else st j := by
  unfold growUsed
  rw [Function.update_apply, Function.update_apply]

/-- **A block changes hands.**  It may become free unless its buddy is free. -/
theorem Tree.toggle {v : Status} (ht : Tree d L st) (hi : IsBlock st i) (hv : v = free ∨ v = live)
    (hbuddy : v = free → ¬ BuddyFree st i) : Tree d L (toggle st i v) := by
  have hi₁ := hi.ne_absent
  have hi₂ := hi.ne_split
  have hv₁ : v ≠ absent := by
    rcases hv with rfl | rfl
    · decide
    · decide
  have hv₂ : v ≠ split := by
    rcases hv with rfl | rfl
    · decide
    · decide
  have hsplit : ∀ j, BuddyTree.toggle st i v j = split ↔ st j = split := by
    intro j
    rw [toggle_apply]
    split_ifs with hji
    · rw [hji]
      exact iff_of_false hv₂ hi₂
    · exact Iff.rfl
  have habsent : ∀ j, BuddyTree.toggle st i v j ≠ absent ↔ st j ≠ absent := by
    intro j
    rw [toggle_apply]
    split_ifs with hji
    · rw [hji]
      exact iff_of_true hv₁ hi₁
    · exact Iff.rfl
  refine ⟨ht.root_le, (habsent _).mpr ht.root, fun j hj => ?_, fun j hj => ht.deep j ((hsplit j).mp hj),
    fun j hj => (habsent _).mpr (ht.left j ((hsplit j).mp hj)),
    fun j hj => (habsent _).mpr (ht.right j ((hsplit j).mp hj)), fun j hj => ?_⟩
  · rcases ht.up j ((habsent j).mp hj) with hroot | ⟨p, hp, hjp⟩
    · exact Or.inl hroot
    · exact Or.inr ⟨p, (hsplit p).mpr hp, hjp⟩
  · have hj' := (hsplit j).mp hj
    rw [toggle_apply, toggle_apply]
    rintro ⟨hl, hr⟩
    split_ifs at hl hr with h₁ h₂ h₂
    · omega
    · exact hbuddy hl ⟨j, hj', Or.inl ⟨h₁.symm, hr⟩⟩
    · exact hbuddy hr ⟨j, hj', Or.inr ⟨h₂.symm, hl⟩⟩
    · exact ht.merged j hj' ⟨hl, hr⟩

/-- **A block in use is halved.** -/
theorem Tree.halve (ht : Tree d L st) (hi : st i = live) (hlevel : level i < d) :
    Tree d L (halve st i) := by
  have hi₁ : st i ≠ split := by
    rw [hi]
    decide
  have hi₂ := ne_absent_of_live hi
  obtain ⟨hleft, hright⟩ := ht.children_absent (ht.level_mem i hi₂).1 hi₁
  refine ⟨ht.root_le, ?_, fun j hj => ?_, fun j hj => ?_, fun j hj => ?_, fun j hj => ?_, fun j hj => ?_⟩
  · have hroot := ht.root
    rw [halve_apply]
    split_ifs
    · decide
    · decide
    · decide
    · exact hroot
  all_goals simp only [halve_apply] at *
  · have hup := ht.up j
    grind
  · have hdeep := ht.deep j
    grind
  · have hl := ht.left j
    grind
  · have hr := ht.right j
    grind
  · have hm := ht.merged j
    grind

/-- **The halves of a node are put together.** -/
theorem Tree.merge (ht : Tree d L st) (hi : st i = split) (hl : IsBlock st (2 * i + 1))
    (hr : IsBlock st (2 * i + 2)) : Tree d L (merge st i) := by
  have hlevel := ht.level_mem i (ne_absent_of_split hi)
  have hl₁ := hl.ne_split
  have hr₁ := hr.ne_split
  have hroot₁ : BuddyTree.root L ≠ 2 * i + 1 := by
    intro heq
    have hlev := level_left i
    rw [← heq, level_root] at hlev
    omega
  have hroot₂ : BuddyTree.root L ≠ 2 * i + 2 := fun heq => root_ne_right L i heq.symm
  refine ⟨ht.root_le, ?_, fun j hj => ?_, fun j hj => ?_, fun j hj => ?_, fun j hj => ?_, fun j hj => ?_⟩
  · rw [merge_apply, if_neg hroot₂, if_neg hroot₁]
    split_ifs
    · decide
    · exact ht.root
  all_goals simp only [merge_apply] at *
  · have hup := ht.up j
    grind
  · have hdeep := ht.deep j
    grind
  · have hleft := ht.left j
    grind
  · have hright := ht.right j
    grind
  · have hm := ht.merged j
    grind

/-- Above the root nothing is in the tree. -/
lemma Tree.absent_above (ht : Tree d L st) (hi : level i < L) : st i = absent := by
  by_contra hne
  have hlevel := ht.level_mem i hne
  omega

/-- The other half of the node above the root is not in the tree. -/
lemma Tree.absent_right (ht : Tree d (L + 1) st) : st (2 * BuddyTree.root L + 2) = absent := by
  have hsucc := root_succ L
  by_contra hne
  rcases ht.up _ hne with heq | ⟨p, hp, hjp⟩
  · omega
  · have hpL : p = BuddyTree.root L := by omega
    rw [hpL, ht.absent_above (by rw [level_root]; omega)] at hp
    exact absurd hp (by decide)

/-- A tree whose root is free has no node that is split. -/
lemma Tree.not_split_of_free (ht : Tree d L st) (hfree : st (BuddyTree.root L) = free) (j : ℕ) :
    st j ≠ split := by
  induction j using Nat.strong_induction_on with
  | _ j ih =>
      intro hj
      rcases ht.up j (ne_absent_of_split hj) with rfl | ⟨p, hp, hjp⟩
      · rw [hfree] at hj
        exact absurd hj (by decide)
      · exact ih p (by omega) hp

/-- **A free root doubles.** -/
theorem Tree.growFree (ht : Tree d (L + 1) st) (hfree : st (BuddyTree.root (L + 1)) = free) :
    Tree d L (growFree L st) := by
  have hsucc := root_succ L
  have habove : ∀ j, level j < L + 1 → st j = absent := fun j hj => ht.absent_above hj
  have hroot := habove (BuddyTree.root L) (by rw [level_root]; omega)
  have hnone := ht.not_split_of_free hfree
  have hle := ht.root_le
  refine ⟨by omega, ?_, fun j hj => ?_, fun j hj => ?_, fun j hj => ?_, fun j hj => ?_, fun j hj => ?_⟩
  · rw [growFree_apply, if_pos rfl]
    decide
  all_goals simp only [growFree_apply] at *
  · have hup := ht.up j
    grind
  all_goals
    exfalso
    have hj' := hnone j
    grind

/-- **A root in use doubles**; its buddy is free. -/
theorem Tree.growUsed (ht : Tree d (L + 1) st) (hused : st (BuddyTree.root (L + 1)) ≠ free) :
    Tree d L (growUsed L st) := by
  have hsucc := root_succ L
  have hroot := ht.absent_above (show level (BuddyTree.root L) < L + 1 by rw [level_root]; omega)
  have hroot' := ht.root
  rw [hsucc] at hused hroot'
  have hright := ht.absent_right
  have hle := ht.root_le
  have hlevel := level_root L
  refine ⟨by omega, ?_, fun j hj => ?_, fun j hj => ?_, fun j hj => ?_, fun j hj => ?_, fun j hj => ?_⟩
  · rw [growUsed_apply, if_pos rfl]
    decide
  all_goals simp only [growUsed_apply] at *
  · have hup := ht.up j
    grind
  · have hdeep := ht.deep j
    grind
  · have hl := ht.left j
    grind
  · have hr := ht.right j
    grind
  · have hm := ht.merged j
    grind

/-! ## Flags -/

/-- The bit of a node: one of its halves is unused and the other one is not.  The node above the root
counts the root as one of its halves, and takes the other one for unused. -/
def flag (L : ℕ) (st : ℕ → Status) (i : ℕ) : Bool :=
  if st i = split then (decide (st (2 * i + 1) = free) ^^ decide (st (2 * i + 2) = free))
  else decide (2 * i + 1 = BuddyTree.root L) && !decide (st (BuddyTree.root L) = free)

/-- The node above the root is not in the tree. -/
lemma Tree.absent_of_above (ht : Tree d L st) (hi : 2 * i + 1 = BuddyTree.root L) : st i = absent := by
  refine ht.absent_above ?_
  have hlevel := level_left i
  rw [hi, level_root] at hlevel
  omega

/-- **Changing hands flips the bit above.** -/
theorem Tree.flag_toggle {v : Status} (ht : Tree d L st) (hi : IsBlock st i) (hv : IsBlock (fun _ => v) i)
    (hne : v = free ↔ st i ≠ free) (j : ℕ) : flag L (BuddyTree.toggle st i v) j =
      (flag L st j ^^ decide (i = 2 * j + 1 ∨ i = 2 * j + 2)) := by
  have hi₂ := hi.ne_split
  have hv₂ : v ≠ split := hv.ne_split
  have hlevel := (ht.level_mem i hi.ne_absent).1
  have hup := ht.up i hi.ne_absent
  have hodd := root_ne_right L j
  have hnotroot : 2 * i + 1 ≠ BuddyTree.root L :=
    fun heq => hi.ne_absent (ht.absent_of_above heq)
  have hj := ht.absent_of_above (i := j)
  simp only [flag, toggle_apply]
  grind

/-- **Halving flips the bit of the node.** -/
theorem Tree.flag_halve (ht : Tree d L st) (hi : st i = live) (j : ℕ) :
    flag L (BuddyTree.halve st i) j = (flag L st j ^^ decide (j = i)) := by
  have hi₁ : st i ≠ split := by
    rw [hi]
    decide
  have hi₂ := ne_absent_of_live hi
  obtain ⟨hleft, hright⟩ := ht.children_absent (ht.level_mem i hi₂).1 hi₁
  have hnotroot : 2 * i + 1 ≠ BuddyTree.root L := fun heq => hi₂ (ht.absent_of_above heq)
  have hodd := root_ne_right L i
  have hroot := ht.root
  have hj := ht.absent_of_above (i := j)
  simp only [flag, halve_apply]
  grind

/-- **Putting halves together flips the bit of the node.** -/
theorem Tree.flag_merge (ht : Tree d L st) (hi : st i = split)
    (hbuddy : st (2 * i + 1) = free ∧ st (2 * i + 2) = live ∨
      st (2 * i + 1) = live ∧ st (2 * i + 2) = free) (j : ℕ) :
    flag L (BuddyTree.merge st i) j = (flag L st j ^^ decide (j = i)) := by
  have hi₂ := ne_absent_of_split hi
  have hnotroot : 2 * i + 1 ≠ BuddyTree.root L := fun heq => hi₂ (ht.absent_of_above heq)
  have hodd := root_ne_right L i
  have hj := ht.absent_of_above (i := j)
  have hleft := ht.children_absent (i := 2 * i + 1)
  simp only [flag, merge_apply]
  grind

/-- **Doubling a free root keeps the bits.** -/
theorem Tree.flag_growFree (ht : Tree d (L + 1) st) (hfree : st (BuddyTree.root (L + 1)) = free)
    (j : ℕ) : flag L (BuddyTree.growFree L st) j = flag (L + 1) st j := by
  have hsucc := root_succ L
  have hnone := ht.not_split_of_free hfree
  have hj := hnone j
  simp only [flag, growFree_apply]
  grind

/-- **Doubling a root in use flips the bit above the new root.** -/
theorem Tree.flag_growUsed (ht : Tree d (L + 1) st) (hused : st (BuddyTree.root (L + 1)) ≠ free)
    (j : ℕ) : flag L (BuddyTree.growUsed L st) j =
      (flag (L + 1) st j ^^ decide (2 * j + 1 = BuddyTree.root L)) := by
  have hsucc := root_succ L
  have hroot := ht.absent_of_above hsucc.symm
  have hright := ht.absent_right
  have habove : ∀ k, 2 * k + 1 = BuddyTree.root L → st k = absent := by
    intro k hk
    refine ht.absent_above ?_
    have hlevel := level_left k
    rw [hk, level_root] at hlevel
    omega
  have hj := habove j
  have hleft : st j = split → 2 * j + 1 ≠ BuddyTree.root L := by
    intro hsplit heq
    rw [hj heq] at hsplit
    exact absurd hsplit (by decide)
  have hodd := root_ne_right L j
  simp only [flag, growUsed_apply]
  grind

/-! ## Free and live blocks after an operation -/

lemma toggle_live_free_iff {j : ℕ} (i : ℕ) :
    BuddyTree.toggle st i live j = free ↔ st j = free ∧ j ≠ i := by
  rw [toggle_apply]
  split_ifs with hj
  · exact iff_of_false (by decide) fun hj' => hj'.2 hj
  · exact ⟨fun hj' => ⟨hj', hj⟩, And.left⟩

lemma toggle_free_free_iff {j : ℕ} (i : ℕ) :
    BuddyTree.toggle st i free j = free ↔ st j = free ∨ j = i := by
  rw [toggle_apply]
  split_ifs with hj
  · exact iff_of_true rfl (Or.inr hj)
  · exact ⟨Or.inl, fun hj' => hj'.resolve_right hj⟩

/-- Halving makes the right half free. -/
lemma Tree.halve_free_iff (ht : Tree d L st) (hi : st i = live) (j : ℕ) :
    BuddyTree.halve st i j = free ↔ st j = free ∨ j = 2 * i + 2 := by
  have hblock : IsBlock st i := Or.inr hi
  obtain ⟨hleft, -⟩ := ht.children_absent (ht.level_mem i hblock.ne_absent).1 hblock.ne_split
  rw [halve_apply]
  split_ifs with h₁ h₂ h₃
  · exact iff_of_true rfl (Or.inr h₁)
  · rw [h₂, hleft]
    simp
  · refine iff_of_false (by decide) ?_
    rintro (hj | hj)
    · rw [h₃, hi] at hj
      exact absurd hj (by decide)
    · exact h₁ hj
  · simp [h₁]

/-- Halving puts the left half in the place of the block in use. -/
lemma Tree.halve_live_iff (ht : Tree d L st) (hi : st i = live) (j : ℕ) :
    BuddyTree.halve st i j = live ∧ j ≠ 2 * i + 1 ↔ st j = live ∧ j ≠ i := by
  have hblock : IsBlock st i := Or.inr hi
  obtain ⟨hleft, hright⟩ := ht.children_absent (ht.level_mem i hblock.ne_absent).1 hblock.ne_split
  rw [halve_apply]
  split_ifs with h₁ h₂ h₃
  · rw [h₁, hright]
    simp
  · rw [h₂, hleft]
    simp
  · rw [h₃]
    simp
  · simp [h₂, h₃]

/-- The root that doubles gets a free buddy. -/
lemma Tree.growUsed_free_iff (ht : Tree d (L + 1) st) (j : ℕ) :
    BuddyTree.growUsed L st j = free ↔ st j = free ∨ j = 2 * BuddyTree.root L + 2 := by
  have habove := ht.absent_of_above (root_succ L).symm
  rw [growUsed_apply]
  split_ifs with h₁ h₂
  · refine iff_of_false (by decide) ?_
    rintro (hj | hj)
    · rw [h₁, habove] at hj
      exact absurd hj (by decide)
    · omega
  · exact iff_of_true rfl (Or.inr h₂)
  · exact ⟨Or.inl, fun hj => hj.resolve_right h₂⟩

lemma Tree.growUsed_live_iff (ht : Tree d (L + 1) st) (j : ℕ) :
    BuddyTree.growUsed L st j = live ↔ st j = live := by
  have habove := ht.absent_of_above (root_succ L).symm
  have hnone := ht.absent_right
  rw [growUsed_apply]
  split_ifs with h₁ h₂
  · rw [h₁, habove]
    exact iff_of_false (by decide) (by decide)
  · rw [h₂, hnone]
    exact iff_of_false (by decide) (by decide)
  · exact Iff.rfl

/-! ## The meaning of the flags -/

/-- All bytes of the node lie in free blocks. -/
def Unused (h : ℕ) (st : ℕ → Status) (i : ℕ) : Prop :=
  ∀ x, Covers h i x → ∃ k, st k = free ∧ Covers h k x

/-- Two nodes over an offset are nested. -/
lemma covers_of_level_le {k y : ℕ} (hkx : Covers h k x) (hy : Covers h i y) (hix : Covers h i x)
    (hle : level k ≤ level i) (hi : level i ≤ h) : Covers h k y := by
  induction i using Nat.strong_induction_on with
  | _ i ih =>
      by_cases heq : level k = level i
      · rwa [covers_unique heq hkx hix]
      · have hpos : 0 < i := by
          rcases Nat.eq_zero_or_pos i with rfl | hpos
          · have hzero : level 0 = 0 := level_root 0
            omega
          · exact hpos
        obtain ⟨p, hip⟩ : ∃ p, i = 2 * p + 1 ∨ i = 2 * p + 2 := ⟨(i - 1) / 2, by omega⟩
        have hlevel : level i = level p + 1 := by
          rcases hip with rfl | rfl
          · exact level_left p
          · exact level_right p
        have hhalf : ∀ z, Covers h i z → Covers h p z := by
          intro z hz
          rw [covers_iff (show level p < h by omega)]
          rcases hip with rfl | rfl
          · exact Or.inl hz
          · exact Or.inr hz
        exact ih p (by omega) (hhalf y hy) (hhalf x hix) (by omega) (by omega)

/-- A block is unused iff it is free. -/
lemma Tree.unused_block_iff (ht : Tree d L st) (hd : d ≤ h) {i : ℕ} (hblock : IsBlock st i) :
    Unused h st i ↔ st i = free := by
  constructor
  · intro hun
    obtain ⟨k, hk, hcov⟩ := hun _ (covers_start h i)
    rwa [ht.block_unique hd hblock (Or.inl hk) (covers_start h i) hcov]
  · exact fun hfree x hx => ⟨i, hfree, hx⟩

/-- A node of the tree is unused iff it is a free block. -/
lemma Tree.unused_iff (ht : Tree d L st) (hd : d ≤ h) (n : ℕ) :
    ∀ i, level i + n = d → st i ≠ absent → (Unused h st i ↔ st i = free) := by
  induction n with
  | zero =>
      intro i hn hi
      have hblock : IsBlock st i := isBlock_of hi fun hsplit => by
        have hdeep := ht.deep i hsplit
        omega
      exact ht.unused_block_iff hd hblock
  | succ n ih =>
      intro i hn hi
      by_cases hsplit : st i = split
      · have hlevel := (ht.deep i hsplit).trans_le hd
        have hl := ih (2 * i + 1) (by rw [level_left]; omega) (ht.left i hsplit)
        have hr := ih (2 * i + 2) (by rw [level_right]; omega) (ht.right i hsplit)
        refine iff_of_false (fun hun => ht.merged i hsplit ⟨hl.mp ?_, hr.mp ?_⟩) ?_
        · exact fun x hx => hun x ((covers_iff hlevel).mpr (Or.inl hx))
        · exact fun x hx => hun x ((covers_iff hlevel).mpr (Or.inr hx))
        · rw [hsplit]
          decide
      · exact ht.unused_block_iff hd (isBlock_of hi hsplit)

/-- **The bit of a node of the current tree** is the exclusive or of its halves being unused. -/
theorem Tree.flag_eq (ht : Tree d L st) (hd : d ≤ h) (hlo : L ≤ level i) (hhi : level i < d)
    (hroot : start h i < 2 ^ (h - L)) :
    flag L st i = true ↔ Xor (Unused h st (2 * i + 1)) (Unused h st (2 * i + 2)) := by
  by_cases hsplit : st i = split
  · obtain ⟨n, hn⟩ : ∃ n, level i + 1 + n = d := ⟨d - level i - 1, by omega⟩
    rw [ht.unused_iff hd n _ (by rw [level_left]; omega) (ht.left i hsplit),
      ht.unused_iff hd n _ (by rw [level_right]; omega) (ht.right i hsplit), flag, if_pos hsplit]
    unfold Xor
    by_cases hl : st (2 * i + 1) = free
    · by_cases hr : st (2 * i + 2) = free
      · simp [hl, hr]
      · simp [hl, hr]
    · by_cases hr : st (2 * i + 2) = free
      · simp [hl, hr]
      · simp [hl, hr]
  · -- the node lies inside a block, so its halves are both unused or both used
    obtain ⟨k, hk, hkx⟩ := ht.exists_block hd hroot
    have hle : level k ≤ level i := by
      rcases Nat.le_total (level k) (level i) with hle | hle
      · exact hle
      · rcases ht.block_eq_or_split hd hk hkx hlo (covers_start h i) hle with rfl | hbad
        · exact le_rfl
        · exact absurd hbad hsplit
    have hin : ∀ y, Covers h i y → Covers h k y :=
      fun y hy => covers_of_level_le hkx hy (covers_start h i) hle (by omega)
    have hhalf : ∀ c, (∀ y, Covers h c y → Covers h i y) → (Unused h st c ↔ st k = free) := by
      intro c hc
      constructor
      · intro hun
        obtain ⟨k', hk', hcov⟩ := hun _ (covers_start h c)
        have hck := hin _ (hc _ (covers_start h c))
        rwa [ht.block_unique hd hk (Or.inl hk') hck hcov]
      · exact fun hfree y hy => ⟨k, hfree, hin y (hc y hy)⟩
    have hlevel := hhi.trans_le hd
    rw [hhalf _ fun y hy => (covers_iff hlevel).mpr (Or.inl hy),
      hhalf _ fun y hy => (covers_iff hlevel).mpr (Or.inr hy), flag, if_neg hsplit]
    have hnotroot : 2 * i + 1 ≠ BuddyTree.root L := by
      intro heq
      have hlev := level_left i
      rw [heq, level_root] at hlev
      omega
    simp [hnotroot, Xor]

/-! ## Places -/

/-- Every aligned offset is the start of a node. -/
lemma exists_node {b : ℕ} (hb : b ≤ h) (hdvd : 2 ^ (h - b) ∣ x) (hx : x < 2 ^ h) :
    ∃ j, level j = b ∧ start h j = x := by
  obtain ⟨k, rfl⟩ := hdvd
  have hk : k < 2 ^ b := by
    have hpow : 2 ^ h = 2 ^ (h - b) * 2 ^ b := by rw [← pow_add, Nat.sub_add_cancel hb]
    rw [hpow] at hx
    exact Nat.lt_of_mul_lt_mul_left hx
  have hpos := Nat.two_pow_pos b
  have hlevel : level (2 ^ b - 1 + k) = b := by
    refine level_unique (by omega) ?_
    rw [pow_succ]
    omega
  refine ⟨2 ^ b - 1 + k, hlevel, ?_⟩
  rw [start, size, hlevel, show 2 ^ b - 1 + k + 1 - 2 ^ b = k by omega, Nat.mul_comm]

/-- A node whose bytes are all free lies inside a free block. -/
lemma Tree.exists_free_of_unused (ht : Tree d L st) (hd : d ≤ h) (hlo : L ≤ level i) (hhi : level i ≤ d)
    (hun : Unused h st i) : ∃ k, st k = free ∧ level k ≤ level i := by
  obtain ⟨k, hk, hkx⟩ := hun _ (covers_start h i)
  rcases Nat.le_total (level k) (level i) with hle | hle
  · exact ⟨k, hk, hle⟩
  · rcases ht.block_eq_or_split hd (Or.inl hk) hkx hlo (covers_start h i) hle with rfl | hsplit
    · exact ⟨i, hk, le_rfl⟩
    · have hfree := (ht.unused_iff hd (d - level i) i (by omega) (ne_absent_of_split hsplit)).mp hun
      exact ⟨i, hfree, le_rfl⟩

/-- **There is a free block of a size iff there is a place for one**: an aligned range of that size
which no block in use meets. -/
theorem Tree.exists_free_iff (ht : Tree d L st) (hd : d ≤ h) {b : ℕ} (hlo : L ≤ b) (hhi : b ≤ d) :
    (∃ k, st k = free ∧ level k ≤ b) ↔ ∃ x, 2 ^ (h - b) ∣ x ∧ x + 2 ^ (h - b) ≤ 2 ^ (h - L) ∧
      ∀ i, st i = live → ∀ y, x ≤ y → y < x + 2 ^ (h - b) → ¬ Covers h i y := by
  constructor
  · rintro ⟨k, hk, hkb⟩
    have hdvd : 2 ^ (h - b) ∣ size h k := Nat.pow_dvd_pow 2 (by omega)
    have hle : 2 ^ (h - b) ≤ size h k := Nat.le_of_dvd (size_pos h k) hdvd
    refine ⟨start h k, hdvd.trans (Dvd.intro_left _ rfl), ?_, ?_⟩
    · have hlast : Covers h k (start h k + 2 ^ (h - b) - 1) := by
        have hpos := Nat.two_pow_pos (h - b)
        exact ⟨by omega, by omega⟩
      have hlt := ht.covers_root hd k (ne_absent_of_free hk) hlast
      omega
    · intro i hi y hy hy' hcov
      have hky : Covers h k y := ⟨hy, by omega⟩
      rw [ht.block_unique hd (Or.inl hk) (Or.inr hi) hky hcov, hi] at hk
      exact absurd hk (by decide)
  · rintro ⟨x, hdvd, hfit, hoff⟩
    have hpos := Nat.two_pow_pos (h - b)
    have hroot : 2 ^ (h - L) ≤ 2 ^ h := Nat.pow_le_pow_right (by decide) (Nat.sub_le h L)
    obtain ⟨j, hj, rfl⟩ := exists_node (hhi.trans hd) hdvd (by omega)
    rw [← hj] at hlo hhi hfit hoff ⊢
    refine ht.exists_free_of_unused hd hlo hhi fun y hy => ?_
    obtain ⟨hy₁, hy₂⟩ := hy
    rw [size] at hy₂
    obtain ⟨k, hk, hky⟩ := ht.exists_block hd (show y < 2 ^ (h - L) by omega)
    rcases hk with hk | hk
    · exact ⟨k, hk, hky⟩
    · exact absurd hky (hoff k hk y hy₁ hy₂)

/-- **A tree without a block in use** is one free block. -/
lemma Tree.root_free (ht : Tree d L st) (hnone : ∀ i, st i ≠ live) : st (BuddyTree.root L) = free := by
  have hplace := (ht.exists_free_iff le_rfl le_rfl ht.root_le).mpr
    ⟨0, dvd_zero _, (Nat.zero_add _).le, fun i hi => absurd hi (hnone i)⟩
  obtain ⟨k, hk, hlevel⟩ := hplace
  rcases ht.up k (ne_absent_of_free hk) with rfl | ⟨p, hp, hkp⟩
  · exact hk
  · have hpar := (ht.level_mem p (ne_absent_of_split hp)).1
    have hchild : level k = level p + 1 := by
      rcases hkp with rfl | rfl
      · exact level_left p
      · exact level_right p
    omega

end BuddyTree
