import Mathlib.Data.List.Basic
import Mathlib.Data.Set.Insert
import Mathlib.Logic.Function.Basic
import Mathlib.Tactic

/-!
# Rings of links

Circular doubly linked lists in a memory of links.  Every list has a head, which is a cell of the memory
as well and is never removed; an empty list is a head that points to itself.

* `Links`, `setPrev`, `setNext` — a cell, and the writes to one field of a cell.
* `Segment` — the cells between two ends, linked both ways; `Chain` — the cells up to a null link.
* `Rings` — a family of lists without a common cell.
* **`Rings.push`, `Rings.remove`, `Rings.init`** — what linking a cell in, unlinking one and starting a
  list do to the family.
-/

namespace LinkRing

/-- A cell: the links to the cells before and after it. -/
@[ext] structure Links (α : Type*) where
  prev : α
  next : α
deriving DecidableEq

variable {α ι : Type*}

/-! ## Segments -/

/-- From `a` over the cells of the list to `z` all neighbours are linked both ways. -/
def Segment (m : α → Links α) : α → List α → α → Prop
  | a, [], z => (m a).next = z ∧ (m z).prev = a
  | a, x :: xs, z => ((m a).next = x ∧ (m x).prev = a) ∧ Segment m x xs z

lemma segment_append {m : α → Links α} {a x z : α} {xs ys : List α} :
    Segment m a (xs ++ x :: ys) z ↔ Segment m a xs x ∧ Segment m x ys z := by
  induction xs generalizing a with
  | nil => exact Iff.rfl
  | cons y xs ih =>
      show (_ ∧ Segment m y (xs ++ x :: ys) z) ↔ (_ ∧ Segment m y xs x) ∧ Segment m x ys z
      simp only [ih, and_assoc]

/-- A segment depends on the links inside it. -/
lemma Segment.congr {m m' : α → Links α} {a z : α} {xs : List α} (h : Segment m a xs z)
    (hnext : ∀ x ∈ a :: xs, (m' x).next = (m x).next)
    (hprev : ∀ x ∈ xs ++ [z], (m' x).prev = (m x).prev) : Segment m' a xs z := by
  induction xs generalizing a with
  | nil => exact ⟨(hnext a (by simp)).trans h.1, (hprev z (by simp)).trans h.2⟩
  | cons y xs ih =>
      refine ⟨⟨(hnext a (by simp)).trans h.1.1, (hprev y (by simp)).trans h.1.2⟩, ih h.2 ?_ ?_⟩
      · exact fun x hx => hnext x (List.mem_cons_of_mem _ hx)
      · exact fun x hx => hprev x (List.mem_cons_of_mem _ hx)

/-- Forward links of a segment stay in it, and backward links undo them. -/
lemma Segment.next_inverse {m : α → Links α} {a z : α} {xs : List α} (h : Segment m a xs z) :
    ∀ x ∈ a :: xs, (m x).next ∈ xs ++ [z] ∧ (m (m x).next).prev = x := by
  induction xs generalizing a with
  | nil =>
      intro x hx
      obtain ⟨hn, hp⟩ := h
      rw [List.mem_singleton.mp hx, hn]
      exact ⟨List.mem_singleton_self z, hp⟩
  | cons y xs ih =>
      obtain ⟨⟨hn, hp⟩, hrest⟩ := h
      intro x hx
      rcases List.mem_cons.mp hx with rfl | hx
      · rw [hn]
        exact ⟨List.mem_cons_self, hp⟩
      · obtain ⟨hmem, hinv⟩ := ih hrest x hx
        exact ⟨List.mem_cons_of_mem _ hmem, hinv⟩

/-- Backward links of a segment stay in it, and forward links undo them. -/
lemma Segment.prev_inverse {m : α → Links α} {a z : α} {xs : List α} (h : Segment m a xs z) :
    ∀ x ∈ xs ++ [z], (m x).prev ∈ a :: xs ∧ (m (m x).prev).next = x := by
  induction xs generalizing a with
  | nil =>
      intro x hx
      obtain ⟨hn, hp⟩ := h
      rw [List.mem_singleton.mp hx, hp]
      exact ⟨List.mem_singleton_self a, hn⟩
  | cons y xs ih =>
      obtain ⟨⟨hn, hp⟩, hrest⟩ := h
      intro x hx
      rcases List.mem_cons.mp hx with rfl | hx
      · rw [hp]
        exact ⟨List.mem_cons_self, hn⟩
      · obtain ⟨hmem, hinv⟩ := ih hrest x hx
        exact ⟨List.mem_cons_of_mem _ hmem, hinv⟩

/-- The last cell of a segment is the one before its end. -/
lemma Segment.last {m : α → Links α} {a z : α} {xs : List α} (h : Segment m a xs z) :
    (m z).prev ∈ a :: xs ∧ (m (m z).prev).next = z :=
  h.prev_inverse z (List.mem_append_right _ (List.mem_singleton_self z))

/-- The first cell of a segment is the one after its start. -/
lemma Segment.first {m : α → Links α} {a z : α} {xs : List α} (h : Segment m a xs z) :
    (m a).next ∈ xs ++ [z] :=
  (h.next_inverse a List.mem_cons_self).1

/-- The cell before the end of a segment is the last one of its list. -/
lemma Segment.prev_end {m : α → Links α} {a z : α} {xs : List α} (h : Segment m a xs z) :
    (m z).prev = (a :: xs).getLast (List.cons_ne_nil a xs) := by
  induction xs generalizing a with
  | nil => exact h.2
  | cons y xs ih => exact (ih h.2).trans (List.getLast_cons (List.cons_ne_nil y xs)).symm

/-! ## Chains with an end -/

/-- From `a` over the cells of the list all neighbours are linked both ways, and the last cell leads to
`null`. -/
def Chain (null : α) (m : α → Links α) : α → List α → Prop
  | a, [] => (m a).next = null
  | a, x :: xs => ((m a).next = x ∧ (m x).prev = a) ∧ Chain null m x xs

/-- A chain depends on the links inside it. -/
lemma Chain.congr {null : α} {m m' : α → Links α} {a : α} {xs : List α} (h : Chain null m a xs)
    (hnext : ∀ x ∈ a :: xs, (m' x).next = (m x).next)
    (hprev : ∀ x ∈ xs, (m' x).prev = (m x).prev) : Chain null m' a xs := by
  induction xs generalizing a with
  | nil => exact (hnext a List.mem_cons_self).trans h
  | cons y xs ih =>
      refine ⟨⟨(hnext a List.mem_cons_self).trans h.1.1, (hprev y List.mem_cons_self).trans h.1.2⟩,
        ih h.2 ?_ ?_⟩
      · exact fun x hx => hnext x (List.mem_cons_of_mem _ hx)
      · exact fun x hx => hprev x (List.mem_cons_of_mem _ hx)

/-- A segment becomes a chain when its last cell is cut off from the end. -/
lemma Segment.cut {null : α} {m m' : α → Links α} {a z : α} {xs : List α} (h : Segment m a xs z)
    (hnodup : (a :: xs).Nodup)
    (hnext : ∀ x ∈ a :: xs, x ≠ (m z).prev → (m' x).next = (m x).next)
    (hprev : ∀ x ∈ xs, (m' x).prev = (m x).prev)
    (hend : (m' (m z).prev).next = null) : Chain null m' a xs := by
  induction xs generalizing a with
  | nil =>
      rw [h.2] at hend
      exact hend
  | cons y xs ih =>
      obtain ⟨hay, hrest⟩ := h
      obtain ⟨ha, hnodup'⟩ := List.nodup_cons.mp hnodup
      have hne : a ≠ (m z).prev := fun heq => ha (heq ▸ hrest.last.1)
      refine ⟨⟨(hnext a List.mem_cons_self hne).trans hay.1,
        (hprev y List.mem_cons_self).trans hay.2⟩, ih hrest hnodup' ?_ ?_⟩
      · exact fun x hx => hnext x (List.mem_cons_of_mem _ hx)
      · exact fun x hx => hprev x (List.mem_cons_of_mem _ hx)

/-- A chain whose end leads back to its last cell is a segment. -/
lemma Chain.close {m : α → Links α} {a w : α} {xs : List α} (h : Chain w m a xs)
    (hback : (m w).prev = (a :: xs).getLast (List.cons_ne_nil a xs)) : Segment m a xs w := by
  induction xs generalizing a with
  | nil => exact ⟨h, hback⟩
  | cons y xs ih => exact ⟨h.1, ih h.2 (hback.trans (List.getLast_cons (List.cons_ne_nil y xs)))⟩

/-- A segment gets a new end when its last cell is linked to it. -/
lemma Segment.redirect {m m' : α → Links α} {a z w : α} {xs : List α} (h : Segment m a xs z)
    (hnodup : (a :: xs).Nodup)
    (hnext : ∀ x ∈ a :: xs, x ≠ (m z).prev → (m' x).next = (m x).next)
    (hprev : ∀ x ∈ xs, (m' x).prev = (m x).prev)
    (hto : (m' (m z).prev).next = w) (hfrom : (m' w).prev = (m z).prev) : Segment m' a xs w :=
  (h.cut hnodup hnext hprev hto).close (hfrom.trans h.prev_end)

/-! ## Families of lists -/

/-- The lists `xs b` for `b ∈ s`, with their heads, are rings without a common cell. -/
structure Rings (m : α → Links α) (s : Set ι) (head : ι → α) (xs : ι → List α) : Prop where
  segment : ∀ b ∈ s, Segment m (head b) (xs b) (head b)
  nodup : ∀ b ∈ s, (head b :: xs b).Nodup
  disjoint : ∀ b ∈ s, ∀ c ∈ s, b ≠ c → List.Disjoint (head b :: xs b) (head c :: xs c)

variable {m : α → Links α} {s : Set ι} {head : ι → α} {xs : ι → List α}

/-- The link before the head tells whether the list is empty, and its last cell otherwise. -/
lemma Rings.prev_head_nil {b : ι} (h : Rings m s head xs) (hb : b ∈ s) (hxs : xs b = []) :
    (m (head b)).prev = head b := by
  have hseg := h.segment b hb
  rw [hxs] at hseg
  exact hseg.2

lemma Rings.prev_head_concat {b : ι} {e : α} {ys : List α} (h : Rings m s head xs) (hb : b ∈ s)
    (hxs : xs b = ys ++ [e]) : (m (head b)).prev = e := by
  have hseg := h.segment b hb
  rw [hxs] at hseg
  exact (segment_append.mp hseg).2.2

/-- The neighbours of a cell are in its ring. -/
lemma Rings.prev_mem {b : ι} {e : α} {ys zs : List α} (h : Rings m s head xs) (hb : b ∈ s)
    (hxs : xs b = ys ++ e :: zs) : (m e).prev ∈ head b :: xs b := by
  have hseg := h.segment b hb
  rw [hxs] at hseg ⊢
  rcases List.mem_cons.mp (segment_append.mp hseg).1.last.1 with hp | hp
  · exact hp ▸ List.mem_cons_self
  · exact List.mem_cons_of_mem _ (List.mem_append_left _ hp)

lemma Rings.next_mem {b : ι} {e : α} {ys zs : List α} (h : Rings m s head xs) (hb : b ∈ s)
    (hxs : xs b = ys ++ e :: zs) : (m e).next ∈ head b :: xs b := by
  have hseg := h.segment b hb
  rw [hxs] at hseg ⊢
  rcases List.mem_append.mp (segment_append.mp hseg).2.first with hn | hn
  · exact List.mem_cons_of_mem _ (List.mem_append_right _ (List.mem_cons_of_mem _ hn))
  · exact List.mem_singleton.mp hn ▸ List.mem_cons_self

/-- The lists depend on their cells only. -/
lemma Rings.congr {m' : α → Links α} (h : Rings m s head xs)
    (hm : ∀ c ∈ s, ∀ x ∈ head c :: xs c, m' x = m x) : Rings m' s head xs := by
  refine ⟨fun c hc => (h.segment c hc).congr (fun x hx => ?_) fun x hx => ?_, h.nodup, h.disjoint⟩
  · rw [hm c hc x hx]
  · rw [hm c hc x]
    rcases List.mem_append.mp hx with hx | hx
    · exact List.mem_cons_of_mem _ hx
    · exact List.mem_singleton.mp hx ▸ List.mem_cons_self

section Update

variable [DecidableEq ι]

/-- The other lists of the family keep their links. -/
lemma Rings.congr_off {m' : α → Links α} {b c : ι} (h : Rings m s head xs)
    (hc : c ∈ s) (hcb : c ≠ b) (hm : ∀ x ∈ head c :: xs c, m' x = m x) (ys : List α) :
    Segment m' (head c) (Function.update xs b ys c) (head c) := by
  rw [Function.update_of_ne hcb]
  refine (h.segment c hc).congr (fun x hx => by rw [hm x hx]) fun x hx => ?_
  rw [hm x]
  rcases List.mem_append.mp hx with hx | hx
  · exact List.mem_cons_of_mem _ hx
  · exact List.mem_singleton.mp hx ▸ List.mem_cons_self

/-- A family stays disjoint when one of its lists is replaced by one whose cells are its own or are in
no list. -/
lemma Rings.disjoint_update {b : ι} {ys : List α} (h : Rings m s head xs) (hb : b ∈ s)
    (hys : ∀ x ∈ ys, x ∈ head b :: xs b ∨ ∀ c ∈ s, x ∉ head c :: xs c) :
    ∀ c ∈ s, ∀ d ∈ s, c ≠ d → List.Disjoint (head c :: Function.update xs b ys c)
      (head d :: Function.update xs b ys d) := by
  have hcell : ∀ x ∈ head b :: ys, x ∈ head b :: xs b ∨ ∀ c ∈ s, x ∉ head c :: xs c := by
    intro x hx
    rcases List.mem_cons.mp hx with rfl | hx
    · exact Or.inl List.mem_cons_self
    · exact hys x hx
  have hone : ∀ c ∈ s, c ≠ b → ∀ x ∈ head b :: ys, x ∉ head c :: xs c := by
    intro c hc hcb x hx hxc
    rcases hcell x hx with hxb | hout
    · exact h.disjoint b hb c hc (Ne.symm hcb) hxb hxc
    · exact hout c hc hxc
  intro c hc d hd hcd x hxc hxd
  by_cases hcb : c = b
  · subst hcb
    rw [Function.update_self] at hxc
    rw [Function.update_of_ne (Ne.symm hcd)] at hxd
    exact hone d hd (Ne.symm hcd) x hxc hxd
  · rw [Function.update_of_ne hcb] at hxc
    by_cases hdb : d = b
    · subst hdb
      rw [Function.update_self] at hxd
      exact hone c hc hcb x hxd hxc
    · rw [Function.update_of_ne hdb] at hxd
      exact h.disjoint c hc d hd hcd hxc hxd

end Update

/-! ## Writes -/

variable [DecidableEq α]

/-- Write the link to the cell before. -/
def setPrev (m : α → Links α) (a b : α) : α → Links α :=
  Function.update m a { m a with prev := b }

/-- Write the link to the cell after. -/
def setNext (m : α → Links α) (a b : α) : α → Links α :=
  Function.update m a { m a with next := b }

@[simp] lemma setPrev_next (m : α → Links α) (a b x : α) : (setPrev m a b x).next = (m x).next := by
  unfold setPrev
  rw [Function.update_apply]
  split_ifs with h
  · rw [h]
  · rfl

@[simp] lemma setNext_prev (m : α → Links α) (a b x : α) : (setNext m a b x).prev = (m x).prev := by
  unfold setNext
  rw [Function.update_apply]
  split_ifs with h
  · rw [h]
  · rfl

lemma setPrev_prev (m : α → Links α) (a b x : α) :
    (setPrev m a b x).prev = if x = a then b else (m x).prev := by
  unfold setPrev
  rw [Function.update_apply]
  split_ifs
  · rfl
  · rfl

lemma setNext_next (m : α → Links α) (a b x : α) :
    (setNext m a b x).next = if x = a then b else (m x).next := by
  unfold setNext
  rw [Function.update_apply]
  split_ifs
  · rfl
  · rfl

/-- Link `e` in before the head `h`, that is, at the end of the list. -/
def push (m : α → Links α) (h e : α) : α → Links α :=
  setPrev (setNext (setNext (setPrev m e (m h).prev) e h) (m h).prev e) h e

/-- Unlink `e`. -/
def remove (m : α → Links α) (e : α) : α → Links α :=
  setPrev (setNext m (m e).prev (m e).next) (m e).next (m e).prev

/-- Point a head to itself. -/
def init (m : α → Links α) (h : α) : α → Links α := setNext (setPrev m h h) h h

lemma push_off {m : α → Links α} {h e x : α} (he : x ≠ e) (hh : x ≠ h) (hp : x ≠ (m h).prev) :
    push m h e x = m x := by
  unfold push
  ext
  · rw [setPrev_prev, if_neg hh, setNext_prev, setNext_prev, setPrev_prev, if_neg he]
  · rw [setPrev_next, setNext_next, if_neg hp, setNext_next, if_neg he, setPrev_next]

lemma remove_off {m : α → Links α} {e x : α} (hp : x ≠ (m e).prev) (hn : x ≠ (m e).next) :
    remove m e x = m x := by
  unfold remove
  ext
  · rw [setPrev_prev, if_neg hn, setNext_prev]
  · rw [setPrev_next, setNext_next, if_neg hp]

lemma init_off {m : α → Links α} {h x : α} (hx : x ≠ h) : init m h x = m x := by
  unfold init
  ext
  · rw [setNext_prev, setPrev_prev, if_neg hx]
  · rw [setNext_next, if_neg hx, setPrev_next]

/-- Linking a cell in at the end. -/
lemma Segment.push {m : α → Links α} {h e : α} {xs : List α} (hs : Segment m h xs h)
    (hnodup : (h :: xs).Nodup) (he : e ∉ h :: xs) : Segment (push m h e) h (xs ++ [e]) h := by
  obtain ⟨hlast, -⟩ := hs.last
  have heh : e ≠ h := fun heq => he (heq ▸ List.mem_cons_self)
  have hpe : (m h).prev ≠ e := fun heq => he (heq ▸ hlast)
  have hout : ∀ x ∈ h :: xs, x ≠ e := fun x hx heq => he (heq ▸ hx)
  have hhead : ∀ x ∈ xs, x ≠ h := fun x hx heq => (List.nodup_cons.mp hnodup).1 (heq ▸ hx)
  refine segment_append.mpr ⟨hs.redirect hnodup ?_ ?_ ?_ ?_, ?_, ?_⟩
  · intro x hx hxp
    rw [LinkRing.push, setPrev_next, setNext_next, if_neg hxp, setNext_next, if_neg (hout x hx),
      setPrev_next]
  · intro x hx
    rw [LinkRing.push, setPrev_prev, if_neg (hhead x hx), setNext_prev, setNext_prev, setPrev_prev,
      if_neg (hout x (List.mem_cons_of_mem _ hx))]
  · rw [LinkRing.push, setPrev_next, setNext_next, if_pos rfl]
  · rw [LinkRing.push, setPrev_prev, if_neg heh, setNext_prev, setNext_prev, setPrev_prev, if_pos rfl]
  · rw [LinkRing.push, setPrev_next, setNext_next, if_neg hpe.symm, setNext_next, if_pos rfl]
  · rw [LinkRing.push, setPrev_prev, if_pos rfl]

/-- Unlinking a cell. -/
lemma Segment.remove {m : α → Links α} {h e : α} {ys zs : List α}
    (hs : Segment m h (ys ++ e :: zs) h) (hnodup : (h :: (ys ++ e :: zs)).Nodup) :
    Segment (remove m e) h (ys ++ zs) h := by
  obtain ⟨hys, hzs⟩ := segment_append.mp hs
  obtain ⟨hh, hcells⟩ := List.nodup_cons.mp hnodup
  obtain ⟨hy, hez, hdisj⟩ := List.nodup_append.mp hcells
  obtain ⟨-, hz⟩ := List.nodup_cons.mp hez
  rw [List.mem_append, List.mem_cons, not_or, not_or] at hh
  obtain ⟨hhy, -, hhz⟩ := hh
  have hlast := hys.last.1
  have hfirst := hzs.first
  -- the cells up to `e` get the cell behind `e` as their end
  have hfront : Segment (LinkRing.remove m e) h ys (m e).next := by
    refine hys.redirect (List.nodup_cons.mpr ⟨hhy, hy⟩) ?_ ?_ ?_ ?_
    · intro x _ hxp
      rw [LinkRing.remove, setPrev_next, setNext_next, if_neg hxp]
    · intro x hx
      have hxn : x ≠ (m e).next := by
        intro heq
        rw [← heq, List.mem_append, List.mem_singleton] at hfirst
        rcases hfirst with hxz | hxh
        · exact hdisj x hx x (List.mem_cons_of_mem _ hxz) rfl
        · exact hhy (hxh ▸ hx)
      rw [LinkRing.remove, setPrev_prev, if_neg hxn, setNext_prev]
    · rw [LinkRing.remove, setPrev_next, setNext_next, if_pos rfl]
    · rw [LinkRing.remove, setPrev_prev, if_pos rfl]
  cases zs with
  | nil =>
      rw [hzs.1] at hfront
      rwa [List.append_nil]
  | cons n zs =>
      obtain ⟨⟨hen, -⟩, hrest⟩ := hzs
      obtain ⟨hnz, -⟩ := List.nodup_cons.mp hz
      rw [hen] at hfront
      refine segment_append.mpr ⟨hfront, hrest.congr ?_ ?_⟩
      · intro x hx
        have hxp : x ≠ (m e).prev := by
          rintro rfl
          rcases List.mem_cons.mp hlast with hph | hpy
          · exact hhz (hph ▸ hx)
          · exact hdisj _ hpy _ (List.mem_cons_of_mem _ hx) rfl
        rw [LinkRing.remove, setPrev_next, setNext_next, if_neg hxp]
      · intro x hx
        have hxn : x ≠ (m e).next := by
          rw [hen]
          rintro rfl
          rcases List.mem_append.mp hx with hxz | hxh
          · exact hnz hxz
          · exact hhz (List.mem_singleton.mp hxh ▸ List.mem_cons_self)
        rw [LinkRing.remove, setPrev_prev, if_neg hxn, setNext_prev]

/-! ## Families after writes -/

/-- Linking in leaves alone what is in no list. -/
lemma Rings.push_keeps {b : ι} {e x : α} (h : Rings m s head xs) (hb : b ∈ s)
    (hx : x ∉ head b :: xs b) (hxe : x ≠ e) : push m (head b) e x = m x := by
  refine push_off hxe ?_ ?_
  · rintro rfl
    exact hx List.mem_cons_self
  · rintro rfl
    exact hx (h.segment b hb).last.1

/-- Unlinking leaves alone what is in no list. -/
lemma Rings.remove_keeps {b : ι} {e x : α} {ys zs : List α} (h : Rings m s head xs) (hb : b ∈ s)
    (hxs : xs b = ys ++ e :: zs) (hx : x ∉ head b :: xs b) : remove m e x = m x := by
  refine remove_off ?_ ?_
  · rintro rfl
    exact hx (h.prev_mem hb hxs)
  · rintro rfl
    exact hx (h.next_mem hb hxs)

variable [DecidableEq ι]

/-- **Linking in** a cell that is in no list. -/
theorem Rings.push {b : ι} {e : α} (h : Rings m s head xs) (hb : b ∈ s)
    (he : ∀ c ∈ s, e ∉ head c :: xs c) :
    Rings (push m (head b) e) s head (Function.update xs b (xs b ++ [e])) := by
  have hlast := (h.segment b hb).last.1
  refine ⟨fun c hc => ?_, fun c hc => ?_, h.disjoint_update hb fun x hx => ?_⟩
  · by_cases hcb : c = b
    · subst hcb
      rw [Function.update_self]
      exact (h.segment c hc).push (h.nodup c hc) (he c hc)
    · have hapart : ∀ x ∈ head c :: xs c, x ∉ head b :: xs b :=
        fun x hx hx' => h.disjoint c hc b hb hcb hx hx'
      refine h.congr_off hc hcb (fun x hx => push_off ?_ ?_ ?_) _
      · exact fun heq => he c hc (heq ▸ hx)
      · exact fun heq => hapart x hx (heq ▸ List.mem_cons_self)
      · exact fun heq => hapart x hx (heq ▸ hlast)
  · by_cases hcb : c = b
    · subst hcb
      rw [Function.update_self, ← List.cons_append]
      refine List.Nodup.append (h.nodup c hc) (List.nodup_singleton e) fun x hx hxe => ?_
      exact he c hc (List.mem_singleton.mp hxe ▸ hx)
    · rw [Function.update_of_ne hcb]
      exact h.nodup c hc
  · rcases List.mem_append.mp hx with hx | hx
    · exact Or.inl (List.mem_cons_of_mem _ hx)
    · exact Or.inr (List.mem_singleton.mp hx ▸ he)

/-- **Unlinking** a cell of a list. -/
theorem Rings.remove {b : ι} {e : α} {ys zs : List α} (h : Rings m s head xs) (hb : b ∈ s)
    (hxs : xs b = ys ++ e :: zs) :
    Rings (remove m e) s head (Function.update xs b (ys ++ zs)) := by
  have hseg := h.segment b hb
  have hnodup := h.nodup b hb
  rw [hxs] at hseg hnodup
  have hprev := h.prev_mem hb hxs
  have hnext := h.next_mem hb hxs
  refine ⟨fun c hc => ?_, fun c hc => ?_, h.disjoint_update hb fun x hx => Or.inl ?_⟩
  · by_cases hcb : c = b
    · subst hcb
      rw [Function.update_self]
      exact hseg.remove hnodup
    · have hapart : ∀ x ∈ head c :: xs c, x ∉ head b :: xs b :=
        fun x hx hx' => h.disjoint c hc b hb hcb hx hx'
      refine h.congr_off hc hcb (fun x hx => remove_off ?_ ?_) _
      · exact fun heq => hapart x hx (heq ▸ hprev)
      · exact fun heq => hapart x hx (heq ▸ hnext)
  · by_cases hcb : c = b
    · subst hcb
      rw [Function.update_self]
      refine hnodup.sublist (List.Sublist.cons_cons _ ?_)
      exact List.Sublist.append_left (List.sublist_cons_self e zs) ys
    · rw [Function.update_of_ne hcb]
      exact h.nodup c hc
  · rw [hxs]
    rcases List.mem_append.mp hx with hx | hx
    · exact List.mem_cons_of_mem _ (List.mem_append_left _ hx)
    · exact List.mem_cons_of_mem _ (List.mem_append_right _ (List.mem_cons_of_mem _ hx))

/-- **Starting** a list at a head that is in no list. -/
theorem Rings.init {b : ι} (h : Rings m s head xs) (hb : b ∉ s)
    (hhead : ∀ c ∈ s, head b ∉ head c :: xs c) :
    Rings (init m (head b)) (insert b s) head (Function.update xs b []) := by
  have hne : ∀ c ∈ s, c ≠ b := fun c hc heq => hb (heq ▸ hc)
  have hout : ∀ c ∈ s, ∀ x ∈ head c :: xs c, x ≠ head b :=
    fun c hc x hx heq => hhead c hc (heq ▸ hx)
  refine ⟨fun c hc => ?_, fun c hc => ?_, fun c hc d hd hcd => ?_⟩
  · rcases hc with rfl | hc
    · rw [Function.update_self]
      refine ⟨?_, ?_⟩
      · rw [LinkRing.init, setNext_next, if_pos rfl]
      · rw [LinkRing.init, setNext_prev, setPrev_prev, if_pos rfl]
    · exact h.congr_off hc (hne c hc) (fun x hx => init_off (hout c hc x hx)) _
  · rcases hc with rfl | hc
    · rw [Function.update_self]
      exact List.nodup_singleton _
    · rw [Function.update_of_ne (hne c hc)]
      exact h.nodup c hc
  · intro x hxc hxd
    rcases hc with rfl | hc
    · rcases hd with rfl | hd
      · exact hcd rfl
      · rw [Function.update_self, List.mem_singleton] at hxc
        rw [Function.update_of_ne (hne d hd)] at hxd
        exact hhead d hd (hxc ▸ hxd)
    · rw [Function.update_of_ne (hne c hc)] at hxc
      rcases hd with rfl | hd
      · rw [Function.update_self, List.mem_singleton] at hxd
        exact hhead c hc (hxd ▸ hxc)
      · rw [Function.update_of_ne (hne d hd)] at hxd
        exact h.disjoint c hc d hd hcd hxc hxd

end LinkRing
