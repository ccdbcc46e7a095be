import GrubKernel.Lib.LinkRing
import Mathlib.Data.UInt

/-!
# The linked list

`linked_list.c` keeps the entries of a list in a ring of nodes; the list pointer points to the first one,
and the node before that is the last one.  This file translates `add_to_list`, `length` and
`iterate_over_list`.

* `LinkedListItem`, `LinkedList` — a node, and the list pointer with the memory of the nodes.
* `addToList`, `length`, `iterateOverList` — the operations.  `addToList` takes the result of its call of
  `malloc`; the two loops get a bound on their rounds and have no result when it is too small.
* `Appended` — the list holds a sequence of entries; `Appended.add` says that one call appends to it.
* **`append_only`** — a list built by any calls, whichever of them fail, is the sequence of the entries
  that were added.
-/

namespace GrubKernel

open LinkRing

/-- `linked_list_item_t`. -/
structure LinkedListItem where
  prev : UInt32
  next : UInt32
  payload : UInt32
deriving DecidableEq

/-- The list pointer and the nodes.  `NULL` is `0`. -/
structure LinkedList where
  mem : UInt32 → LinkedListItem
  linkedList : UInt32

namespace LinkedList

/-! ## The operations -/

/-- `a->prev = b`. -/
def storePrev (s : LinkedList) (a b : UInt32) : LinkedList :=
  { s with mem := Function.update s.mem a { s.mem a with prev := b } }

/-- `a->next = b`. -/
def storeNext (s : LinkedList) (a b : UInt32) : LinkedList :=
  { s with mem := Function.update s.mem a { s.mem a with next := b } }

/-- `a->payload = p`. -/
def storePayload (s : LinkedList) (a p : UInt32) : LinkedList :=
  { s with mem := Function.update s.mem a { s.mem a with payload := p } }

/-- `add_to_list`, where `malloc` returned `ptr`. -/
def addToList (s : LinkedList) (ptr payload : UInt32) : ℤ × LinkedList :=
  if ptr = 0 then (-1, s)
  else if s.linkedList = 0 then
    let s := { s with linkedList := ptr }
    let s := s.storeNext s.linkedList s.linkedList
    let s := s.storePrev s.linkedList s.linkedList
    (0, s.storePayload s.linkedList payload)
  else
    let new := ptr
    let s := s.storeNext new s.linkedList
    let s := s.storePrev new (s.mem s.linkedList).prev
    let s := s.storeNext (s.mem s.linkedList).prev new
    let s := s.storePrev s.linkedList new
    (0, s.storePayload new payload)

/-- The loop of `length`, for at most `n` rounds.  The nodes are twelve bytes each, so their number
fits an `int`. -/
def lengthFrom (s : LinkedList) : ℕ → UInt32 → ℕ → Option ℕ
  | 0, _, _ => none
  | n + 1, ptr, length =>
      if ptr = s.linkedList then some length else s.lengthFrom n (s.mem ptr).next (length + 1)

/-- `length`. -/
def length (s : LinkedList) (n : ℕ) : Option ℕ :=
  if s.linkedList = 0 then some 0 else s.lengthFrom n (s.mem s.linkedList).next 1

/-- The loop of `iterate_over_list`, for at most `n` rounds: the nodes for which the function is
called. -/
def iterateFrom (s : LinkedList) : ℕ → UInt32 → Option (List UInt32)
  | 0, _ => none
  | n + 1, ptr =>
      if ptr = s.linkedList then some [] else (s.iterateFrom n (s.mem ptr).next).map (ptr :: ·)

/-- `iterate_over_list`. -/
def iterateOverList (s : LinkedList) (n : ℕ) : Option (List UInt32) :=
  if s.linkedList = 0 then some []
  else (s.iterateFrom n (s.mem s.linkedList).next).map (s.linkedList :: ·)

/-! ## The links of the nodes -/

/-- The nodes as cells of links. -/
def links (s : LinkedList) (a : UInt32) : Links UInt32 := ⟨(s.mem a).prev, (s.mem a).next⟩

@[simp] lemma storePrev_linkedList (s : LinkedList) (a b : UInt32) :
    (s.storePrev a b).linkedList = s.linkedList := rfl

@[simp] lemma storeNext_linkedList (s : LinkedList) (a b : UInt32) :
    (s.storeNext a b).linkedList = s.linkedList := rfl

@[simp] lemma storePayload_linkedList (s : LinkedList) (a p : UInt32) :
    (s.storePayload a p).linkedList = s.linkedList := rfl

lemma links_storePrev (s : LinkedList) (a b : UInt32) :
    (s.storePrev a b).links = setPrev s.links a b := by
  funext x
  unfold links storePrev setPrev
  by_cases hx : x = a
  · subst hx
    simp
  · simp [Function.update_of_ne hx]

lemma links_storeNext (s : LinkedList) (a b : UInt32) :
    (s.storeNext a b).links = setNext s.links a b := by
  funext x
  unfold links storeNext setNext
  by_cases hx : x = a
  · subst hx
    simp
  · simp [Function.update_of_ne hx]

lemma links_storePayload (s : LinkedList) (a p : UInt32) : (s.storePayload a p).links = s.links := by
  funext x
  unfold links storePayload
  by_cases hx : x = a
  · subst hx
    simp
  · simp [Function.update_of_ne hx]

@[simp] lemma storePrev_payload (s : LinkedList) (a b x : UInt32) :
    ((s.storePrev a b).mem x).payload = (s.mem x).payload := by
  unfold storePrev
  dsimp only
  rw [Function.update_apply]
  split_ifs with hx
  · rw [hx]
  · rfl

@[simp] lemma storeNext_payload (s : LinkedList) (a b x : UInt32) :
    ((s.storeNext a b).mem x).payload = (s.mem x).payload := by
  unfold storeNext
  dsimp only
  rw [Function.update_apply]
  split_ifs with hx
  · rw [hx]
  · rfl

lemma storePayload_payload (s : LinkedList) (a p x : UInt32) :
    ((s.storePayload a p).mem x).payload = if x = a then p else (s.mem x).payload := by
  unfold storePayload
  dsimp only
  rw [Function.update_apply]
  split_ifs
  · rfl
  · rfl

/-- Adding to an empty list starts a ring at the new node. -/
lemma addToList_empty {s : LinkedList} {ptr : UInt32} (hptr : ptr ≠ 0) (hs : s.linkedList = 0)
    (payload : UInt32) : (s.addToList ptr payload).1 = 0 ∧
      (s.addToList ptr payload).2.linkedList = ptr ∧
      (s.addToList ptr payload).2.links = LinkRing.init s.links ptr ∧
      ∀ x, ((s.addToList ptr payload).2.mem x).payload
        = if x = ptr then payload else (s.mem x).payload := by
  have hinit : setPrev (setNext s.links ptr ptr) ptr ptr = LinkRing.init s.links ptr := by
    funext x
    unfold LinkRing.init
    ext
    · rw [setPrev_prev, setNext_prev, setNext_prev, setPrev_prev]
    · rw [setPrev_next, setNext_next, setNext_next, setPrev_next]
  unfold addToList
  rw [if_neg hptr, if_pos hs]
  refine ⟨rfl, rfl, ?_, fun x => ?_⟩
  · rw [links_storePayload, links_storePrev, links_storeNext]
    exact hinit
  · rw [storePayload_payload, storePrev_payload, storeNext_payload]
    rfl

/-- Adding to a list that is not empty links the new node in before the first one. -/
lemma addToList_nonempty {s : LinkedList} {ptr : UInt32} (hptr : ptr ≠ 0) (hs : s.linkedList ≠ 0)
    (hne : ptr ≠ s.linkedList) (payload : UInt32) : (s.addToList ptr payload).1 = 0 ∧
      (s.addToList ptr payload).2.linkedList = s.linkedList ∧
      (s.addToList ptr payload).2.links = LinkRing.push s.links s.linkedList ptr ∧
      ∀ x, ((s.addToList ptr payload).2.mem x).payload
        = if x = ptr then payload else (s.mem x).payload := by
  -- the writes to the new node do not touch the first one
  have hprev : ∀ t : LinkedList, t.links = setNext s.links ptr s.linkedList →
      (t.mem s.linkedList).prev = (s.links s.linkedList).prev := by
    intro t ht
    have hlink : (t.links s.linkedList).prev = (s.links s.linkedList).prev := by
      rw [ht, setNext_prev]
    exact hlink
  have hprev' : ∀ t : LinkedList, t.links =
      setPrev (setNext s.links ptr s.linkedList) ptr (s.links s.linkedList).prev →
      (t.mem s.linkedList).prev = (s.links s.linkedList).prev := by
    intro t ht
    have hlink : (t.links s.linkedList).prev = (s.links s.linkedList).prev := by
      rw [ht, setPrev_prev, if_neg hne.symm, setNext_prev]
    exact hlink
  have h₁ := links_storeNext s ptr s.linkedList
  have h₂ := links_storePrev (s.storeNext ptr s.linkedList) ptr (s.links s.linkedList).prev
  rw [h₁] at h₂
  have hpush : setPrev (setNext (setPrev (setNext s.links ptr s.linkedList) ptr
      (s.links s.linkedList).prev) (s.links s.linkedList).prev ptr) s.linkedList ptr
      = LinkRing.push s.links s.linkedList ptr := by
    funext x
    unfold LinkRing.push
    ext
    · rw [setPrev_prev, setNext_prev, setPrev_prev, setNext_prev, setPrev_prev, setNext_prev,
        setNext_prev, setPrev_prev]
    · rw [setPrev_next, setNext_next, setPrev_next, setNext_next, setPrev_next, setNext_next,
        setNext_next, setPrev_next]
  unfold addToList
  rw [if_neg hptr, if_neg hs]
  dsimp only
  simp only [storeNext_linkedList, storePrev_linkedList, storePayload_linkedList]
  rw [hprev _ h₁, hprev' _ h₂]
  refine ⟨trivial, trivial, ?_, fun x => ?_⟩
  · rw [links_storePayload, links_storePrev, links_storeNext, h₂]
    exact hpush
  · rw [storePayload_payload, storePrev_payload, storeNext_payload, storePrev_payload,
      storeNext_payload]

/-! ## The sequence in the list -/

/-- The list holds the nodes, in this order. -/
def HoldsNodes (s : LinkedList) : List UInt32 → Prop
  | [] => s.linkedList = 0
  | a :: as => s.linkedList = a ∧ Segment s.links a as a

/-- The list holds the entries, given as nodes with their payloads. -/
structure Appended (s : LinkedList) (entries : List (UInt32 × UInt32)) : Prop where
  nodes : s.HoldsNodes (entries.map Prod.fst)
  nodup : (entries.map Prod.fst).Nodup
  ne_null : ∀ e ∈ entries, e.1 ≠ 0
  payload : ∀ e ∈ entries, (s.mem e.1).payload = e.2

/-- What a list holds depends on the list pointer and on its nodes. -/
lemma Appended.congr {s t : LinkedList} {entries : List (UInt32 × UInt32)} (h : Appended s entries)
    (hlist : t.linkedList = s.linkedList) (hmem : ∀ a ∈ entries.map Prod.fst, t.mem a = s.mem a) :
    Appended t entries := by
  have hlinks : ∀ a ∈ entries.map Prod.fst, t.links a = s.links a := by
    intro a ha
    rw [links, links, hmem a ha]
  refine ⟨?_, h.nodup, h.ne_null, fun e he => ?_⟩
  · have hnodes := h.nodes
    cases entries with
    | nil => exact hlist.trans hnodes
    | cons e es =>
        obtain ⟨hfirst, hseg⟩ := hnodes
        refine ⟨hlist.trans hfirst, hseg.congr (fun x hx => ?_) fun x hx => ?_⟩
        · rw [hlinks x hx]
        · rw [hlinks x ?_]
          rcases List.mem_append.mp hx with hx | hx
          · exact List.mem_cons_of_mem _ hx
          · exact List.mem_singleton.mp hx ▸ List.mem_cons_self
  · rw [hmem _ (List.mem_map_of_mem he)]
    exact h.payload e he

/-- **One call appends one entry.** -/
theorem Appended.add {s : LinkedList} {entries : List (UInt32 × UInt32)} (h : Appended s entries)
    {ptr : UInt32} (hptr : ptr ≠ 0) (hnew : ptr ∉ entries.map Prod.fst) (payload : UInt32) :
    (s.addToList ptr payload).1 = 0 ∧
      Appended (s.addToList ptr payload).2 (entries ++ [(ptr, payload)]) := by
  have hnodup : ((entries ++ [(ptr, payload)]).map Prod.fst).Nodup := by
    rw [List.map_append]
    refine List.Nodup.append h.nodup (List.nodup_singleton _) fun x hx hx' => ?_
    have hxptr : x = ptr := List.mem_singleton.mp hx'
    exact hnew (hxptr ▸ hx)
  have hnull : ∀ e ∈ entries ++ [(ptr, payload)], e.1 ≠ 0 := by
    intro e he
    rcases List.mem_append.mp he with he | he
    · exact h.ne_null e he
    · rw [List.mem_singleton.mp he]
      exact hptr
  have hpayload : ∀ t : LinkedList,
      (∀ x, (t.mem x).payload = if x = ptr then payload else (s.mem x).payload) →
      ∀ e ∈ entries ++ [(ptr, payload)], (t.mem e.1).payload = e.2 := by
    intro t ht e he
    rw [ht]
    rcases List.mem_append.mp he with he | he
    · have hne : e.1 ≠ ptr := fun heq => hnew (heq ▸ List.mem_map_of_mem he)
      rw [if_neg hne]
      exact h.payload e he
    · rw [List.mem_singleton.mp he, if_pos rfl]
  cases entries with
  | nil =>
      obtain ⟨hres, hlist, hlinks, hmem⟩ := addToList_empty hptr h.nodes payload
      refine ⟨hres, ⟨hlist, ?_⟩, hnodup, hnull, hpayload _ hmem⟩
      show (_ : Links UInt32).next = ptr ∧ (_ : Links UInt32).prev = ptr
      rw [hlinks, LinkRing.init, setNext_next, if_pos rfl, setNext_prev, setPrev_prev, if_pos rfl]
      exact ⟨rfl, rfl⟩
  | cons e es =>
      obtain ⟨hlist, hseg⟩ := h.nodes
      have he : e.1 ≠ 0 := h.ne_null e List.mem_cons_self
      have hne : ptr ≠ s.linkedList := by
        intro heq
        rw [hlist] at heq
        exact hnew (heq ▸ List.mem_cons_self)
      obtain ⟨hres, hlist', hlinks, hmem⟩ :=
        addToList_nonempty hptr (by rw [hlist]; exact he) hne payload
      refine ⟨hres, ⟨by rw [hlist', hlist], ?_⟩, hnodup, hnull, hpayload _ hmem⟩
      show Segment _ e.1 ((es ++ [(ptr, payload)]).map Prod.fst) e.1
      rw [hlinks, hlist, List.map_append]
      exact hseg.push h.nodup hnew

/-! ## The loops -/

/-- The loop of `length` counts the nodes that are left. -/
lemma lengthFrom_segment {s : LinkedList} {a : UInt32} {as : List UInt32}
    (hs : Segment s.links a as s.linkedList) (hout : s.linkedList ∉ as) :
    ∀ n k, as.length < n → s.lengthFrom n (s.mem a).next k = some (k + as.length) := by
  induction as generalizing a with
  | nil =>
      intro n k hn
      obtain ⟨m, rfl⟩ : ∃ m, n = m + 1 := ⟨n - 1, by simp at hn; omega⟩
      have hend : (s.mem a).next = s.linkedList := hs.1
      rw [hend, lengthFrom, if_pos rfl]
      rfl
  | cons b bs ih =>
      intro n k hn
      obtain ⟨m, rfl⟩ : ∃ m, n = m + 1 := ⟨n - 1, by simp at hn; omega⟩
      have hnext : (s.mem a).next = b := hs.1.1
      have hb : b ≠ s.linkedList := fun heq => hout (heq ▸ List.mem_cons_self)
      rw [hnext, lengthFrom, if_neg hb,
        ih hs.2 (fun hmem => hout (List.mem_cons_of_mem _ hmem)) m (k + 1) (by simpa using hn)]
      simp only [List.length_cons, Option.some_inj]
      omega

/-- The loop of `iterate_over_list` visits the nodes that are left. -/
lemma iterateFrom_segment {s : LinkedList} {a : UInt32} {as : List UInt32}
    (hs : Segment s.links a as s.linkedList) (hout : s.linkedList ∉ as) :
    ∀ n, as.length < n → s.iterateFrom n (s.mem a).next = some as := by
  induction as generalizing a with
  | nil =>
      intro n hn
      obtain ⟨m, rfl⟩ : ∃ m, n = m + 1 := ⟨n - 1, by simp at hn; omega⟩
      have hend : (s.mem a).next = s.linkedList := hs.1
      rw [hend, iterateFrom, if_pos rfl]
  | cons b bs ih =>
      intro n hn
      obtain ⟨m, rfl⟩ : ∃ m, n = m + 1 := ⟨n - 1, by simp at hn; omega⟩
      have hnext : (s.mem a).next = b := hs.1.1
      have hb : b ≠ s.linkedList := fun heq => hout (heq ▸ List.mem_cons_self)
      rw [hnext, iterateFrom, if_neg hb,
        ih hs.2 (fun hmem => hout (List.mem_cons_of_mem _ hmem)) m (by simpa using hn)]
      rfl

/-- A list with entries is a ring through the list pointer. -/
lemma Appended.ring {s : LinkedList} {e : UInt32 × UInt32} {es : List (UInt32 × UInt32)}
    (h : Appended s (e :: es)) : s.linkedList = e.1 ∧ s.linkedList ≠ 0 ∧
      Segment s.links s.linkedList (es.map Prod.fst) s.linkedList ∧
      s.linkedList ∉ es.map Prod.fst := by
  obtain ⟨hlist, hseg⟩ := h.nodes
  rw [hlist]
  exact ⟨rfl, h.ne_null e List.mem_cons_self, hseg, (List.nodup_cons.mp h.nodup).1⟩

lemma Appended.length {s : LinkedList} {entries : List (UInt32 × UInt32)} (h : Appended s entries)
    {n : ℕ} (hn : entries.length ≤ n) : s.length n = some entries.length := by
  unfold LinkedList.length
  cases entries with
  | nil =>
      have hnull : s.linkedList = 0 := h.nodes
      rw [if_pos hnull]
      rfl
  | cons e es =>
      obtain ⟨-, hnull, hseg, hout⟩ := h.ring
      rw [if_neg hnull, lengthFrom_segment hseg hout n 1 (by simpa using hn)]
      simp only [List.length_map, List.length_cons, Option.some_inj]
      omega

lemma Appended.iterateOverList {s : LinkedList} {entries : List (UInt32 × UInt32)}
    (h : Appended s entries) {n : ℕ} (hn : entries.length ≤ n) :
    s.iterateOverList n = some (entries.map Prod.fst) := by
  unfold LinkedList.iterateOverList
  cases entries with
  | nil =>
      have hnull : s.linkedList = 0 := h.nodes
      rw [if_pos hnull]
      rfl
  | cons e es =>
      obtain ⟨hlist, hnull, hseg, hout⟩ := h.ring
      rw [if_neg hnull, iterateFrom_segment hseg hout n (by simpa using hn), hlist]
      rfl

/-- In the ring `next` and `prev` stay among the nodes and are inverse to each other. -/
lemma Appended.inverse {s : LinkedList} {entries : List (UInt32 × UInt32)} (h : Appended s entries) :
    ∀ a ∈ entries.map Prod.fst,
      (s.mem a).next ∈ entries.map Prod.fst ∧ (s.mem (s.mem a).next).prev = a ∧
      (s.mem a).prev ∈ entries.map Prod.fst ∧ (s.mem (s.mem a).prev).next = a := by
  intro a ha
  cases entries with
  | nil => simp at ha
  | cons e es =>
      obtain ⟨-, hseg⟩ := h.nodes
      -- the first node is the end of the segment as well
      have hturn : ∀ x, x ∈ es.map Prod.fst ++ [e.1] ↔ x ∈ e.1 :: es.map Prod.fst := by
        intro x
        rw [List.mem_append, List.mem_singleton, List.mem_cons, or_comm]
      obtain ⟨hnext, hback⟩ := hseg.next_inverse a ha
      obtain ⟨hprev, hforth⟩ := hseg.prev_inverse a ((hturn a).mpr ha)
      exact ⟨(hturn _).mp hnext, hback, hprev, hforth⟩

/-! ## Runs -/

/-- The calls of `add_to_list` of a run, each with the result of its `malloc` and its payload. -/
def run (s : LinkedList) (calls : List (UInt32 × UInt32)) : LinkedList :=
  calls.foldl (fun t c => (t.addToList c.1 c.2).2) s

/-- The calls whose `malloc` did not fail. -/
def successful (calls : List (UInt32 × UInt32)) : List (UInt32 × UInt32) :=
  calls.filter fun c => c.1 ≠ 0

/-- **A run appends its successful calls**, by induction on the calls. -/
theorem Appended.run {s : LinkedList} {earlier : List (UInt32 × UInt32)} (h : Appended s earlier)
    {calls : List (UInt32 × UInt32)}
    (hfresh : ((earlier ++ successful calls).map Prod.fst).Nodup) :
    Appended (s.run calls) (earlier ++ successful calls) := by
  induction calls generalizing s earlier with
  | nil => rwa [successful, List.filter_nil, List.append_nil]
  | cons c cs ih =>
      show Appended (LinkedList.run (s.addToList c.1 c.2).2 cs) _
      by_cases hc : c.1 = 0
      · have hskip : successful (c :: cs) = successful cs :=
          List.filter_cons_of_neg (by simpa using hc)
        have hsame : (s.addToList c.1 c.2).2 = s := by
          rw [addToList, if_pos hc]
        rw [hskip] at hfresh ⊢
        rw [hsame]
        exact ih h hfresh
      · have hkeep : successful (c :: cs) = c :: successful cs :=
          List.filter_cons_of_pos (by simpa using hc)
        rw [hkeep, List.append_cons] at hfresh ⊢
        have hnew : c.1 ∉ earlier.map Prod.fst := by
          rw [List.map_append, List.map_append] at hfresh
          intro hmem
          have hdisj := (List.nodup_append.mp (List.nodup_append.mp hfresh).1).2.2
          exact hdisj c.1 hmem c.1 (List.mem_singleton_self _) rfl
        exact ih (h.add hc hnew c.2).2 hfresh

end LinkedList

open LinkedList

/-- **The list is an append-only sequence.**  Start with the list pointer `NULL` and make any calls of
`add_to_list`, where every `malloc` fails or returns a node that no earlier call returned.  Then `next`
and `prev` are inverse to each other on the nodes; `iterate_over_list` ends after visiting the nodes of
the successful calls once each, in the order of the calls, with their payloads; `length` is their
number; and one more call returns `-1` and changes nothing if its `malloc` fails, and `0` otherwise. -/
theorem append_only (mem : UInt32 → LinkedListItem) {calls : List (UInt32 × UInt32)}
    (hfresh : ((successful calls).map Prod.fst).Nodup) :
    let s := LinkedList.run ⟨mem, 0⟩ calls
    let nodes := (successful calls).map Prod.fst
    (∀ a ∈ nodes, (s.mem a).next ∈ nodes ∧ (s.mem (s.mem a).next).prev = a ∧
      (s.mem a).prev ∈ nodes ∧ (s.mem (s.mem a).prev).next = a) ∧
    (∀ n, nodes.length ≤ n → s.iterateOverList n = some nodes ∧ s.length n = some nodes.length) ∧
    nodes.map (fun a => (s.mem a).payload) = (successful calls).map Prod.snd ∧
    (∀ payload, s.addToList 0 payload = (-1, s)) ∧
    ∀ ptr payload, ptr ≠ 0 → (s.addToList ptr payload).1 = 0 := by
  have hstart : Appended ⟨mem, 0⟩ [] := by
    refine ⟨rfl, List.nodup_nil, ?_, ?_⟩
    · intro e he
      simp at he
    · intro e he
      simp at he
  have h : Appended (LinkedList.run ⟨mem, 0⟩ calls) ([] ++ successful calls) := hstart.run hfresh
  rw [List.nil_append] at h
  refine ⟨h.inverse, fun n hn => ?_, ?_, fun payload => rfl, fun ptr payload hptr => ?_⟩
  · rw [List.length_map] at hn ⊢
    exact ⟨h.iterateOverList hn, h.length hn⟩
  · rw [List.map_map]
    exact List.map_congr_left fun e he => h.payload e he
  · unfold addToList
    rw [if_neg hptr]
    split_ifs
    · rfl
    · rfl

/-- Four calls, the second of which finds no memory. -/
theorem append_only_example :
    let s := LinkedList.run ⟨fun _ => ⟨0, 0, 0⟩, 0⟩
      [(0x3200008, 11), (0, 12), (0x3200028, 13), (0x3200048, 14)]
    s.iterateOverList 3 = some [0x3200008, 0x3200028, 0x3200048] ∧ s.length 3 = some 3 := by
  have hfresh : ((successful [(0x3200008, 11), (0, 12), (0x3200028, 13), (0x3200048, 14)]).map
      Prod.fst).Nodup := by decide
  exact (append_only (fun _ => ⟨0, 0, 0⟩) hfresh).2.1 3 (by decide)

end GrubKernel
