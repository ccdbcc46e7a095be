import GrubKernel.Collections.LinkedList

/-!
# Deleting a list

`delete_list` cuts the ring open behind its last node and goes along it with a cursor; each node is freed
when the cursor stands on the next one.  From then on the heap may use the node for links of its own, so
what `free` writes is left open here, except that it spares the nodes of the list not freed so far.

* `NodeEvent`, `Deletion` — the accesses to the nodes and the calls of `free`, in order.
* `deleteList` — the operation.  Its loop gets a bound on the rounds.
* `Deleting` — what holds between two steps: no freed node was touched again.
* **`delete_list_frees_once`** — the nodes of the list are freed once each, and not touched afterwards.
-/

namespace GrubKernel

open LinkRing LinkedList

/-- A read or a write of a field of a node, or a call of `free`. -/
inductive NodeEvent where
  | access (node : UInt32)
  | free (node : UInt32)
deriving DecidableEq

/-- The list, and what has been done to its nodes. -/
structure Deletion where
  list : LinkedList
  events : List NodeEvent

/-- The nodes freed, in order. -/
def freedNodes (events : List NodeEvent) : List UInt32 :=
  events.filterMap fun e =>
    match e with
    | .access _ => none
    | .free a => some a

namespace Deletion

/-! ## The operation -/

/-- `a->next`. -/
def loadNext (d : Deletion) (a : UInt32) : UInt32 × Deletion :=
  ((d.list.mem a).next, { d with events := d.events ++ [.access a] })

/-- `a->prev`. -/
def loadPrev (d : Deletion) (a : UInt32) : UInt32 × Deletion :=
  ((d.list.mem a).prev, { d with events := d.events ++ [.access a] })

/-- `a->next = b`. -/
def storeNext (d : Deletion) (a b : UInt32) : Deletion :=
  ⟨d.list.storeNext a b, d.events ++ [.access a]⟩

/-- `a->prev = b`. -/
def storePrev (d : Deletion) (a b : UInt32) : Deletion :=
  ⟨d.list.storePrev a b, d.events ++ [.access a]⟩

section Operation

variable (heapFree : List UInt32 → (UInt32 → LinkedListItem) → UInt32 → LinkedListItem)

/-- `free(a)`.  The heap is told which nodes it has got back, and leaves a memory. -/
def free (d : Deletion) (a : UInt32) : Deletion :=
  let events := d.events ++ [.free a]
  ⟨{ d.list with mem := heapFree (freedNodes events) d.list.mem }, events⟩

/-- `*linked_list = NULL`. -/
def clear (d : Deletion) : Deletion := { d with list := { d.list with linkedList := 0 } }

/-- The loop of `delete_list`, for at most `n` rounds.  It returns the cursor. -/
def deleteFrom : ℕ → UInt32 → Deletion → Option (UInt32 × Deletion)
  | 0, _, _ => none
  | n + 1, ptr, d =>
      let (next, d) := d.loadNext ptr
      if next ≠ 0 then
        let (ptr, d) := d.loadNext ptr
        -- once for the message and once for the call
        let (_, d) := d.loadPrev ptr
        let (prev, d) := d.loadPrev ptr
        let d := d.free heapFree prev
        deleteFrom n ptr (d.storePrev ptr 0)
      else some (ptr, d)

/-- `delete_list`. -/
def deleteList (n : ℕ) (d : Deletion) : Option Deletion :=
  if d.list.linkedList = 0 then some d
  else
    let (next, d) := d.loadNext d.list.linkedList
    if next = d.list.linkedList then
      let d := d.free heapFree d.list.linkedList
      some d.clear
    else
      let ptr := d.list.linkedList
      let (prev, d) := d.loadPrev ptr
      let d := d.storeNext prev 0
      let d := d.storePrev ptr 0
      (deleteFrom heapFree n ptr d).map fun (ptr, d) => (d.free heapFree ptr).clear

end Operation

end Deletion

/-! ## Events -/

/-- No node is accessed after it has been freed. -/
def NoUseAfterFree (events : List NodeEvent) : Prop :=
  events.Pairwise fun e e' => ∀ a, e = .free a → e' ≠ .access a

@[simp] lemma freedNodes_append (es es' : List NodeEvent) :
    freedNodes (es ++ es') = freedNodes es ++ freedNodes es' := List.filterMap_append

@[simp] lemma freedNodes_access (a : UInt32) : freedNodes [.access a] = [] := rfl

@[simp] lemma freedNodes_free (a : UInt32) : freedNodes [.free a] = [a] := rfl

lemma mem_freedNodes {es : List NodeEvent} {a : UInt32} : a ∈ freedNodes es ↔ .free a ∈ es := by
  unfold freedNodes
  rw [List.mem_filterMap]
  constructor
  · rintro ⟨e, he, heq⟩
    cases e with
    | access b => simp at heq
    | free b =>
        obtain rfl := Option.some.inj heq
        exact he
  · intro h
    exact ⟨.free a, h, rfl⟩

lemma NoUseAfterFree.access {es : List NodeEvent} (h : NoUseAfterFree es) {a : UInt32}
    (ha : a ∉ freedNodes es) : NoUseAfterFree (es ++ [.access a]) := by
  refine List.pairwise_append.mpr ⟨h, List.pairwise_singleton _ _, fun e he e' he' b hb heq => ?_⟩
  obtain rfl := List.mem_singleton.mp he'
  obtain rfl := NodeEvent.access.inj heq
  exact ha (mem_freedNodes.mpr (hb ▸ he))

lemma NoUseAfterFree.free {es : List NodeEvent} (h : NoUseAfterFree es) (a : UInt32) :
    NoUseAfterFree (es ++ [.free a]) := by
  refine List.pairwise_append.mpr ⟨h, List.pairwise_singleton _ _, fun e he e' he' b hb heq => ?_⟩
  obtain rfl := List.mem_singleton.mp he'
  simp at heq

/-- What `free` leaves of the memory: those of the nodes that it has not got back. -/
def KeepsNodes (heapFree : List UInt32 → (UInt32 → LinkedListItem) → UInt32 → LinkedListItem)
    (nodes : List UInt32) : Prop :=
  ∀ freed mem, ∀ a ∈ nodes, a ∉ freed → heapFree freed mem a = mem a

/-! ## The loop -/

/-- The nodes `freed` are freed and were not touched afterwards; the cursor stands on `a`, and from there
the ring is cut open into a chain over `as`. -/
structure Deleting (freed : List UInt32) (a : UInt32) (as : List UInt32) (d : Deletion) : Prop where
  clean : NoUseAfterFree d.events
  freed_eq : freedNodes d.events = freed
  chain : Chain 0 d.list.links a as
  nodup : (freed ++ a :: as).Nodup
  ne_null : ∀ x ∈ as, x ≠ 0

variable {heapFree : List UInt32 → (UInt32 → LinkedListItem) → UInt32 → LinkedListItem}
variable {nodes : List UInt32}

/-- Reading a node that is not freed. -/
lemma Deleting.read {freed as : List UInt32} {a x : UInt32} {d : Deletion} (h : Deleting freed a as d)
    (hx : x ∉ freed) : Deleting freed a as ⟨d.list, d.events ++ [NodeEvent.access x]⟩ := by
  refine ⟨?_, ?_, h.chain, h.nodup, h.ne_null⟩
  · exact h.clean.access (h.freed_eq ▸ hx)
  · show freedNodes (d.events ++ [NodeEvent.access x]) = freed
    rw [freedNodes_append, h.freed_eq, freedNodes_access, List.append_nil]

/-- **One round frees the node behind the cursor.** -/
lemma Deleting.round (hfree : KeepsNodes heapFree nodes) {freed as : List UInt32} {a b : UInt32}
    {d : Deletion} (h : Deleting freed a (b :: as) d) (hnodes : ∀ x ∈ b :: as, x ∈ nodes) :
    Deleting (freed ++ [a]) b as ((d.free heapFree a).storePrev b 0) := by
  have hnodup := h.nodup
  rw [List.append_cons] at hnodup
  have hnotin : ∀ x ∈ b :: as, x ∉ freed ++ [a] := by
    intro x hx hmem
    exact (List.nodup_append.mp hnodup).2.2 x hmem x hx rfl
  have hfreed : freedNodes (d.events ++ [NodeEvent.free a]) = freed ++ [a] := by
    rw [freedNodes_append, h.freed_eq, freedNodes_free]
  have hmem : ∀ x ∈ b :: as, (d.free heapFree a).list.mem x = d.list.mem x := by
    intro x hx
    show heapFree (freedNodes (d.events ++ [NodeEvent.free a])) d.list.mem x = _
    rw [hfreed, hfree _ _ x (hnodes x hx) (hnotin x hx)]
  obtain ⟨-, hrest⟩ := h.chain
  have hnodup' : (b :: as).Nodup := (List.nodup_append.mp hnodup).2.1
  refine ⟨?_, ?_, hrest.congr (fun x hx => ?_) fun x hx => ?_, hnodup,
    fun x hx => h.ne_null x (List.mem_cons_of_mem b hx)⟩
  · refine (h.clean.free a).access ?_
    rw [hfreed]
    exact hnotin b List.mem_cons_self
  · show freedNodes (d.events ++ [NodeEvent.free a] ++ [NodeEvent.access b]) = freed ++ [a]
    rw [freedNodes_append, hfreed, freedNodes_access, List.append_nil]
  · show ((LinkedList.storePrev _ b 0).links x).next = _
    rw [LinkedList.links_storePrev, setPrev_next]
    exact congrArg LinkedListItem.next (hmem x hx)
  · have hne : x ≠ b := fun heq => (List.nodup_cons.mp hnodup').1 (heq ▸ hx)
    show ((LinkedList.storePrev _ b 0).links x).prev = _
    rw [LinkedList.links_storePrev, setPrev_prev, if_neg hne]
    exact congrArg LinkedListItem.prev (hmem x (List.mem_cons_of_mem b hx))

/-- **The loop frees every node but the last**, by induction on the nodes that are left. -/
lemma deleteFrom_spec (hfree : KeepsNodes heapFree nodes) (as : List UInt32) :
    ∀ (freed : List UInt32) (a : UInt32) (d : Deletion) (n : ℕ), Deleting freed a as d →
      (∀ x ∈ as, x ∈ nodes) → as.length < n →
      ∃ freed' last d', d.deleteFrom heapFree n a = some (last, d') ∧ Deleting freed' last [] d' ∧
        freed' ++ [last] = freed ++ a :: as := by
  induction as with
  | nil =>
      intro freed a d n h _ hn
      obtain ⟨m, rfl⟩ : ∃ m, n = m + 1 := ⟨n - 1, by simp at hn; omega⟩
      have ha : a ∉ freed := fun hmem => (List.nodup_append.mp h.nodup).2.2 a hmem a (by simp) rfl
      have hnext : (d.list.mem a).next = 0 := h.chain
      refine ⟨freed, a, _, ?_, h.read ha, rfl⟩
      rw [Deletion.deleteFrom]
      simp [Deletion.loadNext, hnext]
  | cons b as ih =>
      intro freed a d n h hnodes hn
      obtain ⟨m, rfl⟩ : ∃ m, n = m + 1 := ⟨n - 1, by simp at hn; omega⟩
      have hout := (List.nodup_append.mp h.nodup).2.2
      have ha : a ∉ freed := fun hmem => hout a hmem a (by simp) rfl
      have hb : b ∉ freed := fun hmem => hout b hmem b (by simp) rfl
      have hnext : (d.list.mem a).next = b := h.chain.1.1
      have hprev : (d.list.mem b).prev = a := h.chain.1.2
      have hnull : b ≠ 0 := h.ne_null b List.mem_cons_self
      -- the reads of the round: the condition and the step at `a`, the two at `b`
      have hread := (((h.read ha).read ha).read hb).read hb
      obtain ⟨d', hd'⟩ : ∃ d' : Deletion,
          d' = ⟨d.list, d.events ++ [NodeEvent.access a] ++ [NodeEvent.access a] ++ [NodeEvent.access b]
            ++ [NodeEvent.access b]⟩ := ⟨_, rfl⟩
      have hstep : d.deleteFrom heapFree (m + 1) a
          = ((d'.free heapFree a).storePrev b 0).deleteFrom heapFree m b := by
        rw [Deletion.deleteFrom, hd']
        simp only [Deletion.loadNext, Deletion.loadPrev, hnext, hprev, ne_eq, hnull, not_false_eq_true,
          if_true]
      rw [← hd'] at hread
      obtain ⟨freed', last, d'', hrun, hlast, hall⟩ := ih (freed ++ [a]) b _ m
        (hread.round hfree hnodes) (fun x hx => hnodes x (List.mem_cons_of_mem b hx)) (by simpa using hn)
      refine ⟨freed', last, d'', by rw [hstep, hrun], hlast, ?_⟩
      rw [hall, List.append_assoc, List.singleton_append]

/-! ## The whole list -/

/-- The ring cut open behind its last node. -/
lemma deleting_cut {s : LinkedList} {a : UInt32} {as : List UInt32} (hseg : Segment s.links a as a)
    (hnodup : (a :: as).Nodup) (hnull : ∀ x ∈ as, x ≠ 0) {events : List NodeEvent}
    (hclean : NoUseAfterFree events) (hfreed : freedNodes events = []) :
    Deleting [] a as ⟨(s.storeNext (s.mem a).prev 0).storePrev a 0, events⟩ := by
  have hlinks : ((s.storeNext (s.mem a).prev 0).storePrev a 0).links
      = setPrev (setNext s.links (s.links a).prev 0) a 0 := by
    rw [LinkedList.links_storePrev, LinkedList.links_storeNext]
    rfl
  refine ⟨hclean, hfreed, ?_, hnodup, hnull⟩
  show Chain 0 ((s.storeNext (s.mem a).prev 0).storePrev a 0).links a as
  rw [hlinks]
  refine hseg.cut hnodup (fun x _ hx => ?_) (fun x hx => ?_) ?_
  · rw [setPrev_next, setNext_next, if_neg hx]
  · have hne : x ≠ a := fun heq => (List.nodup_cons.mp hnodup).1 (heq ▸ hx)
    rw [setPrev_prev, if_neg hne, setNext_prev]
  · rw [setPrev_next, setNext_next, if_pos rfl]

/-- **Deleting a list that holds a sequence of entries.** -/
lemma deleteList_spec {s : LinkedList} {entries : List (UInt32 × UInt32)} (h : s.Appended entries)
    (hfree : KeepsNodes heapFree (entries.map Prod.fst)) {n : ℕ} (hn : entries.length ≤ n) :
    ∃ d, Deletion.deleteList heapFree n ⟨s, []⟩ = some d ∧ NoUseAfterFree d.events ∧
      freedNodes d.events = entries.map Prod.fst ∧ d.list.linkedList = 0 := by
  have hnodes := h.nodes
  have hnodup := h.nodup
  have hnull : ∀ x ∈ entries.map Prod.fst, x ≠ 0 := by
    intro x hx
    obtain ⟨e, he, rfl⟩ := List.mem_map.mp hx
    exact h.ne_null e he
  have hlen : (entries.map Prod.fst).length ≤ n := by rwa [List.length_map]
  generalize entries.map Prod.fst = nodes at hfree hnodes hnodup hnull hlen ⊢
  rw [Deletion.deleteList]
  cases nodes with
  | nil =>
      have hempty : s.linkedList = 0 := hnodes
      rw [if_pos hempty]
      exact ⟨⟨s, []⟩, rfl, List.Pairwise.nil, rfl, hempty⟩
  | cons a as =>
      obtain ⟨hlist, hseg⟩ := hnodes
      have ha : s.linkedList ≠ 0 := by
        rw [hlist]
        exact hnull a List.mem_cons_self
      have hopen : NoUseAfterFree [NodeEvent.access a] := List.pairwise_singleton _ _
      rw [if_neg ha]
      simp only [Deletion.loadNext, hlist]
      cases as with
      | nil =>
          have hnext : (s.mem a).next = a := hseg.1
          rw [if_pos hnext]
          exact ⟨_, rfl, hopen.free a, rfl, rfl⟩
      | cons b as =>
          have hnext : (s.mem a).next = b := hseg.1.1
          have hne : ¬ b = a := fun heq => (List.nodup_cons.mp hnodup).1 (heq ▸ List.mem_cons_self)
          rw [hnext, if_neg hne]
          -- the accesses before the loop: the first node, its last neighbour, the first node again
          obtain ⟨events, hevents⟩ : ∃ events : List NodeEvent,
              events = [.access a, .access a, .access (s.mem a).prev, .access a] := ⟨_, rfl⟩
          have hclean : NoUseAfterFree events := by
            rw [hevents]
            exact ((hopen.access List.not_mem_nil).access List.not_mem_nil).access List.not_mem_nil
          have hnone : freedNodes events = [] := by
            rw [hevents]
            rfl
          have hcut := deleting_cut hseg hnodup (fun x hx => hnull x (List.mem_cons_of_mem a hx)) hclean
            hnone
          obtain ⟨freed', last, d, hrun, hdel, hall⟩ := deleteFrom_spec hfree (b :: as) [] a _ n hcut
            (fun x hx => List.mem_cons_of_mem a hx) hlen
          refine ⟨(d.free heapFree last).clear, ?_, hdel.clean.free last, ?_, rfl⟩
          · rw [hevents] at hrun
            show (Deletion.deleteFrom heapFree n a ⟨(s.storeNext (s.mem a).prev 0).storePrev a 0,
              [.access a, .access a, .access (s.mem a).prev, .access a]⟩).map _ = _
            rw [hrun]
            rfl
          · show freedNodes (d.events ++ [NodeEvent.free last]) = _
            rw [freedNodes_append, hdel.freed_eq, freedNodes_free, hall, List.nil_append]

/-- **A list is deleted node by node.**  Build a list by any calls of `add_to_list`, where every `malloc`
fails or returns a node that no earlier call returned, and let `free` write what it likes, but not to
the nodes that it has not got back.  Then `delete_list` ends, it has freed the nodes of the list once
each and nothing else, it has touched no node after freeing it, and the list pointer is `NULL`, so that
further calls build a new list of their own entries. -/
theorem delete_list_frees_once (mem : UInt32 → LinkedListItem) {calls : List (UInt32 × UInt32)}
    (hfresh : ((successful calls).map Prod.fst).Nodup)
    (hfree : KeepsNodes heapFree ((successful calls).map Prod.fst)) {n : ℕ} (hn : calls.length ≤ n) :
    ∃ d, Deletion.deleteList heapFree n ⟨LinkedList.run ⟨mem, 0⟩ calls, []⟩ = some d ∧
      freedNodes d.events = (successful calls).map Prod.fst ∧
      NoUseAfterFree d.events ∧ d.list.linkedList = 0 ∧
      ∀ calls' : List (UInt32 × UInt32), ((successful calls').map Prod.fst).Nodup →
        ∀ m, (successful calls').length ≤ m →
          (d.list.run calls').iterateOverList m = some ((successful calls').map Prod.fst) := by
  have hempty : ∀ t : LinkedList, t.linkedList = 0 → t.Appended [] := by
    intro t ht
    refine ⟨ht, List.nodup_nil, fun e he => ?_, fun e he => ?_⟩
    · simp at he
    · simp at he
  have hbuilt : (LinkedList.run ⟨mem, 0⟩ calls).Appended ([] ++ successful calls) :=
    (hempty ⟨mem, 0⟩ rfl).run hfresh
  have hcount : (successful calls).length ≤ n := le_trans (List.length_filter_le _ _) hn
  obtain ⟨d, hd, hclean, hfreed, hcleared⟩ := deleteList_spec hbuilt hfree hcount
  refine ⟨d, hd, hfreed, hclean, hcleared, fun calls' hfresh' m hm => ?_⟩
  have hagain : (d.list.run calls').Appended ([] ++ successful calls') :=
    (hempty d.list hcleared).run hfresh'
  exact hagain.iterateOverList hm

/-- Three nodes, and a heap that overwrites what it gets back. -/
theorem delete_list_frees_once_example :
    ∃ d, Deletion.deleteList (fun freed mem a => if a ∈ freed then ⟨0xBAD, 0xBAD, 0xBAD⟩ else mem a) 3
        ⟨LinkedList.run ⟨fun _ => ⟨0, 0, 0⟩, 0⟩ [(0x3200008, 1), (0x3200028, 2), (0x3200048, 3)], []⟩
        = some d ∧
      freedNodes d.events = [0x3200008, 0x3200028, 0x3200048] ∧ NoUseAfterFree d.events := by
  have hfresh : ((successful [(0x3200008, 1), (0x3200028, 2), (0x3200048, 3)]).map Prod.fst).Nodup := by
    decide
  obtain ⟨d, hd, hfreed, hclean, -⟩ := delete_list_frees_once (fun _ => ⟨0, 0, 0⟩) hfresh
    (fun freed mem a _ (ha : a ∉ freed) => if_neg ha) (show 3 ≤ 3 by decide)
  exact ⟨d, hd, hfreed, hclean⟩

end GrubKernel
