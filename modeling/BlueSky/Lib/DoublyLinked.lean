import Mathlib.Data.List.Induction
import Mathlib.Data.List.Nodup
import Mathlib.Logic.Function.Basic

/-!
# Doubly linked lists in a heap

Nodes with two links at the addresses of a heap.  A segment of a list is described by the addresses
and the data of its nodes, and by the addresses before and behind it.  The operations of GLib on
lists give no result if they follow a link to an address without a node.

Main results:

- Theorem {lit}`segment_append`: a segment in two parts.
- Theorem {lit}`Segment.setNext`, {lit}`Segment.setPrev`: what the writes to the links at the ends
  of a segment do.
- Theorem {lit}`IsList.prepend`, {lit}`IsList.deleteLink`: a list with a node more or less.
- Theorem {lit}`IsList.walks`: the links lead through all nodes, in both directions.
-/

namespace DoublyLinkedLib

open Function List Option

variable {α δ : Type*}

/-- A node. -/
structure Node (α δ : Type*) where
  prev : Option α
  next : Option α
  data : δ
deriving DecidableEq, Repr

/-- The nodes at the addresses of a heap. -/
abbrev Heap (α δ : Type*) := α → Option (Node α δ)

/-! ## Segments -/

/-- The address of the first node, or the one behind the segment. -/
def firstOr (behind : Option α) : List (α × δ) → Option α
  | [] => behind
  | item :: _ => some item.1

/-- The address of the last node, or the one before the segment. -/
def lastOr (before : Option α) : List (α × δ) → Option α
  | [] => before
  | item :: items => lastOr (some item.1) items

/-- The nodes of a segment. -/
def Segment (h : Heap α δ) (before behind : Option α) : List (α × δ) → Prop
  | [] => True
  | item :: items =>
    h item.1 = some ⟨before, firstOr behind items, item.2⟩ ∧ Segment h (some item.1) behind items

variable {h h' : Heap α δ} {before behind : Option α} {l m : List (α × δ)}

theorem firstOr_append : firstOr behind (l ++ m) = firstOr (firstOr behind m) l := by
  cases l with
  | nil => rfl
  | cons item l => rfl

theorem lastOr_append : lastOr before (l ++ m) = lastOr (lastOr before l) m := by
  induction l generalizing before with
  | nil => rfl
  | cons item l ih => exact ih

/-- A segment in two parts. -/
theorem segment_append :
    Segment h before behind (l ++ m) ↔
      Segment h before (firstOr behind m) l ∧ Segment h (lastOr before l) behind m := by
  induction l generalizing before with
  | nil => simp [Segment, lastOr]
  | cons item l ih =>
    rw [cons_append, Segment, ih, firstOr_append, Segment, lastOr, and_assoc]

/-- A segment depends on the heap only at its addresses. -/
theorem Segment.congr (hl : Segment h before behind l)
    (heq : ∀ a ∈ l.map Prod.fst, h' a = h a) : Segment h' before behind l := by
  induction l generalizing before with
  | nil => trivial
  | cons item l ih =>
    refine ⟨(heq _ mem_cons_self).trans hl.1, ih hl.2 ?_⟩
    exact fun a ha => heq a (mem_cons_of_mem _ ha)

variable {a : α}

/-- There are nodes at the addresses of a segment. -/
theorem Segment.ne_none (hl : Segment h before behind l) (ha : a ∈ l.map Prod.fst) :
    h a ≠ none := by
  induction l generalizing before with
  | nil => cases ha
  | cons item l ih =>
    rcases mem_cons.mp ha with rfl | ha
    · rw [hl.1]
      exact some_ne_none _
    · exact ih hl.2 ha

/-- A complete list is empty exactly if it has no first node, or no last one. -/
theorem firstOr_eq_none : firstOr none l = none ↔ l = [] := by
  cases l with
  | nil => simp [firstOr]
  | cons item l => simp [firstOr]

theorem lastOr_eq_none : lastOr none l = none ↔ l = [] := by
  rcases eq_nil_or_concat l with rfl | ⟨front, item, rfl⟩
  · simp [lastOr]
  · simp [lastOr_append, lastOr]

/-- The nodes that a walk along one of the links visits. -/
def walk (link : Node α δ → Option α) (h : Heap α δ) : Nat → Option α → List (α × δ)
  | 0, _ => []
  | _ + 1, none => []
  | fuel + 1, some a =>
    match h a with
    | none => []
    | some node => (a, node.data) :: walk link h fuel (link node)

variable {fuel : Nat}

theorem walk_next (hl : Segment h before none l) (hfuel : l.length ≤ fuel) :
    walk Node.next h fuel (firstOr none l) = l := by
  induction l generalizing before fuel with
  | nil => cases fuel <;> rfl
  | cons item l ih =>
    cases fuel with
    | zero => cases hfuel
    | succ fuel =>
      rw [firstOr, walk, hl.1]
      exact congrArg _ (ih hl.2 (Nat.le_of_succ_le_succ hfuel))

theorem walk_prev (hl : Segment h none behind l) (hfuel : l.length ≤ fuel) :
    walk Node.prev h fuel (lastOr none l) = l.reverse := by
  induction l using List.reverseRecOn generalizing behind fuel with
  | nil => cases fuel <;> rfl
  | append_singleton l item ih =>
    rw [length_append, length_singleton] at hfuel
    rcases segment_append.mp hl with ⟨hinit, hitem, -⟩
    cases fuel with
    | zero => cases hfuel
    | succ fuel =>
      rw [lastOr_append, lastOr, lastOr, walk, hitem, reverse_append]
      exact congrArg _ (ih hinit (Nat.le_of_succ_le_succ hfuel))

/-! ## Lists -/

/-- A head with links to both ends of a list. -/
structure Head (α : Type*) where
  prev : Option α
  next : Option α
deriving DecidableEq, Repr

/-- The head and the heap represent a list of data, each at an address. -/
structure IsList (h : Heap α δ) (head : Head α) (l : List (α × δ)) : Prop where
  segment : Segment h none none l
  next : head.next = firstOr none l
  prev : head.prev = lastOr none l
  nodup : (l.map Prod.fst).Nodup

variable {head : Head α}

theorem IsList.congr (hl : IsList h head l) (heq : ∀ a ∈ l.map Prod.fst, h' a = h a) :
    IsList h' head l :=
  ⟨hl.segment.congr heq, hl.next, hl.prev, hl.nodup⟩

theorem IsList.not_mem (hl : IsList h head l) (ha : h a = none) : a ∉ l.map Prod.fst :=
  fun hmem => hl.segment.ne_none hmem ha

/-- The links lead through all nodes, in both directions. -/
theorem IsList.walks (hl : IsList h head l) (hfuel : l.length ≤ fuel) :
    walk Node.next h fuel head.next = l ∧ walk Node.prev h fuel head.prev = l.reverse := by
  rw [hl.next, hl.prev]
  exact ⟨walk_next hl.segment hfuel, walk_prev hl.segment hfuel⟩

variable [DecidableEq α]

/-! ## Links -/

/-- Write the link to the next node, unless the pointer is null. -/
def setNext (h : Heap α δ) : Option α → Option α → Option (Heap α δ)
  | none, _ => some h
  | some a, link => (h a).map fun node => update h a (some { node with next := link })

/-- Write the link to the previous node, unless the pointer is null. -/
def setPrev (h : Heap α δ) : Option α → Option α → Option (Heap α δ)
  | none, _ => some h
  | some a, link => (h a).map fun node => update h a (some { node with prev := link })

theorem Segment.update (hl : Segment h before behind l) (ha : a ∉ l.map Prod.fst)
    (node : Option (Node α δ)) : Segment (update h a node) before behind l := by
  refine hl.congr fun b hb => update_of_ne ?_ _ _
  rintro rfl
  exact ha hb

/-- The last node of the first part of a list gets another successor. -/
theorem Segment.setNext (hl : Segment h none behind l) (hnodup : (l.map Prod.fst).Nodup)
    (link : Option α) :
    ∃ h', setNext h (lastOr none l) link = some h' ∧ Segment h' none link l ∧
      ∀ a ∉ l.map Prod.fst, h' a = h a := by
  rcases eq_nil_or_concat l with rfl | ⟨front, item, rfl⟩
  · exact ⟨h, rfl, trivial, fun _ _ => rfl⟩
  rw [concat_eq_append] at *
  rcases segment_append.mp hl with ⟨hfront, hitem, -⟩
  rw [map_append, nodup_append'] at hnodup
  have hnot : item.1 ∉ front.map Prod.fst := fun hmem => hnodup.2.2 hmem mem_cons_self
  rw [lastOr_append, lastOr, lastOr, DoublyLinkedLib.setNext, hitem]
  refine ⟨_, rfl, segment_append.mpr ⟨hfront.update hnot _, update_self _ _ _, trivial⟩, ?_⟩
  intro a ha
  refine update_of_ne ?_ _ _
  rintro rfl
  simp at ha

/-- The first node of the last part of a list gets another predecessor. -/
theorem Segment.setPrev (hl : Segment h before none l) (hnodup : (l.map Prod.fst).Nodup)
    (link : Option α) :
    ∃ h', setPrev h (firstOr none l) link = some h' ∧ Segment h' link none l ∧
      ∀ a ∉ l.map Prod.fst, h' a = h a := by
  cases l with
  | nil => exact ⟨h, rfl, trivial, fun _ _ => rfl⟩
  | cons item l =>
    rw [map_cons, nodup_cons] at hnodup
    rw [firstOr, DoublyLinkedLib.setPrev, hl.1]
    refine ⟨_, rfl, ⟨update_self _ _ _, hl.2.update hnodup.1 _⟩, ?_⟩
    intro a ha
    refine update_of_ne ?_ _ _
    rintro rfl
    simp at ha

/-! ## Operations -/

/-- `g_list_prepend`, where the new node gets an address. -/
def gListPrepend (h : Heap α δ) (list : Option α) (data : δ) (addr : α) : Option (Heap α δ) :=
  match list with
  | none => some (update h addr (some ⟨none, none, data⟩))
  | some first =>
    (h first).bind fun node =>
      (setNext (update h addr (some ⟨node.prev, list, data⟩)) node.prev (some addr)).bind
        fun h => setPrev h list (some addr)

/-- `g_list_delete_link`: the heap and the new start of the list. -/
def gListDeleteLink (h : Heap α δ) (list : Option α) (link : α) :
    Option (Heap α δ × Option α) :=
  (h link).bind fun node =>
    (setNext h node.prev node.next).bind fun h =>
      (setPrev h node.next node.prev).map fun h =>
        (update h link none, if list = some link then node.next else list)

/-- `g_list_last`; the fuel bounds the number of nodes. -/
def gListLast (h : Heap α δ) : Nat → α → α
  | 0, a => a
  | fuel + 1, a =>
    match (h a).bind Node.next with
    | none => a
    | some b => gListLast h fuel b

namespace IsList

variable {head : Head α}

/-- A list with one more node at its start. -/
theorem prepend (hl : IsList h head l) (data : δ) {addr : α} (haddr : addr ∉ l.map Prod.fst) :
    ∃ h', gListPrepend h head.next data addr = some h' ∧
      Segment h' none none ((addr, data) :: l) ∧
      ∀ a ∉ ((addr, data) :: l).map Prod.fst, h' a = h a := by
  rw [hl.next]
  cases l with
  | nil =>
    refine ⟨_, rfl, ⟨update_self _ _ _, trivial⟩, ?_⟩
    intro a ha
    exact update_of_ne (by simpa using ha) _ _
  | cons item l =>
    have hnew := hl.segment.update haddr (some ⟨none, some item.1, data⟩)
    rcases hnew.setPrev hl.nodup (some addr) with ⟨h', hset, hsegment, hframe⟩
    rw [firstOr, gListPrepend, hl.segment.1]
    refine ⟨h', hset, ⟨?_, hsegment⟩, ?_⟩
    · rw [hframe addr haddr, update_self]
      rfl
    · intro a ha
      rw [map_cons, mem_cons, not_or] at ha
      rw [hframe a ha.2, update_of_ne ha.1]

/-- A list without one of its nodes, which is freed. -/
theorem deleteLink {pre post : List (α × δ)} {item : α × δ}
    (hl : IsList h head (pre ++ item :: post)) :
    ∃ h', gListDeleteLink h head.next item.1 = some (h', firstOr none (pre ++ post)) ∧
      h item.1 = some ⟨lastOr none pre, firstOr none post, item.2⟩ ∧
      Segment h' none none (pre ++ post) ∧ h' item.1 = none ∧
      ∀ a ∉ (pre ++ item :: post).map Prod.fst, h' a = h a := by
  have hnodup := hl.nodup
  rw [map_append, map_cons, nodup_append', nodup_cons] at hnodup
  rcases hnodup with ⟨hpre, ⟨hitem, hpost⟩, hdisjoint⟩
  have hitem' : item.1 ∉ pre.map Prod.fst := fun hmem => hdisjoint hmem mem_cons_self
  rcases segment_append.mp hl.segment with ⟨hfront, hnode, hrest⟩
  rcases hfront.setNext hpre (firstOr none post) with ⟨h₁, hset₁, hfront₁, hframe₁⟩
  have hrest₁ : Segment h₁ (some item.1) none post :=
    hrest.congr fun a ha => hframe₁ a fun hmem => hdisjoint hmem (mem_cons_of_mem _ ha)
  rcases hrest₁.setPrev hpost (lastOr none pre) with ⟨h₂, hset₂, hrest₂, hframe₂⟩
  have hfront₂ : Segment h₂ none (firstOr none post) pre :=
    hfront₁.congr fun a ha => hframe₂ a fun hmem => hdisjoint ha (mem_cons_of_mem _ hmem)
  have hlist : (if firstOr none (pre ++ item :: post) = some item.1 then firstOr none post
      else firstOr none (pre ++ item :: post)) = firstOr none (pre ++ post) := by
    cases pre with
    | nil => exact if_pos rfl
    | cons first pre =>
      rw [map_cons, mem_cons, not_or] at hitem'
      exact if_neg fun heq => hitem'.1 (some.inj heq).symm
  refine ⟨update h₂ item.1 none, ?_, hnode,
    segment_append.mpr ⟨hfront₂.update hitem' _, hrest₂.update hitem _⟩, update_self _ _ _,
    ?_⟩
  · rw [gListDeleteLink, hnode, bind_some, hset₁, bind_some, hset₂, map_some, hl.next, hlist]
  · intro a ha
    rw [map_append, map_cons, mem_append, mem_cons, not_or, not_or] at ha
    rw [update_of_ne ha.2.1, hframe₂ a ha.2.2, hframe₁ a ha.1]

end IsList

end DoublyLinkedLib
