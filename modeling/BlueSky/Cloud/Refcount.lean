import BlueSky.Lib.Tables
import BlueSky.Lib.Transition
import Mathlib.Data.Fintype.Basic
import Mathlib.Tactic.SplitIfs

/-!
# Reference counts of log items

The steps of `bluesky_cloudlog_get`, `bluesky_cloudlog_ref` and `bluesky_cloudlog_unref`, taken
by any number of threads.  The thread that brings a count to zero takes the lock of the file
system, looks at the count again, removes the item from the hash table and frees it.  In
between, another thread can find the item in the table, and bring its count to zero once more:
then both threads remove and free it.

Objects are numbered in the order of their allocation and never reused, so that a step on an
object that has been freed can be told.  Counts are taken to stay below 2^31.

Main results:

- Theorem {lit}`refSound_of_reachable`: as long as no thread finds a count of zero while another
  one is about to look at the same count, objects are freed once, and only objects that are not
  freed are touched or referred to.
-/

namespace BlueSky

open Function List Option TableLib TransitionLib

variable {ι τ : Type}

/-! ## The system -/

/-- Where a thread is in `bluesky_cloudlog_unref`. -/
inductive UnrefCall where
  /-- It has brought the count to zero. -/
  | zero (obj : Nat)
  /-- It has found the count to be zero under the lock and removed the item from the table. -/
  | removed (obj : Nat)
deriving DecidableEq, Repr

/-- Objects, the hash table and the threads.  A reference is owned by a thread, or kept in a
data structure (owner {lean}`none`). -/
structure RefState (ι τ : Type) where
  next : Nat
  ids : Nat → Option ι
  refcount : Nat → Int
  freed : Nat → Bool
  owners : Nat → List (Option τ)
  locations : ι → Option Nat
  calls : τ → List UnrefCall

/-- No objects. -/
def RefState.initial : RefState ι τ where
  next := 0
  ids := fun _ => none
  refcount := fun _ => 0
  freed := fun _ => false
  owners := fun _ => []
  locations := fun _ => none
  calls := fun _ => []

/-- The steps of a thread. -/
inductive RefOp (ι : Type) where
  /-- `bluesky_cloudlog_new`. -/
  | new (id : ι)
  /-- `bluesky_cloudlog_insert`; ids of new items are random and not in the table. -/
  | insert (obj : Nat)
  /-- `bluesky_cloudlog_get`, under the lock of the file system. -/
  | get (id : ι)
  /-- `bluesky_cloudlog_ref`. -/
  | ref (obj : Nat)
  /-- A reference of the thread is put into a data structure. -/
  | store (obj : Nat)
  /-- The thread takes a reference out of a data structure, such as the links of an item that it
  is about to free. -/
  | take (obj : Nat)
  /-- The first step of `bluesky_cloudlog_unref`. -/
  | unref (obj : Nat)
  /-- The second one, under the lock of the file system. -/
  | recheck
  /-- The last one. -/
  | free
deriving DecidableEq, Repr

namespace RefState

/-- The thread is not waiting for the lock of the file system. -/
def working (calls : List UnrefCall) : Bool :=
  match calls with
  | .zero _ :: _ => false
  | _ => true

/-- The object whose count the thread has brought to zero, before it looks at it again. -/
def pending (s : RefState ι τ) (t : τ) : Option Nat :=
  match s.calls t with
  | .zero obj :: _ => some obj
  | _ => none

theorem mem_of_pending {s : RefState ι τ} {t : τ} {obj : Nat} (h : s.pending t = some obj) :
    .zero obj ∈ s.calls t := by
  rw [pending] at h
  split at h
  · rename_i obj' rest hcalls
    rw [hcalls, some_inj.mp h]
    exact mem_cons_self
  · cases h

/-- A new object with one reference. -/
def allocate (s : RefState ι τ) (t : τ) (id : ι) : RefState ι τ :=
  { s with
    next := s.next + 1
    ids := update s.ids s.next (some id)
    refcount := update s.refcount s.next 1
    owners := update s.owners s.next [some t] }

/-- One more reference to an object. -/
def addRef (s : RefState ι τ) (t : τ) (obj : Nat) : RefState ι τ :=
  { s with
    refcount := update s.refcount obj (s.refcount obj + 1)
    owners := update s.owners obj (some t :: s.owners obj) }

variable [DecidableEq τ]

/-- A reference changes hands. -/
def moveRef (s : RefState ι τ) (source target : Option τ) (obj : Nat) : RefState ι τ :=
  { s with owners := update s.owners obj (target :: (s.owners obj).erase source) }

/-- One reference of the thread less. -/
def dropRef (s : RefState ι τ) (t : τ) (obj : Nat) : RefState ι τ :=
  { s with
    refcount := update s.refcount obj (s.refcount obj - 1)
    owners := update s.owners obj ((s.owners obj).erase (some t))
    calls :=
      if s.refcount obj - 1 = 0 then
        update s.calls t (.zero obj :: s.calls t)
      else s.calls }

variable [DecidableEq ι]

/-- The entry of the table is removed. -/
def unlist (s : RefState ι τ) (obj : Nat) : ι → Option Nat :=
  match s.ids obj with
  | none => s.locations
  | some id => update s.locations id none

/-- One step of a thread. -/
def step (s : RefState ι τ) (e : τ × RefOp ι) : Option (RefState ι τ) :=
  let t := e.1
  match e.2 with
  | .new id => if s.calls t = [] then some (s.allocate t id) else none
  | .insert obj =>
    if s.calls t = [] ∧ some t ∈ s.owners obj then
      (s.ids obj).bind fun id =>
        if s.locations id = none then
          some { s with locations := update s.locations id (some obj) }
        else none
    else none
  | .get id =>
    if s.calls t = [] then
      match s.locations id with
      | some obj => some (s.addRef t obj)
      | none =>
        some { s.allocate t id with
          locations := update s.locations id (some s.next) }
    else none
  | .ref obj => if s.calls t = [] ∧ some t ∈ s.owners obj then some (s.addRef t obj) else none
  | .store obj =>
    if s.calls t = [] ∧ some t ∈ s.owners obj then some (s.moveRef (some t) none obj) else none
  | .take obj =>
    if working (s.calls t) ∧ none ∈ s.owners obj then some (s.moveRef none (some t) obj)
    else none
  | .unref obj =>
    if working (s.calls t) ∧ some t ∈ s.owners obj then some (s.dropRef t obj) else none
  | .recheck =>
    match s.calls t with
    | .zero obj :: rest =>
      if 0 < s.refcount obj then some { s with calls := update s.calls t rest }
      else
        some { s with
          locations := s.unlist obj
          calls := update s.calls t (.removed obj :: rest) }
    | _ => none
  | .free =>
    match s.calls t with
    | .removed obj :: rest =>
      some { s with
        freed := update s.freed obj true
        calls := update s.calls t rest }
    | _ => none

/-- The objects that a step reads or writes. -/
def touched (s : RefState ι τ) (e : τ × RefOp ι) : List Nat :=
  match e.2 with
  | .new _ => []
  | .insert obj => [obj]
  | .get id => (s.locations id).toList
  | .ref obj => [obj]
  | .store _ => []
  | .take _ => []
  | .unref obj => [obj]
  | .recheck => (s.pending e.1).toList
  | .free =>
    match s.calls e.1 with
    | .removed obj :: _ => [obj]
    | _ => []

end RefState

/-! ## The invariant -/

/-- The object has been freed, or is about to be. -/
def RefState.Gone (s : RefState ι τ) (obj : Nat) : Prop :=
  s.freed obj = true ∨ ∃ t, .removed obj ∈ s.calls t

/-- Counts are exact, the table holds objects that are not gone, and objects that are gone are
gone for one reason only. -/
structure RefInv (s : RefState ι τ) : Prop where
  counts : ∀ obj, s.refcount obj = (s.owners obj).length
  fresh : ∀ obj, s.next ≤ obj → s.owners obj = [] ∧ s.freed obj = false ∧
    ∀ t, .zero obj ∉ s.calls t ∧ .removed obj ∉ s.calls t
  listed : ∀ id obj, s.locations id = some obj → s.ids obj = some id ∧ obj < s.next ∧ ¬s.Gone obj
  gone : ∀ obj, s.Gone obj → s.owners obj = [] ∧ ∀ t, .zero obj ∉ s.calls t
  freed : ∀ obj, s.freed obj = true → ∀ t, .removed obj ∉ s.calls t
  unique : ∀ obj t t', .removed obj ∈ s.calls t → .removed obj ∈ s.calls t' → t = t'
  nodup : ∀ t, (s.calls t).Nodup
  tail : ∀ t, ∀ call ∈ (s.calls t).tail, ∃ obj, call = .removed obj

theorem refInv_initial : RefInv (RefState.initial : RefState ι τ) where
  counts := fun _ => rfl
  fresh := fun _ _ => ⟨rfl, rfl, by simp [RefState.initial]⟩
  listed := by simp [RefState.initial]
  gone := by simp [RefState.Gone, RefState.initial]
  freed := by simp [RefState.initial]
  unique := by simp [RefState.initial]
  nodup := by simp [RefState.initial]
  tail := by simp [RefState.initial]

namespace RefInv

variable {s s' : RefState ι τ}

variable {obj : Nat}

/-- An object with a reference is not gone. -/
theorem not_gone (h : RefInv s) {owner : Option τ} (howner : owner ∈ s.owners obj) :
    ¬s.Gone obj := by
  intro hgone
  rw [(h.gone obj hgone).1] at howner
  simp at howner

theorem lt_next (h : RefInv s) {owner : Option τ} (howner : owner ∈ s.owners obj) :
    obj < s.next := by
  by_contra hge
  rw [(h.fresh obj (not_lt.mp hge)).1] at howner
  simp at howner

variable {locations : ι → Option Nat}

/-- Steps that only add objects, references and entries of the table. -/
theorem of_refs (h : RefInv s) {next : Nat} {ids : Nat → Option ι} {refcount : Nat → Int}
    {owners : Nat → List (Option τ)} (hnext : s.next ≤ next)
    (hcounts : ∀ obj, refcount obj = (owners obj).length)
    (hfresh : ∀ obj, next ≤ obj → owners obj = []) (hgone : ∀ obj, s.Gone obj → owners obj = [])
    (hlisted : ∀ id obj, locations id = some obj → ids obj = some id ∧ obj < next ∧ ¬s.Gone obj) :
    RefInv { s with
      next := next, ids := ids, refcount := refcount, owners := owners, locations := locations } :=
  { h with
    counts := hcounts
    fresh := fun obj hobj => ⟨hfresh obj hobj, (h.fresh obj (hnext.trans hobj)).2⟩
    listed := hlisted
    gone := fun obj hobj => ⟨hgone obj hobj, (h.gone obj hobj).2⟩ }

theorem allocate (h : RefInv s) (t : τ) (id : ι) (hlocations : ∀ id' obj, locations id' = some obj →
      s.locations id' = some obj ∨ (id' = id ∧ obj = s.next)) :
    RefInv { s.allocate t id with locations := locations } := by
  have hnew : ¬s.Gone s.next := by
    rintro (hfreed | ⟨t, hcall⟩)
    · rw [(h.fresh s.next le_rfl).2.1] at hfreed
      cases hfreed
    · exact ((h.fresh s.next le_rfl).2.2 t).2 hcall
  refine h.of_refs (Nat.le_succ _) ?_ ?_ ?_ ?_
  · intro obj
    by_cases heq : obj = s.next
    · simp [RefState.allocate, heq]
    · simp only [RefState.allocate, update_of_ne heq]
      exact h.counts obj
  · intro obj hobj
    have hne : obj ≠ s.next := Nat.ne_of_gt hobj
    simp only [RefState.allocate, update_of_ne hne]
    exact (h.fresh obj (Nat.le_of_lt hobj)).1
  · intro obj hobj
    have hne : obj ≠ s.next := fun heq => hnew (heq ▸ hobj)
    simp only [RefState.allocate, update_of_ne hne]
    exact (h.gone obj hobj).1
  · intro id' obj hobj
    rcases hlocations id' obj hobj with hold | ⟨rfl, rfl⟩
    · rcases h.listed id' obj hold with ⟨hid, hlt, hgone⟩
      refine ⟨?_, Nat.lt_succ_of_lt hlt, hgone⟩
      simp only [RefState.allocate, update_of_ne (Nat.ne_of_lt hlt)]
      exact hid
    · exact ⟨by simp [RefState.allocate], Nat.lt_succ_self _, hnew⟩

/-- The references to one object change, and its count with them. -/
theorem of_owners (h : RefInv s) {owners : List (Option τ)} {count : Int} (hlt : obj < s.next)
    (hgone : ¬s.Gone obj) (hcount : count = owners.length) :
    RefInv { s with
      refcount := update s.refcount obj count
      owners := update s.owners obj owners } := by
  refine h.of_refs le_rfl ?_ ?_ ?_ h.listed
  · intro obj'
    by_cases heq : obj' = obj
    · simp [heq, hcount]
    · simp only [update_of_ne heq]
      exact h.counts obj'
  · intro obj' hobj'
    have hne : obj' ≠ obj := fun heq => absurd (heq ▸ hobj') (not_le.mpr hlt)
    simp only [update_of_ne hne]
    exact (h.fresh obj' hobj').1
  · intro obj' hobj'
    have hne : obj' ≠ obj := fun heq => hgone (heq ▸ hobj')
    simp only [update_of_ne hne]
    exact (h.gone obj' hobj').1

variable {t : τ}

/-- The calls of one thread change.  A call that waits is for an object that is not gone, and one
that frees was there before, or is the first one for an object without references. -/
theorem of_calls [DecidableEq τ] (h : RefInv s) {calls : List UnrefCall} {freed : Nat → Bool}
    (hzero : ∀ obj, .zero obj ∈ calls → obj < s.next ∧ ¬s.Gone obj ∧ .removed obj ∉ calls)
    (hremoved : ∀ obj, .removed obj ∈ calls → .removed obj ∈ s.calls t ∨
      obj < s.next ∧ ¬s.Gone obj ∧ s.owners obj = [] ∧ (∀ t', t' ≠ t → .zero obj ∉ s.calls t') ∧
        ∀ id, locations id ≠ some obj) (hfreed : ∀ obj, freed obj = true →
      s.freed obj = true ∨ .removed obj ∈ s.calls t ∧ .removed obj ∉ calls)
    (hlisted : ∀ id obj, locations id = some obj → s.locations id = some obj) (hnodup : calls.Nodup)
    (htail : ∀ call ∈ calls.tail, ∃ obj, call = .removed obj) :
    RefInv { s with
      freed := freed, locations := locations, calls := update s.calls t calls } := by
  have hfreedGone : ∀ obj, freed obj = true → s.Gone obj := by
    intro obj hobj
    rcases hfreed obj hobj with hold | ⟨hcall, -⟩
    · exact Or.inl hold
    · exact Or.inr ⟨t, hcall⟩
  have hlt : ∀ obj, s.Gone obj → obj < s.next := by
    intro obj hgone
    by_contra hge
    rcases h.fresh obj (not_lt.mp hge) with ⟨-, hnot, hcall⟩
    rcases hgone with hobj | ⟨t', hmem⟩
    · rw [hnot] at hobj
      cases hobj
    · exact (hcall t').2 hmem
  have hother : ∀ obj t', t' ≠ t → .removed obj ∈ calls → .removed obj ∉ s.calls t' := by
    intro obj t' hne hmem hmem'
    rcases hremoved obj hmem with hold | ⟨-, hnot, -⟩
    · exact hne (h.unique obj t' t hmem' hold)
    · exact hnot (Or.inr ⟨t', hmem'⟩)
  refine ⟨h.counts, ?_, ?_, ?_, ?_, ?_, ?_, ?_⟩
  · intro obj hobj
    rcases h.fresh obj hobj with ⟨howners, -, hcall⟩
    refine ⟨howners, ?_, ?_⟩
    · by_contra hnot
      exact absurd (hlt obj (hfreedGone obj (by simpa using hnot))) (not_lt.mpr hobj)
    · refine fun t' => ⟨fun hmem => ?_, fun hmem => ?_⟩
      · rcases mem_update_iff.mp hmem with ⟨-, hnew⟩ | ⟨-, hold⟩
        · exact absurd (hzero obj hnew).1 (not_lt.mpr hobj)
        · exact (hcall t').1 hold
      · rcases mem_update_iff.mp hmem with ⟨-, hnew⟩ | ⟨-, hold⟩
        · rcases hremoved obj hnew with hold | ⟨hnext, -⟩
          · exact (hcall t).2 hold
          · exact absurd hnext (not_lt.mpr hobj)
        · exact (hcall t').2 hold
  · intro id obj hobj
    rcases h.listed id obj (hlisted id obj hobj) with ⟨hid, hnext, hnot⟩
    refine ⟨hid, hnext, ?_⟩
    rintro (hgone | ⟨t', hmem⟩)
    · exact hnot (hfreedGone obj hgone)
    · rcases mem_update_iff.mp hmem with ⟨rfl, hnew⟩ | ⟨-, hold⟩
      · rcases hremoved obj hnew with hold | ⟨-, -, -, -, hunlisted⟩
        · exact hnot (Or.inr ⟨t', hold⟩)
        · exact hunlisted id hobj
      · exact hnot (Or.inr ⟨t', hold⟩)
  · intro obj hgone
    have hcases : s.Gone obj ∨ s.owners obj = [] ∧ .removed obj ∈ calls ∧
        ∀ t', t' ≠ t → .zero obj ∉ s.calls t' := by
      rcases hgone with hgone | ⟨t', hmem⟩
      · exact Or.inl (hfreedGone obj hgone)
      · rcases mem_update_iff.mp hmem with ⟨rfl, hnew⟩ | ⟨-, hold⟩
        · rcases hremoved obj hnew with hold | ⟨-, -, howners, hsole, -⟩
          · exact Or.inl (Or.inr ⟨t', hold⟩)
          · exact Or.inr ⟨howners, hnew, hsole⟩
        · exact Or.inl (Or.inr ⟨t', hold⟩)
    rcases hcases with hgone | ⟨howners, hnew, hsole⟩
    · refine ⟨(h.gone obj hgone).1, fun t' hmem => ?_⟩
      rcases mem_update_iff.mp hmem with ⟨-, hzeroMem⟩ | ⟨-, hold⟩
      · exact (hzero obj hzeroMem).2.1 hgone
      · exact (h.gone obj hgone).2 t' hold
    · refine ⟨howners, fun t' hmem => ?_⟩
      rcases mem_update_iff.mp hmem with ⟨-, hzeroMem⟩ | ⟨hne, hold⟩
      · exact (hzero obj hzeroMem).2.2 hnew
      · exact hsole t' hne hold
  · intro obj hobj t' hmem
    rcases mem_update_iff.mp hmem with ⟨-, hnew⟩ | ⟨hne, hcall⟩
    · rcases hfreed obj hobj with hold | ⟨-, hnot⟩
      · rcases hremoved obj hnew with hcall | ⟨-, hnot, -⟩
        · exact h.freed obj hold t hcall
        · exact hnot (Or.inl hold)
      · exact hnot hnew
    · rcases hfreed obj hobj with hold | ⟨hcall', -⟩
      · exact h.freed obj hold t' hcall
      · exact hne (h.unique obj t' t hcall hcall')
  · intro obj t₁ t₂ h₁ h₂
    rcases mem_update_iff.mp h₁ with ⟨heq₁, hnew₁⟩ | ⟨hne₁, hold₁⟩
    · rcases mem_update_iff.mp h₂ with ⟨heq₂, -⟩ | ⟨hne₂, hold₂⟩
      · rw [heq₁, heq₂]
      · exact absurd hold₂ (hother obj t₂ hne₂ hnew₁)
    · rcases mem_update_iff.mp h₂ with ⟨-, hnew₂⟩ | ⟨-, hold₂⟩
      · exact absurd hold₁ (hother obj t₁ hne₁ hnew₂)
      · exact h.unique obj t₁ t₂ hold₁ hold₂
  · exact (forall_update_iff _ fun _ => List.Nodup).mpr ⟨hnodup, fun t' _ => h.nodup t'⟩
  · exact (forall_update_iff _ fun _ (calls : List UnrefCall) =>
      ∀ call ∈ calls.tail, ∃ obj, call = .removed obj).mpr ⟨htail, fun t' _ => h.tail t'⟩

/-- A thread that has brought a count to zero. -/
theorem pushZero [DecidableEq τ] (h : RefInv s) (hlt : obj < s.next) (hgone : ¬s.Gone obj)
    (hworking : RefState.working (s.calls t) = true) :
    RefInv { s with calls := update s.calls t (.zero obj :: s.calls t) } := by
  -- a thread that is not waiting has nothing but objects to free
  have hremoved : ∀ call ∈ s.calls t, ∃ obj, call = .removed obj := by
    have htail := h.tail t
    cases hcalls : s.calls t with
    | nil => exact nofun
    | cons top rest =>
      rw [hcalls] at hworking htail
      refine forall_mem_cons.mpr ⟨?_, htail⟩
      cases top with
      | zero obj => cases hworking
      | removed obj => exact ⟨obj, rfl⟩
  have hnotZero : ∀ obj', .zero obj' ∉ s.calls t := fun obj' hmem => nomatch hremoved _ hmem
  have hold : ∀ obj', .removed obj' ∈ .zero obj :: s.calls t → .removed obj' ∈ s.calls t :=
    fun obj' hmem => (mem_cons.mp hmem).resolve_left nofun
  refine h.of_calls ?_ ?_ (fun _ => Or.inl) (fun _ _ => id)
    (nodup_cons.mpr ⟨hnotZero obj, h.nodup t⟩) hremoved
  · intro obj' hmem
    rcases mem_cons.mp hmem with heq | hmem
    · rw [UnrefCall.zero.inj heq]
      exact ⟨hlt, hgone, fun hmem => hgone (Or.inr ⟨t, hold obj hmem⟩)⟩
    · exact absurd hmem (hnotZero obj')
  · exact fun obj' hmem => Or.inl (hold obj' hmem)

/-- A thread that is done with its innermost call. -/
theorem popCall [DecidableEq τ] (h : RefInv s) {top : UnrefCall} {rest : List UnrefCall}
    (hcalls : s.calls t = top :: rest) (freed : Nat → Bool)
    (hfreed : ∀ obj, freed obj = true → s.freed obj = true ∨ top = .removed obj) :
    RefInv { s with freed := freed, calls := update s.calls t rest } := by
  have htail := h.tail t
  have hnodup := h.nodup t
  rw [hcalls] at htail hnodup
  refine h.of_calls ?_ ?_ ?_ (fun _ _ => id) hnodup.of_cons
    (fun call hcall => htail call (mem_of_mem_tail hcall))
  · exact fun obj hmem => nomatch htail _ hmem
  · intro obj hmem
    rw [hcalls]
    exact Or.inl (mem_cons_of_mem _ hmem)
  · intro obj hobj
    rcases hfreed obj hobj with hold | rfl
    · exact Or.inl hold
    · rw [hcalls]
      exact Or.inr ⟨mem_cons_self, (nodup_cons.mp hnodup).1⟩

/-- A thread that has found a count of zero and removed the item from the table. -/
theorem remove [DecidableEq ι] [DecidableEq τ] (h : RefInv s) {rest : List UnrefCall}
    (hcalls : s.calls t = .zero obj :: rest) (hcount : s.refcount obj ≤ 0)
    (hsole : ∀ t', t' ≠ t → .zero obj ∉ s.calls t') :
    RefInv { s with
      locations := s.unlist obj
      calls := update s.calls t (.removed obj :: rest) } := by
  have htail := h.tail t
  have hnodup := h.nodup t
  rw [hcalls] at htail hnodup
  have hzero : .zero obj ∈ s.calls t := by
    rw [hcalls]
    exact mem_cons_self
  have hnot : ¬s.Gone obj := fun hgone => (h.gone obj hgone).2 t hzero
  have hlt : obj < s.next := by
    by_contra hge
    exact ((h.fresh obj (not_lt.mp hge)).2.2 t).1 hzero
  have howners : s.owners obj = [] := by
    rw [h.counts obj] at hcount
    exact length_eq_zero_iff.mp (by omega)
  have hrest : ∀ obj', .removed obj' ∈ rest → .removed obj' ∈ s.calls t := by
    intro obj' hmem
    rw [hcalls]
    exact mem_cons_of_mem _ hmem
  have hunlisted : ∀ id obj', s.unlist obj id = some obj' →
      s.locations id = some obj' ∧ s.ids obj ≠ some id := by
    intro id obj' hobj'
    unfold RefState.unlist at hobj'
    cases hid : s.ids obj with
    | none =>
      rw [hid] at hobj'
      exact ⟨hobj', nofun⟩
    | some id' =>
      rw [hid] at hobj'
      rcases update_none_eq_some_iff.mp hobj' with ⟨hne, hobj'⟩
      exact ⟨hobj', fun heq => hne (some_inj.mp heq).symm⟩
  refine h.of_calls ?_ ?_ (fun _ => Or.inl) (fun id obj' hobj' => (hunlisted id obj' hobj').1)
    (nodup_cons.mpr ⟨fun hmem => hnot (Or.inr ⟨t, hrest obj hmem⟩), hnodup.of_cons⟩) htail
  · intro obj' hmem
    exact nomatch htail _ ((mem_cons.mp hmem).resolve_left nofun)
  · intro obj' hmem
    rcases mem_cons.mp hmem with heq | hmem
    · rw [UnrefCall.removed.inj heq]
      refine Or.inr ⟨hlt, hnot, howners, hsole, fun id hobj => ?_⟩
      rcases hunlisted id obj hobj with ⟨hlisted, hne⟩
      exact hne (h.listed id obj hlisted).1
    · exact Or.inl (hrest obj' hmem)

theorem addRef (h : RefInv s) (t : τ) (hlt : obj < s.next) (hgone : ¬s.Gone obj) :
    RefInv (s.addRef t obj) := by
  refine h.of_owners hlt hgone ?_
  rw [h.counts obj, length_cons]
  omega

theorem moveRef [DecidableEq τ] (h : RefInv s) {source target : Option τ}
    (hsource : source ∈ s.owners obj) : RefInv (s.moveRef source target obj) := by
  have hlength : s.refcount obj = (target :: (s.owners obj).erase source).length := by
    rw [h.counts obj, length_cons, length_erase_add_one hsource]
  have hmoved := h.of_owners (h.lt_next hsource) (h.not_gone hsource) hlength
  rw [update_eq_self] at hmoved
  exact hmoved

theorem dropRef [DecidableEq τ] (h : RefInv s) (howner : some t ∈ s.owners obj)
    (hworking : RefState.working (s.calls t) = true) :
    RefInv (s.dropRef t obj) := by
  have hlength : s.refcount obj - 1 = ((s.owners obj).erase (some t)).length := by
    have hadd := length_erase_add_one howner
    rw [h.counts obj]
    omega
  have hdropped := h.of_owners (h.lt_next howner) (h.not_gone howner) hlength
  rw [RefState.dropRef]
  split_ifs
  · exact hdropped.pushZero (h.lt_next howner) (h.not_gone howner) hworking
  · exact hdropped

end RefInv

/-! ## Safety -/

section Safety

variable [DecidableEq ι] [DecidableEq τ]

/-- No thread owns a reference to an object that has been freed, and no step that a thread can
take touches one; in particular none is freed again. -/
structure RefSound (s : RefState ι τ) : Prop where
  owned : ∀ obj, s.freed obj = true → ∀ t, some t ∉ s.owners obj
  touched : ∀ e, s.step e ≠ none → ∀ obj ∈ s.touched e, s.freed obj = false

/-- When a thread looks at a count again and finds zero, no other thread is about to do so for
the same object. -/
def SoleUnref (s : RefState ι τ) (e : τ × RefOp ι) : Prop :=
  e.2 = .recheck → ∀ obj ∈ s.pending e.1, s.refcount obj ≤ 0 → ∀ t, t ≠ e.1 → .zero obj ∉ s.calls t

instance SoleUnref.decidable [Fintype τ] (s : RefState ι τ) (e : τ × RefOp ι) :
    Decidable (SoleUnref s e) :=
  inferInstanceAs (Decidable (e.2 = .recheck → ∀ obj ∈ s.pending e.1, s.refcount obj ≤ 0 →
    ∀ t, t ≠ e.1 → .zero obj ∉ s.calls t))

/-- Every step keeps the invariant. -/
theorem RefInv.step {s s' : RefState ι τ} (h : RefInv s) {e : τ × RefOp ι}
    (hsole : SoleUnref s e) (hstep : s.step e = some s') : RefInv s' := by
  rcases e with ⟨t, op⟩
  cases op with
  | new id =>
    simp only [RefState.step, ite_none_right_eq_some, some_inj] at hstep
    rw [← hstep.2]
    exact h.allocate t id fun _ _ hold => Or.inl hold
  | insert obj =>
    simp only [RefState.step, ite_none_right_eq_some] at hstep
    rcases hstep with ⟨⟨-, howner⟩, hstep⟩
    rcases bind_eq_some_iff.mp hstep with ⟨id, hid, hstep⟩
    simp only [ite_none_right_eq_some, some_inj] at hstep
    rw [← hstep.2]
    refine h.of_refs le_rfl h.counts (fun obj hobj => (h.fresh obj hobj).1)
      (fun obj hgone => (h.gone obj hgone).1) ?_
    intro id' obj' hobj'
    rcases update_eq_some_iff.mp hobj' with ⟨rfl, rfl⟩ | ⟨-, hobj'⟩
    · exact ⟨hid, h.lt_next howner, h.not_gone howner⟩
    · exact h.listed id' obj' hobj'
  | get id =>
    simp only [RefState.step, ite_none_right_eq_some] at hstep
    rcases hstep with ⟨-, hstep⟩
    cases hlisted : s.locations id with
    | some obj =>
      simp only [hlisted, some_inj] at hstep
      rw [← hstep]
      rcases h.listed id obj hlisted with ⟨-, hlt, hgone⟩
      exact h.addRef t hlt hgone
    | none =>
      simp only [hlisted, some_inj] at hstep
      rw [← hstep]
      refine h.allocate t id ?_
      intro id' obj hobj
      rcases update_eq_some_iff.mp hobj with ⟨heq, hobj⟩ | ⟨-, hobj⟩
      · exact Or.inr ⟨heq, hobj.symm⟩
      · exact Or.inl hobj
  | ref obj =>
    simp only [RefState.step, ite_none_right_eq_some, some_inj] at hstep
    rcases hstep with ⟨⟨-, howner⟩, rfl⟩
    exact h.addRef t (h.lt_next howner) (h.not_gone howner)
  | store obj =>
    simp only [RefState.step, ite_none_right_eq_some, some_inj] at hstep
    rcases hstep with ⟨⟨-, howner⟩, rfl⟩
    exact h.moveRef howner
  | take obj =>
    simp only [RefState.step, ite_none_right_eq_some, some_inj] at hstep
    rcases hstep with ⟨⟨-, howner⟩, rfl⟩
    exact h.moveRef howner
  | unref obj =>
    simp only [RefState.step, ite_none_right_eq_some, some_inj] at hstep
    rcases hstep with ⟨⟨hworking, howner⟩, rfl⟩
    exact h.dropRef howner hworking
  | recheck =>
    simp only [RefState.step] at hstep
    split at hstep
    · rename_i obj rest hcalls
      split_ifs at hstep with hcount
      · rw [← some_inj.mp hstep]
        exact h.popCall hcalls s.freed fun _ hfreed => Or.inl hfreed
      · rw [← some_inj.mp hstep]
        have hpending : s.pending t = some obj := by
          rw [RefState.pending, hcalls]
        exact h.remove hcalls (not_lt.mp hcount) (hsole rfl obj hpending (not_lt.mp hcount))
    · cases hstep
  | free =>
    simp only [RefState.step] at hstep
    split at hstep
    · rename_i obj rest hcalls
      rw [← some_inj.mp hstep]
      refine h.popCall hcalls _ ?_
      intro obj' hfreed
      by_cases heq : obj' = obj
      · exact Or.inr (by rw [heq])
      · rw [update_of_ne heq] at hfreed
        exact Or.inl hfreed
    · cases hstep

/-- What the invariant says about freed objects. -/
theorem RefInv.sound {s : RefState ι τ} (h : RefInv s) : RefSound s := by
  have hlive : ∀ obj owner, owner ∈ s.owners obj → s.freed obj = false := by
    intro obj owner howner
    by_contra hfreed
    exact h.not_gone howner (Or.inl (by simpa using hfreed))
  constructor
  · intro obj hfreed t howner
    rw [hlive obj _ howner] at hfreed
    cases hfreed
  · rintro ⟨t, op⟩ hstep obj hobj
    rcases ne_none_iff_exists'.mp hstep with ⟨s', hs'⟩
    cases op with
    | new id => simp [RefState.touched] at hobj
    | insert obj' =>
      simp only [RefState.step, ite_none_right_eq_some] at hs'
      rw [mem_singleton.mp hobj]
      exact hlive obj' _ hs'.1.2
    | get id =>
      have hlisted : s.locations id = some obj := by simpa [RefState.touched] using hobj
      by_contra hfreed
      exact (h.listed id obj hlisted).2.2 (Or.inl (by simpa using hfreed))
    | ref obj' =>
      simp only [RefState.step, ite_none_right_eq_some] at hs'
      rw [mem_singleton.mp hobj]
      exact hlive obj' _ hs'.1.2
    | store obj' => simp [RefState.touched] at hobj
    | take obj' => simp [RefState.touched] at hobj
    | unref obj' =>
      simp only [RefState.step, ite_none_right_eq_some] at hs'
      rw [mem_singleton.mp hobj]
      exact hlive obj' _ hs'.1.2
    | recheck =>
      have hpending : s.pending t = some obj := by simpa [RefState.touched] using hobj
      by_contra hfreed
      exact (h.gone obj (Or.inl (by simpa using hfreed))).2 t (RefState.mem_of_pending hpending)
    | free =>
      simp only [RefState.touched] at hobj
      split at hobj
      · rename_i obj' rest hcalls
        rw [mem_singleton.mp hobj]
        by_contra hfreed
        refine h.freed obj' (by simpa using hfreed) t ?_
        rw [hcalls]
        exact mem_cons_self
      · simp at hobj

/-- As long as no thread finds a count of zero while another one is about to look at the same
count, no object is freed twice, touched after it has been freed, or freed while a thread owns a
reference to it. -/
theorem refSound_of_reachable {s : RefState ι τ}
    (h : Reachable RefState.step SoleUnref RefState.initial s) : RefSound s := by
  have hinv : RefInv s :=
    h.invariant refInv_initial fun _ _ _ hs hsole hstep => hs.step hsole hstep
  exact hinv.sound

end Safety

/-! ## Two threads -/

/-- Two threads that use the same item, one after the other. -/
def orderly : List (Fin 2 × RefOp Nat) :=
  [(0, .get 7), (1, .get 7), (0, .unref 0), (1, .unref 0), (1, .recheck), (1, .free)]

theorem refSound_orderly : ∃ s : RefState Nat (Fin 2),
    runWhile RefState.step SoleUnref RefState.initial orderly = some s ∧ s.freed 0 = true ∧
      RefSound s := by
  have hfacts : ∃ s ∈ runWhile RefState.step SoleUnref RefState.initial orderly,
      s.freed 0 = true := by
    decide +kernel
  rcases hfacts with ⟨s, hrun, hfreed⟩
  exact ⟨s, hrun, hfreed, refSound_of_reachable (reachable_of_runWhile .start hrun)⟩

/-- Two threads that both bring the count to zero before one of them looks at it again. -/
def racing : List (Fin 2 × RefOp Nat) :=
  [(0, .get 7), (0, .unref 0), (1, .get 7), (1, .unref 0), (0, .recheck), (0, .free)]

/-- The second thread then looks at an object that has been freed, and frees it again. -/
theorem refcount_double_free : ∃ s s' s'' : RefState Nat (Fin 2),
    Reachable RefState.step (fun _ _ => True) RefState.initial s ∧ s.freed 0 = true ∧
      s.step (1, .recheck) = some s' ∧ s.touched (1, .recheck) = [0] ∧
      s'.step (1, .free) = some s'' ∧ s'.touched (1, .free) = [0] ∧ ¬RefSound s := by
  have hfacts : ∃ s ∈ runWhile RefState.step (fun _ _ => True) RefState.initial racing,
      s.freed 0 = true ∧ s.touched (1, .recheck) = [0] ∧ ∃ s' ∈ s.step (1, .recheck),
        s'.touched (1, .free) = [0] ∧ ∃ s'' ∈ s'.step (1, .free), True := by
    decide +kernel
  rcases hfacts with ⟨s, hrun, hfreed, htouched, s', hs', htouched', s'', hs'', -⟩
  refine ⟨s, s', s'', reachable_of_runWhile .start hrun, hfreed, hs', htouched, hs'', htouched', ?_⟩
  intro hsound
  have hlive := hsound.touched (1, .recheck) (by simp [mem_def.mp hs']) 0 (by simp [htouched])
  rw [hfreed] at hlive
  cases hlive

end BlueSky
