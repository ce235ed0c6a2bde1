import BlueSky.Lib.Transition
import BlueSky.Store.Async
import Mathlib.Data.List.Perm.Basic

/-!
# Notifiers of store operations

A notifier that is added to an operation goes to a list, or to the thread pool if the operation is
complete; `bluesky_store_async_mark_complete` moves the list to the pool.  The threads of the pool
run the notifiers and count down.  What happens with the lock of the operation held is one step;
since some backends call `bluesky_store_async_mark_complete` without the lock, each round of its
loop is a step of its own.

Main results:

- Theorem {lit}`notifierInv_step`: where the notifiers are, whatever step is taken.
- Theorem {lit}`work_step`: the steps that follow the completion come to an end.
- Theorem {lit}`notifiers_run_once`: every notifier is run once, after the completion, and a call of
  `bluesky_store_async_wait` that returns has waited for all of them.
-/

namespace BlueSky

open List Option TransitionLib

/-! ## The model -/

/-- How far the call of `bluesky_store_async_mark_complete` has come. -/
inductive MarkPhase where
  /-- It has not been made. -/
  | waiting
  /-- The status has been set. -/
  | marked
  /-- The loop over the notifiers is running. -/
  | draining
  | returned
deriving DecidableEq, Repr

/-- An operation with its notifiers, which are numbered as they are added. -/
structure NotifierState where
  status : AsyncStatus
  /-- The list that starts at `notifiers`. -/
  notifiers : List Nat
  notifierCount : Nat
  /-- Whether the operation belongs to a barrier. -/
  barrier : Bool
  phase : MarkPhase
  /-- What has been pushed to the thread pool. -/
  pool : List Nat
  /-- The notifiers whose function has been called by a thread that has not counted down. -/
  running : List Nat
  /-- The threads that have counted down to zero and are to take the lock. -/
  signalling : Nat
  /-- The calls of `op_complete` for the barrier. -/
  opCompletes : Nat
  /-- How many notifiers have been added. -/
  registered : Nat
  /-- The calls of notifier functions, with the status at the call. -/
  ran : List (Nat × AsyncStatus)
  /-- The notifiers that have been counted down. -/
  finished : List Nat
deriving DecidableEq, Repr

namespace NotifierState

/-- `bluesky_store_async_new`. -/
def new (barrier : Bool) : NotifierState where
  status := .new
  notifiers := []
  notifierCount := 0
  barrier := barrier
  phase := .waiting
  pool := []
  running := []
  signalling := 0
  opCompletes := 0
  registered := 0
  ran := []
  finished := []

/-- `bluesky_store_async_add_notifier`. -/
def addNotifier (s : NotifierState) : NotifierState :=
  let s := { s with notifierCount := s.notifierCount + 1, registered := s.registered + 1 }
  if s.status = .complete then { s with pool := s.pool ++ [s.registered - 1] }
  else { s with notifiers := (s.registered - 1) :: s.notifiers }

/-- The call of `op_complete`, if there is a barrier. -/
def opComplete (s : NotifierState) : NotifierState :=
  if s.barrier then { s with opCompletes := s.opCompletes + 1 } else s

/-- A round of the loop of `bluesky_store_async_mark_complete`. -/
def markRound (s : NotifierState) : NotifierState :=
  match s.notifiers with
  | [] => { s with phase := .returned }
  | nl :: next => { s with notifiers := next, pool := s.pool ++ [nl] }

/-- `notifier_task` up to the return of the function. -/
def runTask (s : NotifierState) (i : Nat) : NotifierState :=
  { s with pool := s.pool.erase i, running := i :: s.running, ran := s.ran ++ [(i, s.status)] }

/-- `notifier_task` counts down. -/
def finishTask (s : NotifierState) (i : Nat) : NotifierState :=
  { s with
    running := s.running.erase i
    finished := i :: s.finished
    notifierCount := s.notifierCount - 1
    signalling := s.signalling + if s.notifierCount - 1 = 0 then 1 else 0 }

/-- `bluesky_store_async_wait`, for a thread that has the lock: whether it returns, or {lean}`none`
for the fatal error. -/
def asyncWait (s : NotifierState) : Option Bool :=
  if s.status = .new then none else some (s.status = .complete && s.notifierCount = 0)

end NotifierState

/-- What happens to an operation. -/
inductive NotifierEvent where
  /-- The backend sets the status. -/
  | advance (status : AsyncStatus)
  | addNotifier
  /-- `bluesky_store_async_mark_complete` sets the status. -/
  | markStatus
  /-- It looks for a barrier. -/
  | markBarrier
  | markRound
  | runTask (i : Nat)
  | finishTask (i : Nat)
  /-- `notifier_task` with the lock held, after it has counted down to zero. -/
  | signal
deriving DecidableEq, Repr

def notifierStep (s : NotifierState) : NotifierEvent → Option NotifierState
  | .advance status =>
    if s.phase = .waiting ∧ (status = .pending ∨ status = .running) then
      some { s with status := status }
    else none
  | .addNotifier => some s.addNotifier
  | .markStatus =>
    if s.phase = .waiting ∧ s.status ≠ .complete then
      some { s with status := .complete, phase := .marked }
    else none
  | .markBarrier =>
    if s.phase = .marked then
      some { if s.notifiers = [] then s.opComplete else s with phase := .draining }
    else none
  | .markRound => if s.phase = .draining then some s.markRound else none
  | .runTask i => if i ∈ s.pool then some (s.runTask i) else none
  | .finishTask i => if i ∈ s.running then some (s.finishTask i) else none
  | .signal =>
    if 0 < s.signalling then some { s.opComplete with signalling := s.signalling - 1 } else none

/-- The steps that are left to the completion and to the threads of the pool. -/
def NotifierEvent.internal : NotifierEvent → Bool
  | .markBarrier | .markRound | .runTask _ | .finishTask _ | .signal => true
  | _ => false

/-- No such step is left. -/
def NotifierState.Quiescent (s : NotifierState) : Prop :=
  ∀ e : NotifierEvent, e.internal = true → notifierStep s e = none

/-! ## Where the notifiers are -/

/-- A notifier is in the list, in the pool, running or finished; it is in the list only before the
completion is through, and in the other places only after it has begun. -/
structure NotifierInv (s : NotifierState) : Prop where
  places : (s.notifiers ++ (s.pool ++ (s.running ++ s.finished))).Perm (List.range s.registered)
  ran : (s.ran.map Prod.fst).Perm (s.running ++ s.finished)
  ran_complete : ∀ r ∈ s.ran, r.2 = .complete
  count : s.notifierCount = s.notifiers.length + (s.pool.length + s.running.length)
  phase : s.phase = .waiting ↔ s.status ≠ .complete
  early : s.status ≠ .complete → s.pool = [] ∧ s.running = []
  late : s.phase = .returned → s.notifiers = []

theorem notifierInv_new (barrier : Bool) : NotifierInv (.new barrier) where
  places := List.Perm.refl _
  ran := List.Perm.refl _
  ran_complete := by simp [NotifierState.new]
  count := rfl
  phase := by simp [NotifierState.new]
  early := fun _ => ⟨rfl, rfl⟩
  late := by simp [NotifierState.new]

namespace NotifierInv

variable {s : NotifierState}

theorem addNotifier (h : NotifierInv s) : NotifierInv s.addNotifier := by
  have hplaces : ∀ l : List Nat,
      l.Perm (s.registered :: (s.notifiers ++ (s.pool ++ (s.running ++ s.finished)))) →
      l.Perm (List.range (s.registered + 1)) := by
    intro l hl
    rw [range_succ]
    exact hl.trans ((h.places.cons _).trans (perm_append_singleton _ _).symm)
  unfold NotifierState.addNotifier
  by_cases hcomplete : s.status = .complete
  · simp only [hcomplete, if_true, Nat.add_sub_cancel]
    refine ⟨hplaces _ ?_, h.ran, h.ran_complete, ?_, ?_, ?_, h.late⟩
    · rw [append_assoc, ← append_assoc s.notifiers, ← append_assoc s.notifiers]
      exact perm_middle
    · have hcount := h.count
      simp only [length_append, length_singleton]
      omega
    · simpa [hcomplete] using h.phase
    · simp
  · simp only [hcomplete, if_false, Nat.add_sub_cancel]
    refine ⟨hplaces _ (List.Perm.refl _), h.ran, h.ran_complete, ?_, h.phase, h.early, ?_⟩
    · have hcount := h.count
      simp only [length_cons]
      omega
    · intro hreturned
      rw [h.phase.mpr hcomplete] at hreturned
      cases hreturned

variable {i : Nat}

/-- What is in the pool or running is there after the completion. -/
theorem complete_of_mem (h : NotifierInv s) (hi : i ∈ s.pool ++ s.running) :
    s.status = .complete := by
  by_contra hne
  rcases h.early hne with ⟨hpool, hrunning⟩
  rw [hpool, hrunning] at hi
  cases hi

theorem markRound (h : NotifierInv s) (hphase : s.phase = .draining) : NotifierInv s.markRound := by
  have hstatus : s.status = .complete := by
    by_contra hne
    rw [h.phase.mpr hne] at hphase
    cases hphase
  have hcount := h.count
  unfold NotifierState.markRound
  cases hnotifiers : s.notifiers with
  | nil =>
    have hplaces := h.places
    rw [hnotifiers] at hplaces hcount
    exact ⟨by simpa [hnotifiers] using hplaces, h.ran, h.ran_complete,
      by simpa [hnotifiers] using hcount, by simp [hstatus], h.early, fun _ => rfl⟩
  | cons nl next =>
    have hplaces := h.places
    rw [hnotifiers] at hplaces hcount
    refine ⟨List.Perm.trans ?_ hplaces, h.ran, h.ran_complete, ?_, h.phase, ?_, ?_⟩
    · rw [append_assoc, ← append_assoc next, singleton_append, cons_append, ← append_assoc next]
      exact perm_middle
    · simp only [length_append, length_cons, length_nil] at hcount ⊢
      omega
    · exact fun hne => absurd hstatus hne
    · intro hreturned
      rw [hphase] at hreturned
      cases hreturned

/-- An element that is moved from one list to the next. -/
theorem perm_erase_append {l r : List Nat} (hi : i ∈ l) : (l.erase i ++ i :: r).Perm (l ++ r) :=
  perm_middle.trans ((perm_cons_erase hi).symm.append_right r)

theorem runTask (h : NotifierInv s) (hi : i ∈ s.pool) : NotifierInv (s.runTask i) := by
  have hstatus := h.complete_of_mem (mem_append_left _ hi)
  refine ⟨List.Perm.trans ((perm_erase_append hi).append_left _) h.places, ?_, ?_, ?_, h.phase, ?_,
    h.late⟩
  · rw [NotifierState.runTask, map_append]
    exact (perm_append_singleton _ _).trans (h.ran.cons i)
  · intro r hr
    rcases mem_append.mp hr with hr | hr
    · exact h.ran_complete r hr
    · rw [mem_singleton.mp hr]
      exact hstatus
  · have hcount := h.count
    have hpos := length_pos_of_mem hi
    simp only [NotifierState.runTask, length_erase_of_mem hi, length_cons]
    omega
  · exact fun hne => absurd hstatus hne

theorem finishTask (h : NotifierInv s) (hi : i ∈ s.running) : NotifierInv (s.finishTask i) := by
  have hstatus := h.complete_of_mem (mem_append_right _ hi)
  have hmoved : (s.running.erase i ++ i :: s.finished).Perm (s.running ++ s.finished) :=
    perm_erase_append hi
  refine ⟨List.Perm.trans ((hmoved.append_left _).append_left _) h.places, h.ran.trans hmoved.symm,
    h.ran_complete, ?_, h.phase, fun hne => absurd hstatus hne, h.late⟩
  have hcount := h.count
  have hpos := length_pos_of_mem hi
  simp only [NotifierState.finishTask, length_erase_of_mem hi]
  omega

end NotifierInv

theorem opComplete_eq (s : NotifierState) : ∃ n, s.opComplete = { s with opCompletes := n } := by
  unfold NotifierState.opComplete
  split_ifs
  · exact ⟨_, rfl⟩
  · exact ⟨s.opCompletes, rfl⟩

variable {s : NotifierState}

/-- Where the notifiers are, whatever step is taken. -/
theorem notifierInv_step {s' : NotifierState} {e : NotifierEvent} (h : NotifierInv s)
    (hstep : notifierStep s e = some s') : NotifierInv s' := by
  cases e with
  | advance status =>
    rcases ite_none_right_eq_some.mp hstep with ⟨⟨hphase, hstatus⟩, hs'⟩
    rw [← some.inj hs']
    have hne : status ≠ .complete := by
      rcases hstatus with rfl | rfl <;> simp
    exact ⟨h.places, h.ran, h.ran_complete, h.count, by simp [hphase, hne],
      fun _ => h.early (h.phase.mp hphase), h.late⟩
  | addNotifier =>
    rw [← some.inj hstep]
    exact h.addNotifier
  | markStatus =>
    rcases ite_none_right_eq_some.mp hstep with ⟨-, hs'⟩
    rw [← some.inj hs']
    exact ⟨h.places, h.ran, h.ran_complete, h.count, by simp, fun hne => absurd rfl hne, by simp⟩
  | markBarrier =>
    rcases ite_none_right_eq_some.mp hstep with ⟨hphase, hs'⟩
    have hstatus : s.status = .complete := by
      by_contra hne
      rw [h.phase.mpr hne] at hphase
      cases hphase
    rw [← some.inj hs']
    rcases opComplete_eq s with ⟨n, hn⟩
    rw [hn]
    split_ifs
    · exact ⟨h.places, h.ran, h.ran_complete, h.count, by simp [hstatus], h.early, by simp⟩
    · exact ⟨h.places, h.ran, h.ran_complete, h.count, by simp [hstatus], h.early, by simp⟩
  | markRound =>
    rcases ite_none_right_eq_some.mp hstep with ⟨hphase, hs'⟩
    rw [← some.inj hs']
    exact h.markRound hphase
  | runTask i =>
    rcases ite_none_right_eq_some.mp hstep with ⟨hi, hs'⟩
    rw [← some.inj hs']
    exact h.runTask hi
  | finishTask i =>
    rcases ite_none_right_eq_some.mp hstep with ⟨hi, hs'⟩
    rw [← some.inj hs']
    exact h.finishTask hi
  | signal =>
    rcases ite_none_right_eq_some.mp hstep with ⟨-, hs'⟩
    rcases opComplete_eq s with ⟨n, hn⟩
    rw [← some.inj hs', hn]
    exact ⟨h.places, h.ran, h.ran_complete, h.count, h.phase, h.early, h.late⟩

/-! ## The steps come to an end -/

/-- A bound for the steps that are left. -/
def NotifierState.work (s : NotifierState) : Nat :=
  4 * s.notifiers.length + 3 * s.pool.length + 2 * s.running.length + s.signalling +
    match s.phase with
    | .marked => 2
    | .draining => 1
    | _ => 0

theorem work_step {s' : NotifierState} {e : NotifierEvent} (he : e.internal = true)
    (hstep : notifierStep s e = some s') : s'.work < s.work := by
  cases e with
  | advance status => cases he
  | addNotifier => cases he
  | markStatus => cases he
  | markBarrier =>
    rcases ite_none_right_eq_some.mp hstep with ⟨hphase, hs'⟩
    rcases opComplete_eq s with ⟨n, hn⟩
    rw [← some.inj hs', hn]
    split_ifs
    · simp [NotifierState.work, hphase]
    · simp [NotifierState.work, hphase]
  | markRound =>
    rcases ite_none_right_eq_some.mp hstep with ⟨hphase, hs'⟩
    rw [← some.inj hs', NotifierState.markRound]
    cases hnotifiers : s.notifiers with
    | nil => simp [NotifierState.work, hphase, hnotifiers]
    | cons nl next =>
      simp only [NotifierState.work, hphase, hnotifiers, length_append, length_cons, length_nil]
      omega
  | runTask i =>
    rcases ite_none_right_eq_some.mp hstep with ⟨hi, hs'⟩
    have hpos := length_pos_of_mem hi
    rw [← some.inj hs']
    simp only [NotifierState.work, NotifierState.runTask, length_erase_of_mem hi, length_cons]
    omega
  | finishTask i =>
    rcases ite_none_right_eq_some.mp hstep with ⟨hi, hs'⟩
    have hpos := length_pos_of_mem hi
    rw [← some.inj hs']
    simp only [NotifierState.work, NotifierState.finishTask, length_erase_of_mem hi]
    split_ifs <;> omega
  | signal =>
    rcases ite_none_right_eq_some.mp hstep with ⟨hpos, hs'⟩
    rcases opComplete_eq s with ⟨n, hn⟩
    rw [← some.inj hs', hn]
    simp only [NotifierState.work]
    omega

/-- If no step is left after the completion, all notifiers are finished. -/
theorem NotifierInv.finished_of_quiescent (h : NotifierInv s) (hphase : s.phase ≠ .waiting)
    (hquiet : s.Quiescent) :
    s.notifiers = [] ∧ s.pool = [] ∧ s.running = [] := by
  refine ⟨?_, ?_, ?_⟩
  · cases hp : s.phase with
    | waiting => exact absurd hp hphase
    | marked => exact absurd (hquiet .markBarrier rfl) (by simp [notifierStep, hp])
    | draining => exact absurd (hquiet .markRound rfl) (by simp [notifierStep, hp])
    | returned => exact h.late hp
  · refine eq_nil_iff_forall_not_mem.mpr fun i hi => ?_
    exact absurd (hquiet (.runTask i) rfl) (by simp [notifierStep, hi])
  · refine eq_nil_iff_forall_not_mem.mpr fun i hi => ?_
    exact absurd (hquiet (.finishTask i) rfl) (by simp [notifierStep, hi])

/-! ## Whole runs -/

/-- The notifiers that have been added and are not finished. -/
def NotifierState.unfinished (s : NotifierState) : List Nat :=
  (List.range s.registered).filter (· ∉ s.finished)

namespace NotifierInv

variable {s : NotifierState}

theorem unfinished_perm (h : NotifierInv s) :
    s.unfinished.Perm (s.notifiers ++ (s.pool ++ s.running)) := by
  have hnodup := h.places.nodup_iff.mpr nodup_range
  rw [← append_assoc s.pool, ← append_assoc] at hnodup
  have hdisjoint := (nodup_append'.mp hnodup).2.2
  have hkept : (s.notifiers ++ (s.pool ++ s.running)).filter (· ∉ s.finished) =
      s.notifiers ++ (s.pool ++ s.running) :=
    filter_eq_self.mpr fun i hi => decide_eq_true fun hfinished => hdisjoint hi hfinished
  have hdropped : s.finished.filter (· ∉ s.finished) = [] :=
    filter_eq_nil_iff.mpr fun i hi => by simpa using hi
  have hfilter := h.places.filter (· ∉ s.finished)
  rw [← append_assoc s.pool, ← append_assoc, filter_append, hkept, hdropped, append_nil] at hfilter
  exact hfilter.symm

theorem count_eq_unfinished (h : NotifierInv s) : s.notifierCount = s.unfinished.length := by
  rw [h.count, h.unfinished_perm.length_eq, length_append, length_append]

/-- No notifier is run twice, or without having been added. -/
theorem ran_count (h : NotifierInv s) (i : Nat) : (s.ran.map Prod.fst).count i ≤ 1 := by
  have hnodup := h.places.nodup_iff.mpr nodup_range
  rw [h.ran.count_eq]
  have hran : (s.running ++ s.finished).Nodup :=
    hnodup.sublist ((sublist_append_right _ _).trans (sublist_append_right _ _))
  exact nodup_iff_count_le_one.mp hran i

theorem mem_ran (h : NotifierInv s) {i : Nat} :
    i ∈ s.ran.map Prod.fst ↔ i ∈ s.running ∨ i ∈ s.finished := by
  rw [h.ran.mem_iff, mem_append]

theorem mem_places (h : NotifierInv s) {i : Nat} :
    i < s.registered ↔ i ∈ s.notifiers ∨ i ∈ s.pool ∨ i ∈ s.running ∨ i ∈ s.finished := by
  rw [← mem_range, ← h.places.mem_iff, mem_append, mem_append, mem_append]

end NotifierInv

/-- In every run of an operation: a notifier function is called at most once, only for a notifier
that has been added and after the status has become `ASYNC_COMPLETE`; the count is the number of
notifiers that are not finished; and `bluesky_store_async_wait` returns only if the operation is
complete and all notifiers are finished.  After the completion, each step of
`bluesky_store_async_mark_complete` and of the pool brings the end of such steps nearer, and when
none is left, every notifier has been run. -/
theorem notifiers_run_once {barrier : Bool} {s : NotifierState}
    (h : Reachable notifierStep (fun _ _ => True) (.new barrier) s) :
    (∀ i, (s.ran.map Prod.fst).count i ≤ 1) ∧
    (∀ r ∈ s.ran, r.1 < s.registered ∧ r.2 = .complete) ∧
    s.notifierCount = s.unfinished.length ∧
    (s.asyncWait = some true → s.status = .complete ∧ s.unfinished = []) ∧
    (∀ e s', e.internal = true → notifierStep s e = some s' → s'.work < s.work) ∧
    (s.phase ≠ .waiting → s.Quiescent →
      ∀ i < s.registered, (s.ran.map Prod.fst).count i = 1 ∧ i ∈ s.finished) := by
  have hinv : NotifierInv s :=
    h.invariant (I := NotifierInv) (notifierInv_new barrier) fun _ _ _ hs _ => notifierInv_step hs
  refine ⟨hinv.ran_count, ?_, hinv.count_eq_unfinished, ?_, fun e s' => work_step, ?_⟩
  · intro r hr
    refine ⟨hinv.mem_places.mpr ?_, hinv.ran_complete r hr⟩
    rcases hinv.mem_ran.mp (List.mem_map_of_mem hr) with hrunning | hfinished
    · exact Or.inr (Or.inr (Or.inl hrunning))
    · exact Or.inr (Or.inr (Or.inr hfinished))
  · intro hwait
    rw [NotifierState.asyncWait] at hwait
    split_ifs at hwait
    simp only [some.injEq, Bool.and_eq_true, decide_eq_true_eq] at hwait
    refine ⟨hwait.1, length_eq_zero_iff.mp ?_⟩
    rw [← hinv.count_eq_unfinished]
    exact hwait.2
  · intro hphase hquiet i hi
    rcases hinv.finished_of_quiescent hphase hquiet with ⟨hnotifiers, hpool, hrunning⟩
    have hmem := hinv.mem_places.mp hi
    rw [hnotifiers, hpool, hrunning] at hmem
    have hfinished : i ∈ s.finished := by simpa using hmem
    have hran := one_le_count_iff.mpr (hinv.mem_ran.mpr (Or.inr hfinished))
    exact ⟨Nat.le_antisymm (hinv.ran_count i) hran, hfinished⟩

/-- Two notifiers, one of them added after the completion. -/
def twoNotifiers : List NotifierEvent :=
  [.advance .running, .addNotifier, .markStatus, .addNotifier, .markBarrier, .runTask 1, .markRound,
    .markRound, .finishTask 1, .runTask 0, .finishTask 0, .signal]

theorem notifiers_run_once_two :
    ∃ s, runWhile notifierStep (fun _ _ => True) (.new true) twoNotifiers = some s ∧
      s.asyncWait = some true ∧ s.registered = 2 ∧ s.unfinished = [] := by
  have hfacts : ∃ s ∈ runWhile notifierStep (fun _ _ => True) (.new true) twoNotifiers,
      s.asyncWait = some true ∧ s.registered = 2 := by
    decide
  rcases hfacts with ⟨s, hrun, hwait, htwo⟩
  exact ⟨s, hrun, hwait, htwo,
    ((notifiers_run_once (reachable_of_runWhile .start hrun)).2.2.2.1 hwait).2⟩

end BlueSky
