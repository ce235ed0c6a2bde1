import BlueSky.Lib.Transition

/-!
# The connections of the key-value client

A call takes a socket from the pool and puts it back when it is done.  A step is what is done with
`_sockets_lock` held; a thread that waits for a socket is woken up by `notify_one` or by itself.

Main results:

- Theorem {lit}`socketPool_sound`: no socket is handed out twice, and no wake-up is lost.
-/

namespace BlueSky

open List Option TransitionLib

/-- `SocketPool`, with the sockets that are handed out, the number of connections that have failed,
and the numbers of threads that wait and that are about to wake up. -/
structure SocketPool where
  issued : Nat := 0
  queue : List Nat := []
  out : List Nat := []
  failed : Nat := 0
  waiting : Nat := 0
  woken : Nat := 0
deriving DecidableEq, Repr

/-- The steps of the threads. -/
inductive PoolEvent where
  | get (new : Option Nat)
  | wake
  | resume (new : Option Nat)
  | put (socket : Nat) (isOpen : Bool)

/-- `SocketPool::getSocket`, from the condition of its loop on; `new` is the socket that is
connected.  When this fails, the exception leaves `_issued` as it is. -/
def getSocket (maxSockets : Nat) (s : SocketPool) (new : Option Nat) : SocketPool :=
  match s.queue with
  | socket :: queue => { s with queue := queue, out := socket :: s.out }
  | [] =>
    if maxSockets ≤ s.issued then { s with waiting := s.waiting + 1 }
    else { s with
      issued := s.issued + 1
      out := new.toList ++ s.out
      failed := s.failed + (1 - new.toList.length) }

/-- A waiting thread is woken up. -/
def wakeUp (s : SocketPool) : SocketPool :=
  { s with waiting := s.waiting - 1, woken := s.woken + min s.waiting 1 }

/-- `SocketPool::putSocket`. -/
def putSocket (s : SocketPool) (socket : Nat) (isOpen : Bool) : SocketPool :=
  if isOpen then wakeUp { s with out := s.out.erase socket, queue := s.queue ++ [socket] }
  else wakeUp { s with out := s.out.erase socket, issued := s.issued - 1 }

/-- A step.  A new socket is none of those that are in use, and only a socket that was handed out is
put back. -/
def poolStep (maxSockets : Nat) (s : SocketPool) : PoolEvent → Option SocketPool
  | .get new => if ∀ x ∈ new, x ∉ s.out then some (getSocket maxSockets s new) else none
  | .wake => some (wakeUp s)
  | .resume new =>
    if (∀ x ∈ new, x ∉ s.out) ∧ 0 < s.woken then
      some (getSocket maxSockets { s with woken := s.woken - 1 } new)
    else none
  | .put socket isOpen => if socket ∈ s.out then some (putSocket s socket isOpen) else none

/-- Each socket is in one place, all that are counted as issued are accounted for, and if a thread
waits, threads are about to wake up for all sockets that could be handed out. -/
structure PoolInv (maxSockets : Nat) (s : SocketPool) : Prop where
  nodup : (s.queue ++ s.out).Nodup
  issued : s.issued = s.queue.length + s.out.length + s.failed
  issued_le : s.issued ≤ maxSockets
  wakeups : 0 < s.waiting → s.queue.length + (maxSockets - s.issued) ≤ s.woken

variable {maxSockets : Nat} {s : SocketPool}

/-- A thread that takes a socket needs no other one to wake up. -/
theorem PoolInv.getSocket (h : PoolInv maxSockets { s with woken := s.woken + 1 })
    {new : Option Nat} (hnew : ∀ x ∈ new, x ∉ s.out) :
    PoolInv maxSockets (getSocket maxSockets s new) := by
  rcases s with ⟨issued, queue, out, failed, waiting, woken⟩
  rcases h with ⟨hnodup, hissued, hle, hwakeups⟩
  cases queue with
  | cons socket queue =>
    refine ⟨perm_middle.nodup_iff.mpr hnodup, ?_, hle, ?_⟩ <;>
      simp [BlueSky.getSocket] at * <;> omega
  | nil =>
    by_cases hfull : maxSockets ≤ issued
    · simp only [BlueSky.getSocket, if_pos hfull]
      exact ⟨hnodup, hissued, hle, fun _ => by simp only [length_nil]; omega⟩
    · simp only [BlueSky.getSocket, if_neg hfull]
      cases new <;> constructor <;> simp_all <;> omega

theorem PoolInv.wakeUp (h : PoolInv maxSockets { s with woken := s.woken + 1 }) :
    PoolInv maxSockets (wakeUp s) :=
  ⟨h.nodup, h.issued, h.issued_le, fun hw => by
    have hwoken := h.wakeups (Nat.lt_of_lt_of_le hw (Nat.sub_le _ _))
    simp only [BlueSky.wakeUp] at *
    omega⟩

theorem PoolInv.putSocket (h : PoolInv maxSockets s) {socket : Nat} (hout : socket ∈ s.out)
    (isOpen : Bool) : PoolInv maxSockets (putSocket s socket isOpen) := by
  have hlength := length_erase_add_one hout
  rcases h with ⟨hnodup, hissued, hle, hwakeups⟩
  cases isOpen with
  | true =>
    refine .wakeUp ⟨?_, ?_, hle, ?_⟩
    · rw [append_assoc]
      exact ((perm_cons_erase hout).symm.append_left _).nodup_iff.mpr hnodup
    all_goals simp at *; omega
  | false =>
    refine .wakeUp ⟨hnodup.sublist (erase_sublist.append_left _), ?_, ?_, fun hw => ?_⟩ <;>
      simp only at * <;> omega

/-- However calls follow each other: a socket is handed out to one call at a time, there are never
more sockets than allowed, of which every failed connection takes one for good, and when a thread
waits although sockets could be handed out, as many threads are about to wake up. -/
theorem socketPool_sound (hs : Reachable (poolStep maxSockets) (fun _ _ => True) {} s) :
    PoolInv maxSockets s := by
  refine hs.invariant (I := PoolInv maxSockets) (by constructor <;> simp) ?_
  intro s e s' h _ hstep
  have hmore : PoolInv maxSockets { s with woken := s.woken + 1 } :=
    ⟨h.nodup, h.issued, h.issued_le, fun hw => Nat.le_succ_of_le (h.wakeups hw)⟩
  cases e with
  | get new =>
    rcases ite_none_right_eq_some.mp hstep with ⟨hnew, heq⟩
    exact some.inj heq ▸ hmore.getSocket hnew
  | wake => exact some.inj hstep ▸ hmore.wakeUp
  | resume new =>
    rcases ite_none_right_eq_some.mp hstep with ⟨⟨hnew, hwoken⟩, heq⟩
    refine some.inj heq ▸ PoolInv.getSocket ?_ hnew
    simpa only [Nat.sub_add_cancel hwoken] using h
  | put socket isOpen =>
    rcases ite_none_right_eq_some.mp hstep with ⟨hout, heq⟩
    exact some.inj heq ▸ h.putSocket hout isOpen

/-- Two calls share the one socket of a pool. -/
theorem socketPool_sound_shared : ∃ s : SocketPool, s.out = [3] ∧ PoolInv 1 s := by
  have hfacts : ∃ s ∈ runWhile (poolStep 1) (fun _ _ => True) {}
      [.get (some 3), .get none, .put 3 true, .resume none], s.out = [3] := by decide +kernel
  rcases hfacts with ⟨s, hrun, hout⟩
  exact ⟨s, hout, socketPool_sound (reachable_of_runWhile .start hrun)⟩

end BlueSky
