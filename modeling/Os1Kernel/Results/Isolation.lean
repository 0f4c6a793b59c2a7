/-
# A suspended thread is left alone

Between the `TCB::yield` that switches from a thread and the one that chooses it again, the other
threads make system calls, are interrupted, raise exceptions and finish.  The thread's object keeps
what it was left with: where its code goes on, its registers, its stacks, its semaphores, its time
slice.  What does change says that the thread has been released, and how, or that a message has
been written to its slot.

The argument is made in the abstract system (`Spec.Isolation`): there the steps of a thread change
only its own fields, with the exceptions that the statement lists, and a run is cut at the choices
of the thread.  A thread that is not among the choices between two states has not run in between,
because the choices of the history are the threads that have run (section 2).
-/
import Os1Kernel.Results.RoundRobin
import Os1Kernel.Spec.Isolation

namespace Os1Kernel

variable {k k' : Kernel} {a b : Sys} {t : Tid}

/-! ## 1. The statement -/

/-- The events between two states of a run. -/
def Kernel.eventsSince (k k' : Kernel) : List Event :=
  k'.history.take (k'.history.length - k.history.length)

/-- The thread waits as before, is ready as before, or does neither as before. -/
structure Kernel.Still (k k' : Kernel) (t : Tid) : Prop where
  blocked : (k'.tcb t).blockedAtSem = (k.tcb t).blockedAtSem
  manner : (k'.tcb t).unblockManner = (k.tcb t).unblockManner
  /-- Part of the tokens it needs may have been handed over. -/
  tokens : (k'.tcb t).tokensNeeded ≤ (k.tcb t).tokensNeeded
  sleeps : (k'.tcb t).sleeps = (k.tcb t).sleeps
  ready : t ∈ k'.readyList ↔ t ∈ k.readyList

/-- The thread waited, and has been released. -/
structure Kernel.Freed (k k' : Kernel) (t : Tid) : Prop where
  waited : (k.tcb t).blockedAtSem ≠ none ∨ (k.tcb t).sleeps = true
  ready : t ∈ k'.readyList
  blocked : (k'.tcb t).blockedAtSem = none
  sleeps : (k'.tcb t).sleeps = false

/-- What is the same of the thread `t` in a state `k` and in a later one, and what may not be. -/
structure Kernel.LeavesAlone (k k' : Kernel) (t : Tid) : Prop where
  mem : t ∈ k'.tcbList
  running : k'.running ≠ some t
  kept : (k'.tcb t).kept = (k.tcb t).kept
  place : k.Still k' t ∨ k.Freed k' t
  message : (k'.tcb t).message = (k.tcb t).message ∨
    ∃ sender msg, .wrote t sender msg ∈ k.eventsSince k'

/-! ## 2. From the transition system -/

theorem Shows.sleeps_iff (h : Shows k a) (t : Tid) : (k.tcb t).sleeps = true ↔ t ∈ a.asleep :=
  h.rep.sleeps t

theorem Shows.still (h : Shows k a) (h' : Shows k' b) (hs : a.Still b t) : k.Still k' t := by
  have hx := h.rep.thread_apply t
  have hy := h'.rep.thread_apply t
  refine ⟨?_, ?_, ?_, ?_, ?_⟩
  · exact (congrArg Thread.blockedAtSem hy).trans
      (hs.blocked.trans (congrArg Thread.blockedAtSem hx).symm)
  · exact (congrArg Thread.unblockManner hy).trans
      (hs.manner.trans (congrArg Thread.unblockManner hx).symm)
  · have htokens := hs.tokens
    rwa [← hx, ← hy] at htokens
  · rw [Bool.eq_iff_iff, h.sleeps_iff, h'.sleeps_iff]
    exact hs.asleep
  · rw [h.readyList_eq, h'.readyList_eq]
    exact hs.ready

theorem Shows.freed (h : Shows k a) (h' : Shows k' b) (hf : a.Freed b t) : k.Freed k' t := by
  have hx := h.rep.thread_apply t
  have hy := h'.rep.thread_apply t
  refine ⟨?_, ?_, ?_, ?_⟩
  · rw [h.sleeps_iff, show (k.tcb t).blockedAtSem = (a.thread t).blockedAtSem from
      congrArg Thread.blockedAtSem hx]
    exact hf.waited
  · rw [h'.readyList_eq]
    exact hf.ready
  · exact (congrArg Thread.blockedAtSem hy).trans hf.blocked
  · exact Bool.eq_false_iff.mpr fun hs => hf.asleep ((h'.sleeps_iff t).mp hs)

/-- The choices are among the events. -/
theorem mem_choices {l : List Event} (h : .chosen t ∈ l) : t ∈ choices l := by
  rw [choices, List.mem_reverse, List.mem_filterMap]
  exact ⟨.chosen t, h, rfl⟩

theorem choices_append (l l' : List Event) : choices (l ++ l') = choices l' ++ choices l := by
  rw [choices, choices, choices, List.filterMap_append, List.reverse_append]

/-! ## 3. The result -/

/-- **Until it is chosen, a thread is left alone.**  From any reachable state in which the thread
does not run, over any run in which it is not chosen: what its code goes on with is kept, it waits
as before or has been made ready, and only a sender has written to its slot. -/
theorem suspended_leftAlone {acts : List Act} (h : Reachable k)
    (hrun : Run.run step k acts = some k') (ht : t ∈ k.tcbList) (hne : k.running ≠ some t)
    (hc : t ∉ k.choicesSince k') : k.LeavesAlone k' t := by
  obtain ⟨-, -, a, -, hshow⟩ := h.shows
  obtain ⟨b, hsteps, hshow'⟩ := run_shows hshow hrun
  have hmem : t ∈ a.threads := hshow.tcbList_eq ▸ ht
  have hrunning : t ≠ a.running := fun he => hne (he ▸ hshow.rep.running)
  obtain ⟨l, hl, hcases⟩ := Sys.Steps.rests hsteps hshow.inv hmem hrunning
  have hhist : k'.history = l ++ k.history := by
    rw [congrArg Core.history hshow'.rep.core, congrArg Core.history hshow.rep.core, hl]
  rw [Kernel.choicesSince, hhist, choices_append, List.drop_left] at hc
  obtain ⟨hmem', hrunning', hrests⟩ := hcases.resolve_left fun hm => hc (mem_choices hm)
  have hx := hshow.rep.thread_apply t
  have hy := hshow'.rep.thread_apply t
  refine ⟨?_, ?_, ?_, ?_, ?_⟩
  · rw [hshow'.tcbList_eq]
    exact hmem'
  · rw [hshow'.rep.running]
    exact fun he => hrunning' (Option.some.inj he).symm
  · rw [hx, hy]
    exact hrests.kept
  · exact hrests.place.imp (hshow.still hshow') (hshow.freed hshow')
  · obtain ⟨l', hl', hm⟩ := hrests.message
    obtain rfl : l = l' := List.append_cancel_right (hl.symm.trans hl')
    have hevents : k.eventsSince k' = l := by
      rw [Kernel.eventsSince, hhist, List.length_append, Nat.add_sub_cancel, List.take_left]
    rw [hx, hy, hevents]
    exact hm

/-- `main` creates a thread and waits for it; -/
def waitsForChild : List Act :=
  [.ecall (.threadCreate true false (.ok (zeroMessage 4))), .ecall (.join 4)]

/-- the others take turns, and the new thread raises an exception. -/
def childFaults : List Act :=
  [.resume, .ecall .threadDispatch, .resume, .ecall .threadDispatch, .resume, .exception 5]

theorem suspended_leftAlone_run : ∃ k k', Reachable k ∧ Run.run step k childFaults = some k' ∧
    k.LeavesAlone k' 0 := by
  obtain ⟨k₀, k, hboot, hrun, hk⟩ := exists_run waitsForChild (by decide +kernel)
  have he : ((runFromZero waitsForChild).bind fun k => (Run.run step k childFaults).bind fun k' =>
      if 0 ∈ k.tcbList ∧ k.running ≠ some 0 ∧ 0 ∉ k.choicesSince k' then some () else none) =
        some () := by
    decide +kernel
  rw [hk, Option.bind_some, Option.bind_eq_some_iff] at he
  obtain ⟨k', hrun', he⟩ := he
  obtain ⟨ht, hne, hc⟩ := (Option.ite_none_right_eq_some.mp he).1
  have hreach : Reachable k := ⟨_, _, k₀, _, hboot, hrun⟩
  exact ⟨k, k', hreach, hrun', suspended_leftAlone hreach hrun' ht hne hc⟩

end Os1Kernel
