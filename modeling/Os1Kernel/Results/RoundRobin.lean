/-
# Round robin

The ready list is a queue that is served from its head, whatever wakes or creates threads
(`Sys.Step.turns`), so a thread with `n` others ahead is chosen by the `n`-th next `TCB::yield`
behind theirs.  And a thread that is not switched from runs for less than its time slice.

* Each step of the abstract system changes the ready list by a list of turns, `put` at the end or
  `serve` from the head, and the choices in the history are those who were served.  That a thread
  is served in its place is a fact about queues (`Lib.Fifo`), and the log of a run is the
  concatenation of the logs of its steps.
* Who runs is the last who was chosen: a choice and the assignment of `running` are one step.
* The bound on the time slice needs two more invariants of the machine, which the abstract system
  does not have: every thread that has been constructed has a time slice of at least one, and the
  counter is below that of the running thread.  The counter is set to zero where a thread is
  chosen, and only the timer adds to it (section 3).
-/
import Os1Kernel.Lib.Fifo
import Os1Kernel.Kernel.Frame
import Os1Kernel.Refine.Boot

namespace Os1Kernel

open Fifo Simulation

variable {k k' : Kernel} {a b : Sys} {t : Tid} {raw : Tid → Message}
  {rawBuffer : BufferId → Vector UInt8 bufferLength}

/-! ## 1. The statement -/

/-- The thread that a `TCB::yield` has chosen. -/
def Event.choice : Event → Option Tid
  | .chosen t => some t
  | _ => none

/-- The choices of all `TCB::yield`s, the first first. -/
def choices (history : List Event) : List Tid := (history.filterMap Event.choice).reverse

/-- The choices of the `TCB::yield`s between two states of a run. -/
def Kernel.choicesSince (k k' : Kernel) : List Tid :=
  (choices k'.history).drop (choices k.history).length

/-- Between two states of a run, the ready list was a queue.  The log holds every `TCB::yield`, and
every thread that was not ready before and was ready or chosen later. -/
structure Kernel.InTurn (k k' : Kernel) (idle : Tid) (log : List (Turn Tid)) : Prop where
  yields : served log = k.choicesSince k'
  /-- Who runs is the last that was chosen, or the one that ran before if nobody was. -/
  running : ∀ r, k.running = some r → k'.running = some ((k.choicesSince k').getLastD r)
  queue : replay idle k.readyList log = some k'.readyList
  /-- Who was put on the list with `n` others ahead. -/
  put : ∀ {before t after}, log = before ++ .put t :: after → ∃ q,
    replay idle k.readyList before = some q ∧ TakesTurn q.length t (served after) k'.readyList
  /-- Who was on it already. -/
  ready : ∀ {n t}, k.readyList[n]? = some t →
    TakesTurn n t (k.choicesSince k') k'.readyList

/-- The step is a timer interrupt. -/
def Act.isTimer : Act → Bool
  | .timer => true
  | _ => false

/-- The running thread has not used up its time slice. -/
def Kernel.Sliced (k : Kernel) : Prop :=
  ∃ r, k.running = some r ∧ k.timeSliceCounter < (k.tcb r).timeSlice

/-! ## 2. The ready list -/

namespace Sys

theorem choices_of_none {e : Event} (he : e.choice = none) (l : List Event) :
    choices (e :: l) = choices l := by
  rw [choices, choices, List.filterMap_cons_none he]

theorem choices_chosen (t : Tid) (l : List Event) :
    choices (.chosen t :: l) = choices l ++ [t] := by
  rw [choices, choices, List.filterMap_cons_some (f := Event.choice) rfl, List.reverse_cons]

/-- One step adds a thread at the tail, or takes the first. -/
theorem Step.turns (h : a.Inv) (hs : a.Step b) : ∃ log,
    choices b.history = choices a.history ++ served log ∧
      replay a.idle a.ready log = some b.ready := by
  have hb := h.step hs
  -- nobody is chosen
  have hnone : ∀ {log}, served log = [] →
      (b.history = a.history ∨ ∃ e : Event, e.choice = none ∧ b.history = e :: a.history) →
      choices b.history = choices a.history ++ served log := by
    rintro log hl (he | ⟨e, he, hh⟩)
    · rw [he, hl, List.append_nil]
    · rw [hh, choices_of_none he, hl, List.append_nil]
  have hput : ∀ {t}, b.ready = a.ready ++ [t] → replay a.idle a.ready [.put t] = some b.ready := by
    intro t he
    have hn := hb.places.ready_nodup
    rw [he, List.nodup_append] at hn
    exact (replay_put fun ht => hn.2.2 t ht t (List.mem_singleton_self t) rfl).trans
      (congrArg some he.symm)
  cases hs with
  | @expire _ t | @wake _ t | @grant _ _ _ t =>
    exact ⟨[.put t], hnone rfl (Or.inr ⟨_, rfl, rfl⟩), hput rfl⟩
  | @release s manner _ t =>
    exact ⟨[.put t], hnone rfl (Or.inr ⟨manner.event s t, by cases manner <;> rfl, rfl⟩), hput rfl⟩
  | @enlist hc t =>
    by_cases hbody : (a.thread t).hasBody = true
    · exact ⟨[.put t], hnone rfl (Or.inr ⟨_, rfl, rfl⟩), hput (if_pos hbody)⟩
    · exact ⟨[], hnone rfl (Or.inr ⟨_, rfl, rfl⟩), congrArg some (if_neg hbody).symm⟩
  | preempt =>
    by_cases hi : a.running = a.idle
    · refine ⟨[.serve (a.ready.headD a.idle)], ?_, ?_⟩
      · rw [pushReady, if_pos hi]
        exact choices_chosen _ _
      · rw [pushReady, if_pos hi]
        exact replay_serve
    · refine ⟨[.put a.running, .serve ((a.ready ++ [a.running]).headD a.idle)], ?_, ?_⟩
      · rw [pushReady, if_neg hi]
        exact choices_chosen _ _
      · rw [pushReady, if_neg hi]
        exact (replay_put h.places.running_ready).trans replay_serve
  | switch => exact ⟨[.serve (a.ready.headD a.idle)], choices_chosen _ _, replay_serve⟩
  | timeoutZero =>
    exact ⟨[], (choices_of_none rfl _).trans ((choices_of_none rfl _).trans (List.append_nil _).symm),
      rfl⟩
  | _ =>
    refine ⟨[], hnone rfl ?_, rfl⟩
    first | exact Or.inl rfl | exact Or.inr ⟨_, rfl, rfl⟩

/-- A run adds threads at the tail, and takes the first. -/
theorem Steps.turns (h : a.Inv) (hs : a.Steps b) : ∃ log,
    choices b.history = choices a.history ++ served log ∧
      replay a.idle a.ready log = some b.ready := by
  refine (Steps.invariant (P := fun b => b.idle = a.idle ∧ ∃ log,
    choices b.history = choices a.history ++ served log ∧
      replay a.idle a.ready log = some b.ready) ?_ h ⟨rfl, [], by simp [served], rfl⟩ hs).2
  rintro b d hb ⟨hi, l, hl, hq⟩ hs
  obtain ⟨l', hl', hq'⟩ := hs.turns hb
  refine ⟨hs.idle.trans hi, l ++ l', ?_, ?_⟩
  · rw [hl', hl, served_append, List.append_assoc]
  · rw [replay_append, hq]
    exact hi ▸ hq'

/-- Only a choice sets `running`, and to the thread that is chosen. -/
theorem Step.chooses (hs : a.Step b) : ∃ l,
    choices b.history = choices a.history ++ l ∧ b.running = l.getLastD a.running := by
  have hnone : ∀ {b : Sys}, (b.history = a.history ∨
      ∃ e : Event, e.choice = none ∧ b.history = e :: a.history) → b.running = a.running →
      ∃ l, choices b.history = choices a.history ++ l ∧ b.running = l.getLastD a.running := by
    rintro b (he | ⟨e, he, hh⟩) hrun
    · exact ⟨[], by rw [he, List.append_nil], hrun⟩
    · exact ⟨[], by rw [hh, choices_of_none he, List.append_nil], hrun⟩
  cases hs with
  | preempt | switch => exact ⟨[_], choices_chosen _ _, rfl⟩
  | @release s manner _ t =>
    exact hnone (Or.inr ⟨manner.event s t, by cases manner <;> rfl, rfl⟩) rfl
  | timeoutZero =>
    exact ⟨[], (choices_of_none rfl _).trans ((choices_of_none rfl _).trans
      (List.append_nil _).symm), rfl⟩
  | _ => exact hnone (by first | exact Or.inl rfl | exact Or.inr ⟨_, rfl, rfl⟩) rfl

/-- So who runs behind a run is the last that was chosen in it. -/
theorem Steps.chooses (hi : a.Inv) (hs : a.Steps b) : ∃ l,
    choices b.history = choices a.history ++ l ∧ b.running = l.getLastD a.running := by
  refine Steps.invariant (P := fun b => ∃ l, choices b.history = choices a.history ++ l ∧
    b.running = l.getLastD a.running) ?_ hi ⟨[], (List.append_nil _).symm, rfl⟩ hs
  rintro b d - ⟨l, hl, hrun⟩ hs
  obtain ⟨l', hl', hrun'⟩ := hs.chooses
  refine ⟨l ++ l', by rw [hl', hl, List.append_assoc], ?_⟩
  rw [hrun', hrun, List.getLastD_eq_getLast?, List.getLastD_eq_getLast?, List.getLastD_eq_getLast?,
    List.getLast?_append]
  cases l'.getLast? <;> rfl

end Sys

theorem Shows.inTurn (h : Shows k a) (h' : Shows k' b) (hs : a.Steps b) :
    ∃ log, k.InTurn k' a.idle log := by
  obtain ⟨log, hc, hq⟩ := hs.turns h.inv
  obtain ⟨l, hl, hrun⟩ := hs.chooses h.inv
  have hc' : k.choicesSince k' = served log := by
    rw [Kernel.choicesSince, congrArg Core.history h.rep.core, congrArg Core.history h'.rep.core, hc,
      List.drop_left]
  obtain rfl : l = served log := List.append_cancel_left (hl.symm.trans hc)
  rw [← h.readyList_eq, ← h'.readyList_eq] at hq
  have hnodup : k.readyList.Nodup := h.readyList_eq ▸ h.inv.places.ready_nodup
  exact ⟨log,
    { yields := hc'.symm
      running := fun r hr => by
        obtain rfl := Option.some.inj (h.rep.running.symm.trans hr)
        rw [h'.rep.running, hc', hrun]
      queue := hq
      put := fun he => replay_put_takesTurn (he ▸ hq) hnodup
      ready := fun hn => hc' ▸ replay_takesTurn hq hnodup hn }⟩

/-! ## 3. Time slices -/

/-- Every thread that has been constructed has a time slice. -/
def Kernel.Slices (k : Kernel) : Prop :=
  ∀ t, (k.tcb t).semJoin ≠ none → properSlice (k.tcb t).timeSlice

/-- Since the state `k₀` nobody has been chosen, and the running thread has had `n` ticks; or
somebody has. -/
structure Kernel.Since (k₀ : Kernel) (n : Nat) (k : Kernel) : Prop where
  le : k₀.IDCounter ≤ k.IDCounter
  timeSlice : ∀ t < k₀.IDCounter, (k.tcb t).timeSlice = (k₀.tcb t).timeSlice
  slices : k.Slices
  counter : choices k.history = choices k₀.history ∧ k.running = k₀.running ∧
      k.timeSliceCounter = n ∨
    (choices k₀.history).length < (choices k.history).length ∧ k.timeSliceCounter = 0

variable {k₀ : Kernel} {n : Nat}

theorem Kernel.setTcb_self (k : Kernel) (t : Tid) (f : TCB → TCB) :
    (k.setTcb t f).tcb t = f (k.tcb t) := Function.update_self ..

theorem Kernel.setTcb_of_ne {u : Tid} (h : u ≠ t) (k : Kernel) (f : TCB → TCB) :
    (k.setTcb t f).tcb u = k.tcb u := Function.update_of_ne h ..

theorem Kernel.Slices.setTcb (h : k.Slices) {f : TCB → TCB} (hf : ∀ x, properSlice (f x).timeSlice ∨
    (f x).timeSlice = x.timeSlice ∧ (f x).semJoin = x.semJoin) : (k.setTcb t f).Slices := by
  intro u hu
  by_cases hut : u = t
  · subst hut
    rw [Kernel.setTcb_self] at hu ⊢
    rcases hf (k.tcb u) with hf | ⟨hs, hj⟩
    · exact hf
    · rw [hs]
      exact h u (hj ▸ hu)
  · rw [Kernel.setTcb_of_ne hut] at hu ⊢
    exact h u hu

theorem Kernel.Since.setTcb (h : k₀.Since n k) {f : TCB → TCB} (hf : ∀ x, properSlice (f x).timeSlice ∨
    (f x).timeSlice = x.timeSlice ∧ (f x).semJoin = x.semJoin)
    (ht : t < k₀.IDCounter → ∀ x, (f x).timeSlice = x.timeSlice) : k₀.Since n (k.setTcb t f) := by
  refine ⟨h.le, fun u hu => ?_, h.slices.setTcb hf, h.counter⟩
  by_cases hut : u = t
  · subst hut
    rw [Kernel.setTcb_self, ht hu]
    exact h.timeSlice u hu
  · rw [Kernel.setTcb_of_ne hut]
    exact h.timeSlice u hu

/-- Events of which none is a choice. -/
theorem Kernel.Since.emit (h : k₀.Since n k) {e : Event} (he : e.choice = none) :
    k₀.Since n { k with history := e :: k.history } := by
  refine ⟨h.le, h.timeSlice, h.slices, ?_⟩
  rw [Sys.choices_of_none he]
  exact h.counter

theorem since_stable : Stable (k₀.Since n) where
  tcb k t f hf h := by
    have hs : ∀ x, (f x).timeSlice = x.timeSlice := fun x => congrArg (fun p => p.2.2.1) (hf x)
    exact h.setTcb (fun x => Or.inr ⟨hs x, congrArg (fun p => p.2.2.2) (hf x)⟩) fun _ => hs
  other k k' hk h := by
    simp only [Kernel.given, Prod.mk.injEq] at hk
    obtain ⟨htcb, hid, -, hh, hr, hc, -⟩ := hk
    exact ⟨hid ▸ h.le, htcb ▸ h.timeSlice, fun t => htcb ▸ h.slices t, hh ▸ hr ▸ hc ▸ h.counter⟩
  event k e he h := h.emit (by cases e <;> first | rfl | cases he)
  switch k t h := by
    refine ⟨h.le, h.timeSlice, h.slices, Or.inr ⟨?_, rfl⟩⟩
    rw [Sys.choices_chosen, List.length_append, List.length_singleton]
    rcases h.counter with ⟨hc, -⟩ | ⟨hc, -⟩
    · exact hc ▸ Nat.lt_succ_self _
    · exact Nat.lt_succ_of_lt hc

theorem since_fresh : Fresh (k₀.Since n) k₀.IDCounter where
  le _ h := h.le
  next _ h := { h with le := Nat.le_succ_of_le h.le }
  set _ _ _ ht hf h := h.setTcb hf fun hlt => absurd hlt (Nat.not_lt.mpr ht)

theorem emit_since {e : Event} (he : e.choice = none) : Keeps (k₀.Since n) (emit e) :=
  .write (fun k => emit_apply k e) fun _ h => h.emit he

theorem setMsg_since (msg : CString) : Keeps (k₀.Since n) (setMsg t msg) := by
  refine setMsg_keeps (fun _ => .write (fun k => setThread_apply k _ _) fun _ h => ?_)
    fun _ => emit_since rfl
  exact h.setTcb (fun _ => Or.inr ⟨rfl, rfl⟩) fun _ _ => rfl

theorem step_since {act : Act} (hact : act ≠ .timer) (h : k₀.Since n k) (hs : step k act = some k') :
    k₀.Since n k' := by
  refine step_keeps since_stable ⟨fun he => absurd he hact, fun t _ _ => emit_since rfl,
    fun _ t m _ => ?_, fun _ _ _ _ => emit_since rfl, fun _ _ => { h with },
    fun body space mem _ => ?_, fun t msg x c' _ hx => ?_, fun r t msg _ _ _ => setMsg_since⟩ h hs
  · exact .write (fun k => emit_apply k _) fun k h => ⟨h.1.emit rfl, h.2⟩
  · exact threadCreate_keeps since_stable since_fresh _ _ _ _ _ fun _ _ => emit_since rfl
  · exact handleSend_keeps since_stable setMsg_since k x c' h hx

theorem since_refl (h : k.Slices) : k.Since k.timeSliceCounter k :=
  ⟨Nat.le_refl _, fun _ _ => rfl, h, Or.inl ⟨rfl, rfl, rfl⟩⟩

theorem yield_counter {u : Unit} {schPut : Bool} {context : Context}
    (h : TCB.yield schPut context k = some (u, k')) : k'.timeSliceCounter = 0 := by
  unfold TCB.yield at h
  iterate 5
    rw [bind_apply, Option.bind_eq_some_iff] at h
    obtain ⟨⟨_, _⟩, -, h⟩ := h
  cases h
  rfl

/-- Behind a timer interrupt the counter starts again, or the time slice is not used up. -/
theorem handleTimer_since {u : Unit} (h : k.Slices) (hs : handleTimer k = some (u, k')) :
    k.Since (u64 (k.timeSliceCounter + 1)) k' ∧ (k'.timeSliceCounter = 0 ∨ k'.Sliced) := by
  have h₁ : k.Since (u64 (k.timeSliceCounter + 1))
      { k with timeSliceCounter := u64 (k.timeSliceCounter + 1) } :=
    ⟨Nat.le_refl _, fun _ _ => rfl, h, Or.inl ⟨rfl, rfl, rfl⟩⟩
  rw [handleTimer, bind_apply, modify_apply, Option.bind_some, bind_apply,
    Option.bind_eq_some_iff] at hs
  obtain ⟨⟨v, k₁⟩, htick, hs⟩ := hs
  have h₂ := onTick_keeps since_stable.toQuiet (emit_since rfl) _ v k₁ h₁ htick
  rw [bind_apply, Option.bind_eq_some_iff] at hs
  obtain ⟨⟨r, k₂⟩, hr, hs⟩ := hs
  obtain ⟨hrun, rfl⟩ := getRunning_eq hr
  rw [bind_apply, getKernel_apply, Option.bind_some] at hs
  dsimp only at hs
  split at hs
  · exact ⟨yield_keeps since_stable true .timer k₁ u k' h₂ hs, Or.inl (yield_counter hs)⟩
  · obtain ⟨-, rfl⟩ := Prod.mk.inj (Option.some.inj hs)
    exact ⟨h₂, Or.inr ⟨r, hrun, Nat.not_le.mp (by assumption)⟩⟩

/-- The ticks that the running thread has had behind the step. -/
def Kernel.countOn (k : Kernel) (act : Act) : Nat :=
  if act.isTimer then u64 (k.timeSliceCounter + 1) else k.timeSliceCounter

/-- A state in which the time slices and the counter are as they should be. -/
structure Kernel.OnTime (k : Kernel) : Prop where
  slices : k.Slices
  sliced : k.Sliced
  shows : ∃ a, Shows k a

theorem Shows.running_built (h : Shows k a) : ∃ r, k.running = some r ∧ r < k.IDCounter ∧
    (k.tcb r).semJoin ≠ none := by
  have hm := h.inv.alive.running_mem
  have hid : k.IDCounter = a.IDCounter := congrArg Core.IDCounter h.rep.core
  have hj : (k.tcb a.running).semJoin = (a.thread a.running).semJoin :=
    congrArg Thread.semJoin (h.rep.thread_apply _)
  exact ⟨a.running, h.rep.running, hid ▸ h.inv.names.threads_lt _ hm,
    by rw [hj, (h.inv.names.pointers _ hm).1]; nofun⟩

theorem Kernel.OnTime.of_zero (h : k.Slices) (hs : Shows k a) (hc : k.timeSliceCounter = 0) :
    k.OnTime := by
  obtain ⟨r, hrun, -, hj⟩ := hs.running_built
  exact ⟨h, ⟨r, hrun, hc ▸ (h r hj).1⟩, a, hs⟩

/-- The running thread and its time slice. -/
theorem Kernel.OnTime.running (h : k.OnTime) : ∃ r, k.running = some r ∧ r < k.IDCounter ∧
    k.timeSliceCounter < (k.tcb r).timeSlice ∧ (k.tcb r).timeSlice ≤ maxTimeSlice := by
  obtain ⟨a, ha⟩ := h.shows
  obtain ⟨r, hr, hlt, hj⟩ := ha.running_built
  obtain ⟨r', hr', hsl⟩ := h.sliced
  obtain rfl := Option.some.inj (hr.symm.trans hr')
  exact ⟨r, hr, hlt, hsl, (h.slices r hj).2⟩

theorem step_onTime {act : Act} (h : k.OnTime) (hs : step k act = some k') :
    k.Since (k.countOn act) k' ∧ k'.OnTime := by
  obtain ⟨a, ha⟩ := h.shows
  obtain ⟨b, -, hb⟩ := step_shows ha hs
  by_cases hact : act = .timer
  · subst hact
    unfold step at hs
    split at hs
    swap
    · cases hs
    obtain ⟨⟨u, k₁⟩, h₁, rfl⟩ := Option.map_eq_some_iff.mp hs
    obtain ⟨hk, hc | hc⟩ := handleTimer_since h.slices h₁
    · exact ⟨hk, .of_zero hk.slices hb hc⟩
    · exact ⟨hk, hk.slices, hc, b, hb⟩
  · have hn : k.countOn act = k.timeSliceCounter := by
      cases act <;> first | rfl | exact absurd rfl hact
    have hk := step_since hact (since_refl h.slices) hs
    refine ⟨hn ▸ hk, ?_⟩
    rcases hk.counter with ⟨-, hrun, hc⟩ | ⟨-, hc⟩
    · obtain ⟨r, hr, hlt, hsl, -⟩ := h.running
      exact ⟨hk.slices, ⟨r, hrun.trans hr, by rwa [hc, hk.timeSlice r hlt]⟩, b, hb⟩
    · exact .of_zero hk.slices hb hc

/-- The running thread's ticks are counted until somebody is chosen. -/
theorem run_onTime {acts : List Act} (h : k.OnTime) (hr : Run.run step k acts = some k') :
    k'.OnTime ∧ (choices k.history).length ≤ (choices k'.history).length ∧
      ((choices k'.history).length = (choices k.history).length →
        k'.running = k.running ∧
        (∀ r, k.running = some r → (k'.tcb r).timeSlice = (k.tcb r).timeSlice) ∧
        k'.timeSliceCounter = k.timeSliceCounter + acts.countP Act.isTimer) := by
  induction acts generalizing k with
  | nil =>
    obtain rfl := Option.some.inj hr
    exact ⟨h, Nat.le_refl _, fun _ => ⟨rfl, fun _ _ => rfl, rfl⟩⟩
  | cons act acts ih =>
    rw [Run.run_cons, Option.bind_eq_some_iff] at hr
    obtain ⟨k₁, hs, hr⟩ := hr
    obtain ⟨hk, h₁⟩ := step_onTime h hs
    obtain ⟨h', hle, heq⟩ := ih h₁ hr
    rcases hk.counter with ⟨hc, hrun, hn⟩ | ⟨hc, -⟩
    swap
    · exact ⟨h', by omega, fun hl => absurd hl (by omega)⟩
    rw [hc] at hle heq
    refine ⟨h', hle, fun hl => ?_⟩
    obtain ⟨hrun', hts, hcount⟩ := heq hl
    obtain ⟨r, hr, hlt, hsl, hmax⟩ := h.running
    refine ⟨hrun'.trans hrun, fun r' hr' => ?_, ?_⟩
    · obtain rfl := Option.some.inj (hr.symm.trans hr')
      exact (hts r (hrun.trans hr)).trans (hk.timeSlice r hlt)
    · rw [hcount, hn, Kernel.countOn, List.countP_cons]
      split
      · rw [u64_of_lt (by unfold maxTimeSlice DEFAULT_TIME_SLICE at hmax; omega)]
        omega
      · omega

/-! ## 4. Boot -/

/-- Before the first choice. -/
def Kernel.Early (k : Kernel) : Prop := k.Slices ∧ k.timeSliceCounter = 0

theorem early_stable : Stable Kernel.Early where
  tcb k t f hf h := ⟨h.1.setTcb fun x => Or.inr
    ⟨congrArg (fun p => p.2.2.1) (hf x), congrArg (fun p => p.2.2.2) (hf x)⟩, h.2⟩
  other k k' hk h := by
    simp only [Kernel.given, Prod.mk.injEq] at hk
    obtain ⟨htcb, -, -, -, -, hc, -⟩ := hk
    exact ⟨fun t => htcb ▸ h.1 t, hc.trans h.2⟩
  event _ _ _ h := h
  switch _ _ h := ⟨h.1, rfl⟩

theorem threadCreate_early (body : Bool) (mode : Mode) (schPut : Bool) (mem : CreateMem) :
    Keeps Kernel.Early (TCB.threadCreate body mode false DEFAULT_TIME_SLICE schPut mem) :=
  threadCreate_keeps early_stable
    ⟨fun _ _ => Nat.zero_le _, fun _ h => h, fun _ _ _ _ hf h => ⟨h.1.setTcb hf, h.2⟩⟩ _ _ _ _ _
    fun _ _ => .write (fun k => emit_apply k _) fun _ h => h

theorem construct_early (b : BufferId) (raw : Vector UInt8 bufferLength) :
    Keeps Kernel.Early (CharBuffer.construct b raw) := by
  unfold CharBuffer.construct
  exact .bind (semaphoreCreate_keeps early_stable _ _) fun _ =>
    .bind (semaphoreCreate_keeps early_stable _ _) fun _ =>
    .bind (semaphoreCreate_keeps early_stable _ _) fun _ => modify_keeps early_stable fun _ => rfl

theorem bootstrap_early : Keeps Kernel.Early (bootstrap raw rawBuffer) := by
  have hset : ∀ {f : Kernel → Kernel}, (∀ k, (f k).tcb = k.tcb ∧
      (f k).timeSliceCounter = k.timeSliceCounter) → Keeps Kernel.Early (modify f : KernelM PUnit) :=
    fun hf => .write (modify_apply _) fun k h =>
      ⟨fun t => (hf k).1 ▸ h.1 t, (hf k).2.trans h.2⟩
  unfold bootstrap
  exact .bind (threadCreate_early _ _ _ _) fun _ => .bind (hset fun _ => ⟨rfl, rfl⟩) fun _ =>
    .bind (hset fun _ => ⟨rfl, rfl⟩) fun _ => .bind getRunning_keeps fun _ =>
    .bind (setThread_keeps early_stable fun _ => rfl) fun _ =>
    .bind (threadCreate_early _ _ _ _) fun _ => .bind (hset fun _ => ⟨rfl, rfl⟩) fun _ =>
    .bind (construct_early _ _) fun _ => .bind (construct_early _ _) fun _ =>
    .bind (threadCreate_early _ _ _ _) fun _ => .bind (threadCreate_early _ _ _ _) fun _ => .pure _

theorem Reachable.onTime (h : Reachable k) : k.OnTime := by
  obtain ⟨raw, rawBuffer, k₀, acts, hboot, hrun⟩ := h
  obtain ⟨k₁, a, hk, -, hshow⟩ := boot_shows raw rawBuffer
  obtain rfl := Option.some.inj (hboot.symm.trans hk)
  obtain ⟨⟨u, k₁⟩, hb, rfl⟩ := Option.map_eq_some_iff.mp hboot
  have hf := bootstrap_early Kernel.zero u k₁ ⟨fun t ht => absurd rfl ht, rfl⟩ hb
  exact (run_onTime (.of_zero hf.1 hshow hf.2) hrun).1

/-! ## 5. Every run -/

/-- **Threads are served in turn, and nobody runs for longer than a time slice.**  Between any two
states of a run the ready list was a queue, so that a thread with `n` others ahead was the `n`-th
to be chosen behind them; and the running thread has had fewer ticks than its time slice. -/
theorem round_robin (h : Reachable k) :
    (∃ idle, k.idle = some idle ∧ ∀ acts k', Run.run step k acts = some k' →
      ∃ log, k.InTurn k' idle log) ∧
    k.Sliced ∧
    ∀ r, k.running = some r → ∀ acts k', Run.run step k acts = some k' →
      (k.tcb r).timeSlice ≤ acts.countP Act.isTimer → k.choicesSince k' ≠ [] := by
  have ht := h.onTime
  obtain ⟨-, -, a, -, ha⟩ := h.shows
  refine ⟨⟨a.idle, ha.rep.idle, fun acts k' hr => ?_⟩, ht.sliced, fun r hr acts k' hrun hn hc => ?_⟩
  · obtain ⟨b, hs, hb⟩ := run_shows ha hr
    exact ha.inTurn hb hs
  · obtain ⟨⟨-, ⟨r', hr', hsl⟩, -⟩, hle, heq⟩ := run_onTime ht hrun
    have hlen : (choices k'.history).length = (choices k.history).length := by
      have := List.drop_eq_nil_iff.mp hc
      omega
    obtain ⟨hrun', hts, hcount⟩ := heq hlen
    obtain rfl := Option.some.inj (hr.symm.trans (hrun'.symm.trans hr'))
    rw [hcount, hts r hr] at hsl
    omega

/-- `main` creates a thread and gives up the processor. -/
def oneMore : List Act :=
  [.ecall (.threadCreate true false (.ok (zeroMessage 0))), .ecall .threadDispatch, .resume]

theorem round_robin_run : ∃ k, runFromZero oneMore = some k ∧ k.Sliced := by
  obtain ⟨k₀, k, hboot, hrun, hk⟩ := exists_run oneMore (by decide +kernel)
  exact ⟨k, hk, (round_robin ⟨_, _, k₀, oneMore, hboot, hrun⟩).2.1⟩

end Os1Kernel
