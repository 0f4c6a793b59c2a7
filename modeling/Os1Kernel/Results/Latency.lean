/-
# How long a ready thread waits

Every thread has the default time slice, since no call of `TCB::threadCreate` asks for another
one.  So the timer interrupts of a run are counted by the choices: between two of them there are
fewer than `DEFAULT_TIME_SLICE`, and one more at which the time slice ends.  With the order of the
ready list this bounds, in timer interrupts, how long a thread is ready before it runs.

* That all time slices are the default one is kept by every write to a thread's object, since the
  constructor is the only code that sets the field (section 1).
* `run_ticks_lt` is an induction on the run: a timer interrupt that makes no choice adds one to the
  counter of the running thread, and the counter is below the time slice and starts from zero at a
  choice.
* `ready_chosen` divides: so many timer interrupts contain enough choices to reach the thread's
  place in the ready list.
-/
import Os1Kernel.Results.RoundRobin

namespace Os1Kernel

open Fifo Simulation

variable {k k' : Kernel} {t : Tid} {raw : Tid → Message}
  {rawBuffer : BufferId → Vector UInt8 bufferLength}

/-! ## 1. Every time slice is the default one -/

/-- Every thread that has been constructed has the default time slice. -/
def Kernel.Uniform (k : Kernel) : Prop :=
  ∀ t, (k.tcb t).semJoin ≠ none → (k.tcb t).timeSlice = DEFAULT_TIME_SLICE

theorem Kernel.Uniform.setTcb (h : k.Uniform) {f : TCB → TCB}
    (hf : ∀ x, (f x).timeSlice = DEFAULT_TIME_SLICE ∨
      (f x).timeSlice = x.timeSlice ∧ (f x).semJoin = x.semJoin) : (k.setTcb t f).Uniform := by
  intro u hu
  by_cases hut : u = t
  · subst hut
    rw [Kernel.setTcb_self] at hu ⊢
    rcases hf (k.tcb u) with hf | ⟨hs, hj⟩
    · exact hf
    · rw [hs]
      exact h u (hj ▸ hu)
  · rw [Kernel.setTcb_of_ne hut] at hu ⊢
    exact h u hu

theorem uniform_stable : Stable Kernel.Uniform where
  tcb k t f hf h := h.setTcb fun x => Or.inr
    ⟨congrArg (fun p => p.2.2.1) (hf x), congrArg (fun p => p.2.2.2) (hf x)⟩
  other k k' hk h := by
    have htcb : k'.tcb = k.tcb := congrArg Prod.fst hk
    intro t
    rw [htcb]
    exact h t
  event _ _ _ h := h
  switch _ _ h := h

theorem setTcb_uniform {f : TCB → TCB} (hf : ∀ x, (f x).timeSlice = DEFAULT_TIME_SLICE ∨
    (f x).timeSlice = x.timeSlice ∧ (f x).semJoin = x.semJoin) :
    Keeps Kernel.Uniform (setTcb t f) :=
  .write (fun k => setTcb_apply k t f) fun _ h => h.setTcb hf

theorem construct_uniform (body : Bool) (mode : Mode) (space : Bool) (mem : CreateMem) :
    Keeps Kernel.Uniform (TCB.construct body mode space DEFAULT_TIME_SLICE mem) := by
  have hsem : ∀ {s : SemPtr} {n : Nat} {mem : Bool},
      Keeps Kernel.Uniform (kSemaphore.kSemaphoreCreate s n mem) :=
    semaphoreCreate_keeps uniform_stable _ _
  have hclose : ∀ {p : Option SemPtr}, Keeps Kernel.Uniform (TCB.closeIf p) :=
    closeIf_keeps uniform_stable _
  unfold TCB.construct
  refine .bind getKernel_keeps fun _ => .bind (.write (fun k => modify_apply _ k) fun _ h => h)
    fun _ => .bind hsem fun _ => .bind hsem fun _ => .bind hsem fun _ => .bind hsem fun _ =>
    .bind (setTcb_uniform fun _ => Or.inl rfl) fun _ => .bind ?_ fun _ => .pure _
  split
  · exact .bind (setTcb_uniform fun _ => Or.inr ⟨rfl, rfl⟩) fun _ => .bind hclose fun _ =>
      .bind hclose fun _ => .bind hclose fun _ => hclose
  · exact setTcb_uniform fun _ => Or.inr ⟨rfl, rfl⟩

theorem threadCreate_uniform (body : Bool) (mode : Mode) (space schPut : Bool) (mem : CreateMem) :
    Keeps Kernel.Uniform (TCB.threadCreate body mode space DEFAULT_TIME_SLICE schPut mem) := by
  unfold TCB.threadCreate
  refine .bind (construct_uniform _ _ _ _) fun _ => .bind (getTcb_keeps _) fun _ => ?_
  split
  · exact .bind (destruct_keeps uniform_stable) fun _ => .pure _
  refine .bind getKernel_keeps fun _ => .bind ?_ fun _ => .bind ?_ fun _ => .bind ?_ fun _ =>
    .bind (.write (fun k => emit_apply k _) fun _ h => h) fun _ => .pure _
  · split
    · exact modify_keeps uniform_stable fun _ => rfl
    · exact .bind (setTcb_keeps uniform_stable fun _ => rfl) fun _ =>
        modify_keeps uniform_stable fun _ => rfl
  · split
    · exact schedulerPut_keeps uniform_stable _
    · exact .pure _
  · split
    · exact setThread_keeps uniform_stable fun _ => rfl
    · exact .pure _

theorem setMsg_uniform (msg : CString) : Keeps Kernel.Uniform (setMsg t msg) := by
  refine setMsg_keeps (fun _ => ?_) fun _ => .write (fun k => emit_apply k _) fun _ h => h
  exact setTcb_uniform fun _ => Or.inr ⟨rfl, rfl⟩

theorem step_uniform {act : Act} (h : k.Uniform) (hs : step k act = some k') : k'.Uniform := by
  have hemit : ∀ {e : Event}, Keeps Kernel.Uniform (emit e) :=
    .write (fun k => emit_apply k _) fun _ h => h
  refine step_keeps uniform_stable ⟨fun _ => handleTimer_keeps uniform_stable hemit fun _ h => h,
    fun _ _ _ => hemit, fun _ t m _ => .write (fun k => emit_apply k _) fun _ h => h,
    fun _ _ _ _ => hemit, fun _ _ => h, fun body space mem _ => threadCreate_uniform _ _ _ _ _,
    fun t msg x c' _ hx => ?_, fun r t msg _ _ _ => setMsg_uniform⟩ h hs
  exact handleSend_keeps uniform_stable setMsg_uniform k x c' h hx

theorem construct_uniform_buffer (b : BufferId) (raw : Vector UInt8 bufferLength) :
    Keeps Kernel.Uniform (CharBuffer.construct b raw) := by
  unfold CharBuffer.construct
  exact .bind (semaphoreCreate_keeps uniform_stable _ _) fun _ =>
    .bind (semaphoreCreate_keeps uniform_stable _ _) fun _ =>
    .bind (semaphoreCreate_keeps uniform_stable _ _) fun _ =>
    modify_keeps uniform_stable fun _ => rfl

theorem bootstrap_uniform : Keeps Kernel.Uniform (bootstrap raw rawBuffer) := by
  have hset : ∀ {f : Kernel → Kernel}, (∀ k, (f k).tcb = k.tcb) →
      Keeps Kernel.Uniform (modify f : KernelM PUnit) :=
    fun hf => .write (modify_apply _) fun k h t => hf k ▸ h t
  unfold bootstrap
  exact .bind (threadCreate_uniform _ _ _ _ _) fun _ => .bind (hset fun _ => rfl) fun _ =>
    .bind (hset fun _ => rfl) fun _ => .bind getRunning_keeps fun _ =>
    .bind (setThread_keeps uniform_stable fun _ => rfl) fun _ =>
    .bind (threadCreate_uniform _ _ _ _ _) fun _ => .bind (hset fun _ => rfl) fun _ =>
    .bind (construct_uniform_buffer _ _) fun _ => .bind (construct_uniform_buffer _ _) fun _ =>
    .bind (threadCreate_uniform _ _ _ _ _) fun _ => .bind (threadCreate_uniform _ _ _ _ _) fun _ =>
    .pure _

theorem Reachable.uniform (h : Reachable k) : k.Uniform := by
  obtain ⟨raw, rawBuffer, k₀, acts, hboot, hrun⟩ := h
  obtain ⟨⟨u, k₁⟩, hb, rfl⟩ := Option.map_eq_some_iff.mp hboot
  have h₀ := bootstrap_uniform Kernel.zero u k₁ (fun t ht => absurd rfl ht) hb
  exact Run.run_invariant (fun _ _ _ h hs => step_uniform h hs) h₀ hrun

/-! ## 2. Timer interrupts and choices -/

theorem Kernel.OnTime.counter_lt (h : k.OnTime) (hu : k.Uniform) :
    k.timeSliceCounter < DEFAULT_TIME_SLICE := by
  obtain ⟨a, ha⟩ := h.shows
  obtain ⟨r, hr, -, hj⟩ := ha.running_built
  obtain ⟨r', hr', hsl⟩ := h.sliced
  obtain rfl := Option.some.inj (hr.symm.trans hr')
  rwa [hu r hj] at hsl

/-- The timer interrupts of a run, with those that the running thread has had before, are fewer than
the choices have room for. -/
theorem run_ticks_lt {acts : List Act} (h : k.OnTime) (hu : k.Uniform)
    (hrun : Run.run step k acts = some k') :
    k.timeSliceCounter + acts.countP Act.isTimer + DEFAULT_TIME_SLICE * (choices k.history).length <
      DEFAULT_TIME_SLICE * ((choices k'.history).length + 1) := by
  induction acts generalizing k with
  | nil =>
    obtain rfl := Option.some.inj hrun
    have := h.counter_lt hu
    rw [List.countP_nil]
    unfold DEFAULT_TIME_SLICE at this ⊢
    omega
  | cons act acts ih =>
    rw [Run.run_cons, Option.bind_eq_some_iff] at hrun
    obtain ⟨k₁, hs, hrun⟩ := hrun
    obtain ⟨hsince, h₁⟩ := step_onTime h hs
    have hlt := ih h₁ (step_uniform hu hs) hrun
    have hcounter := h.counter_lt hu
    rw [List.countP_cons]
    unfold DEFAULT_TIME_SLICE at hcounter hlt ⊢
    rcases hsince.counter with ⟨hc, -, hn⟩ | ⟨hc, hn⟩
    · -- nobody has been chosen, so the step counts as a tick if it is one
      rw [hc, hn, Kernel.countOn] at hlt
      split at hlt
      · next ht =>
        rw [u64_of_lt (by omega)] at hlt
        rw [if_pos ht]
        omega
      · next ht =>
        rw [if_neg ht]
        omega
    · -- somebody has, and the counter starts again
      have : (if act.isTimer = true then 1 else 0) ≤ 1 := by split <;> omega
      omega

/-! ## 3. The result -/

/-- With `n` others ahead a thread is the `n`-th to be chosen, if there are ticks for it. -/
theorem nth_choice {acts : List Act} {n : Nat} (h : Reachable k)
    (hrun : Run.run step k acts = some k') (hn : k.readyList[n]? = some t)
    (hticks : DEFAULT_TIME_SLICE * (n + 1) ≤ k.timeSliceCounter + acts.countP Act.isTimer) :
    (k.choicesSince k')[n]? = some t := by
  have hlt := run_ticks_lt h.onTime h.uniform hrun
  obtain ⟨-, -, a, -, ha⟩ := h.shows
  obtain ⟨b, hs, hb⟩ := run_shows ha hrun
  obtain ⟨log, hlog⟩ := ha.inTurn hb hs
  have hturn := (hlog.ready hn).2
  have hlen : n < (k.choicesSince k').length := by
    rw [Kernel.choicesSince, List.length_drop]
    unfold DEFAULT_TIME_SLICE at hlt hticks
    omega
  rwa [if_pos hlen] at hturn

/-- **A ready thread runs soon.**  With `n` others ahead it is chosen behind exactly these, in their
order, and at the latest at the timer interrupt that ends the time slices of these, of the thread
that runs now, and no others. -/
theorem ready_chosen {acts : List Act} {n : Nat} (h : Reachable k)
    (hrun : Run.run step k acts = some k') (hn : k.readyList[n]? = some t)
    (hticks : DEFAULT_TIME_SLICE * (n + 1) ≤ k.timeSliceCounter + acts.countP Act.isTimer) :
    (k.choicesSince k')[n]? = some t ∧ (k.choicesSince k').take n = k.readyList.take n := by
  refine ⟨nth_choice h hrun hn hticks, List.ext_getElem? fun i => ?_⟩
  by_cases hi : i < n
  · have hlt := hi.trans (List.getElem?_eq_some_iff.mp hn).1
    rw [List.getElem?_take_of_lt hi, List.getElem?_take_of_lt hi, List.getElem?_eq_getElem hlt]
    refine nth_choice h hrun (List.getElem?_eq_getElem hlt) ?_
    unfold DEFAULT_TIME_SLICE at hticks ⊢
    omega
  · rw [List.getElem?_eq_none (by simp; omega), List.getElem?_eq_none (by simp; omega)]

/-- Four timer interrupts, and the threads that they interrupt. -/
def fourTicks : List Act := [.timer, .timer, .resume, .timer, .timer]

theorem ready_chosen_run : ∃ k k', Reachable k ∧ Run.run step k fourTicks = some k' ∧
    (k.choicesSince k')[1]? = some 3 ∧ (k.choicesSince k').take 1 = [2] := by
  obtain ⟨k₀, k, hboot, hrun, -⟩ := exists_run fourTicks (by decide +kernel)
  have he : (boot zeroMessage zeroBuffer).map (fun k => (k.readyList, k.timeSliceCounter)) =
      some ([2, 3], 0) := by
    decide +kernel
  rw [hboot, Option.map_some, Option.some.injEq, Prod.mk.injEq] at he
  have hreach : Reachable k₀ := ⟨_, _, k₀, [], hboot, rfl⟩
  have hchosen := ready_chosen hreach hrun (t := 3) (n := 1) (by rw [he.1]; rfl) (by
    rw [he.2]
    decide)
  rw [he.1] at hchosen
  exact ⟨k₀, k, hreach, hrun, hchosen⟩

end Os1Kernel
