/-
# How long it takes until a sleeper runs again

Each timer interrupt is one tick, so the ticks that remain to a sleeper count the timer interrupts
until it is ready.  From then on the length of the ready list bounds how many more there are before
it runs, whatever the other threads do meanwhile.

The proof is an induction on the run.  In each step a sleeper is chosen, becomes ready, or has one
tick less to wait if the step is a timer interrupt (`sleeper_step`, from `Spec.Waking`); where it
becomes ready, `ready_chosen` of `Results.Latency` takes over, with all threads but itself ahead of
it at most.
-/
import Os1Kernel.Results.Growth
import Os1Kernel.Results.Isolation
import Os1Kernel.Results.Latency
import Os1Kernel.Results.Sleep
import Os1Kernel.Spec.Waking

namespace Os1Kernel

open Simulation

variable {k k' : Kernel} {a b : Sys} {t : Tid} {n : Nat} {act : Act} {e : Event}

/-! ## 1. Ticks -/

/-- There have been so many ticks. -/
def Kernel.Ticked (n : Nat) (k : Kernel) : Prop := k.history.countP Event.isTick = n

theorem ticked_stable : Stable (Kernel.Ticked n) :=
  history_stable (Q := fun _ l => l.countP Event.isTick = n) fun _ e l he h =>
    (countP_other (e := e) (by rintro rfl; cases he) l).trans h

theorem onTick_ticks {u : Unit} (h : k.Ticked n) (hs : Sleep.onTick k = some (u, k')) :
    k'.Ticked (n + 1) := by
  unfold Sleep.onTick at hs
  rw [bind_apply, emit_apply, Option.bind_some] at hs
  refine (?_ : Keeps (Kernel.Ticked (n + 1)) _) _ u k' ?_ hs
  · refine .bind getKernel_keeps fun k => .bind ?_ fun _ => .bind fuel_keeps fun _ =>
      wakeLoop_keeps ticked_stable.toQuiet _
    split
    · exact setTcb_keeps ticked_stable.toQuiet fun _ => rfl
    · exact .pure _
  · rw [Kernel.Ticked, countP_tick]
    exact congrArg (· + 1) h

theorem handleTimer_ticks {u : Unit} (h : k.Ticked n) (hs : handleTimer k = some (u, k')) :
    k'.Ticked (n + 1) := by
  unfold handleTimer at hs
  rw [bind_apply, modify_apply, Option.bind_some, bind_apply, Option.bind_eq_some_iff] at hs
  obtain ⟨⟨v, k₁⟩, htick, hs⟩ := hs
  have hcounted : Kernel.Ticked n { k with timeSliceCounter := u64 (k.timeSliceCounter + 1) } := h
  have h₁ : k₁.Ticked (n + 1) := onTick_ticks hcounted htick
  have hrest : Keeps (Kernel.Ticked (n + 1)) (do
      let r ← getRunning
      let k ← getKernel
      if (k.tcb r).timeSlice ≤ k.timeSliceCounter then TCB.yield true .timer else pure ()) := by
    refine .bind getRunning_keeps fun _ => .bind getKernel_keeps fun _ => ?_
    split
    · exact yield_keeps ticked_stable _ _
    · exact .pure _
  exact hrest _ u k' h₁ hs

/-- A timer interrupt is a tick, and no other step is. -/
theorem step_ticks (h : k.Ticked n) (hs : step k act = some k') :
    k'.Ticked (n + if act.isTimer then 1 else 0) := by
  by_cases hact : act = .timer
  · subst hact
    unfold step at hs
    split at hs
    swap
    · cases hs
    obtain ⟨⟨u, k₁⟩, h₁, rfl⟩ := Option.map_eq_some_iff.mp hs
    exact handleTimer_ticks h h₁
  · have hno : act.isTimer = false := by
      cases act <;> first | rfl | exact absurd rfl hact
    rw [hno]
    refine step_history (Q := fun _ l => l.countP Event.isTick = n) (fun _ e l hnote h => ?_) h hs
    exact (countP_other (e := e) (by rintro rfl; exact hact hnote) l).trans h

/-! ## 2. One step -/

theorem choicesSince_eq {l : List Event} (h : k'.history = l ++ k.history) :
    k.choicesSince k' = choices l := by
  rw [Kernel.choicesSince, h, choices_append, List.drop_left]

/-- What has been chosen in a run stays chosen. -/
theorem choicesSince_trans {k₁ : Kernel} {l l' : List Event} (h : k₁.history = l ++ k.history)
    (h' : k'.history = l' ++ k₁.history) :
    k.choicesSince k' = k.choicesSince k₁ ++ k₁.choicesSince k' := by
  have hall : k'.history = (l' ++ l) ++ k.history := by rw [h', h, List.append_assoc]
  rw [choicesSince_eq hall, choicesSince_eq h, choicesSince_eq h', choices_append]

/-- A sleeper is chosen, or is ready, or has one tick less to wait. -/
theorem sleeper_step (h : Reachable k) (ht : t ∈ k.sleepList) (hs : step k act = some k') :
    t ∈ k.choicesSince k' ∨ t ∈ k'.readyList ∨
      t ∈ k'.sleepList ∧ k'.upTo t + (if act.isTimer then 1 else 0) = k.upTo t := by
  obtain ⟨-, -, a, -, ha⟩ := h.shows
  obtain ⟨b, hsteps, hb⟩ := step_shows ha hs
  have hd := ha.upTo_mem ht
  have hasleep : t ∈ a.asleep := Sys.mem_asleep.mpr ⟨_, hd⟩
  have hne : t ≠ a.running := by
    rintro rfl
    exact (ha.inv.places.running_free (Sys.not_leaving_of ha.idle.activity rfl)).2 hasleep
  have hmem := (ha.inv.places.live t (Or.inr (Or.inr hasleep))).1
  obtain ⟨l, hl, hcases⟩ := Sys.Steps.sleeper hsteps ha.inv hd hmem hne
  have hhist : k'.history = l ++ k.history := by
    rw [congrArg Core.history hb.rep.core, congrArg Core.history ha.rep.core, hl]
  rcases hcases with hc | hready | ⟨m, hm, hsum⟩
  · exact Or.inl (by rw [choicesSince_eq hhist]; exact mem_choices hc)
  · exact Or.inr (Or.inl (by rw [hb.readyList_eq]; exact hready))
  · have hticks : k'.history.countP Event.isTick = _ := step_ticks (n := _) rfl hs
    rw [hhist, List.countP_append] at hticks
    refine Or.inr (Or.inr ⟨?_, ?_⟩)
    · rw [hb.sleepList_eq]
      exact Sys.mem_asleep.mpr ⟨m, hm⟩
    · rw [hb.upTo hm]
      omega

theorem upTo_pos (h : Reachable k) (ht : t ∈ k.sleepList) : 1 ≤ k.upTo t := by
  obtain ⟨-, -, a, -, ha⟩ := h.shows
  exact ha.inv.ticks.pos (by rw [ha.idle.activity]; nofun) _ (ha.upTo_mem ht)

/-! ## 3. The result -/

/-- Nothing is taken back from the history. -/
theorem run_history {acts : List Act} (h : Reachable k) (hrun : Run.run step k acts = some k') :
    ∃ l, k'.history = l ++ k.history := by
  obtain ⟨-, -, a, -, ha⟩ := h.shows
  obtain ⟨b, hsteps, hb⟩ := run_shows ha hrun
  have hhist : ∃ l, b.history = l ++ a.history := by
    clear hb
    induction hsteps with
    | refl => exact ⟨[], rfl⟩
    | tail _ hs ih =>
      obtain ⟨l, hl⟩ := ih
      obtain ⟨l', hl'⟩ := hs.history
      exact ⟨l' ++ l, by rw [hl', hl, List.append_assoc]⟩
  rwa [← congrArg Core.history hb.rep.core, ← congrArg Core.history ha.rep.core] at hhist

/-- All that are ready are threads. -/
theorem readyList_length_le (h : Reachable k) : k.readyList.length ≤ k.tcbList.length := by
  obtain ⟨-, -, a, -, ha⟩ := h.shows
  rw [ha.readyList_eq, ha.tcbList_eq]
  exact (ha.inv.places.ready_nodup.subperm fun t ht =>
    (ha.inv.places.live t (Or.inl ht)).1).length_le

theorem tcbList_length_le {acts : List Act} (h : Reachable k)
    (hrun : Run.run step k acts = some k') : k.tcbList.length ≤ k'.tcbList.length := by
  obtain ⟨-, -, a, -, ha⟩ := h.shows
  obtain ⟨b, hsteps, hb⟩ := run_shows ha hrun
  rw [ha.tcbList_eq, hb.tcbList_eq]
  exact (ha.inv.names.threads_nodup.subperm (Sys.Steps.grows hsteps).1).length_le

/-- A ready thread is chosen before the time slices of as many threads as there are have passed. -/
theorem ready_choice {acts : List Act} (h : Reachable k) (ht : t ∈ k.readyList)
    (hrun : Run.run step k acts = some k')
    (hticks : DEFAULT_TIME_SLICE * k'.tcbList.length ≤ acts.countP Act.isTimer) :
    t ∈ k.choicesSince k' := by
  obtain ⟨n, hn⟩ := List.mem_iff_getElem?.mp ht
  obtain ⟨hlt, -⟩ := List.getElem?_eq_some_iff.mp hn
  have hle : n + 1 ≤ k'.tcbList.length :=
    hlt.trans_le ((readyList_length_le h).trans (tcbList_length_le h hrun))
  have hslices := Nat.mul_le_mul_left DEFAULT_TIME_SLICE hle
  exact List.mem_of_getElem? (nth_choice h hrun hn (by omega))

/-- **A sleeper runs again soon.**  It is chosen before there have been as many timer interrupts as
ticks remain to it and the time slices of all threads take. -/
theorem sleeper_chosen {acts : List Act} (h : Reachable k) (ht : t ∈ k.sleepList)
    (hrun : Run.run step k acts = some k')
    (hticks : k.upTo t + DEFAULT_TIME_SLICE * k'.tcbList.length ≤ acts.countP Act.isTimer) :
    t ∈ k.choicesSince k' := by
  induction acts generalizing k with
  | nil =>
    -- there is at least one thread
    obtain rfl := Option.some.inj hrun
    obtain ⟨-, -, a, -, ha⟩ := h.shows
    have hpos : 0 < k.tcbList.length := by
      rw [ha.tcbList_eq]
      exact List.length_pos_of_mem ha.inv.alive.running_mem
    rw [List.countP_nil, DEFAULT_TIME_SLICE] at hticks
    omega
  | cons act acts ih =>
    have hall := hrun
    rw [Run.run_cons, Option.bind_eq_some_iff] at hrun
    obtain ⟨k₁, hs, hrun⟩ := hrun
    have h₁ := h.step hs
    have hone : Run.run step k [act] = some k₁ := by rw [Run.run_cons, hs]; rfl
    obtain ⟨l, hl⟩ := run_history h hone
    obtain ⟨l', hl'⟩ := run_history h₁ hrun
    rw [choicesSince_trans hl hl', List.mem_append]
    rw [List.countP_cons] at hticks
    rcases sleeper_step h ht hs with hc | hready | ⟨hasleep, hsum⟩
    · exact Or.inl hc
    · -- the step was one of the ticks that remained, if it was one
      have hpos := upTo_pos h ht
      have hle : (if act.isTimer = true then 1 else 0) ≤ 1 := by split <;> omega
      exact Or.inr (ready_choice h₁ hready hrun (by omega))
    · exact Or.inr (ih h₁ hasleep hrun (by omega))

/-- The thread that has fallen asleep for two ticks, and eight ticks for the four threads. -/
def tenTicks : List Act :=
  [.timer, .timer, .resume, .timer, .timer, .resume, .timer, .timer, .resume, .timer, .timer,
    .resume, .timer, .timer]

theorem sleeper_chosen_run : ∃ k k', Reachable k ∧ Run.run step k tenTicks = some k' ∧
    0 ∈ k.sleepList ∧ 0 ∈ k.choicesSince k' := by
  obtain ⟨k₀, k, hboot, hrun, hk⟩ := exists_run [.ecall (.timeSleep 2), .resume] (by decide +kernel)
  have he : ((runFromZero [.ecall (.timeSleep 2), .resume]).bind fun k =>
      (Run.run step k tenTicks).bind fun k' =>
        if 0 ∈ k.sleepList ∧ k.upTo 0 + DEFAULT_TIME_SLICE * k'.tcbList.length ≤
          tenTicks.countP Act.isTimer then some () else none) = some () := by
    decide +kernel
  rw [hk, Option.bind_some, Option.bind_eq_some_iff] at he
  obtain ⟨k', hrun', he⟩ := he
  obtain ⟨ht, hticks⟩ := (Option.ite_none_right_eq_some.mp he).1
  have hreach : Reachable k := ⟨_, _, k₀, _, hboot, hrun⟩
  exact ⟨k, k', hreach, hrun', ht, sleeper_chosen hreach ht hrun' hticks⟩

end Os1Kernel
