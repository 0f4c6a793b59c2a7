/-
# What a call hands back

A system call comes back to the thread's own code in the step in which it was made, with its result
in `a0`, or the thread blocks in it.  Then another thread is chosen, and what is left of the handler
runs in the `resume` with which the thread goes on.

So what a call returns is a matter of at most two steps, and is read off the registers behind them.
`Hands` is the postcondition of a handler at either of its two ends.  `wait_hands` leads it through
a wait: a wait that comes back has the same thread running, and one that does not leaves this thread
in the context that it was called with.  `leaveWith_hands` and, for one that goes on behind a wait,
`behindEndWait_hands` lead it from the handler to the end of the step, where the result is in `a0`
(`Kernel.Returned`).
-/
import Os1Kernel.Kernel.Frame

namespace Os1Kernel

open Simulation

variable {α β : Type} {P : Kernel → Prop} {k k' : Kernel} {r : Tid} {s : SemPtr}

/-! ## 1. Back in the thread's own code -/

/-- The thread runs its own code, with this in `a0`. -/
structure Kernel.Returned (k : Kernel) (t : Tid) (a0 : Word) : Prop where
  running : k.running = some t
  context : (k.tcb t).context = .body
  a0 : (k.tcb t).a0 = a0

/-- What `leave` makes of the state when `t` runs. -/
def Kernel.leave (k : Kernel) (t : Tid) (ret : Option Word) : Kernel :=
  k.setTcb t fun x =>
    { x with toThread := { x.toThread with context := .body, a0 := ret.getD x.a0 } }

section Leave

variable (k : Kernel) (t : Tid) (ret : Option Word)

@[simp] theorem Kernel.leave_history : (k.leave t ret).history = k.history := rfl

@[simp] theorem Kernel.leave_sem : (k.leave t ret).sem = k.sem := rfl

@[simp] theorem Kernel.leave_running : (k.leave t ret).running = k.running := rfl

@[simp] theorem Kernel.leave_context : ((k.leave t ret).tcb t).context = .body := by
  simp [Kernel.leave, Kernel.setTcb]

@[simp] theorem Kernel.leave_message (u : Tid) :
    ((k.leave t ret).tcb u).message = (k.tcb u).message := by
  refine setTcb_message ?_ u
  intro x
  rfl

end Leave

theorem Kernel.leave_returned (hr : k.running = some r) (v : Word) :
    (k.leave r (some v)).Returned r v where
  running := hr
  context := k.leave_context r _
  a0 := by simp [Kernel.leave, Kernel.setTcb]

theorem getRunning_some (hr : k.running = some r) : getRunning k = some (r, k) := by
  simp [getRunning, hr]

theorem leave_apply (hr : k.running = some r) (ret : Option Word) :
    leave ret k = some ((), k.leave r ret) := by
  unfold leave
  rw [bind_apply, getRunning_some hr]
  rfl

/-! ## 2. The ends of a handler -/

/-- A handler of `r` comes back with a result, and `r` still runs; or `r` has left the kernel to
another thread. -/
def Hands (r : Tid) (D : α → Kernel → Prop) (S : Kernel → Prop) : Outcome α → Kernel → Prop
  | .done x, k => k.running = some r ∧ D x k
  | .switched, k => S k

/-- What is quiet is so while `r` runs. -/
theorem Quiet.running (hP : Quiet P) (r : Tid) : Quiet fun k => k.running = some r ∧ P k where
  tcb k t f hf h := ⟨h.1, hP.tcb k t f hf h.2⟩
  other k k' hk h := ⟨(congrArg (fun p => p.2.2.2.2.1) hk).trans h.1, hP.other k k' hk h.2⟩
  event k e he h := ⟨h.1, hP.event k e he h.2⟩

/-- The thread that yields goes on in the context that it yields with. -/
theorem yield_leaves (hP : Stable P) (hr : k.running = some r) (hp : P k) (schPut : Bool)
    (context : Context) :
    Partially (TCB.yield schPut context) k fun _ k' => P k' ∧ (k'.tcb r).context = context := by
  intro u k' h
  refine ⟨yield_keeps hP schPut context k u k' hp h, ?_⟩
  unfold TCB.yield at h
  rw [bind_apply, getRunning_some hr, Option.bind_some] at h
  iterate 3
    obtain ⟨⟨_, _⟩, -, h⟩ := Option.bind_eq_some_iff.mp h
  cases h
  simp [Kernel.setTcb]

/-- **A wait comes back to the thread that called it, or leaves it in its context.** -/
theorem wait_hands (hP : Stable P) (hr : k.running = some r) (hp : P k) (n : Nat)
    (context : Context) :
    Partially (kSemaphore.wait s n context) k
      (Hands r (fun _ => P) fun k' => P k' ∧ (k'.tcb r).context = context) := by
  have hQ := hP.toQuiet.running r
  unfold kSemaphore.wait
  refine .bind_eq (getSem_apply k s) ?_
  split
  · exact .of_eq rfl ⟨hr, hp⟩
  split
  · refine .bind ((acquire_keeps hQ n).partially ⟨hr, hp⟩) fun _ k₁ h₁ => ?_
    have hmanner := resolveManner_keeps (P := fun k => k.running = some r ∧ P k)
    exact .bind (hmanner.partially h₁) fun _ k₂ h₂ => .of_eq rfl h₂
  · refine .bind ((block_keeps hQ n none).partially ⟨hr, hp⟩) fun _ k₁ h₁ => ?_
    refine .bind (yield_leaves hP h₁.1 h₁.2 false context) fun _ k₂ h₂ => ?_
    exact .of_eq rfl h₂

/-- A handler goes on behind a wait that has come back. -/
theorem behindWait_hands {m : KernelM (Outcome α)} {f : Outcome α → KernelM (Outcome β)}
    {D : α → Kernel → Prop} {D' : β → Kernel → Prop} {S S' : Kernel → Prop}
    (hm : Partially m k (Hands r D S)) (hs : f .switched = pure .switched)
    (hS : ∀ k, S k → S' k)
    (hf : ∀ x k', k'.running = some r → D x k' → Partially (f (.done x)) k' (Hands r D' S')) :
    Partially (m >>= f) k (Hands r D' S') := by
  refine .bind hm fun o k' h => ?_
  cases o with
  | done x => exact hf x k' h.1 h.2
  | switched => exact hs ▸ .of_eq rfl (hS k' h)

/-! ## 3. From a handler to its step -/

/-- What `r` finds behind a step: its call has come back, with the result unless the call is `void`,
or it has not. -/
def Kernel.Behind (k' : Kernel) (r : Tid) (void : Bool) (D : Word → Kernel → Prop)
    (S : Kernel → Prop) : Prop :=
  (∃ v k₁, k₁.running = some r ∧ D v k₁ ∧ k' = k₁.leave r (if void then none else some v)) ∨ S k'

variable {D : Word → Kernel → Prop} {S : Kernel → Prop} {void : Bool}

theorem leaveWith_hands {m : KernelM (Outcome Word)} (hm : Partially m k (Hands r D S)) :
    Partially (do leaveWith void (← m)) k fun _ k' => k'.Behind r void D S := by
  refine .bind hm fun o k₁ h => ?_
  cases o with
  | done v => exact .of_eq (leave_apply h.1 _) (Or.inl ⟨v, k₁, h.1, h.2, rfl⟩)
  | switched => exact .of_eq rfl (Or.inr h)

/-- A handler goes on behind a wait that had blocked. -/
theorem behindEndWait_hands (hP : Quiet P) (hr : k.running = some r) (hp : P k)
    {m : KernelM (Outcome Word)}
    (hm : ∀ k₁, k₁.running = some r → P k₁ → Partially m k₁ (Hands r D S)) :
    Partially (do
      let _ ← endWait
      leaveWith void (← m)) k fun _ k' => k'.Behind r void D S :=
  .bind ((endWait_keeps (hP.running r)).partially ⟨hr, hp⟩) fun _ k₁ h₁ =>
    leaveWith_hands (hm k₁ h₁.1 h₁.2)

theorem step_partially (act : Act) {Q : Kernel → Prop} (h : Partially (exec act) k fun _ => Q)
    (hs : step k act = some k') : Q k' := by
  unfold step at hs
  split at hs
  · obtain ⟨⟨u, c⟩, hc, rfl⟩ := Option.map_eq_some_iff.mp hs
    exact h u c hc
  · cases hs

theorem resume_partially {Q : Kernel → Prop} (hr : k.running = some r)
    (h : Partially (resumeAt (k.tcb r).context) k fun _ => Q) (hs : step k .resume = some k') :
    Q k' :=
  step_partially .resume (.bind_eq (getRunning_some hr) (.bind_eq (getTcb_apply k r) h)) hs

/-- A wait of `sem_wait`, `sem_timedwait`, `join` or `timedJoin` that had blocked returns what
`resolveManner` reads off. -/
theorem resume_wait (hr : k.running = some r)
    (hc : (∃ s, (k.tcb r).context = .semWait s) ∨ ∃ t, (k.tcb r).context = .join t) {ret : Int}
    (hm : kSemaphore.resolveManner k = some (ret, k)) : ∃ k', step k .resume = some k' ∧
      k'.Returned r (.int ret) ∧ k'.history = .returned r ret :: k.history ∧ k'.sem = k.sem := by
  have hbody : (k.tcb r).context ≠ .body := by
    rintro he
    rcases hc with ⟨s, hc⟩ | ⟨t, hc⟩ <;> cases hc.symm.trans he
  have he : k.enabled .resume = true := by simpa [Kernel.enabled, hr] using hbody
  have hresume : resumeAt (k.tcb r).context = (do leave (some (.int (← endWait)))) := by
    rcases hc with ⟨s, hc⟩ | ⟨t, hc⟩ <;> rw [hc] <;> rfl
  obtain ⟨k₁, hk₁⟩ : ∃ k₁ : Kernel, k₁ = { k with history := .returned r ret :: k.history } :=
    ⟨_, rfl⟩
  have hend : endWait k = some (ret, k₁) := by
    unfold endWait
    rw [bind_apply, hm, Option.bind_some, bind_apply, getRunning_some hr, hk₁]
    rfl
  have hr₁ : k₁.running = some r := hk₁ ▸ hr
  refine ⟨k₁.leave r (some (.int ret)), ?_, Kernel.leave_returned hr₁ _, ?_, ?_⟩
  · rw [step, if_pos he]
    change ((getRunning >>= _) k).map _ = _
    rw [bind_apply, getRunning_some hr, Option.bind_some, bind_apply, getTcb_apply,
      Option.bind_some, hresume, bind_apply, hend, Option.bind_some, leave_apply hr₁]
    rfl
  · rw [Kernel.leave_history, hk₁]
  · rw [Kernel.leave_sem, hk₁]

/-- A call whose handler comes back returns its result in the same step. -/
theorem step_done {call : Syscall} (he : k.enabled (.ecall call) = true)
    (hvoid : call.retVoid = false) {v : Word} (hm : call.handle k = some (.done v, k'))
    (hr : k'.running = some r) : step k (.ecall call) = some (k'.leave r (some v)) := by
  rw [step, if_pos he]
  change ((call.handle >>= _) k).map _ = _
  rw [bind_apply, hm, Option.bind_some, hvoid]
  change (leave (some v) k').map _ = _
  rw [leave_apply hr]
  rfl

/-- A call whose handler has switched is over for this step. -/
theorem step_switched {call : Syscall} (he : k.enabled (.ecall call) = true)
    (hm : call.handle k = some (.switched, k')) : step k (.ecall call) = some k' := by
  rw [step, if_pos he]
  change ((call.handle >>= _) k).map _ = _
  rw [bind_apply, hm]
  rfl

end Os1Kernel
