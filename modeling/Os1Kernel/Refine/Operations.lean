/-
# Waiting, sleeping, creating and finishing

The operations of `kSemaphore`, `Sleep` and `TCB` that the handlers call follow the steps of the
abstract system.  An operation that comes back leaves the abstract system behind its wait; one that
switches leaves it with another thread chosen.

Where a wait has come to is `Comes`, with one case for a wait that has come back and one for a wait
that has switched.  What `wait` and `timedWait` return is stated separately for the ways through
their source, because the results say which of them a caller has seen:

* `wait_acquires`, `timedWait_acquires`: the tokens were there, and the result is 0;
* `wait_blocks`, `timedWait_blocks`: they were not, and another thread runs, or the timeout was
  zero and the result is `TIMEOUT`.  `Sys.Missed` says that the value is zero and that nobody has
  got a token since the thread blocked; this passes over the switch because a switch leaves the
  semaphores alone (`Sys.Spares`).

The continuation of a wait that has switched, which the source keeps on the stack of the blocked
thread, is the thread's `context`; what it returns is decided when it runs again.
-/
import Os1Kernel.Refine.Loops
import Os1Kernel.Spec.Tokens

namespace Os1Kernel

open Linked DeltaList Simulation

variable {c : Kernel} {a b : Sys} {t : Tid} {s : SemPtr}

/-! ## 1. Switching -/

/-- Nothing is going on in the kernel. -/
structure Sys.Idle (a : Sys) : Prop where
  activity : a.activity = .none
  stage : a.stage = .code

theorem Sys.Inv.free (h : a.Inv) (ha : a.activity = .none) :
    (a.thread a.running).blockedAtSem = none ∧ a.running ∉ a.asleep :=
  h.places.running_free (not_leaving_of ha rfl)

/-- The semaphores are as they were, and nobody has got a token. -/
structure Sys.Spares (a b : Sys) : Prop where
  sem : b.sem = a.sem
  history : ∃ l, b.history = l ++ a.history ∧ ∀ e ∈ l, ∀ s, e.issues s = false

theorem Sys.Spares.trans {d : Sys} (h : a.Spares b) (h' : b.Spares d) : a.Spares d := by
  obtain ⟨l, hl, hn⟩ := h.history
  obtain ⟨l', hl', hn'⟩ := h'.history
  refine ⟨h'.sem.trans h.sem, l' ++ l, by rw [hl', hl, List.append_assoc], fun e he => ?_⟩
  exact (List.mem_append.mp he).elim (hn' e) (hn e)

theorem Sys.Spares.noted {e : Event} (hs : b.sem = a.sem) (hh : b.history = e :: a.history)
    (he : ∀ s, e.issues s = false) : a.Spares b :=
  ⟨hs, [e], hh, fun e' he' => by rw [List.mem_singleton.mp he']; exact he⟩

/-- `TCB::yield` of a thread that leaves. -/
theorem switch_does {α : Type} {x : α} (h : Sim c a) {ctx : Context}
    (ha : a.activity = .leaving ctx none) :
    Does (do
      TCB.yield false ctx
      pure x) c a fun y b =>
        y = x ∧ (b.Idle ∧ (b.thread a.running).context = ctx) ∧ a.Spares b := by
  have hs := h.inv.contexts.leaving ha
  refine Does.step h.inv (.switch ha) (yields_control (yield_yields h.rep ctx)) fun c' h' => ?_
  exact Follows.pure h' ⟨rfl, ⟨⟨rfl, hs.1⟩, Sys.choose_context _⟩, .noted rfl rfl fun _ => rfl⟩

/-- `Sleep::put` and `TCB::yield` of a thread that goes to sleep. -/
theorem fallAsleep_does {α : Type} {x : α} (h : Sim c a) {ctx : Context} {n : Nat}
    (ha : a.activity = .leaving ctx (some n)) (h0 : n ≠ 0) :
    Does (do
      Sleep.put a.running n
      TCB.yield false ctx
      pure x) c a fun y b =>
        y = x ∧ (b.Idle ∧ (b.thread a.running).context = ctx) ∧ a.Spares b := by
  have hput := sleepPut_yields h.rep (h.inv.ticks.next _ _ ha) (h.inv.places.leaving_awake _ _ ha)
    h.inv.ticks.lt h.inv.asleep_length
  refine Does.step h.inv (.fallAsleep ha h0) (yields_control hput) fun c' h' => ?_
  refine (switch_does h' rfl).mono fun y b hb => ⟨hb.1, hb.2.1, .trans ?_ hb.2.2⟩
  exact .noted rfl rfl fun _ => rfl

/-! ## 2. `wait`, `timedWait`, `tryWait` -/

theorem Sys.emit_running (e : Event) : (a.emit e).running = a.running := rfl

theorem active_eq (h : Rep c a) (s : SemPtr) : (c.sem s).active = (a.sem s).active :=
  congrArg Sem.active (h.sem_apply s)

theorem value_eq (h : Rep c a) (s : SemPtr) : (c.sem s).value = (a.sem s).value :=
  congrArg Sem.value (h.sem_apply s)

theorem acquire_yields (h : Rep c a) (s : SemPtr) (m : Nat) :
    Yields Rep (kSemaphore.acquire s m) c ()
      (((a.setSem s fun x => { x with value := x.value - m }).setThread a.running
        fun x => { x with unblockManner := .regular }).emit (.acquired s a.running m)) := by
  unfold kSemaphore.acquire
  refine Yields.bind_eq (getRunning_apply h) (Yields.bind_eq (setSem_apply ..)
    (Yields.bind_eq (setThread_apply ..) (Yields.of_eq (emit_apply ..) (Rep.emit ?_ _))))
  have hset := h.setSem s fun x => { x with value := x.value - m }
  exact hset.setThread a.running fun x => { x with unblockManner := .regular }

theorem block_yields (h : Rep c a)
    (hmem : ∀ t s, t ∈ a.queue s ↔ (a.thread t).blockedAtSem = some s)
    (hfree : (a.thread a.running).blockedAtSem = none) (s : SemPtr) (m : Nat)
    (timeout : Option Nat) :
    Yields Rep (kSemaphore.block s m timeout) c ()
      (((a.setSem s fun x => { x with value := 0 }).emit (.blocked s a.running timeout)).enqueue s
        a.running (m - (a.sem s).value)) := by
  unfold kSemaphore.block
  refine Yields.bind_eq (getRunning_apply h) (Yields.bind_eq (getSem_apply ..) ?_)
  refine Yields.bind_eq (setSem_apply ..) (Yields.bind_eq (emit_apply ..) ?_)
  rw [value_eq h]
  have hset := (h.setSem s fun x => { x with value := 0 }).emit (.blocked s a.running timeout)
  exact semaphorePut_yields hset _ hmem hfree

/-- `resolveManner` -/
theorem resolveManner_apply (h : Rep c a) :
    kSemaphore.resolveManner c = some ((a.thread a.running).unblockManner.result, c) := by
  simp only [kSemaphore.resolveManner, bind_apply, getRunning_apply h, Option.bind_some,
    getTcb_apply, pure_apply]
  rw [h.thread_apply]
  cases (a.thread a.running).unblockManner <;> rfl

/-- Where a wait has come to. -/
def Comes (a : Sys) (ctx : Context) : Outcome Int → Sys → Prop
  | .done _, b => b.activity = .none ∧ b.stage = .past ctx ∧ b.running = a.running
  | .switched, b => b.Idle ∧ (b.thread a.running).context = ctx

/-- A wait that has not found its tokens has taken what there was of them, and nobody has got any
since. -/
structure Sys.Missed (a : Sys) (s : SemPtr) (timeout : Option Nat) (b : Sys) : Prop where
  value : (b.sem s).value = 0
  history : ∃ l, b.history = l ++ .blocked s a.running timeout :: a.history ∧
    ∀ e ∈ l, ∀ s, e.issues s = false

/-- What a wait does first when it does not find its tokens. -/
theorem Sys.Missed.of_spares {m : Nat} {timeout : Option Nat} {activity : Activity} {stage : Stage}
    (h : Sys.Spares { ((a.setSem s fun x => { x with value := 0 }).emit
      (.blocked s a.running timeout)).enqueue s a.running m with
        activity := activity, stage := stage } b) : a.Missed s timeout b where
  value := by
    rw [h.sem]
    simp [Sys.enqueue, Sys.emit, Sys.setSem]
  history := h.history

theorem acquire_does (h : Sim c a) {m : Nat} {ctx : Context} (hc : a.WaitCall s m ctx)
    (ha : (a.sem s).active = true) (hv : m ≤ (a.sem s).value) :
    Does (do
      kSemaphore.acquire s m
      return .done (← kSemaphore.resolveManner)) c a fun o b => o = .done 0 ∧ Comes a ctx o b := by
  refine Does.step h.inv (.acquire hc ha hv) (yields_control (acquire_yields h.rep s m))
    fun c' h' => ?_
  refine Follows.bind_eq (resolveManner_apply h'.rep) (Follows.pure h' ⟨?_, hc.activity, rfl, rfl⟩)
  simp [Sys.setThread, Sys.setSem, Sys.emit, UnblockManner.result]

/-- A `wait` that finds its tokens. -/
theorem wait_acquires (h : Sim c a) {m : Nat} {ctx : Context} (hc : a.WaitCall s m ctx)
    (ha : (a.sem s).active = true) (hv : m ≤ (a.sem s).value) :
    Does (kSemaphore.wait s m ctx) c a fun o b => o = .done 0 ∧ Comes a ctx o b := by
  unfold kSemaphore.wait
  refine Follows.bind_eq (getSem_apply c s) ?_
  rw [active_eq h.rep, value_eq h.rep, ha, Bool.not_true, if_neg Bool.false_ne_true, if_pos hv]
  exact acquire_does h hc ha hv

/-- A `wait` that does not. -/
theorem wait_blocks (h : Sim c a) {m : Nat} {ctx : Context} (hc : a.WaitCall s m ctx)
    (ha : (a.sem s).active = true) (hv : (a.sem s).value < m) :
    Does (kSemaphore.wait s m ctx) c a fun o b =>
      (o = .switched ∧ Comes a ctx o b) ∧ a.Missed s none b := by
  unfold kSemaphore.wait
  refine Follows.bind_eq (getSem_apply c s) ?_
  rw [active_eq h.rep, value_eq h.rep, ha, Bool.not_true, if_neg Bool.false_ne_true,
    if_neg (Nat.not_le.mpr hv)]
  have hs : a.Step _ := .block hc ha hv (fun n (hn : n ∈ none) => by cases hn)
  refine Does.step h.inv hs (yields_control (block_yields h.rep h.inv.places.mem_queue
    (h.inv.free hc.activity).1 s m none)) fun c' h' => ?_
  refine (switch_does h' rfl).mono fun o b hb => ?_
  obtain ⟨rfl, hcomes, hspares⟩ := hb
  exact ⟨⟨rfl, hcomes⟩, .of_spares hspares⟩

/-- `wait` -/
theorem wait_does (h : Sim c a) {m : Nat} {ctx : Context} (hc : a.WaitCall s m ctx) :
    Does (kSemaphore.wait s m ctx) c a (Comes a ctx) := by
  cases ha : (a.sem s).active with
  | false =>
    unfold kSemaphore.wait
    refine Follows.bind_eq (getSem_apply c s) ?_
    rw [active_eq h.rep, ha]
    exact Does.last h.inv (.dead hc ha) (Yields.pure h.rep.control) ⟨hc.activity, rfl, rfl⟩
  | true =>
    rcases Nat.lt_or_ge (a.sem s).value m with hv | hv
    · exact (wait_blocks h hc ha hv).mono fun _ _ hb => hb.1.2
    · exact (wait_acquires h hc ha hv).mono fun _ _ hb => hb.2

/-- `Sleep::sleep(0)` by a thread that has just joined the waiters of `s`. -/
theorem sleepZero_yields (h : Rep c a) (hp : a.Places)
    (hlt : ∀ t ∈ a.threads, t < a.IDCounter) {ctx : Context}
    (ha : a.activity = .leaving ctx (some 0)) (hb : (a.thread a.running).blockedAtSem = some s) :
    Yields Rep (Sleep.sleep 0 ctx) c (.done ERR_SLEEP_ZERO)
      ((a.unblock s a.running .waitTimeout).emit (.expired s a.running)) := by
  unfold Sleep.sleep
  refine Yields.bind_eq (getRunning_apply h) ?_
  rw [if_pos rfl]
  refine Yields.bind_eq (getTcb_apply ..) ?_
  rw [h.thread_apply, hb]
  refine Yields.bind (x := ()) ?_ fun c' h' => Yields.pure h'
  have hm := (hp.mem_queue a.running s).mpr hb
  refine Yields.bind (semaphoreGet_yields h hp.mem_queue hm (hp.queue_length hlt s))
    fun c' h' => ?_
  refine Yields.bind_eq (setThread_apply ..) (Yields.of_eq (emit_apply ..) (Rep.emit ?_ _))
  have hset := h'.setThread a.running fun x => { x with unblockManner := .waitTimeout }
  have hawake : (a.dequeue s a.running).awake a.running = a.dequeue s a.running :=
    awake_of_not_mem (hp.leaving_awake _ _ ha)
  rw [← hawake, unblock_eq] at hset
  exact hset

/-- `Sleep::sleep` of a thread that leaves, with a timeout that is not zero. -/
theorem sleep_does (h : Sim c a) {ctx : Context} {n : Nat}
    (ha : a.activity = .leaving ctx (some n)) (h0 : n ≠ 0) :
    Does (Sleep.sleep n ctx) c a fun o b =>
      o = .switched ∧ (b.Idle ∧ (b.thread a.running).context = ctx) ∧ a.Spares b := by
  unfold Sleep.sleep
  refine Follows.bind_eq (getRunning_apply h.rep) ?_
  rw [if_neg h0]
  exact fallAsleep_does h ha h0

/-- The rest of `timedWait` once the thread has joined the waiters. -/
theorem sleepBlocked_does (h : Sim c a) {ctx : Context} {n : Nat}
    (ha : a.activity = .leaving ctx (some n)) (hb : (a.thread a.running).blockedAtSem = some s) :
    Does (do
      match ← Sleep.sleep n ctx with
      | .switched => pure .switched
      | .done _ => do
        let ret ← kSemaphore.resolveManner
        let r ← getRunning
        Os1Kernel.emit (.returned r ret)
        pure (.done ret)) c a fun o b =>
          ((n ≠ 0 ∧ o = .switched ∨ n = 0 ∧ o = .done TIMEOUT) ∧ Comes a ctx o b) ∧
            a.Spares b := by
  by_cases h0 : n = 0
  · subst h0
    refine Does.last (x := Outcome.done TIMEOUT) h.inv (.timeoutZero ha hb) (yields_control
      (Yields.bind (sleepZero_yields h.rep h.inv.places h.inv.names.threads_lt ha hb) fun c₁ h₁ => ?_)) ?_
    case refine_2 =>
      refine ⟨⟨Or.inr ⟨rfl, rfl⟩, rfl, rfl, rfl⟩, rfl, [.returned a.running TIMEOUT,
        .expired s a.running], rfl, ?_⟩
      simp [Event.issues]
    have hm : (((a.unblock s a.running .waitTimeout).emit (.expired s a.running)).thread
        a.running).unblockManner = .waitTimeout := by
      simp [Sys.unblock, Sys.emit]
    have hr := resolveManner_apply h₁
    rw [Sys.emit_running, show (a.unblock s a.running .waitTimeout).running = a.running from rfl,
      hm] at hr
    exact Yields.bind_eq hr (Yields.bind_eq (getRunning_apply h₁)
      (Yields.bind_eq (emit_apply ..) (Yields.pure (h₁.emit _))))
  · refine Follows.bind (sleep_does h ha h0) fun o c₁ b₁ h₁ hb₁ => ?_
    rw [hb₁.1]
    exact Follows.pure h₁ ⟨⟨Or.inl ⟨h0, rfl⟩, hb₁.2.1⟩, hb₁.2.2⟩

/-- A `timedWait` that finds its tokens. -/
theorem timedWait_acquires (h : Sim c a) {m : Nat} {ctx : Context} (hc : a.WaitCall s m ctx)
    (ha : (a.sem s).active = true) (hv : m ≤ (a.sem s).value) (timeout : Nat) :
    Does (kSemaphore.timedWait s timeout m ctx) c a fun o b => o = .done 0 ∧ Comes a ctx o b := by
  unfold kSemaphore.timedWait
  refine Follows.bind_eq (getSem_apply c s) ?_
  rw [active_eq h.rep, value_eq h.rep, ha, Bool.not_true, if_neg Bool.false_ne_true, if_pos hv]
  exact acquire_does h hc ha hv

/-- A `timedWait` that does not. -/
theorem timedWait_blocks (h : Sim c a) {m timeout : Nat} {ctx : Context} (hc : a.WaitCall s m ctx)
    (ha : (a.sem s).active = true) (hv : (a.sem s).value < m) (ht : ctx.timed)
    (hlt : timeout < 2 ^ 64) :
    Does (kSemaphore.timedWait s timeout m ctx) c a fun o b =>
      ((timeout ≠ 0 ∧ o = .switched ∨ timeout = 0 ∧ o = .done TIMEOUT) ∧ Comes a ctx o b) ∧
        a.Missed s (some timeout) b := by
  unfold kSemaphore.timedWait
  refine Follows.bind_eq (getSem_apply c s) ?_
  rw [active_eq h.rep, value_eq h.rep, ha, Bool.not_true, if_neg Bool.false_ne_true,
    if_neg (Nat.not_le.mpr hv)]
  have hs : a.Step _ := .block hc ha hv
    (show ∀ n ∈ some timeout, _ from fun n hn => Option.some.inj hn ▸ ⟨ht, hlt⟩)
  exact Does.step h.inv hs (yields_control (block_yields h.rep h.inv.places.mem_queue
    (h.inv.free hc.activity).1 s m (some timeout))) fun c' h' =>
      (sleepBlocked_does h' rfl (Sys.enqueue_self _)).mono fun _ _ hb =>
        ⟨hb.1, .of_spares hb.2⟩

/-- `timedWait` -/
theorem timedWait_does (h : Sim c a) {m timeout : Nat} {ctx : Context} (hc : a.WaitCall s m ctx)
    (ht : ctx.timed) (hlt : timeout < 2 ^ 64) :
    Does (kSemaphore.timedWait s timeout m ctx) c a (Comes a ctx) := by
  cases ha : (a.sem s).active with
  | false =>
    unfold kSemaphore.timedWait
    refine Follows.bind_eq (getSem_apply c s) ?_
    rw [active_eq h.rep, ha]
    exact Does.last h.inv (.dead hc ha) (Yields.pure h.rep.control) ⟨hc.activity, rfl, rfl⟩
  | true =>
    rcases Nat.lt_or_ge (a.sem s).value m with hv | hv
    · exact (timedWait_blocks h hc ha hv ht hlt).mono fun _ _ hb => hb.1.2
    · exact (timedWait_acquires h hc ha hv timeout).mono fun _ _ hb => hb.2

/-- `tryWait` -/
theorem tryWait_does (h : Sim c a) (hc : a.Calls) {n : Nat} (hn : .opened n ∈ a.sems) :
    Does (kSemaphore.tryWait (.opened n) 1) c a fun _ b =>
      b.activity = .none ∧ b.Leaves ∧ b.running = a.running := by
  have hbody : ∀ {b : Sys}, b.stage = a.stage → b.running = a.running →
      (b.thread b.running).context = (a.thread a.running).context → b.Leaves := by
    intro b hs hr hx
    refine .code (hs.trans hc.stage) ?_
    rw [hx, hc.context]
    rfl
  have hw : a.WaitCall (.opened n) 1 (.semWait (.opened n)) := .semWait hc hn
  unfold kSemaphore.tryWait
  refine Follows.bind_eq (getSem_apply c _) ?_
  rw [active_eq h.rep, value_eq h.rep]
  cases ha : (a.sem (.opened n)).active with
  | false => exact Follows.pure h ⟨hc.activity, hbody rfl rfl rfl, rfl⟩
  | true =>
    simp only [Bool.not_true, Bool.false_eq_true, if_false]
    by_cases hv : 1 ≤ (a.sem (.opened n)).value
    · rw [if_pos hv]
      refine Does.step h.inv (.acquire hw ha hv) (yields_control (acquire_yields h.rep _ 1))
        fun c' h' => ?_
      exact Follows.pure h' ⟨hc.activity, .past rfl rfl, rfl⟩
    · rw [if_neg hv]
      refine Follows.bind_eq (getRunning_apply h.rep) ?_
      have hset := h.rep.setThread a.running fun x => { x with unblockManner := .regular }
      refine Does.last h.inv (.tryFail hc hn) (Yields.bind_eq (setThread_apply ..)
        (Yields.pure hset)) ⟨hc.activity, hbody rfl rfl ?_, rfl⟩
      exact Sys.update_field Thread.context (by rfl) _

/-! ## 3. `kSemaphoreCreate` -/

/-- A semaphore joins the list of all semaphores, at its end. -/
theorem Links.addSem (h : Links c a) {gs : SemPtr → KSemaphore} {x : Sem} {hd tl : Option SemPtr}
    (hsem : KSemaphore.toSem ∘ gs = Function.update a.sem s x)
    (hqueue : ∀ s', IsQueue (TCB.nextSemBlocked ∘ c.tcb) (gs s').blockedHead (gs s').blockedTail
      (a.queue s'))
    (hsems : IsQueue (KSemaphore.nextSem ∘ gs) hd tl (a.sems ++ [s])) :
    Links { c with sem := gs, kSemsHead := hd, kSemsTail := tl, semIDCounter := c.semIDCounter + 1 }
      { a with
        sem := Function.update a.sem s x
        semIDCounter := a.semIDCounter + 1
        sems := a.sems ++ [s] } where
  core := by
    have hcore := h.core
    show ({ c.toCore with semIDCounter := c.toCore.semIDCounter + 1 } : Core) = _
    rw [hcore]
  thread := h.thread
  sem := hsem
  ready := h.ready
  queue := hqueue
  asleep := h.asleep
  deltas := h.deltas
  sleeps := h.sleeps
  awake := h.awake
  threads := h.threads
  unlinked := h.unlinked
  sems := hsems

theorem Links.emit (h : Links c a) (e : Event) :
    Links { c with history := e :: c.history } (a.emit e) := by
  have hcore := h.core
  refine { h with core := ?_ }
  show ({ c.toCore with history := e :: c.toCore.history } : Core) = _
  rw [hcore]
  rfl

/-- `kSemaphoreCreate` of a new semaphore. -/
theorem semaphoreCreate_links (h : Links c a) (hnew : s ∉ a.sems) (hq : a.queue s = []) (v : Nat) :
    ∃ c', kSemaphore.kSemaphoreCreate s v true c = some (some s, c') ∧
      c'.running = c.running ∧ c'.idle = c.idle ∧ Links c'
        { (a.setSem s fun _ => { creator := c.running, value := v, active := true }).emit
            (.opened s v) with
          semIDCounter := a.semIDCounter + 1
          sems := a.sems ++ [s] } := by
  obtain ⟨x, hx⟩ : ∃ x : KSemaphore, x =
      { creator := c.running, value := v, active := true, nextSem := none,
        blockedHead := none, blockedTail := none } := ⟨_, rfl⟩
  have hsem : KSemaphore.toSem ∘ (c.setSem s fun _ => x).sem = Function.update a.sem s
      { creator := c.running, value := v, active := true } := by
    rw [comp_setSem, h.sem, hx]
  have hqueue : ∀ s', IsQueue (TCB.nextSemBlocked ∘ c.tcb)
      ((KSemaphore.blockedHead ∘ (c.setSem s fun _ => x).sem) s')
      ((KSemaphore.blockedTail ∘ (c.setSem s fun _ => x).sem) s') (a.queue s') := by
    intro s'
    rw [comp_setSem, comp_setSem, hx]
    by_cases hs : s' = s
    · subst hs
      rw [Function.update_self, Function.update_self, hq]
      exact isQueue_empty
    · rw [Function.update_of_ne hs, Function.update_of_ne hs]
      exact h.queue s'
  have hnext : KSemaphore.nextSem ∘ (c.setSem s fun _ => x).sem =
      Function.update (KSemaphore.nextSem ∘ c.sem) s none := by
    rw [comp_setSem, hx]
  simp only [kSemaphore.kSemaphoreCreate, if_true, bind_apply, getKernel_apply, Option.bind_some]
  rw [← hx]
  cases htail : c.kSemsTail with
  | none =>
    have hnil : a.sems = [] := h.sems.tail_eq_none.mp htail
    have hq' : IsQueue (KSemaphore.nextSem ∘ (c.setSem s fun _ => x).sem) (some s) (some s)
        (a.sems ++ [s]) := by
      rw [hnext, hnil]
      exact isQueue_singleton
    exact ⟨_, rfl, rfl, rfl, (h.addSem hsem hqueue hq').emit (.opened s v)⟩
  | some last =>
    have hlast : last ∈ a.sems := List.mem_of_getLast? (h.sems.last ▸ htail)
    have hkeep : ∀ {β : Type} (φ : KSemaphore → β), (∀ x v, φ { x with nextSem := v } = φ x) →
        φ ∘ ((c.setSem s fun _ => x).setSem last fun y => { y with nextSem := some s }).sem =
        φ ∘ (c.setSem s fun _ => x).sem := fun φ hφ => comp_setSem_same φ fun y => hφ y _
    have hq' : IsQueue (KSemaphore.nextSem ∘ ((c.setSem s fun _ => x).setSem last fun y =>
        { y with nextSem := some s }).sem) c.kSemsHead (some s) (a.sems ++ [s]) := by
      rw [comp_setSem, hnext]
      exact (htail ▸ h.sems).push hnew
    have hadd := h.addSem ((hkeep _ fun _ _ => rfl).trans hsem) (fun s' => by
      have hh := congrFun (hkeep KSemaphore.blockedHead fun _ _ => rfl) s'
      have ht := congrFun (hkeep KSemaphore.blockedTail fun _ _ => rfl) s'
      exact (congrArg₂ (fun p q => IsQueue _ p q _) hh ht).mpr (hqueue s')) hq'
    exact ⟨_, rfl, rfl, rfl, hadd.emit (.opened s v)⟩

theorem semaphoreCreate_yields (h : Rep c a) (hnew : s ∉ a.sems) (hq : a.queue s = []) (v : Nat) :
    Yields Rep (kSemaphore.kSemaphoreCreate s v true) c (some s)
      { (a.setSem s fun _ => { creator := some a.running, value := v, active := true }).emit
          (.opened s v) with
        semIDCounter := a.semIDCounter + 1
        sems := a.sems ++ [s] } := by
  obtain ⟨c', hc, hrun, hidle, hlinks⟩ := semaphoreCreate_links h.toLinks hnew hq v
  rw [h.running] at hlinks
  exact ⟨c', hc, hlinks, hrun.trans h.running, hidle.trans h.idle⟩

end Os1Kernel
