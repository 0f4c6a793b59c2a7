/-
# The handlers

Every handler follows the steps of the abstract system up to the point where the running thread can
return to its own code, or where another thread has been chosen (`Ends`).

A handler is a sequence of waits and signals with some writes in between, so the proofs follow the
source from top to bottom with `Follows.bind`, one lemma of `Refine.Operations` for each call.
What has to be seen is that the caller has the right to make the call:

* a wait is allowed to a thread that is in its own code, and to one that is behind the wait before
  it, in the order in which its source waits (`Sys.Calls`, `Sys.Waits`);
* a signal is allowed behind the wait that it answers, and the stage says which one is owed
  (`owedSignal_does`, `owedSignals_does`).

This is how the abstract system knows that no message is sent without a token of `semSend`, and no
character stored without one of `spaceAvailable`.  The result of a wait decides how the handler
goes on: unless it is zero, it leaves the kernel with it (`leaveWith_does`).
-/
import Os1Kernel.Refine.Creation

namespace Os1Kernel

open Linked DeltaList Simulation

variable {c : Kernel} {a b : Sys} {t : Tid} {s : SemPtr}

/-! ## 1. Leaving the kernel -/

/-- Where a handler has come to. -/
def Ends : Outcome Word → Sys → Prop
  | .done _, b => b.activity = .none ∧ b.Leaves
  | .switched, b => b.Idle

theorem leave_does (h : Sim c a) (ha : a.activity = .none) (hl : a.Leaves) (ret : Option Word) :
    Does (leave ret) c a fun _ b => b.Idle := by
  unfold leave
  refine Follows.bind_eq (getRunning_apply h.rep) ?_
  have hset := h.rep.setThread a.running fun x => { x with context := .body, a0 := ret.getD x.a0 }
  have hs : a.Step _ := .leave ha hl (ret.getD (a.thread a.running).a0)
    (a.thread a.running).handle
  exact Does.last h.inv hs (Yields.of_eq (setThread_apply ..) hset.control) ⟨ha, rfl⟩

theorem leaveWith_does {m : KernelM (Outcome Word)} (h : Does m c a Ends) (void : Bool) :
    Does (do leaveWith void (← m)) c a fun _ b => b.Idle := by
  refine Follows.bind h fun o c' b h' hb => ?_
  cases o with
  | done ret => exact leave_does h' hb.1 hb.2 _
  | switched => exact Follows.pure h' hb

/-- A wait, with a handler that goes on behind it. -/
theorem behindWait {m : KernelM (Outcome Int)} {ctx : Context} (h : Does m c a (Comes a ctx))
    {k : Outcome Int → KernelM (Outcome Word)}
    (hswitched : ∀ {c' b}, Sim c' b → b.Idle → Does (k .switched) c' b Ends)
    (hdone : ∀ {ret c' b}, Sim c' b → b.activity = .none → b.stage = .past ctx →
      Does (k (.done ret)) c' b Ends) : Does (m >>= k) c a Ends := by
  refine Follows.bind h fun o c' b h' hb => ?_
  cases o with
  | done ret => exact hdone h' hb.1 hb.2.1
  | switched => exact hswitched h' hb.1

/-- A wait whose result is the result of its handler. -/
theorem plainWait {m : KernelM (Outcome Int)} {ctx : Context} (h : Does m c a (Comes a ctx))
    (hc : ctx.plain) : Does (do return (← m).word) c a Ends :=
  behindWait h (fun h' hb => Follows.pure h' hb) fun h' ha hs => Follows.pure h' ⟨ha, .past hs hc⟩

/-! ## 2. Messages

Between the wait and the signal of `handleSend` the message is copied from the memory of the
sender, as it is by then.  The copy is no step of the abstract system, which has the slots of the
messages in the part that both states have in common. -/

/-- The loop of `setMsg` ends within the array. -/
theorem setMsgFrom_isSome (msg : CString) (n i : Nat) (message : Message)
    (hn : n + i = msgLen + 1) (hi : i ≤ msgLen) :
    ∃ m, setMsgFrom msg n i message = some m := by
  induction n generalizing i message with
  | zero => omega
  | succ n ih =>
    have hlt : i < msgLen + 1 := Nat.lt_succ_of_le hi
    rw [setMsgFrom, dif_pos hlt]
    by_cases hc : msg.getD i 0 ≠ 0 ∧ i < msgLen
    · rw [if_pos hc]
      exact ih (i + 1) _ (by omega) hc.2
    · rw [if_neg hc]
      exact ⟨_, rfl⟩

/-- `signal(1)` of a semaphore that is owed a token. -/
theorem owedSignal_does (h : Sim c a) (ha : a.activity = .none) {l : List SemPtr}
    (hs : a.stage = .owes (s :: l)) :
    Does (kSemaphore.signal s 1) c a fun _ b => b.activity = .none ∧ b.stage = .owes l := by
  refine (signal_does h (.owed ha hs)).mono fun _ b hb => ⟨hb.1, hb.2.stage⟩

/-- `handleSend` behind its wait. -/
theorem sendMessage_does (h : Sim c a) (ha : a.activity = .none) {msg : CharPtr}
    (hs : a.stage = .past (.send t msg)) : Does (sendMessage t msg) c a Ends := by
  obtain ⟨m, hm⟩ := setMsgFrom_isSome (a.string msg) (msgLen + 1) 0 (a.thread t).message rfl
    (Nat.zero_le _)
  have hset : Yields Rep (setMsg t (a.string msg)) c () ((a.setThread t fun x =>
      { x with message := m }).emit (.wrote t a.running (a.string msg))) := by
    unfold setMsg
    refine Yields.bind_eq (getTcb_apply c t) ?_
    rw [h.rep.thread_apply, hm]
    have hr := h.rep.setThread t fun x => { x with message := m }
    refine Yields.bind_eq rfl (Yields.bind_eq (setThread_apply ..)
      (Yields.bind_eq (getRunning_apply hr) (Yields.of_eq (emit_apply ..) (hr.emit _))))
  unfold sendMessage
  refine Follows.bind_eq (getKernel_apply c) ?_
  rw [h.rep.string_eq]
  refine Does.step h.inv (.write ha hs hm) (yields_control hset) fun c' h' => ?_
  refine Follows.bind_eq (getTcb_apply c' t) ?_
  have ht := (h.inv.contexts.past hs).2.1
  rw [h'.rep.thread_apply, (h'.inv.names.pointers t ht).2.2.2]
  refine Follows.bind_eq rfl (Follows.bind (owedSignal_does h' ha rfl) fun _ c₁ b₁ h₁ hb₁ => ?_)
  exact Follows.pure h₁ ⟨hb₁.1, .done hb₁.2⟩

/-- `handleReceive` behind its wait. -/
theorem receiveMessage_does (h : Sim c a) (ha : a.activity = .none)
    (hs : a.stage = .past .receive) : Does receiveMessage c a Ends := by
  unfold receiveMessage
  refine Follows.bind_eq (getRunning_apply h.rep) (Follows.bind_eq (getTcb_apply ..) ?_)
  rw [h.rep.thread_apply, (h.inv.names.pointers _ h.inv.alive.running_mem).2.2.1]
  refine Follows.bind_eq rfl (Follows.bind (signal_does h (.slot ha hs)) fun _ c₁ b₁ h₁ hb₁ => ?_)
  obtain ⟨hact, hf⟩ := hb₁
  have hm : (b₁.thread b₁.running).message = (a.thread a.running).message := by
    rw [hf.running]
    exact hf.field Thread.message (fun _ => rfl) a.running
  have hstep := Sys.Step.received hact hf.stage
  rw [hm, hf.running] at hstep
  exact Does.last h₁.inv hstep (Yields.bind_eq (emit_apply ..)
    (Yields.pure ((h₁.rep.emit _).control))) ⟨hact, .done rfl⟩

/-- `handleSend` -/
theorem handleSend_does (h : Sim c a) (hc : a.Calls) (ht : t ∈ a.threads) (msg : CharPtr) :
    Does (handleSend t msg) c a Ends := by
  unfold handleSend
  refine Follows.bind_eq (getRunning_apply h.rep) ?_
  by_cases hr : t = a.running
  · rw [if_pos hr]
    exact Follows.pure h ⟨hc.activity, .code hc.stage (by rw [hc.context]; rfl)⟩
  · rw [if_neg hr]
    refine Follows.bind_eq (getTcb_apply ..) ?_
    rw [h.rep.thread_apply, (h.inv.names.pointers t ht).2.2.1]
    refine Follows.bind_eq rfl (behindWait (wait_does h (.send hc ht hr msg))
      (fun h' hb => Follows.pure h' hb) fun h' ha hs => sendMessage_does h' ha hs)

/-- `handleReceive` -/
theorem handleReceive_does (h : Sim c a) (hc : a.Calls) : Does handleReceive c a Ends := by
  unfold handleReceive
  refine Follows.bind_eq (getRunning_apply h.rep) (Follows.bind_eq (getTcb_apply ..) ?_)
  rw [h.rep.thread_apply, (h.inv.names.pointers _ h.inv.alive.running_mem).2.2.2]
  exact Follows.bind_eq rfl (behindWait (wait_does h (.receive hc))
    (fun h' hb => Follows.pure h' hb) fun h' ha hs => receiveMessage_does h' ha hs)

/-! ## 3. The console -/

theorem Rep.buffer_eq (h : Rep c a) (b : BufferId) : c.buffer b = a.buffer b :=
  congrArg (fun k => k.buffer b) h.core

theorem Rep.setBuffer (h : Rep c a) (b : BufferId) (x : CharBuffer) :
    Rep { c with buffer := Function.update c.buffer b x }
      { a with buffer := Function.update a.buffer b x } := by
  have hcore := h.core
  refine { h with core := ?_ }
  show ({ c.toCore with buffer := Function.update c.toCore.buffer b x } : Core) = _
  rw [hcore]

/-- The two `signal`s with which a character's handler ends. -/
theorem owedSignals_does (h : Sim c a) (ha : a.activity = .none) {s₁ s₂ : SemPtr}
    (hs : a.stage = .owes [s₁, s₂]) (ret : Word) :
    Does (do
      let _ ← kSemaphore.signal s₁ 1
      let _ ← kSemaphore.signal s₂ 1
      pure (.done ret)) c a Ends := by
  refine Follows.bind (owedSignal_does h ha hs) fun _ c₁ b₁ h₁ ⟨ha₁, hs₁⟩ => ?_
  refine Follows.bind (owedSignal_does h₁ ha₁ hs₁) fun _ c₂ b₂ h₂ ⟨ha₂, hs₂⟩ => ?_
  exact Follows.pure h₂ ⟨ha₂, .done hs₂⟩

theorem putChar_does (h : Sim c a) (ha : a.activity = .none) {b : BufferId} {x : UInt8}
    (hs : a.stage = .past (.putMutex b x)) : Does (CharBuffer.putChar b x) c a Ends := by
  have hpos := (h.inv.console.pos b).1
  have hset := h.rep.setBuffer b
    { a.buffer b with
      buffer := (a.buffer b).buffer.set (a.buffer b).pos_w x
      pos_w := ((a.buffer b).pos_w + 1) % bufferLength }
  have hput : Yields Rep (CharBuffer.put b x) c () { a with
      buffer := Function.update a.buffer b
        { a.buffer b with
          buffer := (a.buffer b).buffer.set (a.buffer b).pos_w x
          pos_w := ((a.buffer b).pos_w + 1) % bufferLength }
      history := .stored b a.running x :: a.history } := by
    unfold CharBuffer.put
    refine Yields.bind_eq (getKernel_apply c) ?_
    dsimp only
    rw [h.rep.buffer_eq, dif_pos hpos]
    exact Yields.bind_eq (modify_apply ..) (Yields.bind_eq (getRunning_apply hset)
      (Yields.of_eq (emit_apply ..) (hset.emit _)))
  unfold CharBuffer.putChar
  refine Does.step h.inv (.putChar ha hs hpos) (yields_control hput) fun c' h' => ?_
  refine Follows.bind_eq (getKernel_apply c') ?_
  dsimp only
  obtain ⟨-, hget, hmutex⟩ := h'.inv.console.pointers b
  rw [h'.rep.buffer_eq, hmutex, hget]
  exact Follows.bind_eq rfl (owedSignals_does h' ha rfl _)

theorem getChar_does (h : Sim c a) (ha : a.activity = .none) {b : BufferId}
    (hs : a.stage = .past (.getMutex b)) : Does (CharBuffer.getChar b) c a Ends := by
  have hpos := (h.inv.console.pos b).2
  have hset := h.rep.setBuffer b
    { a.buffer b with pos_r := ((a.buffer b).pos_r + 1) % bufferLength }
  have hget : Yields Rep (CharBuffer.get b) c ((a.buffer b).buffer[(a.buffer b).pos_r]) { a with
      buffer := Function.update a.buffer b
        { a.buffer b with pos_r := ((a.buffer b).pos_r + 1) % bufferLength }
      history := .loaded b a.running (a.buffer b).buffer[(a.buffer b).pos_r] :: a.history } := by
    unfold CharBuffer.get
    refine Yields.bind_eq (getKernel_apply c) ?_
    dsimp only
    simp only [h.rep.buffer_eq]
    rw [dif_pos hpos]
    exact Yields.bind_eq (modify_apply ..) (Yields.bind_eq (getRunning_apply hset)
      (Yields.bind_eq (emit_apply ..) (Yields.pure (hset.emit _))))
  unfold CharBuffer.getChar
  refine Does.step h.inv (.getChar ha hs hpos) (yields_control hget) fun c' h' => ?_
  refine Follows.bind_eq (getKernel_apply c') ?_
  dsimp only
  obtain ⟨hput, -, hmutex⟩ := h'.inv.console.pointers b
  rw [h'.rep.buffer_eq, hmutex, hput]
  exact Follows.bind_eq rfl (owedSignals_does h' ha rfl _)

theorem putLocked_does (h : Sim c a) (ha : a.activity = .none) {b : BufferId} {x : UInt8}
    (hs : a.stage = .past (.put b x)) : Does (CharBuffer.putLocked b x) c a Ends := by
  unfold CharBuffer.putLocked
  refine Follows.bind_eq (getKernel_apply c) ?_
  dsimp only
  rw [h.rep.buffer_eq, (h.inv.console.pointers b).2.2]
  exact Follows.bind_eq rfl (behindWait (wait_does h (.putMutex ha hs))
    (fun h' hb => Follows.pure h' hb) fun h' ha' hs' => putChar_does h' ha' hs')

theorem getLocked_does (h : Sim c a) (ha : a.activity = .none) {b : BufferId}
    (hs : a.stage = .past (.get b)) : Does (CharBuffer.getLocked b) c a Ends := by
  unfold CharBuffer.getLocked
  refine Follows.bind_eq (getKernel_apply c) ?_
  dsimp only
  rw [h.rep.buffer_eq, (h.inv.console.pointers b).2.2]
  exact Follows.bind_eq rfl (behindWait (wait_does h (.getMutex ha hs))
    (fun h' hb => Follows.pure h' hb) fun h' ha' hs' => getChar_does h' ha' hs')

theorem kPut_does (h : Sim c a) (hc : a.Calls) (b : BufferId) (x : UInt8) :
    Does (CharBuffer.kPut b x) c a Ends := by
  unfold CharBuffer.kPut
  refine Follows.bind_eq (getRunning_apply h.rep) (Does.step h.inv (.putting hc b x)
    (Yields.of_eq (emit_apply ..) (h.rep.emit _).control) fun c' h' => ?_)
  refine Follows.bind_eq (getKernel_apply c') ?_
  dsimp only
  rw [h'.rep.buffer_eq, (h'.inv.console.pointers b).1]
  have ha : ({ a.emit (.putting b a.running x) with stage := .putting b x } : Sys).activity =
    .none := hc.activity
  exact Follows.bind_eq rfl (behindWait (wait_does h' (.put ha rfl))
    (fun h'' hb => Follows.pure h'' hb) fun h'' ha hs => putLocked_does h'' ha hs)

theorem kGet_does (h : Sim c a) (hc : a.Calls) (b : BufferId) :
    Does (CharBuffer.kGet b) c a Ends := by
  unfold CharBuffer.kGet
  refine Follows.bind_eq (getKernel_apply c) ?_
  dsimp only
  rw [h.rep.buffer_eq, (h.inv.console.pointers b).2.1]
  exact Follows.bind_eq rfl (behindWait (wait_does h (.get hc b))
    (fun h' hb => Follows.pure h' hb) fun h' ha' hs' => getLocked_does h' ha' hs')

/-! ## 4. The other system calls

The joins are waits at a semaphore that belongs to a thread.  Whether the caller waits there is
decided before, by the source: not if it would wait for itself, nor if the other has finished. -/

/-- A call that has changed nothing but its caller's registers. -/
theorem Sys.Calls.leaves (h : a.Calls) : a.Leaves :=
  .code h.stage (by rw [h.context]; rfl)

/-- `handleJoin` and `handleTimedJoin` of another thread that has not finished. -/
theorem joinWith_waits (h : Sim c a) (hc : a.Calls) (ht : t ∈ a.threads) (hne : t ≠ a.running)
    (hf : (a.thread t).finished = false) {wait : SemPtr → KernelM (Outcome Int)}
    {Q : Outcome Int → Sys → Prop}
    (hwait : a.WaitCall (.join t) 1 (.join t) → Does (wait (.join t)) c a Q) :
    Does (joinWith t wait) c a fun o b => ∃ x, o = x.word ∧ Q x b := by
  unfold joinWith
  refine Follows.bind_eq (getRunning_apply h.rep) ?_
  rw [if_neg hne]
  refine Follows.bind_eq (getTcb_apply ..) ?_
  rw [h.rep.thread_apply, (h.inv.names.pointers t ht).1, hf]
  exact Follows.bind_eq rfl (Follows.bind (hwait (.join hc ht hne hf)) fun x _ b h' hb =>
    Follows.pure h' ⟨x, rfl, hb⟩)

/-- `handleJoin` and `handleTimedJoin`. -/
theorem joinWith_does (h : Sim c a) (hc : a.Calls) (ht : t ∈ a.threads)
    {wait : SemPtr → KernelM (Outcome Int)}
    (hwait : a.WaitCall (.join t) 1 (.join t) → Does (wait (.join t)) c a (Comes a (.join t))) :
    Does (joinWith t wait) c a Ends := by
  unfold joinWith
  refine Follows.bind_eq (getRunning_apply h.rep) ?_
  by_cases hr : t = a.running
  · rw [if_pos hr]
    exact Follows.pure h ⟨hc.activity, hc.leaves⟩
  · rw [if_neg hr]
    refine Follows.bind_eq (getTcb_apply ..) ?_
    rw [h.rep.thread_apply, (h.inv.names.pointers t ht).1]
    cases hf : (a.thread t).finished with
    | true => exact Follows.pure h ⟨hc.activity, hc.leaves⟩
    | false => exact Follows.bind_eq rfl (plainWait (hwait (.join hc ht hr hf)) rfl)

/-- `handleJoinAll` around its wait. -/
theorem handleJoinAll_waits (h : Sim c a) {Q : Outcome Int → Sys → Prop}
    (hwait : Does (kSemaphore.wait (.joinAll a.running) (a.thread a.running).numOfActiveChildren
      .joinAll) c a Q) :
    Does handleJoinAll c a fun o b => (o = .switched ∧ Q .switched b) ∨
      o = .done (.int 0) ∧ ∃ ret, Q (.done ret) b := by
  unfold handleJoinAll
  refine Follows.bind_eq (getRunning_apply h.rep) (Follows.bind_eq (getTcb_apply ..) ?_)
  rw [h.rep.thread_apply, (h.inv.names.pointers _ h.inv.alive.running_mem).2.1]
  refine Follows.bind_eq rfl (Follows.bind hwait fun o _ b h' hb => ?_)
  cases o with
  | switched => exact Follows.pure h' (Or.inl ⟨rfl, hb⟩)
  | done ret => exact Follows.pure h' (Or.inr ⟨rfl, ret, hb⟩)

theorem handleJoinAll_does (h : Sim c a) (hc : a.Calls) : Does handleJoinAll c a Ends := by
  unfold handleJoinAll
  refine Follows.bind_eq (getRunning_apply h.rep) (Follows.bind_eq (getTcb_apply ..) ?_)
  rw [h.rep.thread_apply, (h.inv.names.pointers _ h.inv.alive.running_mem).2.1]
  exact Follows.bind_eq rfl (behindWait (wait_does h (.joinAll hc))
    (fun h' hb => Follows.pure h' hb) fun h' ha hs => Follows.pure h' ⟨ha, .past hs rfl⟩)

theorem childrenLeft_does (h : Sim c a) (ha : a.activity = .none) (hl : a.Leaves) :
    Does childrenLeft c a Ends := by
  unfold childrenLeft
  exact Follows.bind_eq (getRunning_apply h.rep) (Follows.bind_eq (getTcb_apply ..)
    (Follows.pure h ⟨ha, hl⟩))

/-- `handletimedJoinAll` around its wait. -/
theorem handletimedJoinAll_waits (h : Sim c a) {timeout : Nat} {Q : Outcome Int → Sys → Prop}
    (hwait : Does (kSemaphore.timedWait (.joinAll a.running) timeout
      (a.thread a.running).numOfActiveChildren .timedJoinAll) c a Q) :
    Does (handletimedJoinAll timeout) c a fun o b => (o = .switched ∧ Q .switched b) ∨
      o = .done (.int (b.thread b.running).numOfActiveChildren) ∧ ∃ ret, Q (.done ret) b := by
  unfold handletimedJoinAll
  refine Follows.bind_eq (getRunning_apply h.rep) (Follows.bind_eq (getTcb_apply ..) ?_)
  rw [h.rep.thread_apply, (h.inv.names.pointers _ h.inv.alive.running_mem).2.1]
  refine Follows.bind_eq rfl (Follows.bind hwait fun o _ b h' hb => ?_)
  cases o with
  | switched => exact Follows.pure h' (Or.inl ⟨rfl, hb⟩)
  | done ret =>
    refine Follows.bind_eq (getRunning_apply h'.rep) (Follows.bind_eq (getTcb_apply ..)
      (Follows.pure h' (Or.inr ⟨?_, ret, hb⟩)))
    rw [h'.rep.thread_apply]

theorem handletimedJoinAll_does (h : Sim c a) (hc : a.Calls) {timeout : Nat}
    (hlt : timeout < 2 ^ 64) : Does (handletimedJoinAll timeout) c a Ends := by
  unfold handletimedJoinAll
  refine Follows.bind_eq (getRunning_apply h.rep) (Follows.bind_eq (getTcb_apply ..) ?_)
  rw [h.rep.thread_apply, (h.inv.names.pointers _ h.inv.alive.running_mem).2.1]
  exact Follows.bind_eq rfl (behindWait (timedWait_does h (.timedJoinAll hc) rfl hlt)
    (fun h' hb => Follows.pure h' hb) fun h' ha hs => childrenLeft_does h' ha (.past hs rfl))

/-- `thread_create` and `sem_open` end by storing a handle. -/
theorem setHandle_does (h : Sim c a) (hc : a.Calls) (handle ret : Word) :
    Does (do
      let r ← getRunning
      setThread r fun x => { x with handle := handle }
      pure (Outcome.done ret)) c a Ends := by
  refine Follows.bind_eq (getRunning_apply h.rep) ?_
  have hset := h.rep.setThread a.running fun x => { x with handle := handle }
  have hx : ∀ x : Thread, x.context = .body →
      { x with context := .body, a0 := x.a0, handle := handle } = { x with handle := handle } := by
    intro x hx
    rw [← hx]
  have hs : a.Step _ := .leave hc.activity hc.leaves (a.thread a.running).a0 handle
  refine Does.last h.inv hs (Yields.bind_eq (setThread_apply ..) (Yields.pure ?_))
    ⟨hc.activity, .code rfl ?_⟩
  · refine Rep.control ?_
    exact (congrArg (fun x => Rep _ { a with thread := Function.update a.thread a.running x })
      (hx _ hc.context)).mpr hset
  · show Context.waitsAt _ (Function.update a.thread a.running _ a.running).context = none
    rw [Function.update_self]
    rfl

theorem handleThreadCreate_does (h : Sim c a) (hc : a.Calls) (body space : Bool) (mem : CreateMem)
    (hroom : a.threads.length < 2 ^ 58) :
    Does (handleThreadCreate body space mem) c a Ends := by
  unfold handleThreadCreate
  exact Follows.bind (threadCreate_does h hc body .user space DEFAULT_TIME_SLICE mem hroom)
    fun _ c' b h' hb => setHandle_does h' hb.1 _ _

theorem handleSemOpen_does (h : Sim c a) (hc : a.Calls) {init : Nat} (hlt : init < 2 ^ 64)
    (mem : Bool) : Does (handleSemOpen init mem) c a Ends := by
  have hid : c.semIDCounter = a.semIDCounter := congrArg Core.semIDCounter h.rep.core
  have hnew : .opened a.semIDCounter ∉ a.sems := fun hm =>
    lt_irrefl _ (h.inv.names.opened_lt _ hm)
  unfold handleSemOpen
  refine Follows.bind_eq (getKernel_apply c) ?_
  rw [hid]
  cases mem with
  | false => exact Follows.bind_eq rfl (setHandle_does h hc _ _)
  | true =>
    have hs : a.Step _ := .openSem hc hlt (Or.inl rfl)
    refine Does.step h.inv hs (semaphoreCreate_yields h.rep hnew (h.inv.queue_nil hnew) _)
      fun c' h' => ?_
    exact setHandle_does h' { hc with } _ _

theorem handleThreadExit_does (h : Sim c a) (hb : a.AtBody) : Does handleThreadExit c a Ends :=
  Follows.bind (finish_does h hb 0) fun _ _ _ h' hi => Follows.pure h' hi

/-- `Sleep::sleep`, called by `handleTimeSleep`. -/
theorem timeSleep_does (h : Sim c a) (hc : a.Calls) {timeout : Nat} (hlt : timeout < 2 ^ 64) :
    Does (do return (← Sleep.sleep timeout .sleep).word) c a Ends := by
  by_cases h0 : timeout = 0
  · subst h0
    unfold Sleep.sleep
    simp only [if_true, bind_assoc]
    refine Follows.bind_eq (getRunning_apply h.rep) (Follows.bind_eq (getTcb_apply ..) ?_)
    rw [h.rep.thread_apply, (h.inv.free hc.activity).1]
    exact Follows.bind_eq rfl (Follows.bind_eq rfl (Follows.pure h ⟨hc.activity, hc.leaves⟩))
  · have hs : a.Step _ := .sleep hc (Nat.one_le_iff_ne_zero.mpr h0) hlt
    have h' : Sim c _ := ⟨h.rep.control, h.inv.step hs⟩
    refine Follows.silent hs (Follows.bind (sleep_does h' rfl h0) fun o c' b h' hb => ?_)
    rw [hb.1]
    exact Follows.pure h' hb.2.1.1

/-- `TCB::yield(true, ...)` of a thread that is in its own code. -/
theorem preempt_does (h : Sim c a) (hb : a.AtBody) {ctx : Context}
    (hctx : ctx = .timer ∨ ctx = .dispatch) :
    Does (TCB.yield true ctx) c a fun _ b => b.Idle := by
  have hfin : (a.thread a.running).finished = true → a.running = a.idle := fun hf =>
    (h.inv.contexts.finished hf).resolve_right (Sys.not_leaving hb.activity)
  exact Does.last h.inv (.preempt hb hctx) (preempt_yields h.rep ctx (h.inv.free hb.activity) hfin
    h.inv.places.running_ready) ⟨hb.activity, hb.stage⟩

/-- The timer interrupt. -/
theorem handleTimer_does (h : Sim c a) (hb : a.AtBody) :
    Does handleTimer c a fun _ b => b.Idle := by
  have hr : Rep { c with timeSliceCounter := u64 (c.timeSliceCounter + 1) }
      { a with timeSliceCounter := u64 (a.timeSliceCounter + 1) } := by
    have hcore := h.rep.core
    refine { h.rep with core := ?_ }
    show ({ c.toCore with timeSliceCounter := u64 (c.toCore.timeSliceCounter + 1) } : Core) = _
    rw [hcore]
  unfold handleTimer
  refine Follows.bind_eq (modify_apply ..) (Follows.bind (onTick_does hr h.inv hb)
    fun _ c' b h' hb' => ?_)
  refine Follows.bind_eq (getRunning_apply h'.rep) (Follows.bind_eq (getKernel_apply c') ?_)
  by_cases ht : (c'.tcb b.running).timeSlice ≤ c'.timeSliceCounter
  · rw [if_pos ht]
    exact preempt_does h' hb'.1 (Or.inl rfl)
  · rw [if_neg ht]
    exact Follows.pure h' ⟨hb'.1.activity, hb'.1.stage⟩

end Os1Kernel
