/-
# What the kernel leaves alone

Most of the kernel moves threads from list to list.  Only the constructor of a `TCB` decides
whether a thread has a body and how long its time slice is, only that and `setMsg` store into a
`message`, only `TCB::yield` sets `running`, only it and the timer interrupt touch
`timeSliceCounter`, and only `TCB::finish`, `CharBuffer::get`, the handlers of `send` and `receive`
and these two note the ghost events of these operations.  A predicate that depends on nothing else
is `Quiet`, and every function that does none of this keeps it; one that a switch keeps too is
`Stable`, and is kept by the functions that may block as well.

The lemmas go through the functions in the order of the source, each by the lemmas of those that
it calls.  The operations named above keep a predicate if the one statement of theirs that is
special does (`KeepsOwn`), and so `step_keeps` reduces a step to these statements.  For a predicate
of the history they come down to one condition on the events that the step may note
(`step_history`), which is how the results that count or exclude events are proved.
-/
import Os1Kernel.Kernel.Trap

namespace Os1Kernel

open Simulation

/-- An event of the lists and the semaphores, not one of the operations named above. -/
def Event.quiet : Event → Bool
  | .tick | .chosen _ | .created .. | .finish _ | .wrote .. | .received .. | .loaded .. => false
  | _ => true

/-- The fields of a `TCB` that its constructor writes, and at most `setMsg` later. -/
def Thread.given (x : Thread) : Message × Bool × Nat × Option SemPtr :=
  (x.message, x.hasBody, x.timeSlice, x.semJoin)

/-- What is neither a semaphore nor a pointer to the first or last object of a list. -/
def Kernel.given (k : Kernel) :
    (Tid → TCB) × Nat × Option Tid × List Event × Option Tid × Nat × (Nat → CString) :=
  (k.tcb, k.IDCounter, k.idle, k.history, k.running, k.timeSliceCounter, k.strings)

theorem history_of_given {k k' : Kernel} (h : k'.given = k.given) : k'.history = k.history :=
  congrArg (fun p => p.2.2.2.1) h

theorem setTcb_message {k : Kernel} {f : TCB → TCB} {u : Tid}
    (hf : ∀ x : TCB, (f x).toThread.given = x.toThread.given) (t : Tid) :
    ((k.setTcb u f).tcb t).message = (k.tcb t).message := by
  change (Function.update k.tcb u (f (k.tcb u)) t).message = _
  rw [Function.update_apply]
  split
  · next hu =>
    rw [hu]
    exact congrArg Prod.fst (hf (k.tcb u))
  · rfl

/-- A predicate that depends on the fields above, on who runs and for how long, and on the events
that are not quiet. -/
structure Quiet (P : Kernel → Prop) : Prop where
  tcb : ∀ k t f, (∀ x : TCB, (f x).toThread.given = x.toThread.given) → P k → P (k.setTcb t f)
  other : ∀ k k' : Kernel, k'.given = k.given → P k → P k'
  event : ∀ (k : Kernel) (e : Event), e.quiet = true → P k → P { k with history := e :: k.history }

/-- One that holds whoever runs. -/
structure Stable (P : Kernel → Prop) : Prop extends Quiet P where
  /-- `TCB::yield` -/
  switch : ∀ (k : Kernel) (t : Tid), P k → P { k with
    running := some t, timeSliceCounter := 0, history := .chosen t :: k.history }

instance {P : Kernel → Prop} : Coe (Stable P) (Quiet P) := ⟨Stable.toQuiet⟩

theorem Stable.and {P Q : Kernel → Prop} (hP : Stable P) (hQ : Stable Q) :
    Stable fun k => P k ∧ Q k where
  tcb k t f hf h := ⟨hP.tcb k t f hf h.1, hQ.tcb k t f hf h.2⟩
  other k k' hk h := ⟨hP.other k k' hk h.1, hQ.other k k' hk h.2⟩
  event k e he h := ⟨hP.event k e he h.1, hQ.event k e he h.2⟩
  switch k t h := ⟨hP.switch k t h.1, hQ.switch k t h.2⟩

/-- The message of a thread does not change while the kernel does something else. -/
theorem message_stable (t : Tid) (m : Message) : Stable fun k => (k.tcb t).message = m where
  tcb _ _ _ hf h := (setTcb_message hf t).trans h
  other _ _ hk h := (congrArg (fun p => (p.1 t).message) hk).trans h
  event _ _ _ h := h
  switch _ _ h := h

/-- Nor does the string behind a pointer. -/
theorem string_stable (p : CharPtr) (string : CString) : Stable fun k => k.string p = string := by
  have hsame : ∀ {k k' : Kernel}, k'.strings = k.strings →
      (∀ t, (k'.tcb t).message = (k.tcb t).message) → k.string p = string →
      k'.string p = string := fun {k k'} hstrings hmessage h => by
    rw [← h]
    cases p with
    | memory p => exact congrFun hstrings p
    | message t i => exact congrArg (fun m => Message.textFrom m i) (hmessage t)
  constructor
  · constructor
    · exact fun k t f hf => hsame rfl (setTcb_message hf)
    · intro k k' hk
      refine hsame (congrArg (fun p => p.2.2.2.2.2.2) hk) fun t => ?_
      exact congrArg (fun p => (p.1 t).message) hk
    · exact fun k e he h => h
  · exact fun k t h => h

variable {α : Type} {P : Kernel → Prop} {t : Tid} {s : SemPtr}

/-! ## 1. Access to the objects

Whoever updates a thread's object has to say that what the constructor gave it stays; for most of
the updates this is `rfl`. -/

theorem getKernel_keeps : Keeps P getKernel := .read getKernel_apply

theorem getTcb_keeps (t : Tid) : Keeps P (getTcb t) := .read fun k => getTcb_apply k t

theorem getSem_keeps (s : SemPtr) : Keeps P (getSem s) := .read fun k => getSem_apply k s

theorem fuel_keeps : Keeps P fuel := .read fuel_apply

theorem follow_keeps (p : Option α) : Keeps P (follow p) := by
  cases p with
  | none => exact .failure
  | some x => exact .pure x

theorem getRunning_keeps : Keeps P getRunning := .bind getKernel_keeps fun _ => follow_keeps _

theorem getRunning_eq {k k' : Kernel} {r : Tid} (h : getRunning k = some (r, k')) :
    k.running = some r ∧ k = k' := by
  cases hrun : k.running with
  | none => simp [getRunning, hrun, follow] at h
  | some r' =>
    simp only [getRunning, bind_apply, getKernel_apply, Option.bind_some, hrun, follow_some,
      pure_apply, Option.some.injEq, Prod.mk.injEq] at h
    exact ⟨congrArg some h.1, h.2⟩

/-- What is done with the running thread. -/
theorem running_keeps {f : Tid → KernelM α} {c c' : Kernel} {x : α}
    (hf : ∀ r, c.running = some r → Keeps P (f r)) (hp : P c)
    (h : (getRunning >>= f) c = some (x, c')) : P c' := by
  rw [bind_apply, Option.bind_eq_some_iff] at h
  obtain ⟨⟨r, c₁⟩, h₁, h₂⟩ := h
  obtain ⟨hr, rfl⟩ := getRunning_eq h₁
  exact hf r hr c x c' hp h₂

theorem resolveManner_keeps : Keeps P kSemaphore.resolveManner := by
  unfold kSemaphore.resolveManner
  exact .bind getRunning_keeps fun _ => .bind (getTcb_keeps _) fun _ => .pure _

/-- `setMsg` stores a message and notes it. -/
theorem setMsg_keeps {msg : CString}
    (hset : ∀ message, Keeps P (setThread t fun x => { x with message := message }))
    (hwrote : ∀ u, Keeps P (emit (.wrote t u msg))) : Keeps P (setMsg t msg) := by
  unfold setMsg
  exact .bind (getTcb_keeps _) fun _ => .bind (follow_keeps _) fun _ => .bind (hset _) fun _ =>
    .bind getRunning_keeps fun _ => hwrote _

/-- A wait, and what is done behind it when it does not block. -/
theorem behindWait_keeps {β : Type} {m : KernelM (Outcome α)}
    {k : Outcome α → KernelM (Outcome β)} (hm : Keeps P m) (hs : k .switched = pure .switched)
    (hk : ∀ x, Keeps P (k (.done x))) : Keeps P (m >>= k) :=
  .bind hm fun o => by
    cases o with
    | done x => exact hk x
    | switched => exact hs ▸ .pure _

theorem joinWith_keeps {wait : SemPtr → KernelM (Outcome Int)} (hw : ∀ s, Keeps P (wait s)) :
    Keeps P (joinWith t wait) := by
  unfold joinWith
  refine .bind getRunning_keeps fun _ => ?_
  split
  · exact .pure _
  refine .bind (getTcb_keeps _) fun _ => ?_
  split
  · exact .pure _
  · exact .bind (follow_keeps _) fun _ => .bind (hw _) fun _ => .pure _

/-- A time slice that the constructor stores. -/
def properSlice (n : Nat) : Prop := 1 ≤ n ∧ n ≤ maxTimeSlice

theorem properSlice_clamp (timeSlice : Nat) : properSlice (if timeSlice = 0 then 1
    else if maxTimeSlice < timeSlice then maxTimeSlice else timeSlice) := by
  have : 1 ≤ maxTimeSlice := by decide
  unfold properSlice
  split
  · omega
  · split <;> omega

section Quiet

variable (hP : Quiet P)

include hP

theorem setTcb_keeps {f : TCB → TCB}
    (hf : ∀ x, (f x).toThread.given = x.toThread.given) : Keeps P (setTcb t f) :=
  .write (fun k => setTcb_apply k t f) fun k => hP.tcb k t f hf

theorem setThread_keeps {f : Thread → Thread} (hf : ∀ x, (f x).given = x.given) :
    Keeps P (setThread t f) :=
  setTcb_keeps hP fun _ => hf _

theorem setSem_keeps {f : KSemaphore → KSemaphore} : Keeps P (setSem s f) :=
  .write (fun k => setSem_apply k s f) fun k => hP.other k (k.setSem s f) rfl

theorem modify_keeps {f : Kernel → Kernel} (hf : ∀ k, (f k).given = k.given) :
    Keeps P (modify f : KernelM PUnit) :=
  .write (modify_apply f) fun k => hP.other k (f k) (hf k)

theorem emit_keeps {e : Event} (he : e.quiet = true) : Keeps P (emit e) :=
  .write (fun k => emit_apply k e) fun k => hP.event k e he

/-! ## 2. The three queues -/

theorem schedulerPut_keeps (t : Tid) : Keeps P (Scheduler.put t) := by
  unfold Scheduler.put
  refine .bind getKernel_keeps fun k => ?_
  split
  · exact .pure _
  refine .bind (setTcb_keeps hP fun _ => rfl) fun _ => ?_
  split
  · exact modify_keeps hP fun _ => rfl
  · exact .bind (setTcb_keeps hP fun _ => rfl) fun _ =>
      modify_keeps hP fun _ => rfl

theorem schedulerGet_keeps : Keeps P Scheduler.get := by
  unfold Scheduler.get
  refine .bind getKernel_keeps fun k => ?_
  split
  · exact .pure _
  · exact .bind (getTcb_keeps _) fun _ =>
      .bind (modify_keeps hP fun _ => rfl) fun _ =>
      .bind (setTcb_keeps hP fun _ => rfl) fun _ => .pure _

theorem semaphorePut_keeps (n : Nat) : Keeps P (kSemaphore.put s t n) := by
  unfold kSemaphore.put
  refine .bind (getSem_keeps _) fun _ => .bind ?_ fun _ =>
    .bind (setThread_keeps hP fun _ => rfl) fun _ => setTcb_keeps hP fun _ => rfl
  split
  · exact setSem_keeps hP
  · exact .bind (follow_keeps _) fun _ =>
      .bind (setTcb_keeps hP fun _ => rfl) fun _ => setSem_keeps hP

theorem semaphoreUnlink_keeps : Keeps P (kSemaphore.unlink s t) := by
  unfold kSemaphore.unlink
  refine .bind getKernel_keeps fun k => ?_
  split
  swap
  · exact .pure _
  refine .bind fuel_keeps fun _ => .bind (follow_keeps _) fun p => ?_
  dsimp only
  split
  · exact .pure _
  refine .bind (getTcb_keeps _) fun _ => .bind ?_ fun _ => .pure _
  split
  · exact .bind (setTcb_keeps hP fun _ => rfl) fun _ => setSem_keeps hP
  · exact setSem_keeps hP

theorem semaphoreUnlinkHead_keeps : Keeps P (kSemaphore.unlinkHead s) := by
  unfold kSemaphore.unlinkHead
  refine .bind (getSem_keeps _) fun _ => ?_
  split
  · exact .pure _
  · exact .bind (getTcb_keeps _) fun _ => .bind (setSem_keeps hP) fun _ => .pure _

theorem semaphoreGet_keeps (p : Option Tid) : Keeps P (kSemaphore.get s p) := by
  unfold kSemaphore.get
  refine .bind ?_ fun ret => .bind ?_ fun _ => .pure _
  · split
    · exact semaphoreUnlink_keeps hP
    · exact semaphoreUnlinkHead_keeps hP
  · split
    · exact .bind (setThread_keeps hP fun _ => rfl) fun _ =>
        setTcb_keeps hP fun _ => rfl
    · exact .pure _

theorem sleepPut_keeps (n : Nat) : Keeps P (Sleep.put t n) := by
  unfold Sleep.put
  refine .bind getKernel_keeps fun k => .bind ?_ fun _ =>
    .bind (setTcb_keeps hP fun _ => rfl) fun _ => emit_keeps hP rfl
  split
  · exact .bind (setTcb_keeps hP fun _ => rfl) fun _ =>
      modify_keeps hP fun _ => rfl
  split
  · exact .bind (setTcb_keeps hP fun _ => rfl) fun _ =>
      .bind (setTcb_keeps hP fun _ => rfl) fun _ =>
      modify_keeps hP fun _ => rfl
  · refine .bind fuel_keeps fun _ => .bind (follow_keeps _) fun p => .bind ?_ fun _ =>
      .bind (setTcb_keeps hP fun _ => rfl) fun _ => setTcb_keeps hP fun _ => rfl
    split
    · exact setTcb_keeps hP fun _ => rfl
    · exact .pure _

theorem addRelative_keeps (p : Option Tid) (n : Nat) : Keeps P (Sleep.addRelative p n) := by
  cases p with
  | none => exact .pure _
  | some u => exact setTcb_keeps hP fun _ => rfl

theorem sleepGet_keeps (p : Option Tid) : Keeps P (Sleep.get p) := by
  unfold Sleep.get
  refine .bind ?_ fun ret => .bind ?_ fun _ => .pure _
  · split
    · unfold Sleep.unlink
      refine .bind getKernel_keeps fun k => ?_
      split
      swap
      · exact .pure _
      refine .bind fuel_keeps fun _ => .bind (follow_keeps _) fun p => ?_
      dsimp only
      split
      · exact .pure _
      refine .bind (getTcb_keeps _) fun _ => .bind ?_ fun _ =>
        .bind (addRelative_keeps hP _ _) fun _ => .pure _
      split
      · exact setTcb_keeps hP fun _ => rfl
      · exact modify_keeps hP fun _ => rfl
    · unfold Sleep.unlinkHead
      refine .bind getKernel_keeps fun k => ?_
      split
      · exact .pure _
      · exact .bind (getTcb_keeps _) fun _ =>
          .bind (modify_keeps hP fun _ => rfl) fun _ =>
          .bind (addRelative_keeps hP _ _) fun _ => .pure _
  · split
    · exact setTcb_keeps hP fun _ => rfl
    · exact .pure _

/-! ## 3. Waking, signalling, closing

The loops are inductions on their fuel: a predicate that each iteration keeps is kept by a loop
that fails, too. -/

/-- A waiter whose time is up is taken off its semaphore's list. -/
theorem expire_keeps (p : Option SemPtr) : Keeps P (match p with
    | some s => do
      let _ ← kSemaphore.get s (some t)
      setThread t fun x => { x with unblockManner := .waitTimeout }
      emit (.expired s t)
    | none => pure ()) := by
  cases p with
  | none => exact .pure _
  | some s =>
    exact .bind (semaphoreGet_keeps hP _) fun _ =>
      .bind (setThread_keeps hP fun _ => rfl) fun _ => emit_keeps hP rfl

theorem wake_keeps : Keeps P Sleep.wake := by
  unfold Sleep.wake
  refine .bind (sleepGet_keeps hP _) fun _ => .bind (follow_keeps _) fun _ =>
    .bind (getTcb_keeps _) fun _ => .bind ?_ fun _ => schedulerPut_keeps hP _
  split
  · exact .bind (semaphoreGet_keeps hP _) fun _ =>
      .bind (setThread_keeps hP fun _ => rfl) fun _ => emit_keeps hP rfl
  · exact emit_keeps hP rfl

theorem wakeLoop_keeps (n : Nat) : Keeps P (Sleep.wakeLoop n) := by
  induction n with
  | zero => exact .failure
  | succ n ih =>
    unfold Sleep.wakeLoop
    refine .bind getKernel_keeps fun k => ?_
    split
    · exact .pure _
    split
    · exact .bind (wake_keeps hP) fun _ => ih
    · exact .pure _

theorem onTick_keeps (htick : Keeps P (emit .tick)) : Keeps P Sleep.onTick := by
  unfold Sleep.onTick
  refine .bind htick fun _ => .bind getKernel_keeps fun k => .bind ?_ fun _ =>
    .bind fuel_keeps fun _ => wakeLoop_keeps hP _
  split
  · exact setTcb_keeps hP fun _ => rfl
  · exact .pure _

theorem semaphoreCreate_keeps (n : Nat) (mem : Bool) :
    Keeps P (kSemaphore.kSemaphoreCreate s n mem) := by
  unfold kSemaphore.kSemaphoreCreate
  split
  swap
  · exact .pure _
  refine .bind getKernel_keeps fun _ => .bind (setSem_keeps hP) fun _ =>
    .bind (modify_keeps hP fun _ => rfl) fun _ => .bind ?_ fun _ =>
    .bind (emit_keeps hP rfl) fun _ => .pure _
  split
  · exact modify_keeps hP fun _ => rfl
  · exact .bind (setSem_keeps hP) fun _ => modify_keeps hP fun _ => rfl

theorem release_keeps (manner : UnblockManner) : Keeps P (kSemaphore.release s manner) := by
  unfold kSemaphore.release
  refine .bind (semaphoreGet_keeps hP _) fun _ => .bind (follow_keeps _) fun _ =>
    .bind (getTcb_keeps _) fun _ => .bind ?_ fun _ =>
    .bind (setThread_keeps hP fun _ => rfl) fun _ => .bind (emit_keeps hP ?_) fun _ =>
    schedulerPut_keeps hP _
  · split
    · exact .bind (sleepGet_keeps hP _) fun _ => .pure _
    · exact .pure _
  · split <;> rfl

theorem signalLoop_keeps (n tokens : Nat) : Keeps P (kSemaphore.signalLoop s n tokens) := by
  induction n generalizing tokens with
  | zero => exact .failure
  | succ n ih =>
    unfold kSemaphore.signalLoop
    refine .bind (getSem_keeps _) fun _ => ?_
    split
    · exact .pure _
    split
    swap
    · exact .pure _
    refine .bind (getTcb_keeps _) fun _ => ?_
    split
    · exact .bind (setThread_keeps hP fun _ => rfl) fun _ =>
        .bind (release_keeps hP _) fun _ => ih _
    · exact .bind (setThread_keeps hP fun _ => rfl) fun _ => ih _

theorem signal_keeps (n : Nat) : Keeps P (kSemaphore.signal s n) := by
  unfold kSemaphore.signal
  refine .bind (getSem_keeps _) fun _ => ?_
  split
  · exact .pure _
  · exact .bind (emit_keeps hP rfl) fun _ => .bind fuel_keeps fun _ =>
      .bind (signalLoop_keeps hP _ _) fun _ => .bind (setSem_keeps hP) fun _ => .pure _

theorem signalAllLoop_keeps (manner : UnblockManner) (n : Nat) :
    Keeps P (kSemaphore.signalAllLoop s manner n) := by
  induction n with
  | zero => exact .failure
  | succ n ih =>
    unfold kSemaphore.signalAllLoop
    refine .bind (getSem_keeps _) fun _ => ?_
    split
    · exact .pure _
    · exact .bind (release_keeps hP _) fun _ => ih

theorem signalAll_keeps (n : Nat) (onClose : Bool) :
    Keeps P (kSemaphore.signalAll s n onClose) := by
  unfold kSemaphore.signalAll
  refine .bind (getSem_keeps _) fun _ => ?_
  split
  · exact .pure _
  · exact .bind fuel_keeps fun _ => .bind (signalAllLoop_keeps hP _ _) fun _ =>
      .bind (setSem_keeps hP) fun _ => .pure _

theorem close_keeps : Keeps P (kSemaphore.close s) := by
  unfold kSemaphore.close
  refine .bind (getSem_keeps _) fun _ => ?_
  split
  · exact .pure _
  · exact .bind (emit_keeps hP rfl) fun _ => .bind (signalAll_keeps hP _ _) fun _ =>
      .bind (setSem_keeps hP) fun _ => .pure _

theorem acquire_keeps (n : Nat) : Keeps P (kSemaphore.acquire s n) := by
  unfold kSemaphore.acquire
  exact .bind getRunning_keeps fun _ => .bind (setSem_keeps hP) fun _ =>
    .bind (setThread_keeps hP fun _ => rfl) fun _ => emit_keeps hP rfl

theorem block_keeps (n : Nat) (timeout : Option Nat) :
    Keeps P (kSemaphore.block s n timeout) := by
  unfold kSemaphore.block
  exact .bind getRunning_keeps fun _ => .bind (getSem_keeps _) fun _ =>
    .bind (setSem_keeps hP) fun _ => .bind (emit_keeps hP rfl) fun _ => semaphorePut_keeps hP _

theorem tryWait_keeps (n : Nat) : Keeps P (kSemaphore.tryWait s n) := by
  unfold kSemaphore.tryWait
  refine .bind (getSem_keeps _) fun _ => ?_
  split
  · exact .pure _
  split
  · exact .bind (acquire_keeps hP _) fun _ => .pure _
  · exact .bind getRunning_keeps fun _ =>
      .bind (setThread_keeps hP fun _ => rfl) fun _ => .pure _

theorem closeIf_keeps (p : Option SemPtr) : Keeps P (TCB.closeIf p) := by
  cases p with
  | none => exact .pure _
  | some s => exact .bind (close_keeps hP) fun _ => .pure _

theorem destruct_keeps : Keeps P (TCB.destruct t) := by
  unfold TCB.destruct
  exact .bind (setTcb_keeps hP fun _ => rfl) fun _ => .bind (getTcb_keeps _) fun _ =>
    .bind (closeIf_keeps hP _) fun _ => .bind (closeIf_keeps hP _) fun _ =>
    .bind (closeIf_keeps hP _) fun _ => closeIf_keeps hP _

/-! ## 4. Handlers that do not switch -/

theorem putChar_keeps (b : BufferId) (c : UInt8) : Keeps P (CharBuffer.putChar b c) := by
  unfold CharBuffer.putChar CharBuffer.put
  refine .bind (.bind getKernel_keeps fun _ => ?_) fun _ => .bind getKernel_keeps fun _ =>
    .bind (follow_keeps _) fun _ => .bind (signal_keeps hP _) fun _ => .bind (follow_keeps _) fun _ =>
    .bind (signal_keeps hP _) fun _ => .pure _
  dsimp only
  split
  · exact .bind (modify_keeps hP fun _ => rfl) fun _ => .bind getRunning_keeps fun _ =>
      emit_keeps hP rfl
  · exact .failure

theorem getChar_keeps {b : BufferId} (hload : ∀ t c, Keeps P (emit (.loaded b t c))) :
    Keeps P (CharBuffer.getChar b) := by
  unfold CharBuffer.getChar CharBuffer.get
  refine .bind (.bind getKernel_keeps fun _ => ?_) fun _ => .bind getKernel_keeps fun _ =>
    .bind (follow_keeps _) fun _ => .bind (signal_keeps hP _) fun _ => .bind (follow_keeps _) fun _ =>
    .bind (signal_keeps hP _) fun _ => .pure _
  dsimp only
  split
  · exact .bind (modify_keeps hP fun _ => rfl) fun _ => .bind getRunning_keeps fun _ =>
      .bind (hload _ _) fun _ => .pure _
  · exact .failure

theorem handleSemOpen_keeps (n : Nat) (mem : Bool) : Keeps P (handleSemOpen n mem) := by
  unfold handleSemOpen
  exact .bind getKernel_keeps fun _ => .bind (semaphoreCreate_keeps hP _ _) fun _ =>
    .bind getRunning_keeps fun _ => .bind (setThread_keeps hP fun _ => rfl) fun _ => .pure _

theorem leave_keeps (ret : Option Word) : Keeps P (leave ret) := by
  unfold leave
  exact .bind getRunning_keeps fun _ => setThread_keeps hP fun _ => rfl

theorem leaveWith_keeps (void : Bool) (o : Outcome Word) : Keeps P (leaveWith void o) := by
  cases o with
  | done ret => exact leave_keeps hP _
  | switched => exact .pure _

theorem endWait_keeps : Keeps P endWait := by
  unfold endWait
  exact .bind resolveManner_keeps fun _ => .bind getRunning_keeps fun _ =>
    .bind (emit_keeps hP rfl) fun _ => .pure _

end Quiet

section Stable

variable (hP : Stable P)

include hP

/-! ## 5. What may switch

`TCB::yield` sets `running`, so from here on the predicate has to hold whoever runs. -/

theorem yield_keeps (schPut : Bool) (context : Context) : Keeps P (TCB.yield schPut context) := by
  unfold TCB.yield
  refine .bind getRunning_keeps fun old => .bind (getTcb_keeps _) fun _ => .bind ?_ fun _ =>
    .bind (schedulerGet_keeps hP) fun _ => .bind (follow_keeps _) fun chosen =>
    .write (f := fun k => { k.setTcb old fun x => { x with context := context } with
      running := some chosen, timeSliceCounter := 0, history := .chosen chosen :: k.history })
      (fun _ => rfl) fun k hk => hP.switch (k.setTcb old _) chosen (hP.tcb k old _ (fun _ => rfl) hk)
  split
  · exact schedulerPut_keeps hP _
  · exact .pure _

theorem sleep_keeps (n : Nat) (context : Context) : Keeps P (Sleep.sleep n context) := by
  unfold Sleep.sleep
  refine .bind getRunning_keeps fun _ => ?_
  split
  · exact .bind (getTcb_keeps _) fun _ => .bind (expire_keeps hP _) fun _ => .pure _
  · exact .bind (sleepPut_keeps hP _) fun _ => .bind (yield_keeps hP _ _) fun _ => .pure _

theorem wait_keeps (n : Nat) (context : Context) : Keeps P (kSemaphore.wait s n context) := by
  unfold kSemaphore.wait
  refine .bind (getSem_keeps _) fun _ => ?_
  split
  · exact .pure _
  split
  · exact .bind (acquire_keeps hP _) fun _ => .bind (resolveManner_keeps) fun _ => .pure _
  · exact .bind (block_keeps hP _ _) fun _ => .bind (yield_keeps hP _ _) fun _ => .pure _

theorem timedWait_keeps (timeout n : Nat) (context : Context) :
    Keeps P (kSemaphore.timedWait s timeout n context) := by
  unfold kSemaphore.timedWait
  refine .bind (getSem_keeps _) fun _ => ?_
  split
  · exact .pure _
  split
  · exact .bind (acquire_keeps hP _) fun _ => .bind (resolveManner_keeps) fun _ => .pure _
  refine .bind (block_keeps hP _ _) fun _ => .bind (sleep_keeps hP _ _) fun o => ?_
  split
  · exact .pure _
  · exact .bind (resolveManner_keeps) fun _ => .bind getRunning_keeps fun _ =>
      .bind (emit_keeps hP rfl) fun _ => .pure _

theorem putLocked_keeps (b : BufferId) (c : UInt8) : Keeps P (CharBuffer.putLocked b c) := by
  unfold CharBuffer.putLocked
  exact .bind getKernel_keeps fun _ => .bind (follow_keeps _) fun _ =>
    behindWait_keeps (wait_keeps hP _ _) rfl fun _ => putChar_keeps hP b c

theorem kPut_keeps (b : BufferId) (c : UInt8) : Keeps P (CharBuffer.kPut b c) := by
  unfold CharBuffer.kPut
  exact .bind getRunning_keeps fun _ => .bind (emit_keeps hP rfl) fun _ =>
    .bind getKernel_keeps fun _ =>
    .bind (follow_keeps _) fun _ =>
    behindWait_keeps (wait_keeps hP _ _) rfl fun _ => putLocked_keeps hP b c

theorem getLocked_keeps {b : BufferId} (hload : ∀ t c, Keeps P (emit (.loaded b t c))) :
    Keeps P (CharBuffer.getLocked b) := by
  unfold CharBuffer.getLocked
  exact .bind getKernel_keeps fun _ => .bind (follow_keeps _) fun _ =>
    behindWait_keeps (wait_keeps hP _ _) rfl fun _ => getChar_keeps hP hload

theorem kGet_keeps {b : BufferId} (hload : ∀ t c, Keeps P (emit (.loaded b t c))) :
    Keeps P (CharBuffer.kGet b) := by
  unfold CharBuffer.kGet
  exact .bind getKernel_keeps fun _ => .bind (follow_keeps _) fun _ =>
    behindWait_keeps (wait_keeps hP _ _) rfl fun _ => getLocked_keeps hP hload

theorem handleTimer_keeps (htick : Keeps P (emit .tick))
    (hcount : ∀ k : Kernel, P k → P { k with timeSliceCounter := u64 (k.timeSliceCounter + 1) }) :
    Keeps P handleTimer := by
  unfold handleTimer
  refine .bind (.write (fun k => modify_apply _ k) hcount) fun _ =>
    .bind (onTick_keeps hP htick) fun _ => .bind getRunning_keeps fun _ =>
    .bind getKernel_keeps fun _ => ?_
  split
  · exact yield_keeps hP _ _
  · exact .pure _

/-! ## 6. The operations of their own

Each of these lemmas leaves one hypothesis, for the statement that is special to the operation: the
event of a thread that finishes, what the constructor writes, the copy of a message. -/

/-- `parent->numOfActiveChildren--` -/
theorem decrement_keeps : Keeps P (setThread t fun x =>
    { x with numOfActiveChildren := dec64 x.numOfActiveChildren }) :=
  setThread_keeps hP fun _ => by simp only [Thread.given]

theorem finish_keeps {c c' : Kernel} {u : Unit} (n : Nat)
    (hf : ∀ r, c.running = some r → Keeps P (emit (.finish r))) (hp : P c)
    (h : TCB.finish n c = some (u, c')) : P c' := by
  have hclose : ∀ {s}, Keeps P (kSemaphore.close s) := close_keeps hP
  unfold TCB.finish at h
  refine running_keeps (fun r hr => ?_) hp h
  refine .bind (hf r hr) fun _ => .bind (getTcb_keeps _) fun _ =>
    .bind (follow_keeps _) fun _ => .bind hclose fun _ => .bind (follow_keeps _) fun _ =>
    .bind hclose fun _ => .bind (follow_keeps _) fun _ => .bind (signalAll_keeps hP _ _) fun _ =>
    .bind hclose fun _ => .bind ?_ fun _ => .bind (follow_keeps _) fun _ => .bind hclose fun _ =>
    .bind (getTcb_keeps _) fun _ => .bind ?_ fun _ => .bind (getTcb_keeps _) fun _ =>
    .bind ?_ fun _ => .bind (setThread_keeps hP fun _ => rfl) fun _ => yield_keeps hP _ _
  · split
    · exact .pure _
    refine .bind (getTcb_keeps _) fun _ => ?_
    split
    · exact .pure _
    refine .bind (decrement_keeps hP) fun _ => ?_
    split
    · exact .bind (follow_keeps _) fun _ => .bind (signal_keeps hP _) fun _ => .pure _
    · exact .pure _
  · split
    · exact .bind (semaphoreGet_keeps hP _) fun _ => .pure _
    · exact .pure _
  · split
    · exact .bind (sleepGet_keeps hP _) fun _ => .pure _
    · exact .pure _

/-- The predicate is kept when the constructor of a `TCB` numbered `n` or above writes it. -/
structure Fresh (P : Kernel → Prop) (n : Nat) : Prop where
  le : ∀ k, P k → n ≤ k.IDCounter
  next : ∀ k : Kernel, P k → P { k with IDCounter := k.IDCounter + 1 }
  set : ∀ k t f, n ≤ t → (∀ x : TCB, properSlice (f x).timeSlice ∨
    (f x).timeSlice = x.timeSlice ∧ (f x).semJoin = x.semJoin) → P k → P (k.setTcb t f)

theorem construct_keeps {n : Nat} (hn : Fresh P n) (body : Bool) (mode : Mode) (space : Bool)
    (timeSlice : Nat) (mem : CreateMem) :
    Keeps P (TCB.construct body mode space timeSlice mem) := by
  have hset : ∀ {t f}, n ≤ t → (∀ x : TCB, properSlice (f x).timeSlice ∨
      (f x).timeSlice = x.timeSlice ∧ (f x).semJoin = x.semJoin) → Keeps P (setTcb t f) :=
    fun ht hf => .write (fun k => setTcb_apply k _ _) fun k => hn.set k _ _ ht hf
  unfold TCB.construct
  intro c x c' hp h
  have ht := hn.le c hp
  rw [bind_apply, getKernel_apply, Option.bind_some] at h
  refine Keeps.bind (P := P) (.write (fun k => modify_apply _ k) hn.next) (fun _ => ?_) c x c' hp h
  refine .bind (semaphoreCreate_keeps hP _ _) fun _ => .bind (semaphoreCreate_keeps hP _ _) fun _ =>
    .bind (semaphoreCreate_keeps hP _ _) fun _ => .bind (semaphoreCreate_keeps hP _ _) fun _ =>
    .bind (hset ht fun _ => Or.inl (properSlice_clamp timeSlice)) fun _ => .bind ?_ fun _ => .pure _
  split
  · exact .bind (hset ht fun _ => Or.inr ⟨rfl, rfl⟩) fun _ => .bind (closeIf_keeps hP _) fun _ =>
      .bind (closeIf_keeps hP _) fun _ => .bind (closeIf_keeps hP _) fun _ => closeIf_keeps hP _
  · exact hset ht fun _ => Or.inr ⟨rfl, rfl⟩

theorem threadCreate_keeps {n : Nat} (hn : Fresh P n) {body : Bool} (mode : Mode) (space : Bool)
    (timeSlice : Nat) (schPut : Bool) (mem : CreateMem)
    (hcreated : ∀ t p, Keeps P (emit (.created t p body))) :
    Keeps P (TCB.threadCreate body mode space timeSlice schPut mem) := by
  unfold TCB.threadCreate
  refine .bind (construct_keeps hP hn _ _ _ _ _) fun _ => .bind (getTcb_keeps _) fun _ => ?_
  split
  · exact .bind (destruct_keeps hP) fun _ => .pure _
  refine .bind getKernel_keeps fun _ => .bind ?_ fun _ => .bind ?_ fun _ => .bind ?_ fun _ =>
    .bind (hcreated _ _) fun _ => .pure _
  · split
    · exact modify_keeps hP fun _ => rfl
    · exact .bind (setTcb_keeps hP fun _ => rfl) fun _ =>
        modify_keeps hP fun _ => rfl
  · split
    · exact schedulerPut_keeps hP _
    · exact .pure _
  · split
    · exact setThread_keeps hP fun _ => rfl
    · exact .pure _

theorem handleThreadCreate_keeps {body space : Bool} {mem : CreateMem}
    (hc : Keeps P (TCB.threadCreate body .user space DEFAULT_TIME_SLICE true mem)) :
    Keeps P (handleThreadCreate body space mem) := by
  unfold handleThreadCreate
  exact .bind hc fun _ => .bind getRunning_keeps fun _ =>
    .bind (setThread_keeps hP fun _ => rfl) fun _ => .pure _

theorem sendMessage_keeps {msg : CharPtr} (hset : ∀ msg, Keeps P (setMsg t msg)) :
    Keeps P (sendMessage t msg) := by
  unfold sendMessage
  exact .bind getKernel_keeps fun _ => .bind (hset _) fun _ => .bind (getTcb_keeps _) fun _ =>
    .bind (follow_keeps _) fun _ => .bind (signal_keeps hP _) fun _ => .pure _

theorem handleSend_keeps {msg : CharPtr} (hset : ∀ msg, Keeps P (setMsg t msg)) :
    Keeps P (handleSend t msg) := by
  unfold handleSend
  refine .bind getRunning_keeps fun _ => ?_
  split
  · exact .pure _
  · exact .bind (getTcb_keeps _) fun _ => .bind (follow_keeps _) fun _ =>
      behindWait_keeps (wait_keeps hP _ _) rfl fun _ => sendMessage_keeps hP hset

/-- The event of `handleReceive` has the text that is in the message at that time. -/
theorem receiveMessage_keeps (hr : ∀ t m,
    Keeps (fun c => P c ∧ (c.tcb t).message = m) (emit (.received t m.text))) :
    Keeps P receiveMessage := by
  unfold receiveMessage
  refine .bind getRunning_keeps fun r => Keeps.bind_imp (Q := fun x c =>
    P c ∧ (c.tcb r).message = x.message) ?_ (fun x => ?_) fun _ _ h => h.1
  · rintro c x c' hp ⟨⟩
    exact ⟨hp, rfl⟩
  · exact .bind (follow_keeps _) fun _ =>
      .bind (signal_keeps (hP.and (message_stable r _)).toQuiet _) fun _ => .bind (hr r _) fun _ => .pure _

/-! ## 7. One step

The hypotheses that the operations leave are collected in `KeepsOwn`.  Each is restricted to the
steps that contain its operation, so that a predicate that one operation breaks can still be shown
to be kept by the steps without it. -/

/-- The system calls that are none of the four operations. -/
def Syscall.ordinary : Syscall → Bool
  | .threadCreate .. | .threadExit | .send .. | .receive => false
  | _ => true

theorem handle_keeps {call : Syscall} (hc : call.ordinary = true)
    (hload : call = .getc → ∀ t c, Keeps P (emit (.loaded .input t c))) : Keeps P call.handle := by
  cases call with
  | threadCreate | threadExit | send | receive => cases hc
  | threadDispatch => exact .bind (yield_keeps hP _ _) fun _ => .pure _
  | join t => exact joinWith_keeps fun s => wait_keeps hP _ _
  | timedJoin t n => exact joinWith_keeps fun s => timedWait_keeps hP _ _ _
  | joinAll =>
    exact .bind getRunning_keeps fun _ => .bind (getTcb_keeps _) fun _ => .bind (follow_keeps _)
      fun _ => behindWait_keeps (wait_keeps hP _ _) rfl fun _ => .pure _
  | timedJoinAll n =>
    exact .bind getRunning_keeps fun _ => .bind (getTcb_keeps _) fun _ => .bind (follow_keeps _)
      fun _ => behindWait_keeps (timedWait_keeps hP _ _ _) rfl fun _ => .bind getRunning_keeps
      fun _ => .bind (getTcb_keeps _) fun _ => .pure _
  | semOpen init mem => exact handleSemOpen_keeps hP _ _
  | semClose h => exact .bind (close_keeps hP) fun _ => .pure _
  | semWait h => exact .bind (wait_keeps hP _ _) fun _ => .pure _
  | semSignal h => exact .bind (signal_keeps hP _) fun _ => .pure _
  | semTimedWait h n => exact .bind (timedWait_keeps hP _ _ _) fun _ => .pure _
  | semTryWait h => exact .bind (tryWait_keeps hP _) fun _ => .pure _
  | timeSleep n => exact .bind (sleep_keeps hP _ _) fun _ => .pure _
  | getc => exact kGet_keeps hP (hload rfl)
  | putc c => exact kPut_keeps hP _ c

/-- The running thread finishes in this step. -/
def Act.finishes : Act → Bool
  | .ecall .threadExit | .exception _ => true
  | _ => false

/-- The step reads the buffer: it is a call of `getc` or `uGet`, or the rest of one that had
blocked. -/
def Kernel.gets (c : Kernel) (b : BufferId) : Act → Bool
  | .ecall .getc => b = .input
  | .uGet i => b = i
  | .resume => c.running.any fun r => (c.tcb r).context = .get b || (c.tcb r).context = .getMutex b
  | _ => false

/-- The step is a call of `receive` by `t`, or the rest of one that had blocked. -/
def Kernel.receives (c : Kernel) (t : Tid) : Act → Bool
  | .ecall .receive => c.running = some t
  | .resume => c.running = some t && (c.tcb t).context = .receive
  | _ => false

/-- What the operations of their own have to keep for a step to keep the predicate: those that store
a message in this step, the others in any. -/
structure KeepsOwn (P : Kernel → Prop) (c : Kernel) (act : Act) : Prop where
  timer : act = .timer → Keeps P handleTimer
  finish : ∀ r, c.running = some r → act.finishes = true → Keeps P (emit (.finish r))
  received : ∀ r t m, c.receives r act = true →
    Keeps (fun c => P c ∧ (c.tcb t).message = m) (emit (.received t m.text))
  loaded : ∀ b t x, c.gets b act = true → Keeps P (emit (.loaded b t x))
  store : ∀ strings, act = .store strings → P { c with strings }
  create : ∀ body space mem, act = .ecall (.threadCreate body space mem) →
    Keeps P (TCB.threadCreate body .user space DEFAULT_TIME_SLICE true mem)
  send : ∀ t msg x c', act = .ecall (.send t msg) → handleSend t msg c = some (x, c') → P c'
  resume : ∀ r t msg, act = .resume → c.running = some r → (c.tcb r).context = .send t msg →
    ∀ string, Keeps P (setMsg t string)

theorem resumeAt_keeps {context : Context} (hset : ∀ t msg, context = .send t msg →
    ∀ string, Keeps P (setMsg t string))
    (hreceive : context = .receive → Keeps P receiveMessage)
    (hload : ∀ b, context = .get b ∨ context = .getMutex b →
      ∀ t c, Keeps P (emit (.loaded b t c))) : Keeps P (resumeAt context) := by
  have hleave : ∀ {ret}, Keeps P (leave ret) := leave_keeps hP _
  have hback : ∀ {void : Bool} {m : KernelM (Outcome Word)}, Keeps P m → Keeps P (do
      let _ ← endWait
      leaveWith void (← m)) := fun hm =>
    .bind (endWait_keeps hP) fun _ => .bind hm fun _ => leaveWith_keeps hP _ _
  cases context with
  | body => exact .failure
  | threadWrapper | timer | dispatch | sleep | finish => exact hleave
  | semWait | join | joinAll => exact .bind (endWait_keeps hP) fun _ => hleave
  | timedJoinAll =>
    exact hback (.bind getRunning_keeps fun _ => .bind (getTcb_keeps _) fun _ => .pure _)
  | send t msg => exact hback (sendMessage_keeps hP (hset t msg rfl))
  | receive => exact hback (hreceive rfl)
  | put b c => exact hback (putLocked_keeps hP b c)
  | putMutex b c => exact hback (putChar_keeps hP b c)
  | get b => exact hback (getLocked_keeps hP (hload b (Or.inl rfl)))
  | getMutex b => exact hback (getChar_keeps hP (hload b (Or.inr rfl)))

theorem exec_keeps {c c' : Kernel} {act : Act} {u : Unit} (hown : KeepsOwn P c act) (hp : P c)
    (h : exec act c = some (u, c')) : P c' := by
  cases act with
  | ecall call =>
    by_cases hc : call.ordinary = true
    · refine Keeps.bind (handle_keeps hP hc ?_) (fun _ => leaveWith_keeps hP _ _) c u c' hp h
      rintro rfl t x
      exact hown.loaded .input t x rfl
    cases call with
    | threadCreate body space mem =>
      exact Keeps.bind (handleThreadCreate_keeps hP (hown.create body space mem rfl))
        (fun _ => leaveWith_keeps hP _ _) c u c' hp h
    | threadExit =>
      change (handleThreadExit >>= _) c = _ at h
      rw [bind_apply, Option.bind_eq_some_iff] at h
      obtain ⟨⟨x, c₁⟩, h₁, h₂⟩ := h
      refine leaveWith_keeps hP _ _ c₁ u c' ?_ h₂
      change (TCB.finish 0 >>= _) c = _ at h₁
      rw [bind_apply, Option.bind_eq_some_iff] at h₁
      obtain ⟨⟨u', c₂⟩, h₃, h₄⟩ := h₁
      cases h₄
      exact finish_keeps hP 0 (fun r hr => hown.finish r hr rfl) hp h₃
    | send t msg =>
      change (handleSend t msg >>= _) c = _ at h
      rw [bind_apply, Option.bind_eq_some_iff] at h
      obtain ⟨⟨x, c₁⟩, h₁, h₂⟩ := h
      exact leaveWith_keeps hP _ _ c₁ u c' (hown.send t msg x c₁ rfl h₁) h₂
    | receive =>
      change (handleReceive >>= _) c = _ at h
      unfold handleReceive at h
      rw [bind_assoc] at h
      refine running_keeps (fun r hr => ?_) hp h
      have hreceive := receiveMessage_keeps hP fun t m => hown.received r t m (decide_eq_true hr)
      exact .bind (.bind (getTcb_keeps _) fun _ => .bind (follow_keeps _)
        fun _ => behindWait_keeps (wait_keeps hP _ _) rfl fun _ => hreceive) fun _ =>
        leaveWith_keeps hP _ _
    | _ => exact absurd rfl hc
  | exception scause => exact finish_keeps hP _ (fun r hr => hown.finish r hr rfl) hp h
  | timer => exact hown.timer rfl c u c' hp h
  | uPut b x =>
    exact Keeps.bind (kPut_keeps hP b x) (fun _ => leaveWith_keeps hP _ _) c u c' hp h
  | uGet b =>
    have hload := fun t x => hown.loaded b t x (decide_eq_true rfl)
    exact Keeps.bind (kGet_keeps hP hload) (fun _ => leaveWith_keeps hP _ _) c u c' hp h
  | store strings =>
    obtain ⟨-, rfl⟩ := Prod.mk.inj (Option.some.inj h)
    exact hown.store strings rfl
  | resume =>
    change (getRunning >>= _) c = _ at h
    rw [bind_apply, Option.bind_eq_some_iff] at h
    obtain ⟨⟨r, c₁⟩, h₁, h₂⟩ := h
    obtain ⟨hr, rfl⟩ := getRunning_eq h₁
    refine resumeAt_keeps hP (fun t msg => hown.resume r t msg rfl hr) ?_ ?_ c u c' hp h₂
    · intro hctx
      refine receiveMessage_keeps hP fun t m => hown.received r t m ?_
      simp [Kernel.receives, hr, hctx]
    · intro b hb t x
      exact hown.loaded b t x (by simpa [Kernel.gets, hr] using hb)

/-- A system call keeps what its handler keeps. -/
theorem ecall_keeps {c c' : Kernel} (call : Syscall) (hk : Keeps P call.handle) (hp : P c)
    (h : step c (.ecall call) = some c') : P c' := by
  unfold step at h
  split at h
  · obtain ⟨⟨u, c₁⟩, h₁, rfl⟩ := Option.map_eq_some_iff.mp h
    exact Keeps.bind hk (fun _ => leaveWith_keeps hP _ _) c u c₁ hp h₁
  · cases h

/-- A step keeps a stable predicate that the four operations keep. -/
theorem step_keeps {c c' : Kernel} {act : Act} (hown : KeepsOwn P c act) (hp : P c)
    (h : step c act = some c') : P c' := by
  unfold step at h
  split at h
  · obtain ⟨⟨u, c₁⟩, h₁, rfl⟩ := Option.map_eq_some_iff.mp h
    exact exec_keeps hP hown hp h₁
  · cases h

end Stable

/-! ## 8. What a step notes

A predicate of the history, and of who is idle, is kept by a step that notes only what the predicate
allows.  Most events any step may note; a tick, the end of a thread, a creation, a get and a receive
are those of a certain call or interrupt. -/

/-- An event of the lists and the semaphores, or a choice. -/
def Event.passing : Event → Bool
  | .chosen _ => true
  | e => e.quiet

/-- What a step may note, as far as its kind says. -/
def Kernel.mayNote (c : Kernel) (act : Act) : Event → Prop
  | .tick => act = .timer
  | .finish t => c.running = some t ∧ act.finishes = true
  | .created _ _ body => ∃ space mem, act = .ecall (.threadCreate body space mem)
  | .loaded b .. => c.gets b act = true
  | .received .. => ∃ r, c.receives r act = true
  | _ => True

section History

variable {Q : Option Tid → List Event → Prop} {c c' : Kernel} {act : Act} {e : Event}

theorem mayNote_of_passing (he : e.passing = true) : c.mayNote act e := by
  cases e <;> first | exact trivial | cases he

theorem history_stable (hQ : ∀ i e l, e.passing = true → Q i l → Q i (e :: l)) :
    Stable fun k => Q k.idle k.history where
  tcb _ _ _ _ h := h
  other k k' hk h := by
    rw [show k'.idle = k.idle from congrArg (fun p => p.2.2.1) hk, history_of_given hk]
    exact h
  event k e he h := hQ k.idle e k.history (by cases e <;> first | exact he | rfl) h
  switch k t h := hQ k.idle (.chosen t) k.history rfl h

theorem emit_history (he : ∀ i l, Q i l → Q i (e :: l)) :
    Keeps (fun k => Q k.idle k.history) (emit e) :=
  .write (fun k => emit_apply k e) fun k h => he k.idle k.history h

theorem setMsg_history {msg : CString} (hw : ∀ u i l, Q i l → Q i (.wrote t u msg :: l)) :
    Keeps (fun k => Q k.idle k.history) (setMsg t msg) :=
  setMsg_keeps (fun _ => .write (fun k => setThread_apply k _ _) fun _ h => h) fun u =>
    emit_history (hw u)

theorem threadCreate_history (hQ : ∀ i e l, e.passing = true → Q i l → Q i (e :: l)) {body : Bool}
    (hc : ∀ t p i l, Q i l → Q i (.created t p body :: l)) (mode : Mode) (space : Bool)
    (timeSlice : Nat) (schPut : Bool) (mem : CreateMem) :
    Keeps (fun k => Q k.idle k.history) (TCB.threadCreate body mode space timeSlice schPut mem) :=
  threadCreate_keeps (history_stable hQ) (n := 0)
    ⟨fun _ _ => Nat.zero_le _, fun _ h => h, fun _ _ _ _ _ h => h⟩ _ _ _ _ _ fun t p =>
    emit_history (hc t p)

/-- **A step keeps what everything keeps that it may note.** -/
theorem step_history (hQ : ∀ i e l, c.mayNote act e → Q i l → Q i (e :: l))
    (h : Q c.idle c.history) (hs : step c act = some c') : Q c'.idle c'.history := by
  have hpass : ∀ i e l, e.passing = true → Q i l → Q i (e :: l) := fun i e l he =>
    hQ i e l (mayNote_of_passing he)
  have hP := history_stable hpass
  have hset : ∀ t msg, Keeps (fun k => Q k.idle k.history) (setMsg t msg) := fun t msg =>
    setMsg_history fun u i l => hQ i (.wrote t u msg) l trivial
  have hown : KeepsOwn (fun k => Q k.idle k.history) c act :=
    { timer := fun hact =>
        handleTimer_keeps hP (emit_history fun i l => hQ i .tick l hact) fun _ h => h
      finish := fun r hr hf => emit_history fun i l => hQ i (.finish r) l ⟨hr, hf⟩
      received := fun r t m hr => .write (fun k => emit_apply k _) fun k h =>
        ⟨hQ k.idle (.received t m.text) k.history ⟨r, hr⟩ h.1, h.2⟩
      loaded := fun b t x hb => emit_history fun i l => hQ i (.loaded b t x) l hb
      store := fun _ _ => h
      create := fun body space mem hact => threadCreate_history hpass
        (fun t p i l => hQ i (.created t p body) l ⟨space, mem, hact⟩) _ _ _ _ _
      send := fun t msg x c' _ hx => handleSend_keeps hP (hset t) c x c' h hx
      resume := fun _ t _ _ _ _ => hset t }
  exact step_keeps hP hown h hs

end History

end Os1Kernel
