/-
# Data has no influence

Two runs of the machine that differ only in the characters and messages that are passed and in what
the memory held before go through the same states but for these: the same threads run, wait and
sleep, in the same order and for the same time, and every blocked wait ends with the same result.

`Kernel.erase` removes the data from a state, and two states are alike if they are equal without
it.  Two programs are `Alike` if they take alike states to alike states, with results that are
equal up to the data in them.

* Each function of the source has one lemma, by the rules for `bind`, in the order of the source.
  Nearly all are alike to themselves; only those that take a character or a message as an argument
  are compared with a second program, the one with the argument removed.
* A branch could depend on the data.  None does: the conditions in the source read counters,
  pointers and results, and the single read of a character or a message is copied on.
* `step_alike` is the step and `data_independent` the run, by induction on the list of acts.
-/
import Os1Kernel.Kernel.Independence
import Os1Kernel.Refine.Boot

namespace Os1Kernel

open Simulation

variable {z : Blank} {k k' : Kernel}

/-! ## 1. Messages and characters

These are the functions that do touch data: what they copy is hidden on both sides, and what they
decide by is not. -/

theorem setMsg_alike (t : Tid) (msg : CString) : Alike z id (setMsg t msg) (setMsg t []) := by
  refine .bind_read (fun k => getTcb_apply k t) fun k k' _ => ?_
  obtain ⟨m, hm⟩ := setMsgFrom_isSome msg (msgLen + 1) 0 (k.tcb t).message rfl (Nat.zero_le _)
  obtain ⟨m', hm'⟩ := setMsgFrom_isSome [] (msgLen + 1) 0 (k'.tcb t).message rfl (Nat.zero_le _)
  rw [hm, hm', follow_some, follow_some, pure_bind, pure_bind]
  exact .bind_id (setTcb_differ (fun x => { x with message := z.message }) (fun _ => rfl)
    fun _ => rfl) fun _ => .bind_id getRunning_alike fun _ => emit_differ rfl

theorem erase_setBuffer (k : Kernel) (b : BufferId) (x : CharBuffer) :
    ({ k with buffer := Function.update k.buffer b x } : Kernel).erase z =
      { k.erase z with buffer := Function.update (k.erase z).buffer b (x.erase z) } := by
  have hbuffer : (fun i => (Function.update k.buffer b x i).erase z) =
      Function.update (fun i => (k.buffer i).erase z) b (x.erase z) :=
    Function.comp_update (CharBuffer.erase z) k.buffer b x
  unfold Kernel.erase
  rw [hbuffer]

theorem setBuffer_differ (b : BufferId) {x y : CharBuffer} (h : x.erase z = y.erase z) :
    Alike z id (modify fun k => { k with buffer := Function.update k.buffer b x } : KernelM Unit)
      (modify fun k => { k with buffer := Function.update k.buffer b y }) :=
  .write (fun _ => modify_apply ..) (fun _ => modify_apply ..) fun k k' hk => by
    rw [erase_setBuffer, erase_setBuffer, h, hk]

namespace CharBuffer

theorem put_alike (b : BufferId) (c : UInt8) : Alike z id (put b c) (put b 0) := by
  refine .bind_read getKernel_apply fun k k' h => ?_
  have hb : (k.buffer b).erase z = (k'.buffer b).erase z := congrArg (fun k => k.buffer b) h
  have hpos := congrArg CharBuffer.pos_w hb
  change (k.buffer b).pos_w = (k'.buffer b).pos_w at hpos
  by_cases hlt : (k.buffer b).pos_w < bufferLength
  · have hlt' : (k'.buffer b).pos_w < bufferLength := hpos ▸ hlt
    dsimp only
    rw [dif_pos hlt, dif_pos hlt']
    refine .bind_id (setBuffer_differ b ?_) fun _ => .bind_id getRunning_alike fun _ =>
      emit_differ rfl
    exact congrArg (fun x => { x with pos_w := (x.pos_w + 1) % bufferLength }) hb
  · have hlt' : ¬ (k'.buffer b).pos_w < bufferLength := hpos ▸ hlt
    dsimp only
    rw [dif_neg hlt, dif_neg hlt']
    exact .failure

/-- The character that is returned is hidden. -/
theorem get_alike (b : BufferId) : Alike z (fun _ => ()) (get b) (get b) := by
  refine .bind_read getKernel_apply fun k k' h => ?_
  have hb : (k.buffer b).erase z = (k'.buffer b).erase z := congrArg (fun k => k.buffer b) h
  have hpos := congrArg CharBuffer.pos_r hb
  change (k.buffer b).pos_r = (k'.buffer b).pos_r at hpos
  by_cases hlt : (k.buffer b).pos_r < bufferLength
  · have hlt' : (k'.buffer b).pos_r < bufferLength := hpos ▸ hlt
    dsimp only
    rw [dif_pos hlt, dif_pos hlt']
    refine .bind_id (setBuffer_differ b ?_) fun _ => .bind_id getRunning_alike fun _ =>
      .bind_id (emit_differ rfl) fun _ => .pure rfl
    exact congrArg (fun x => { x with pos_r := (x.pos_r + 1) % bufferLength }) hb
  · have hlt' : ¬ (k'.buffer b).pos_r < bufferLength := hpos ▸ hlt
    dsimp only
    rw [dif_neg hlt, dif_neg hlt']
    exact .failure

theorem putChar_alike (b : BufferId) (c : UInt8) :
    Alike z Outcome.erase (putChar b c) (putChar b 0) :=
  .bind_id (put_alike b c) fun _ => getKernel_alike (fun _ => rfl) fun _ =>
    .bind_id (follow_alike _) fun s => .bind_id (signal_alike s 1) fun _ =>
    .bind_id (follow_alike _) fun s => .bind_id (signal_alike s 1) fun _ => .pure rfl

theorem putLocked_alike (b : BufferId) (c : UInt8) :
    Alike z Outcome.erase (putLocked b c) (putLocked b 0) := by
  have hc : (Context.putMutex b c).erase = (Context.putMutex b 0).erase := rfl
  refine getKernel_alike (fun _ => rfl) fun _ => .bind_id (follow_alike _) fun s =>
    .bind_id (wait_alike hc s 1) fun o => ?_
  cases o with
  | switched => exact .pure rfl
  | done ret => exact putChar_alike b c

theorem kPut_alike (b : BufferId) (c : UInt8) : Alike z Outcome.erase (kPut b c) (kPut b 0) := by
  have hc : (Context.put b c).erase = (Context.put b 0).erase := rfl
  refine .bind_id getRunning_alike fun _ => .bind_id (emit_differ rfl) fun _ =>
    getKernel_alike (fun _ => rfl) fun _ => .bind_id (follow_alike _) fun s =>
    .bind_id (wait_alike hc s 1) fun o => ?_
  cases o with
  | switched => exact .pure rfl
  | done ret => exact putLocked_alike b c

theorem getChar_alike (b : BufferId) : Alike z Outcome.erase (getChar b) (getChar b) :=
  .bind (get_alike b) fun _ _ _ => getKernel_alike (fun _ => rfl) fun _ =>
    .bind_id (follow_alike _) fun s => .bind_id (signal_alike s 1) fun _ =>
    .bind_id (follow_alike _) fun s => .bind_id (signal_alike s 1) fun _ => .pure rfl

theorem getLocked_alike (b : BufferId) : Alike z Outcome.erase (getLocked b) (getLocked b) := by
  refine getKernel_alike (fun _ => rfl) fun _ => .bind_id (follow_alike _) fun s =>
    .bind_id (wait_alike rfl s 1) fun o => ?_
  cases o with
  | switched => exact .pure rfl
  | done ret => exact getChar_alike b

theorem kGet_alike (b : BufferId) : Alike z Outcome.erase (kGet b) (kGet b) := by
  refine getKernel_alike (fun _ => rfl) fun _ => .bind_id (follow_alike _) fun s =>
    .bind_id (wait_alike rfl s 1) fun o => ?_
  cases o with
  | switched => exact .pure rfl
  | done ret => exact getLocked_alike b

theorem construct_alike (b : BufferId) (raw : Vector UInt8 bufferLength) :
    Alike z id (construct b raw) (construct b z.buffer) :=
  .bind_id (kSemaphoreCreate_alike _ _ _) fun _ => .bind_id (kSemaphoreCreate_alike _ _ _) fun _ =>
    .bind_id (kSemaphoreCreate_alike _ _ _) fun _ => setBuffer_differ b rfl

end CharBuffer

/-! ## 2. The handlers -/

theorem handleThreadCreate_alike (start_routine stack_space : Bool) (mem : CreateMem) :
    Alike z Outcome.erase (handleThreadCreate start_routine stack_space mem)
      (handleThreadCreate start_routine stack_space (mem.erase z)) :=
  .bind_id (threadCreate_alike _ _ _ _ _ mem) fun _ => .bind_id getRunning_alike fun _ =>
    .bind_id (setTcb_alike fun _ => rfl) fun _ => .pure rfl

theorem joinWith_alike (t : Tid) {wait : SemPtr → KernelM (Outcome Int)}
    (hwait : ∀ s, Alike z id (wait s) (wait s)) :
    Alike z Outcome.erase (joinWith t wait) (joinWith t wait) :=
  .bind_id getRunning_alike fun _ => .ite (fun _ => .pure rfl) fun _ =>
    getTcb_alike (fun _ => rfl) fun _ => .ite (fun _ => .pure rfl) fun _ =>
    .bind_id (follow_alike _) fun s => .bind_id (hwait s) fun _ => .pure rfl

theorem handleJoinAll_alike : Alike z Outcome.erase handleJoinAll handleJoinAll := by
  refine .bind_id getRunning_alike fun _ => getTcb_alike (fun _ => rfl) fun _ =>
    .bind_id (follow_alike _) fun s => .bind_id (wait_alike rfl s _) fun o => ?_
  cases o with
  | switched => exact .pure rfl
  | done ret => exact .pure rfl

theorem childrenLeft_alike : Alike z Outcome.erase childrenLeft childrenLeft :=
  .bind_id getRunning_alike fun _ => getTcb_alike (fun _ => rfl) fun _ => .pure rfl

theorem handletimedJoinAll_alike (timeout : Nat) :
    Alike z Outcome.erase (handletimedJoinAll timeout) (handletimedJoinAll timeout) := by
  refine .bind_id getRunning_alike fun _ => getTcb_alike (fun _ => rfl) fun _ =>
    .bind_id (follow_alike _) fun s => .bind_id (timedWait_alike rfl s timeout _) fun o => ?_
  cases o with
  | switched => exact .pure rfl
  | done ret => exact childrenLeft_alike

theorem handleSemOpen_alike (init : Nat) (mem : Bool) :
    Alike z Outcome.erase (handleSemOpen init mem) (handleSemOpen init mem) :=
  getKernel_alike (fun _ => rfl) fun _ => .bind_id (kSemaphoreCreate_alike _ _ _) fun _ =>
    .bind_id getRunning_alike fun _ => .bind_id (setTcb_alike fun _ => rfl) fun _ => .pure rfl

/-- Whatever the two pointers point to. -/
theorem sendMessage_alike (t : Tid) (msg msg' : CharPtr) :
    Alike z Outcome.erase (sendMessage t msg) (sendMessage t msg') := by
  refine .bind_read getKernel_apply fun k k' _ => ?_
  have hset : Alike z id (setMsg t (k.string msg)) (setMsg t (k'.string msg')) :=
    (setMsg_alike t _).trans_symm (setMsg_alike t _)
  exact .bind_id hset fun _ => getTcb_alike (fun _ => rfl) fun _ =>
    .bind_id (follow_alike _) fun s => .bind_id (signal_alike s 1) fun _ => .pure rfl

theorem handleSend_alike (t : Tid) (msg msg' : CharPtr) :
    Alike z Outcome.erase (handleSend t msg) (handleSend t msg') := by
  have hc : (Context.send t msg).erase = (Context.send t msg').erase := rfl
  refine .bind_id getRunning_alike fun _ => .ite (fun _ => .pure rfl) fun _ =>
    getTcb_alike (fun _ => rfl) fun _ => .bind_id (follow_alike _) fun s =>
    .bind_id (wait_alike hc s 1) fun o => ?_
  cases o with
  | switched => exact .pure rfl
  | done ret => exact sendMessage_alike t msg msg'

theorem receiveMessage_alike : Alike z Outcome.erase receiveMessage receiveMessage := by
  refine .bind_id getRunning_alike fun r => .bind_read (fun k => getTcb_apply k r) fun k k' h => ?_
  have hsend := congrArg (fun k => (k.tcb r).semSend) h
  change (k.tcb r).semSend = (k'.tcb r).semSend at hsend
  rw [hsend]
  exact .bind_id (follow_alike _) fun s => .bind_id (signal_alike s 1) fun _ =>
    .bind_id (emit_differ rfl) fun _ => .pure rfl

theorem handleReceive_alike : Alike z Outcome.erase handleReceive handleReceive := by
  refine .bind_id getRunning_alike fun _ => getTcb_alike (fun _ => rfl) fun _ =>
    .bind_id (follow_alike _) fun s => .bind_id (wait_alike rfl s 1) fun o => ?_
  cases o with
  | switched => exact .pure rfl
  | done ret => exact receiveMessage_alike

/-- The call without its data. -/
def Syscall.erase (z : Blank) : Syscall → Syscall
  | .threadCreate start_routine stack_space mem =>
    .threadCreate start_routine stack_space (mem.erase z)
  | .putc _ => .putc 0
  | .send handle _ => .send handle (.memory 0)
  | c => c

theorem handle_alike (c : Syscall) : Alike z Outcome.erase c.handle (c.erase z).handle := by
  cases c with
  | threadCreate start_routine stack_space mem => exact handleThreadCreate_alike _ _ mem
  | threadExit => exact .bind_id (finish_alike 0) fun _ => .pure rfl
  | threadDispatch => exact .bind_id (yield_alike rfl true) fun _ => .pure rfl
  | join handle => exact joinWith_alike handle fun s => wait_alike rfl s 1
  | timedJoin handle timeout => exact joinWith_alike handle fun s => timedWait_alike rfl s _ 1
  | joinAll => exact handleJoinAll_alike
  | timedJoinAll timeout => exact handletimedJoinAll_alike _
  | semOpen init mem => exact handleSemOpen_alike _ mem
  | semClose handle => exact .bind_id (close_alike _) fun _ => .pure rfl
  | semWait handle => exact .bind_id (wait_alike rfl _ 1) fun _ => .pure rfl
  | semSignal handle => exact .bind_id (signal_alike _ 1) fun _ => .pure rfl
  | semTimedWait handle timeout => exact .bind_id (timedWait_alike rfl _ _ 1) fun _ => .pure rfl
  | semTryWait handle => exact .bind_id (tryWait_alike _ 1) fun _ => .pure rfl
  | timeSleep timeout => exact .bind_id (sleep_alike rfl _) fun _ => .pure rfl
  | getc => exact CharBuffer.kGet_alike .input
  | putc c => exact CharBuffer.kPut_alike .output c
  | send handle msg => exact handleSend_alike handle msg _
  | receive => exact handleReceive_alike

/-! ## 3. One step

A step is data too, as far as it carries characters and pointers; `Act.erase` is what is left of
it. -/

theorem leave_alike (ret ret' : Option Word) : Alike z id (leave ret) (leave ret') :=
  .bind_id getRunning_alike fun _ =>
    setTcb_differ (fun x => { x with context := .body, a0 := .int 0 }) (fun _ => rfl) fun _ => rfl

/-- A result is left in a register, and is data from then on. -/
theorem leaveWith_alike (void : Bool) {o o' : Outcome Word} (h : o.erase = o'.erase) :
    Alike z id (leaveWith void o) (leaveWith void o') := by
  cases o with
  | switched =>
    cases o' with
    | switched => exact .pure rfl
    | done ret' => cases h
  | done ret =>
    cases o' with
    | switched => cases h
    | done ret' => exact leave_alike _ _

theorem endWait_alike : Alike z id endWait endWait :=
  .bind_id resolveManner_alike fun _ => .bind_id getRunning_alike fun _ =>
    .bind_id (emit_alike _) fun _ => .pure rfl

theorem resumeAt_alike (c : Context) : Alike z id (resumeAt c) (resumeAt c.erase) := by
  cases c with
  | body => exact .failure
  | threadWrapper | timer | dispatch | sleep | finish => exact leave_alike _ _
  | semWait s | join t => exact .bind_id endWait_alike fun _ => leave_alike _ _
  | joinAll => exact .bind_id endWait_alike fun _ => leave_alike _ _
  | timedJoinAll =>
    exact .bind_id endWait_alike fun _ => .bind childrenLeft_alike fun _ _ => leaveWith_alike false
  | send t msg =>
    exact .bind_id endWait_alike fun _ => .bind (sendMessage_alike t msg _) fun _ _ =>
      leaveWith_alike true
  | receive =>
    exact .bind_id endWait_alike fun _ => .bind receiveMessage_alike fun _ _ =>
      leaveWith_alike false
  | put b c =>
    exact .bind_id endWait_alike fun _ => .bind (CharBuffer.putLocked_alike b c) fun _ _ =>
      leaveWith_alike true
  | putMutex b c =>
    exact .bind_id endWait_alike fun _ => .bind (CharBuffer.putChar_alike b c) fun _ _ =>
      leaveWith_alike true
  | get b =>
    exact .bind_id endWait_alike fun _ => .bind (CharBuffer.getLocked_alike b) fun _ _ =>
      leaveWith_alike false
  | getMutex b =>
    exact .bind_id endWait_alike fun _ => .bind (CharBuffer.getChar_alike b) fun _ _ =>
      leaveWith_alike false

theorem handleTimer_alike : Alike z id handleTimer handleTimer :=
  .bind_id (modify_alike fun _ => rfl) fun _ => .bind_id onTick_alike fun _ =>
    .bind_id getRunning_alike fun _ => getKernel_alike (fun _ => rfl) fun _ =>
    .ite (fun _ => yield_alike rfl true) fun _ => .pure rfl

/-- The step without its data. -/
def Act.erase (z : Blank) : Act → Act
  | .ecall c => .ecall (c.erase z)
  | .uPut b _ => .uPut b 0
  | .store _ => .store fun _ => []
  | act => act

theorem retVoid_erase (c : Syscall) : (c.erase z).retVoid = c.retVoid := by
  cases c <;> rfl

theorem exec_alike (act : Act) : Alike z id (exec act) (exec (act.erase z)) := by
  cases act with
  | ecall c =>
    refine .bind (handle_alike c) fun o o' h => ?_
    rw [retVoid_erase]
    exact leaveWith_alike _ h
  | exception scause => exact finish_alike _
  | timer => exact handleTimer_alike
  | uPut b c => exact .bind (CharBuffer.kPut_alike b c) fun _ _ => leaveWith_alike true
  | uGet b => exact .bind (CharBuffer.kGet_alike b) fun _ _ => leaveWith_alike false
  | store strings => exact modify_differ (fun k => k) (fun _ => rfl) fun _ => rfl
  | resume =>
    refine .bind_id getRunning_alike fun r => .bind_read (fun k => getTcb_apply k r)
      fun k k' h => ?_
    have hc := congrArg (fun k => (k.tcb r).context) h
    change (k.tcb r).context.erase = (k'.tcb r).context.erase at hc
    have h' := resumeAt_alike (z := z) (k'.tcb r).context
    rw [← hc] at h'
    exact (resumeAt_alike _).trans_symm h'

theorem erase_eq_body (c : Context) : c.erase = .body ↔ c = .body := by
  cases c <;> simp [Context.erase]

/-- Whether a step can come next does not depend on data. -/
theorem enabled_erase (k : Kernel) (act : Act) :
    (k.erase z).enabled (act.erase z) = k.enabled act := by
  have hrunning : (k.erase z).running = k.running := rfl
  have hidle : (k.erase z).idle = k.idle := rfl
  have hmode : ∀ r, ((k.erase z).tcb r).mode = (k.tcb r).mode := fun _ => rfl
  have hbody : ∀ r, ((k.erase z).tcb r).context = .body ↔ (k.tcb r).context = .body :=
    fun r => erase_eq_body (k.tcb r).context
  unfold Kernel.enabled
  rw [hrunning]
  cases k.running with
  | none => rfl
  | some r =>
    cases act with
    | ecall c =>
      have hvalid : (k.erase z).validCall (c.erase z) = k.validCall c := by cases c <;> rfl
      cases c <;> simp only [Act.erase, Syscall.erase, hbody, hidle] at hvalid ⊢ <;> rw [hvalid]
    | resume => exact decide_eq_decide.mpr (not_congr (hbody r))
    | _ => simp only [Act.erase, hbody, hidle, hmode]

theorem step_alike {act act' : Act} (hk : k.erase z = k'.erase z)
    (hact : act.erase z = act'.erase z) :
    (step k act).map (Kernel.erase z) = (step k' act').map (Kernel.erase z) := by
  have he : k.enabled act = k'.enabled act' := by
    rw [← enabled_erase (z := z) k act, ← enabled_erase (z := z) k' act', hk, hact]
  have hexec := exec_alike (z := z) act'
  rw [← hact] at hexec
  unfold step
  rw [he]
  split
  · exact ((exec_alike act).trans_symm hexec).states hk
  · rfl

/-! ## 4. Boot -/

/-- Nothing depends on what the memory held. -/
theorem bootstrap_alike (raw : Tid → Message) (rawBuffer : BufferId → Vector UInt8 bufferLength) :
    Alike z id (bootstrap raw rawBuffer) (bootstrap (fun _ => z.message) fun _ => z.buffer) :=
  .bind_id (threadCreate_alike _ _ _ _ _ _) fun _ => .bind_id (modify_alike fun _ => rfl) fun _ =>
    .bind_id (modify_alike fun _ => rfl) fun _ => .bind_id getRunning_alike fun _ =>
    .bind_id (setTcb_alike fun _ => rfl) fun _ => .bind_id (threadCreate_alike _ _ _ _ _ _) fun _ =>
    .bind_id (modify_alike fun _ => rfl) fun _ => .bind_id (CharBuffer.construct_alike _ _) fun _ =>
    .bind_id (CharBuffer.construct_alike _ _) fun _ =>
    .bind_id (threadCreate_alike _ _ _ _ _ _) fun _ =>
    .bind_id (threadCreate_alike _ _ _ _ _ _) fun _ => .pure rfl

theorem boot_alike (raw raw' : Tid → Message)
    (rawBuffer rawBuffer' : BufferId → Vector UInt8 bufferLength) :
    (boot raw rawBuffer).map (Kernel.erase z) = (boot raw' rawBuffer').map (Kernel.erase z) :=
  ((bootstrap_alike raw rawBuffer).trans_symm (bootstrap_alike raw' rawBuffer')).states rfl

/-! ## 5. The result -/

/-- **Data has no influence.**  Two runs from boot with the same steps but for their data end in the
same state but for its data, or come to a step that is not possible at the same time. -/
theorem data_independent {raw raw' : Tid → Message}
    {rawBuffer rawBuffer' : BufferId → Vector UInt8 bufferLength} {acts acts' : List Act}
    (h : acts.map (Act.erase z) = acts'.map (Act.erase z)) :
    ((boot raw rawBuffer).bind fun k => Run.run step k acts).map (Kernel.erase z) =
      ((boot raw' rawBuffer').bind fun k => Run.run step k acts').map (Kernel.erase z) := by
  obtain ⟨k₀, -, hboot, -⟩ := boot_shows raw rawBuffer
  obtain ⟨k₀', -, hboot', -⟩ := boot_shows raw' rawBuffer'
  have hk := boot_alike (z := z) raw raw' rawBuffer rawBuffer'
  rw [hboot, hboot'] at hk
  rw [hboot, hboot', Option.bind_some, Option.bind_some]
  exact run_agrees (fun _ _ _ _ => step_alike) (Option.some.inj hk) h

/-- `main` sends a character to a thread that it has created, prints it, and sends it again. -/
def sendsTwice (c : UInt8) : List Act :=
  [.ecall (.threadCreate true false (.ok (zeroMessage 4))), .store fun _ => [c],
    .ecall (.send 4 (.memory 0)), .ecall (.putc c), .ecall (.send 4 (.memory 0)), .resume]

/-- What is left of the data. -/
def zeros : Blank := ⟨zeroMessage 0, zeroBuffer .input⟩

theorem data_independent_run : ∃ k k', runFromZero (sendsTwice 104) = some k ∧
    runFromZero (sendsTwice 105) = some k' ∧ k.erase zeros = k'.erase zeros ∧
    (k.tcb 4).message.text = [104] ∧ (k'.tcb 4).message.text = [105] := by
  obtain ⟨-, k, -, -, hk⟩ := exists_run (sendsTwice 104) (by decide +kernel)
  obtain ⟨-, k', -, -, hk'⟩ := exists_run (sendsTwice 105) (by decide +kernel)
  have htext : ∀ c ∈ [104, 105], ∀ k ∈ runFromZero (sendsTwice c),
      (k.tcb 4).message.text = [c] := by
    decide +kernel
  have he : (runFromZero (sendsTwice 104)).map (Kernel.erase zeros) =
      (runFromZero (sendsTwice 105)).map (Kernel.erase zeros) := data_independent rfl
  rw [hk, hk'] at he
  exact ⟨k, k', hk, hk', Option.some.inj he, htext 104 (by decide) k hk,
    htext 105 (by decide) k' hk'⟩

end Os1Kernel
