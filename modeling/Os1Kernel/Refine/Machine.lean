/-
# The machine refines the transition system

What is proved here, and used by everything in `Os1Kernel.Results`:

* `exec_does`: one act of the machine (a system call, the continuation of a wait, a timer
  interrupt, a character from the console, an exception, a store to memory) that is enabled comes
  back, and follows steps of `Sys.Step`;
* `step_does`: the same for a step of the machine as `Act` describes it, so that no step that is
  enabled follows a null pointer, leaves an array, or stays in a loop;
* `step_shows`: a state that `Shows` an abstract state between two of its steps is followed by a
  state that does.

`Shows` is `Sim` together with the claim that the kernel is in the middle of nothing: the running
thread is in its own code, or is about to continue a wait it was blocked at.  This is where the
invariant of the abstract system is needed in full, since it says which of the two it is.

The enabledness of an act reads lists of the machine (the handle is one of an existing thread, the
semaphore has been opened).  Section 1 translates these into the sequences.
-/
import Os1Kernel.Refine.Handlers

namespace Os1Kernel

open Linked DeltaList Simulation

variable {c : Kernel} {a b : Sys} {t : Tid} {s : SemPtr}

/-! ## 1. The lists of the machine

The machine's lists are computed by walking along the links with `IDCounter` as fuel; they are the
sequences because these are no longer than that. -/

theorem Rep.readyList_eq (h : Rep c a) (hl : a.ready.length ≤ a.IDCounter) :
    c.readyList = a.ready := by
  have hid : c.IDCounter = a.IDCounter := congrArg Core.IDCounter h.core
  exact h.ready.chain.walk_eq (hid ▸ hl)

theorem Rep.tcbList_eq (h : Rep c a) (hl : a.threads.length ≤ a.IDCounter) :
    c.tcbList = a.threads := by
  have hid : c.IDCounter = a.IDCounter := congrArg Core.IDCounter h.core
  exact h.threads.chain.walk_eq (hid ▸ hl)

theorem Rep.semList_eq (h : Rep c a) (hl : a.sems.length ≤ a.semIDCounter) :
    c.semList = a.sems := by
  have hid : c.semIDCounter = a.semIDCounter := congrArg Core.semIDCounter h.core
  exact h.sems.chain.walk_eq (hid ▸ hl)

theorem Rep.blockedList_eq (h : Rep c a) (hl : (a.queue s).length ≤ a.IDCounter) :
    c.blockedList s = a.queue s := by
  have hid : c.IDCounter = a.IDCounter := congrArg Core.IDCounter h.core
  exact (h.queue s).chain.walk_eq (hid ▸ hl)

theorem Sys.Places.ready_length (h : a.Places) (hlt : ∀ t ∈ a.threads, t < a.IDCounter) :
    a.ready.length ≤ a.IDCounter :=
  length_le_of_nodup h.ready_nodup fun t ht => hlt t (h.live t (Or.inl ht)).1

theorem Sys.Inv.ready_length (h : a.Inv) : a.ready.length ≤ a.IDCounter :=
  h.places.ready_length h.names.threads_lt

theorem Sys.Inv.threads_length (h : a.Inv) : a.threads.length ≤ a.IDCounter :=
  length_le_of_nodup h.names.threads_nodup h.names.threads_lt

theorem Sim.readyList_eq (h : Sim c a) : c.readyList = a.ready :=
  h.rep.readyList_eq h.inv.ready_length

theorem Sim.blockedList_eq (h : Sim c a) (s : SemPtr) : c.blockedList s = a.queue s :=
  h.rep.blockedList_eq (h.inv.queue_length s)

theorem Sim.sleepList_eq (h : Sim c a) : c.sleepList = a.asleep := by
  have hid : c.IDCounter = a.IDCounter := congrArg Core.IDCounter h.rep.core
  refine h.rep.asleep.walk_eq ?_
  rw [hid]
  exact h.inv.asleep_length

theorem Sim.tcbList_eq (h : Sim c a) : c.tcbList = a.threads :=
  h.rep.tcbList_eq h.inv.threads_length

theorem Sim.semList_eq (h : Sim c a) : c.semList = a.sems :=
  h.rep.semList_eq h.inv.names.sems_length

/-! ## 2. One step -/

/-- The system calls. -/
theorem handle_does (h : Sim c a) (hb : a.AtBody) (call : Syscall)
    (hcalls : call ≠ .threadExit → a.Calls) (hvalid : c.validCall call = true) :
    Does call.handle c a Ends := by
  have hlt : ∀ n : UInt64, n.toNat < 2 ^ 64 := fun n => n.toNat_lt
  cases call with
  | threadExit => exact handleThreadExit_does h hb
  | threadCreate start space mem =>
    refine handleThreadCreate_does h (hcalls (by simp)) start space mem ?_
    rw [← h.tcbList_eq]
    exact of_decide_eq_true hvalid
  | threadDispatch =>
    exact Follows.bind (preempt_does h hb (Or.inr rfl)) fun _ _ _ h' hi => Follows.pure h' hi
  | join t =>
    have ht : t ∈ a.threads := h.tcbList_eq ▸ of_decide_eq_true hvalid
    exact joinWith_does h (hcalls (by simp)) ht fun hw => wait_does h hw
  | timedJoin t timeout =>
    have ht : t ∈ a.threads := h.tcbList_eq ▸ of_decide_eq_true hvalid
    exact joinWith_does h (hcalls (by simp)) ht fun hw => timedWait_does h hw rfl (hlt timeout)
  | joinAll => exact handleJoinAll_does h (hcalls (by simp))
  | timedJoinAll timeout => exact handletimedJoinAll_does h (hcalls (by simp)) (hlt timeout)
  | semOpen init mem => exact handleSemOpen_does h (hcalls (by simp)) (hlt init) mem
  | semClose n =>
    have hn : .opened n ∈ a.sems := h.semList_eq ▸ of_decide_eq_true hvalid
    have hc := hcalls (by simp)
    refine Follows.bind (close_does h (.semClose hc hn)) fun _ _ b h' ⟨hact, hf, _⟩ => ?_
    refine Follows.pure h' ⟨hact, .code (hf.stage.trans hc.stage) ?_⟩
    rw [hf.running, hf.context, hc.context]
    rfl
  | semWait n =>
    have hn : .opened n ∈ a.sems := h.semList_eq ▸ of_decide_eq_true hvalid
    exact plainWait (wait_does h (.semWait (hcalls (by simp)) hn)) rfl
  | semSignal n =>
    have hn : .opened n ∈ a.sems := h.semList_eq ▸ of_decide_eq_true hvalid
    have hc := hcalls (by simp)
    refine Follows.bind (signal_does h (.semSignal hc hn)) fun _ _ b h' ⟨hact, hf⟩ => ?_
    refine Follows.pure h' ⟨hact, .code hf.stage ?_⟩
    rw [hf.running, hf.context]
    exact congrArg (Context.waitsAt _) hc.context
  | semTimedWait n timeout =>
    have hn : .opened n ∈ a.sems := h.semList_eq ▸ of_decide_eq_true hvalid
    exact plainWait (timedWait_does h (.semWait (hcalls (by simp)) hn) rfl (hlt timeout)) rfl
  | semTryWait n =>
    have hn : .opened n ∈ a.sems := h.semList_eq ▸ of_decide_eq_true hvalid
    exact Follows.bind (tryWait_does h (hcalls (by simp)) hn) fun _ _ b h' hb' =>
      Follows.pure h' ⟨hb'.1, hb'.2.1⟩
  | timeSleep timeout => exact timeSleep_does h (hcalls (by simp)) (hlt timeout)
  | getc => exact kGet_does h (hcalls (by simp)) .input
  | putc x => exact kPut_does h (hcalls (by simp)) .output x
  | send t msg =>
    have ht : t ∈ a.threads := h.tcbList_eq ▸ of_decide_eq_true hvalid
    exact handleSend_does h (hcalls (by simp)) ht msg
  | receive => exact handleReceive_does h (hcalls (by simp))

/-- The end of a blocked wait. -/
theorem endWait_does (h : Sim c a) (hi : a.Idle)
    (hc : (a.thread a.running).context.waitsAt a.running = some s) :
    Does endWait c a fun _ b =>
      b.activity = .none ∧ b.stage = .past (a.thread a.running).context := by
  unfold endWait
  refine Follows.bind_eq (resolveManner_apply h.rep) (Follows.bind_eq (getRunning_apply h.rep) ?_)
  exact Does.last h.inv (.endWait hi.activity hi.stage hc) (Yields.bind_eq (emit_apply ..)
    (Yields.pure ((h.rep.emit _).control))) ⟨hi.activity, rfl⟩

/-- A handler goes on behind its blocked wait. -/
theorem resumeWait {ctx : Context} (h : Sim c a) (hi : a.Idle)
    (hctx : (a.thread a.running).context = ctx) (hc : ctx.waitsAt a.running = some s)
    {k : Int → KernelM Unit}
    (hk : ∀ {ret c' b}, Sim c' b → b.activity = .none → b.stage = .past ctx →
      Does (k ret) c' b fun _ b => b.Idle) :
    Does (endWait >>= k) c a fun _ b => b.Idle := by
  rw [← hctx] at hc
  refine Follows.bind (endWait_does h hi hc) fun ret c' b h' ⟨ha, hs⟩ => hk h' ha ?_
  rw [hs, hctx]

/-- The chosen thread goes on. -/
theorem resumeAt_does (h : Sim c a) (hi : a.Idle)
    (hne : (a.thread a.running).context ≠ .body) :
    Does (resumeAt (a.thread a.running).context) c a fun _ b => b.Idle := by
  have hplain : (a.thread a.running).context.waitsAt a.running = none → ∀ ret,
      Does (leave ret) c a fun _ b => b.Idle := fun hc ret =>
    leave_does h hi.activity (.code hi.stage hc) ret
  cases hctx : (a.thread a.running).context with
  | body => exact absurd hctx hne
  | threadWrapper | timer | dispatch | sleep | finish => exact hplain (by rw [hctx]; rfl) _
  | semWait s | join t =>
    exact resumeWait h hi hctx rfl fun h' ha hs => leave_does h' ha (.past hs rfl) _
  | joinAll => exact resumeWait h hi hctx rfl fun h' ha hs => leave_does h' ha (.past hs rfl) _
  | timedJoinAll =>
    exact resumeWait h hi hctx rfl fun h' ha hs =>
      leaveWith_does (childrenLeft_does h' ha (.past hs rfl)) _
  | send t msg =>
    exact resumeWait h hi hctx rfl fun h' ha hs => leaveWith_does (sendMessage_does h' ha hs) _
  | receive =>
    exact resumeWait h hi hctx rfl fun h' ha hs => leaveWith_does (receiveMessage_does h' ha hs) _
  | put b x =>
    exact resumeWait h hi hctx rfl fun h' ha hs => leaveWith_does (putLocked_does h' ha hs) _
  | putMutex b x =>
    exact resumeWait h hi hctx rfl fun h' ha hs => leaveWith_does (putChar_does h' ha hs) _
  | get b =>
    exact resumeWait h hi hctx rfl fun h' ha hs => leaveWith_does (getLocked_does h' ha hs) _
  | getMutex b =>
    exact resumeWait h hi hctx rfl fun h' ha hs => leaveWith_does (getChar_does h' ha hs) _

theorem enabled_ecall {r : Tid} {call : Syscall} (hr : c.running = some r)
    (he : c.enabled (.ecall call) = true) : (c.tcb r).context = .body ∧ c.validCall call = true ∧
      (call ≠ .threadExit → c.running ≠ c.idle) := by
  unfold Kernel.enabled at he
  rw [hr] at he ⊢
  cases call with
  | threadExit => exact ⟨of_decide_eq_true he, rfl, fun h => absurd rfl h⟩
  | _ =>
    simp only [Bool.and_eq_true, decide_eq_true_eq] at he
    exact ⟨he.1.1, he.2, fun _ => he.1.2⟩

/-- **A step that is enabled succeeds, and follows the abstract system.** -/
theorem exec_does (h : Sim c a) (hi : a.Idle) (act : Act) (he : c.enabled act = true) :
    Does (exec act) c a fun _ b => b.Idle := by
  have hctx : (c.tcb a.running).context = (a.thread a.running).context :=
    congrArg Thread.context (h.rep.thread_apply _)
  have hr := h.rep.running
  have hbody : (c.tcb a.running).context = .body → a.AtBody := fun hc =>
    ⟨hi.activity, hi.stage, hctx ▸ hc⟩
  have hcalls : (c.tcb a.running).context = .body → c.running ≠ c.idle → a.Calls := by
    intro hc hne
    rw [h.rep.running, h.rep.idle] at hne
    exact { hbody hc with not_idle := fun e => hne (congrArg some e) }
  cases act with
  | ecall call =>
    obtain ⟨hc, hvalid, hne⟩ := enabled_ecall hr he
    exact leaveWith_does (handle_does h (hbody hc) call (fun h => hcalls hc (hne h)) hvalid) _
  | exception scause =>
    simp only [Kernel.enabled, hr, Bool.and_eq_true, decide_eq_true_eq] at he
    exact finish_does h (hbody he.1) _
  | timer =>
    simp only [Kernel.enabled, hr, decide_eq_true_eq] at he
    exact handleTimer_does h (hbody he)
  | uPut b x =>
    simp only [Kernel.enabled, hr, Bool.and_eq_true, decide_eq_true_eq] at he
    exact leaveWith_does (kPut_does h (hcalls he.1.1 (hr ▸ he.1.2)) b x) _
  | uGet b =>
    simp only [Kernel.enabled, hr, Bool.and_eq_true, decide_eq_true_eq] at he
    exact leaveWith_does (kGet_does h (hcalls he.1.1 (hr ▸ he.1.2)) b) _
  | store strings =>
    simp only [Kernel.enabled, hr, Bool.and_eq_true, decide_eq_true_eq] at he
    exact Does.last h.inv (.store (hcalls he.1 (hr ▸ he.2)) strings)
      (Yields.of_eq rfl (h.rep.store strings).control) ⟨hi.activity, hi.stage⟩
  | resume =>
    simp only [Kernel.enabled, hr, decide_eq_true_eq] at he
    refine Follows.bind_eq (getRunning_apply h.rep) (Follows.bind_eq (getTcb_apply ..) ?_)
    rw [hctx]
    exact resumeAt_does h hi (hctx ▸ he)

/-- The abstract system reaches a state in finitely many steps. -/
abbrev Sys.Steps : Sys → Sys → Prop := Relation.ReflTransGen Sys.Step

/-- A state of the machine between two of its steps, and its abstraction. -/
structure Shows (c : Kernel) (a : Sys) : Prop extends Sim c a where
  idle : a.Idle

/-- A thread that makes a system call runs its own code. -/
theorem Shows.calls (h : Shows c a) {call : Syscall} (he : c.enabled (.ecall call) = true)
    (hne : call ≠ .threadExit) : a.Calls ∧ c.validCall call = true := by
  obtain ⟨hbody, hvalid, hidle⟩ := enabled_ecall h.rep.running he
  have hctx : (a.thread a.running).context = .body :=
    (congrArg Thread.context (h.rep.thread_apply _)).symm.trans hbody
  refine ⟨⟨⟨h.idle.activity, h.idle.stage, hctx⟩, fun hr => hidle hne ?_⟩, hvalid⟩
  rw [h.rep.running, h.rep.idle, hr]

theorem step_does (h : Shows c a) {act : Act} (he : c.enabled act = true) :
    ∃ c' b, step c act = some c' ∧ a.Steps b ∧ Shows c' b := by
  obtain ⟨_, c', b, hx, hs, hsim, hi⟩ := exec_does h.toSim h.idle act he
  refine ⟨c', b, ?_, hs, hsim, hi⟩
  rw [step, if_pos he, hx]
  rfl

/-- What the machine does, the abstract system does. -/
theorem step_shows (h : Shows c a) {act : Act} {c' : Kernel} (hs : step c act = some c') :
    ∃ b, a.Steps b ∧ Shows c' b := by
  have he : c.enabled act = true := by
    by_contra he
    rw [step, if_neg he] at hs
    cases hs
  obtain ⟨c'', b, hs', hsteps, hshow⟩ := step_does h he
  obtain rfl := Option.some.inj (hs'.symm.trans hs)
  exact ⟨b, hsteps, hshow⟩

end Os1Kernel
