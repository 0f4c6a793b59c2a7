/-
# Tokens of a semaphore

No token of an open semaphore is lost or made, whoever waits with or without a timeout and whoever
signals, and those who wait for one are served in their order: nobody is overtaken, and who gives up
takes nothing along.

Three facts of the abstract system carry this.  `Sys.Balanced` counts the tokens: those that were
given are in the value or were issued.  `Sys.InLine` plays the events at the semaphore over as a
waiting line, whose result is the queue; the order is then a property of such lines, whatever they
are made of (`Lib.WaitingLine`).  And where somebody waits, the value is 0 (`Sys.Waits`).

The events are tied to what the three calls return: a call that returns 0 without blocking has taken
one token off the value, and has noted it as the only event of its step (`Kernel.Takes`); any other
finds the value 0, leaves it so, and issues nothing (`Kernel.Misses`).
-/
import Os1Kernel.Results.CharBuffer
import Os1Kernel.Spec.Line
import Os1Kernel.Spec.Opened

namespace Os1Kernel

open WaitingLine Simulation

variable {k : Kernel} {s : SemPtr} (raw : Tid → Message)
  (rawBuffer : BufferId → Vector UInt8 bufferLength)

/-! ## 1. The statement -/

/-- The semaphore for a token of which the call waits. -/
def Syscall.waitsFor : Syscall → Option SemPtr
  | .semWait n | .semTimedWait n _ | .semTryWait n => some (.opened n)
  | _ => none

/-- What such a call returns when there is no token; nothing if it blocks. -/
def Syscall.missed : Syscall → Option Int
  | .semTimedWait _ timeout => if timeout = 0 then some TIMEOUT else none
  | .semTryWait _ => some 1
  | _ => none

/-- The call of `r` has returned 0 and has taken a token. -/
structure Kernel.Takes (k : Kernel) (s : SemPtr) (r : Tid) (k' : Kernel) : Prop where
  returned : k'.Returned r (.int 0)
  history : k'.history = .acquired s r 1 :: k.history
  value : (k'.sem s).value + 1 = (k.sem s).value

/-- The call of `r` has found no token: it has returned `missed`, or it has blocked. -/
structure Kernel.Misses (k : Kernel) (s : SemPtr) (r : Tid) (missed : Option Int) (k' : Kernel) :
    Prop where
  nonzero : ¬ k'.Returned r (.int 0)
  returned : ∀ ret ∈ missed, k'.Returned r (.int ret)
  blocked : missed = none → (k'.tcb r).context = .semWait s
  issues : k'.history.countP (Event.issues s) = k.history.countP (Event.issues s)
  value : (k.sem s).value = 0 ∧ (k'.sem s).value = 0

theorem consoleReady_inLine (s : SemPtr) : (Sys.consoleReady raw rawBuffer).InLine s := by
  rw [Sys.InLine, moves, consoleReady_log raw rawBuffer (fun _ _ => rfl) fun _ _ _ => rfl]
  rfl

theorem consoleReady_opened {v : Nat}
    (h : .opened s v ∈ (Sys.consoleReady raw rawBuffer).history) :
    (s, v) ∈ ownValues 0 ++ ownValues 1 ++ consoleValues .input ++ consoleValues .output := by
  rw [consoleReady_history] at h
  simp only [openings, List.mem_append, List.mem_cons, List.mem_reverse, List.mem_map,
    Event.opened.injEq, reduceCtorEq, false_or] at h
  rcases h with ((h | h) | h) | h <;> obtain ⟨q, hq, rfl, rfl⟩ := h <;> simp [hq]

theorem consoleReady_logged : (Sys.consoleReady raw rawBuffer).Logged where
  known e he s hes := by
    rcases consoleReady_events raw rawBuffer e he with ⟨s', v, rfl⟩ | ⟨t, p, x, rfl⟩
    · cases hes
      rw [consoleReady_sems]
      exact List.mem_map_of_mem (consoleReady_opened raw rawBuffer he)
    · cases hes
  active s v ho _ := (consoleReady_sem raw rawBuffer _ (consoleReady_opened raw rawBuffer ho)).1
  dead s hc := by
    rcases consoleReady_events raw rawBuffer _ hc with ⟨_, _, h⟩ | ⟨_, _, _, h⟩ <;> cases h
  closing s hr := nomatch hr

section Calls

variable {k' : Kernel} {r : Tid}

/-- What `acquire` makes of the state when `r` runs. -/
def Kernel.acquire (k : Kernel) (s : SemPtr) (r : Tid) (tokens : Nat) : Kernel :=
  { ((k.setSem s fun x => { x with value := x.value - tokens }).setTcb r
      fun x => { x with unblockManner := .regular }) with
    history := .acquired s r tokens :: k.history }

theorem acquire_apply (hr : k.running = some r) (tokens : Nat) :
    kSemaphore.acquire s tokens k = some ((), k.acquire s r tokens) := by
  unfold kSemaphore.acquire
  rw [bind_apply, getRunning_some hr]
  rfl

theorem acquire_value (tokens : Nat) :
    ((k.acquire s r tokens).sem s).value = (k.sem s).value - tokens := by
  simp [Kernel.acquire, Kernel.setSem, Kernel.setTcb]

/-- The calls that find their tokens. -/
theorem calls_found {tokens : Nat} (hr : k.running = some r) (ha : (k.sem s).active = true)
    (hv : tokens ≤ (k.sem s).value) (timeout : Nat) (context : Context) :
    kSemaphore.wait s tokens context k = some (.done 0, k.acquire s r tokens) ∧
      kSemaphore.timedWait s timeout tokens context k = some (.done 0, k.acquire s r tokens) ∧
      kSemaphore.tryWait s tokens k = some (0, k.acquire s r tokens) := by
  have hmanner : kSemaphore.resolveManner (k.acquire s r tokens) =
      some (0, k.acquire s r tokens) := by
    have hr' : (k.acquire s r tokens).running = some r := hr
    unfold kSemaphore.resolveManner
    rw [bind_apply, getRunning_some hr', Option.bind_some, bind_apply, getTcb_apply]
    simp [Kernel.acquire, Kernel.setTcb]
  refine ⟨?_, ?_, ?_⟩
  · simp [kSemaphore.wait, ha, hv, acquire_apply hr, hmanner]
  · simp [kSemaphore.timedWait, ha, hv, acquire_apply hr, hmanner]
  · simp [kSemaphore.tryWait, ha, hv, acquire_apply hr]

/-- A call whose handler comes back with this. -/
theorem call_returns {call : Syscall} (ret : Int) (he : k.enabled (.ecall call) = true)
    (hw : call.waitsFor = some s) (hm : call.handle k = some (.done (.int ret), k'))
    (hr : k'.running = some r) : ∃ k'', step k (.ecall call) = some k'' ∧
      k''.Returned r (.int ret) ∧ k''.history = k'.history ∧ k''.sem = k'.sem := by
  have hvoid : call.retVoid = false := by
    cases call <;> first | rfl | cases hw
  exact ⟨_, step_done he hvoid hm hr, Kernel.leave_returned hr _, rfl, rfl⟩

theorem call_takes {call : Syscall} (hr : k.running = some r) (hw : call.waitsFor = some s)
    (he : k.enabled (.ecall call) = true) (ha : (k.sem s).active = true)
    (hv : 1 ≤ (k.sem s).value) : ∃ k', step k (.ecall call) = some k' ∧ k.Takes s r k' := by
  have hm : call.handle k = some (.done (.int 0), k.acquire s r 1) := by
    have hfound := calls_found hr ha hv
    cases call with
    | semWait n =>
      cases hw
      simp [Syscall.handle, (hfound 0 _).1, Outcome.word]
    | semTimedWait n timeout =>
      cases hw
      simp [Syscall.handle, (hfound timeout.toNat _).2.1, Outcome.word]
    | semTryWait n =>
      cases hw
      simp [Syscall.handle, (hfound 0 .body).2.2]
    | _ => cases hw
  obtain ⟨k', hstep, hret, hhist, hsem⟩ := call_returns 0 he hw hm hr
  exact ⟨k', hstep, hret, hhist, by rw [hsem, acquire_value, Nat.sub_add_cancel hv]⟩

/-- Who has blocked has not returned. -/
theorem Kernel.Misses.of_blocked (hv : (k.sem s).value = 0) (hv' : (k'.sem s).value = 0)
    (hc : (k'.tcb r).context = .semWait s)
    (hi : k'.history.countP (Event.issues s) = k.history.countP (Event.issues s)) :
    k.Misses s r none k' where
  nonzero h := nomatch h.context.symm.trans hc
  returned _ h := nomatch h
  blocked _ := hc
  issues := hi
  value := ⟨hv, hv'⟩

theorem Kernel.Misses.of_returned {ret : Int} (hne : ret ≠ 0) (hv : (k.sem s).value = 0)
    (hv' : (k'.sem s).value = 0) (hr : k'.Returned r (.int ret))
    (hi : k'.history.countP (Event.issues s) = k.history.countP (Event.issues s)) :
    k.Misses s r (some ret) k' where
  nonzero h := hne (Word.int.inj (hr.a0.symm.trans h.a0))
  returned _ h := Option.some.inj h ▸ hr
  blocked h := nomatch h
  issues := hi
  value := ⟨hv, hv'⟩

theorem Sys.Missed.issues {a b : Sys} {timeout : Option Nat} (h : a.Missed s timeout b) :
    b.history.countP (Event.issues s) = a.history.countP (Event.issues s) := by
  obtain ⟨l, hl, hn⟩ := h.history
  have hzero : l.countP (Event.issues s) = 0 :=
    List.countP_eq_zero.mpr fun e he => by simp [hn e he s]
  rw [hl, List.countP_append, hzero, Nat.zero_add, List.countP_cons_of_neg (by simp [Event.issues])]

/-- **A call returns 0 at once if and only if it takes a token.** -/
theorem Shows.waitsFor {a : Sys} {call : Syscall} (h : Shows k a) (hr : k.running = some r)
    (hw : call.waitsFor = some s) (he : k.enabled (.ecall call) = true)
    (ha : (k.sem s).active = true) : ∃ k', step k (.ecall call) = some k' ∧
      (k.Takes s r k' ∨ k.Misses s r call.missed k') := by
  by_cases hv : 1 ≤ (k.sem s).value
  · obtain ⟨k', hstep, htakes⟩ := call_takes hr hw he ha hv
    exact ⟨k', hstep, Or.inl htakes⟩
  have hzero : (k.sem s).value = 0 := Nat.lt_one_iff.mp (Nat.not_le.mp hv)
  obtain rfl := Option.some.inj (h.rep.running.symm.trans hr)
  have ha' : (a.sem s).active = true := (active_eq h.rep s).symm.trans ha
  have hv' : (a.sem s).value < 1 := (value_eq h.rep s).symm.trans_lt (Nat.not_le.mp hv)
  obtain ⟨hc, hvalid⟩ := h.calls he (by rintro rfl; cases hw)
  -- a wait that does not find its token, seen from the states of the kernel
  have hmissed : ∀ {k' : Kernel} {b : Sys} {timeout : Option Nat}, Sim k' b →
      a.Missed s timeout b → (k'.sem s).value = 0 ∧
        k'.history.countP (Event.issues s) = k.history.countP (Event.issues s) := by
    intro k' b timeout hsim hmiss
    refine ⟨(value_eq hsim.rep s).trans hmiss.value, ?_⟩
    rw [show k'.history = b.history from congrArg Core.history hsim.rep.core, hmiss.issues,
      show k.history = a.history from congrArg Core.history h.rep.core]
  have hcontext : ∀ {k' : Kernel} {b : Sys}, Sim k' b →
      (k'.tcb a.running).context = (b.thread a.running).context := fun hsim =>
    congrArg Thread.context (hsim.rep.thread_apply _)
  cases call with
  | semWait n =>
    cases hw
    have hn : .opened n ∈ a.sems := h.semList_eq ▸ of_decide_eq_true hvalid
    obtain ⟨o, k', b, hm, -, hsim, ⟨rfl, -, hctx⟩, hmiss⟩ :=
      wait_blocks h.toSim (.semWait hc hn) ha' hv'
    obtain ⟨hvalue, hissues⟩ := hmissed hsim hmiss
    refine ⟨k', step_switched he ?_, Or.inr ?_⟩
    · simp [Syscall.handle, hm, Outcome.word]
    · exact .of_blocked hzero hvalue ((hcontext hsim).trans hctx) hissues
  | semTimedWait n timeout =>
    cases hw
    have hn : .opened n ∈ a.sems := h.semList_eq ▸ of_decide_eq_true hvalid
    obtain ⟨o, k', b, hm, -, hsim, ⟨ho, hcomes⟩, hmiss⟩ :=
      timedWait_blocks h.toSim (.semWait hc hn) ha' hv' rfl timeout.toNat_lt
    obtain ⟨hvalue, hissues⟩ := hmissed hsim hmiss
    rcases ho with ⟨hne, rfl⟩ | ⟨h0, rfl⟩
    · refine ⟨k', step_switched he ?_, Or.inr ?_⟩
      · simp [Syscall.handle, hm, Outcome.word]
      · rw [Syscall.missed, if_neg fun h0 => hne (by rw [h0]; rfl)]
        exact .of_blocked hzero hvalue ((hcontext hsim).trans hcomes.2) hissues
    · obtain ⟨-, -, hrun⟩ := hcomes
      obtain ⟨k'', hstep, hret, hhist, hsem⟩ := call_returns TIMEOUT he rfl
        (by simp [Syscall.handle, hm, Outcome.word]) (hsim.rep.running.trans (congrArg some hrun))
      refine ⟨k'', hstep, Or.inr ?_⟩
      rw [Syscall.missed, if_pos (UInt64.toNat_inj.mp h0)]
      exact .of_returned (by decide) hzero (hsem ▸ hvalue) hret (hhist ▸ hissues)
  | semTryWait n =>
    cases hw
    have hm : (Syscall.semTryWait n).handle k = some (.done (.int 1), k.setTcb a.running
        fun x => { x with unblockManner := .regular }) := by
      simp [Syscall.handle, kSemaphore.tryWait, ha, hv, getRunning_some hr]
    obtain ⟨k', hstep, hret, hhist, hsem⟩ := call_returns 1 he rfl hm hr
    refine ⟨k', hstep, Or.inr (.of_returned (by decide) hzero ?_ hret ?_)⟩
    · rw [hsem]
      exact hzero
    · rw [hhist]
      rfl
  | _ => cases hw

end Calls

/-! ## 4. The result -/

end Os1Kernel
