/-
# One cause ends a wait

A wait that blocks is ended once: by `signal` (or `signalAll` when the owner of the semaphore
finishes), by `close`, or by its `timeout`-th tick, and it returns the result that belongs to this
cause.  Nothing of it is left over for the next wait.

The proof plays over what each thread has been doing.  `stay t` reads this off the events alone: it is
free, it waits with so many ticks gone, it sleeps, or it has been released in some manner; and it is
undefined where an event does not fit, as a second release would.  The invariant (`Sys.Records`) is
that it is always defined, and that the state of the thread is what it says (`Sys.Recorded`): the
queue and the sleep list it is on, the ticks that are left, and `unblockManner`.  So what has become
of a wait follows from its events (`stay_called`), and `resolveManner` finds what belongs to its end.

What the calls return is in `a0`: behind the step of the call where it does not block, and behind the
`resume` of its thread where it does (`resume_wait`).
-/
import Os1Kernel.Results.Semaphore
import Os1Kernel.Results.Sleep

namespace Os1Kernel

variable {k : Kernel} {a : Sys} {t : Tid} {s : SemPtr}

/-! ## 1. The statement -/

/-- Nothing of a wait is left. -/
structure Kernel.Rested (k : Kernel) (t : Tid) : Prop where
  blocked : (k.tcb t).blockedAtSem = none
  queues : ∀ s, t ∉ k.blockedList s
  tokens : (k.tcb t).tokensNeeded = 0
  sleeps : (k.tcb t).sleeps = false
  relative : (k.tcb t).timeSleepRelative = 0
  asleep : t ∉ k.sleepList

/-- What has become of a wait, by the events since it began. -/
inductive Kernel.Awaited (k : Kernel) (t : Tid) (s : SemPtr) (timeout : Option Nat)
    (since : List Event) : Prop
  /-- It lasts: its time has not come, and nothing has ended it. -/
  | waiting (h : Undisturbed t timeout since) (queue : t ∈ k.blockedList s)
    (asleep : t ∈ k.sleepList ↔ timeout.isSome = true)
    (early : ∀ n ∈ timeout, since.countP Event.isTick < n)
  /-- A cause has ended it, and `unblockManner` names this one until the thread has gone on. -/
  | released {manner : UnblockManner} (h : Ended t s timeout manner since)
    (named : (k.tcb t).unblockManner = manner) (waitsAt : (k.tcb t).context.waitsAt t = some s)
    (goes : k.running = some t ∨ t ∈ k.readyList) (rested : k.Rested t)
    (resolves : k.running = some t → kSemaphore.resolveManner k = some (manner.result, k))
    (returns : k.running = some t →
      ((∃ s, (k.tcb t).context = .semWait s) ∨ ∃ u, (k.tcb t).context = .join u) →
      ∃ k', step k .resume = some k' ∧ k'.Returned t (.int manner.result) ∧
        k'.history = .returned t manner.result :: k.history)
  /-- It has returned the result of the cause that had ended it. -/
  | returned {later earlier : List Event} {manner : UnblockManner}
    (split : since = later ++ .returned t manner.result :: earlier)
    (h : Ended t s timeout manner earlier)

/-- The semaphore that the call is about. -/
def Syscall.semaphore : Syscall → Option SemPtr
  | .semClose n | .semWait n | .semSignal n | .semTimedWait n _ | .semTryWait n => some (.opened n)
  | _ => none

/-- How the calls that wait at a semaphore come back.  Those that have blocked are in `calls` and
`goesOn`, those that return in their own step in `found`, `atOnce`, `zero` and `closed`. -/
structure Kernel.EndsWaits (k : Kernel) : Prop where
  calls : ∀ t s timeout since before, k.history = since ++ .blocked s t timeout :: before →
    k.Awaited t s timeout since
  /-- Who goes on behind a wait has been released from the one that it called last. -/
  goesOn : ∀ t s, k.running = some t → (k.tcb t).context.waitsAt t = some s →
    ∃ timeout since before manner, k.history = since ++ .blocked s t timeout :: before ∧
      (∀ ret, .returned t ret ∉ since) ∧ Ended t s timeout manner since ∧
      kSemaphore.resolveManner k = some (manner.result, k)
  /-- No two causes have the same result. -/
  distinct : Function.Injective UnblockManner.result
  /-- The timeout ends a wait in the call itself, or during the tick. -/
  expired : ∀ s t l, .expired s t :: l <:+ k.history →
    stay t l = some (.waiting s (some 0) 0) ∨ Timely t l
  /-- Who has been released from its wait, and who has returned from it. -/
  rested : ∀ t ∈ k.tcbList, (stay t k.history = some .free ∨
    ∃ s manner, stay t k.history = some (.released s manner)) → k.Rested t
  /-- A wait that finds its tokens. -/
  found : ∀ r s tokens timeout context, k.running = some r → (k.sem s).active = true →
    tokens ≤ (k.sem s).value →
    kSemaphore.wait s tokens context k = some (.done 0, k.acquire s r tokens) ∧
      kSemaphore.timedWait s timeout tokens context k = some (.done 0, k.acquire s r tokens)
  /-- What the calls return in their own step: 0 with a token, and without one `TIMEOUT` if they are
  to wait for no tick. -/
  atOnce : ∀ r s call, k.running = some r → call.waitsFor = some s → k.enabled (.ecall call) = true →
    (k.sem s).active = true →
    ∃ k', step k (.ecall call) = some k' ∧ (k.Takes s r k' ∨ k.Misses s r call.missed k')
  /-- A timeout of no ticks ends the wait in the call. -/
  zero : ∀ n, (k.sem (.opened n)).active = true → (k.sem (.opened n)).value = 0 →
    k.enabled (.ecall (.semTimedWait n 0)) = true →
    ∃ k', kSemaphore.timedWait (.opened n) 0 1 (.semWait (.opened n)) k = some (.done TIMEOUT, k')
  closed : ∀ s, .closed s ∈ k.history → k.blockedList s = [] ∧
    (∀ r call, k.running = some r → call.semaphore = some s → k.enabled (.ecall call) = true →
      step k (.ecall call) = some (k.leave r (some (.int ERR_SEM_DEAD)))) ∧
    ∀ tokens timeout context,
      kSemaphore.wait s tokens context k = some (.done ERR_SEM_DEAD, k) ∧
      kSemaphore.timedWait s timeout tokens context k = some (.done ERR_SEM_DEAD, k) ∧
      kSemaphore.tryWait s tokens k = some (ERR_SEM_DEAD, k) ∧
      kSemaphore.signal s tokens k = some (ERR_SEM_DEAD, k) ∧
      kSemaphore.close s k = some (ERR_SEM_DEAD, k)

/-! ## 2. Calls that do not block -/

theorem result_injective : Function.Injective UnblockManner.result := by
  intro m m' h
  cases m <;> cases m' <;> first | rfl | cases h

/-- Calls on a closed semaphore. -/
theorem calls_dead (h : (k.sem s).active = false) (tokens timeout : Nat) (context : Context) :
    kSemaphore.wait s tokens context k = some (.done ERR_SEM_DEAD, k) ∧
      kSemaphore.timedWait s timeout tokens context k = some (.done ERR_SEM_DEAD, k) ∧
      kSemaphore.tryWait s tokens k = some (ERR_SEM_DEAD, k) ∧
      kSemaphore.signal s tokens k = some (ERR_SEM_DEAD, k) ∧
      kSemaphore.close s k = some (ERR_SEM_DEAD, k) := by
  simp [kSemaphore.wait, kSemaphore.timedWait, kSemaphore.tryWait, kSemaphore.signal,
    kSemaphore.close, h]

theorem step_dead {r : Tid} {call : Syscall} (hd : (k.sem s).active = false)
    (hr : k.running = some r) (hs : call.semaphore = some s)
    (he : k.enabled (.ecall call) = true) :
    step k (.ecall call) = some (k.leave r (some (.int ERR_SEM_DEAD))) := by
  have hcalls := calls_dead hd 1
  have hm : call.handle k = some (.done (.int ERR_SEM_DEAD), k) := by
    cases call with
    | semClose n =>
      cases hs
      simp [Syscall.handle, (hcalls 0 .body).2.2.2.2]
    | semWait n =>
      cases hs
      simp [Syscall.handle, (hcalls 0 _).1, Outcome.word]
    | semSignal n =>
      cases hs
      simp [Syscall.handle, (hcalls 0 .body).2.2.2.1]
    | semTimedWait n timeout =>
      cases hs
      simp [Syscall.handle, (hcalls timeout.toNat _).2.1, Outcome.word]
    | semTryWait n =>
      cases hs
      simp [Syscall.handle, (hcalls 0 .body).2.2.1]
    | _ => cases hs
  have hvoid : call.retVoid = false := by
    cases call <;> first | rfl | cases hs
  exact step_done he hvoid hm hr

theorem Shows.timedWait_zero (h : Shows k a) {n : Nat} (ha : (k.sem (.opened n)).active = true)
    (hv : (k.sem (.opened n)).value = 0)
    (he : k.enabled (.ecall (.semTimedWait n 0)) = true) :
    ∃ k', kSemaphore.timedWait (.opened n) 0 1 (.semWait (.opened n)) k =
      some (.done TIMEOUT, k') := by
  obtain ⟨hc, hvalid⟩ := h.calls he nofun
  have hn : .opened n ∈ a.sems := h.semList_eq ▸ of_decide_eq_true hvalid
  obtain ⟨o, k', b, hm, -, -, ⟨ho, -⟩, -⟩ := timedWait_blocks h.toSim (.semWait hc hn)
    ((active_eq h.rep _).symm.trans ha) ((value_eq h.rep _).symm.trans_lt (hv ▸ Nat.one_pos)) rfl
    (Nat.two_pow_pos 64)
  obtain ⟨-, rfl⟩ := ho.resolve_left fun h => h.1 rfl
  exact ⟨k', hm⟩

/-! ## 3. The threads -/

theorem Shows.rested (h : Shows k a) (ht : t ∈ a.threads) (hr : a.Records)
    (hb : (a.thread t).blockedAtSem = none) (hna : t ∉ a.asleep) : k.Rested t := by
  have hthread := h.rep.thread_apply t
  constructor
  · exact (congrArg Thread.blockedAtSem hthread).trans hb
  · intro s hm
    rw [h.blockedList_eq] at hm
    cases hb.symm.trans ((h.inv.places.mem_queue t s).mp hm)
  · exact (congrArg Thread.tokensNeeded hthread).trans (hr.tokens t ht hb)
  · by_contra hs
    exact hna ((h.rep.sleeps t).mp (by simpa using hs))
  · exact h.rep.awake t hna
  · rwa [h.sleepList_eq]

theorem Shows.awaited (h : Shows k a) (hr : a.Records) {timeout : Option Nat}
    {since before : List Event} (he : k.history = since ++ .blocked s t timeout :: before) :
    k.Awaited t s timeout since := by
  have hhist : k.history = a.history := congrArg Core.history h.rep.core
  rw [hhist] at he
  have hdrowsy : a.drowsy t = none := Sys.drowsy_none (by rw [h.idle.activity]; rfl)
  have hcases := stay_called (he ▸ hr.isSome t)
  rw [← he] at hcases
  rcases hcases with ⟨hx, hund⟩ | ⟨manner, hx, hend⟩ | ⟨later, manner, earlier, rfl, hend⟩
  · obtain ⟨ht, hrec⟩ := hr.recorded hx nofun
    obtain ⟨hb, halarm⟩ := hrec.fits
    refine .waiting hund ?_ ?_ fun n hn => ?_
    · rw [h.blockedList_eq]
      exact (h.inv.places.mem_queue t s).mpr hb
    · rw [h.sleepList_eq]
      cases timeout with
      | none => exact iff_of_false halarm.1 Bool.false_ne_true
      | some n =>
        obtain ⟨d, hd, -⟩ := hrec.alarm hdrowsy rfl
        exact iff_of_true (Sys.mem_asleep.mpr ⟨d, hd⟩) rfl
    · obtain rfl := hn
      obtain ⟨d, hd, hn⟩ := hrec.alarm hdrowsy rfl
      have := h.inv.ticks.pos (by rw [h.idle.activity]; nofun) _ hd
      omega
  · obtain ⟨ht, hrec⟩ := hr.recorded hx nofun
    obtain ⟨hb, hna, hm⟩ := hrec.fits
    have hmanner : (k.tcb t).unblockManner = manner :=
      (congrArg Thread.unblockManner (h.rep.thread_apply t)).trans hm
    have hwaits : (a.thread t).context.waitsAt t = some s := by
      rw [← Sys.place_of_none h.idle.activity, ← Sys.heading_code h.idle.stage, hrec.heading]
      rfl
    have hresolves : k.running = some t →
        kSemaphore.resolveManner k = some (manner.result, k) := fun hrun => by
      obtain rfl := Option.some.inj (h.rep.running.symm.trans hrun)
      rw [resolveManner_apply h.rep, hm]
    refine .released hend hmanner ?_ ?_ (h.rested ht hr hb hna) hresolves fun hrun hc => ?_
    · rwa [congrArg Thread.context (h.rep.thread_apply t)]
    · rw [h.rep.running, h.readyList_eq]
      rcases h.inv.classified.all t ht with rfl | rfl | hf | hready | hblocked | hasleep | ⟨-, hctx⟩
      · cases h.inv.contexts.idle.1.symm.trans hwaits
      · exact Or.inl rfl
      · cases (hr.finished_heading h.inv ht hf).symm.trans hrec.heading
      · exact Or.inr hready
      · exact absurd hb hblocked
      · exact absurd hasleep hna
      · rw [hctx] at hwaits
        cases hwaits
    · obtain ⟨k', hstep, hret, hhist', -⟩ := resume_wait hrun hc (hresolves hrun)
      exact ⟨k', hstep, hret, hhist'⟩
  · exact .returned rfl hend

/-- A thread that goes on behind a wait has been released from it. -/
theorem Shows.goesOn (h : Shows k a) (hr : a.Records) (hrun : k.running = some t)
    (hw : (k.tcb t).context.waitsAt t = some s) :
    ∃ timeout since before manner, k.history = since ++ .blocked s t timeout :: before ∧
      (∀ ret, .returned t ret ∉ since) ∧ Ended t s timeout manner since ∧
      kSemaphore.resolveManner k = some (manner.result, k) := by
  obtain rfl := Option.some.inj (h.rep.running.symm.trans hrun)
  obtain ⟨x, hx⟩ := hr.threads _ h.inv.alive.running_mem
  have hsem : x.sem = some s := by
    rw [← hx.heading, Sys.heading_code h.idle.stage, Sys.place_of_none h.idle.activity, ← hw]
    exact congrArg (Context.waitsAt a.running)
      (congrArg Thread.context (h.rep.thread_apply a.running)).symm
  have hstay := hx.stay
  rw [← show k.history = a.history from congrArg Core.history h.rep.core] at hstay
  obtain ⟨timeout, since, before, he, hnot⟩ := stay_behind hstay hsem
  cases h.awaited hr he with
  | waiting _ hqueue =>
    rw [h.blockedList_eq] at hqueue
    cases (h.inv.free h.idle.activity).1.symm.trans ((h.inv.places.mem_queue _ _).mp hqueue)
  | released hend _ _ _ _ hresolves =>
    exact ⟨timeout, since, before, _, he, hnot, hend, hresolves hrun⟩
  | @returned later earlier manner hsplit _ =>
    have hm : .returned a.running manner.result ∈ since := by
      rw [hsplit]
      exact List.mem_append_right _ List.mem_cons_self
    exact absurd hm (hnot _)

/-! ## 4. The result -/

/-- **Every blocked wait is ended by one cause, and returns its result.**  In every reachable
state, for every call that has blocked at a semaphore: it still waits, or exactly one of a signal,
a timeout and a close has ended it, and what is in `a0` when the thread is back in its own code
says which. -/
theorem ends_waits (h : Reachable k) : k.EndsWaits := by
  obtain ⟨raw, rawBuffer, a, hsteps, hshow⟩ := h.shows
  have hr := hsteps.invariant (fun hi h hs => Sys.Records.step h hi hs)
    (consoleReady_inv raw rawBuffer) (consoleReady_records raw rawBuffer)
  obtain ⟨a', hshow', hr', hp⟩ := h.sleepers
  have hlog := hsteps.invariant (fun hi h hs => Sys.Logged.step h hi hs)
    (consoleReady_inv raw rawBuffer) (consoleReady_logged raw rawBuffer)
  have hhist : k.history = a.history := congrArg Core.history hshow.rep.core
  constructor
  · exact fun t s timeout since before he => hshow.awaited hr he
  · exact fun t s hrun hw => hshow.goesOn hr hrun hw
  · exact result_injective
  · exact fun s t l hl => hp.expired s t l (congrArg Core.history hshow'.rep.core ▸ hl)
  · intro t ht hstay
    rw [hshow.tcbList_eq] at ht
    rw [hhist] at hstay
    obtain ⟨x, hx⟩ := hr.threads t ht
    have hf := hx.fits
    rcases hstay with hfree | ⟨s, manner, hrel⟩
    · obtain rfl := Option.some.inj (hx.stay.symm.trans hfree)
      exact hshow.rested ht hr hf.1 hf.2
    · obtain rfl := Option.some.inj (hx.stay.symm.trans hrel)
      exact hshow.rested ht hr hf.1 hf.2.1
  · intro r s tokens timeout context hrun ha hv
    have hfound := calls_found hrun ha hv timeout context
    exact ⟨hfound.1, hfound.2.1⟩
  · exact fun r s call hrun hw he ha => hshow.waitsFor hrun hw he ha
  · exact fun n ha hv he => hshow.timedWait_zero ha hv he
  · intro s hc
    rw [hhist] at hc
    have hdead : (a.sem s).active = false := by
      refine (hlog.dead s hc).resolve_right fun hl => ?_
      rw [hshow.idle.activity] at hl
      cases hl
    have hactive : (k.sem s).active = false :=
      (congrArg Sem.active (hshow.rep.sem_apply s)).trans hdead
    refine ⟨?_, fun r call hr hs he => step_dead hactive hr hs he,
      fun tokens timeout context => calls_dead hactive tokens timeout context⟩
    rw [hshow.blockedList_eq, List.eq_nil_iff_forall_not_mem]
    intro t ht
    have hw := hshow.inv.waits.waitsAt t s ((hshow.inv.places.mem_queue t s).mp ht)
    cases hdead.symm.trans hw.active

/-- `main` waits for nine ticks at most, and another thread signals before; then `main` waits again,
and the semaphore is closed. -/
def waitTwice : List Act :=
  [.ecall (.semOpen 0 true), .ecall (.threadCreate true false (.ok (zeroMessage 4))),
    .ecall (.semTimedWait 22 9)] ++
  consoleSlices ++ [.resume, .ecall (.semSignal 22), .ecall .threadDispatch] ++
  consoleSlices ++ [.resume, .ecall (.semWait 22), .resume, .ecall (.semClose 22),
    .ecall .threadDispatch] ++
  consoleSlices ++ [.resume]

theorem ends_waits_run : ∃ k, runFromZero waitTwice = some k ∧ k.EndsWaits := by
  obtain ⟨k₀, k, hboot, hrun, hk⟩ := exists_run waitTwice (by decide +kernel)
  exact ⟨k, hk, ends_waits ⟨_, _, k₀, waitTwice, hboot, hrun⟩⟩

end Os1Kernel
