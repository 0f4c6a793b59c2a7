/-
# Joining all children

`joinAll` returns when all children have finished, at once if they already have.  With a timeout it
returns after its last tick at the latest, with the number of those that have not.

* The counter of a thread is the number of its children that have not finished, and a thread that
  is blocked in `joinAll` needs as many tokens: the wait takes the counter as the number of tokens,
  and each child that finishes takes one off both.  So the last of them releases the thread, and
  none before it (`Spec.Children`, `Spec.JoinAll`).
* No token is ever left in the semaphore (`value`): a child signals only while its parent is
  blocked there.  A timeout takes the thread off the list together with what it still needs, so
  that a second call starts afresh.
* `left` is about the number that `timedJoinAll` returns.  It is counted when the thread goes on,
  and not when it is released, so that children who finish in between are not counted.

The clause `waits` ties every call that has blocked to the event that ends it, as for any other
wait (`Results.Waits`).
-/
import Os1Kernel.Results.Join
import Os1Kernel.Spec.JoinAll

namespace Os1Kernel

open Simulation

variable {k : Kernel} {a : Sys} {P t : Tid} (raw : Tid → Message)
  (rawBuffer : BufferId → Vector UInt8 bufferLength)

/-! ## 1. The statement -/

/-- How many children of `p` have not finished. -/
def Kernel.unfinishedChildren (k : Kernel) (p : Tid) : Nat :=
  (k.children p).countP fun t => !(k.tcb t).finished

/-- What the calls of `joinAll` and `timedJoinAll` by `P` wait for. -/
structure Kernel.JoinsAll (k : Kernel) (P : Tid) : Prop where
  children : ∀ t, t ∈ k.children P ↔ ∃ x, .created t (some P) x ∈ k.history
  counter : (k.tcb P).finished = false → (k.tcb P).numOfActiveChildren = k.unfinishedChildren P
  value : (k.sem (.joinAll P)).value = 0
  /-- If all children have finished, the calls return at once. -/
  late : k.running = some P → k.unfinishedChildren P = 0 →
    (k.enabled (.ecall .joinAll) = true → ∃ k', handleJoinAll k = some (.done (.int 0), k')) ∧
    ∀ n, k.enabled (.ecall (.timedJoinAll n)) = true →
      ∃ k', handletimedJoinAll n.toNat k = some (.done (.int 0), k')
  /-- If they have not, the calls block. -/
  early : k.running = some P → k.unfinishedChildren P ≠ 0 →
    (k.enabled (.ecall .joinAll) = true → ∃ k' l, handleJoinAll k = some (.switched, k') ∧
      k'.history = l ++ .blocked (.joinAll P) P none :: k.history) ∧
    ∀ n, k.enabled (.ecall (.timedJoinAll n)) = true → ∃ o k' l,
      handletimedJoinAll n.toNat k = some (o, k') ∧
      (n.toNat ≠ 0 ∧ o = .switched ∨ n.toNat = 0 ∧ o = .done (.int (k'.unfinishedChildren P))) ∧
      k'.history = l ++ .blocked (.joinAll P) P (some n.toNat) :: k.history
  /-- A call that blocked is ended once. -/
  waits : ∀ timeout since before, k.history = since ++ .blocked (.joinAll P) P timeout :: before →
    k.Awaited P (.joinAll P) timeout since
  /-- It is not ended as long as a child has not finished, and lacks a token for each of these. -/
  missing : ∀ t ∈ k.blockedList (.joinAll P), t = P ∧ 0 < k.unfinishedChildren P ∧
    (k.tcb P).tokensNeeded = k.unfinishedChildren P
  /-- It is ended where the last child finishes, -/
  granted : ∀ t l, .granted (.joinAll P) t :: l <:+ k.history → t = P ∧ LastChild P l
  /-- or by its timeout before that, -/
  expired : ∀ t l, .expired (.joinAll P) t :: l <:+ k.history → t = P ∧ Pending P l
  /-- and by nothing else. -/
  dismissed : ∀ t, .dismissed (.joinAll P) t ∉ k.history
  /-- `timedJoinAll` returns how many have not finished when it goes on. -/
  left : k.running = some P → (k.tcb P).context = .timedJoinAll →
    ∃ k', step k .resume = some k' ∧ (k'.tcb P).context = .body ∧
      (k'.tcb P).a0 = .int (k.unfinishedChildren P)

/-! ## 2. The start -/

theorem consoleReady_registered : (Sys.consoleReady raw rawBuffer).Registered where
  born t ht := by
    rw [consoleReady_threads] at ht
    simp only [List.mem_cons, List.not_mem_nil, or_false] at ht
    rcases ht with rfl | rfl
    · exact ⟨false, by simp [consoleReady_history, consoleReady_master, masterThread, newThread]⟩
    · exact ⟨true, by simp [consoleReady_history, consoleReady_idle, idleThread, newThread]⟩
  created t p x hc := by
    have hcreated : (t = 1 ∧ p = some 0 ∧ x = true) ∨ t = 0 ∧ p = none ∧ x = false := by
      simpa [consoleReady_history, openings, ownValues, consoleValues] using hc
    rw [consoleReady_threads]
    rcases hcreated with ⟨rfl, rfl, rfl⟩ | ⟨rfl, rfl, rfl⟩
    · exact ⟨by simp, rfl⟩
    · exact ⟨by simp, rfl⟩
  idle := rfl

theorem consoleReady_departs : (Sys.consoleReady raw rawBuffer).Departs where
  since h := nomatch h
  handing _ _ h := nomatch h

theorem consoleReady_gathered : (Sys.consoleReady raw rawBuffer).Gathered where
  lt p hp := by
    rw [consoleReady_threads] at hp
    simp only [List.mem_cons, List.not_mem_nil, or_false] at hp
    rcases hp with rfl | rfl
    · exact Nat.one_lt_two_pow (by decide)
    · exact Nat.two_pow_pos 64
  tokens p hb := by
    cases (consoleReady_free raw rawBuffer p).1.symm.trans hb
  events e l h := by
    rcases consoleReady_events raw rawBuffer e (h.mem List.mem_cons_self) with
      ⟨s, v, rfl⟩ | ⟨u, p, x, rfl⟩ <;> trivial

variable {raw rawBuffer}

theorem Reachable.attended (h : Reachable k) : ∃ a, Shows k a ∧ a.Attended := by
  obtain ⟨raw, rawBuffer, a, hsteps, hshow⟩ := h.shows
  exact ⟨a, hshow, hsteps.invariant (fun hi h hs => Sys.Attended.step h hi hs)
    (consoleReady_inv raw rawBuffer)
    ⟨consoleReady_accompanied raw rawBuffer, consoleReady_registered raw rawBuffer,
      consoleReady_departs raw rawBuffer, consoleReady_gathered raw rawBuffer⟩⟩

/-! ## 3. The children -/

theorem Sim.numOfActiveChildren_eq (h : Sim k a) (p : Tid) :
    (k.tcb p).numOfActiveChildren = (a.thread p).numOfActiveChildren :=
  congrArg Thread.numOfActiveChildren (h.rep.thread_apply p)

/-- Where nobody is leaving its parent, the counter is the number of the children that have not
finished. -/
theorem Sim.counter (h : Sim k a) (ha : a.Attended) (hst : a.stage.isLeft = false)
    (hP : P ∈ a.threads) (hm : a.master ≠ some P) (hf : (a.thread P).finished = false) :
    (a.thread P).numOfActiveChildren = k.unfinishedChildren P :=
  ((ha.counts.of_master ha.registered hP hm).exact hf).trans (h.children_unfinished hst P).symm

theorem Shows.mem_children (h : Shows k a) (hr : a.Registered) :
    t ∈ k.children P ↔ ∃ x, .created t (some P) x ∈ k.history := by
  rw [h.toSim.children, List.mem_filter, decide_eq_true_eq,
    show k.history = a.history from congrArg Core.history h.rep.core]
  constructor
  · rintro ⟨ht, hp⟩
    exact hp ▸ hr.born t ht
  · rintro ⟨x, hx⟩
    exact hr.created t _ x hx

/-! ## 4. The calls -/

/-- Without children the calls find the tokens that they ask for. -/
theorem joinAll_late (hr : k.running = some P) (hs : (k.tcb P).semJoinAll = some (.joinAll P))
    (ha : (k.sem (.joinAll P)).active = true) (hn : (k.tcb P).numOfActiveChildren = 0) :
    (∃ k', handleJoinAll k = some (.done (.int 0), k')) ∧
      ∀ n, ∃ k', handletimedJoinAll n k = some (.done (.int 0), k') := by
  constructor
  · simp [handleJoinAll, kSemaphore.wait, kSemaphore.acquire, kSemaphore.resolveManner, getRunning,
      follow, Kernel.setTcb, Kernel.setSem, hr, hs, ha, hn]
  · simp [handletimedJoinAll, childrenLeft, kSemaphore.timedWait, kSemaphore.acquire,
      kSemaphore.resolveManner, getRunning, follow, Kernel.setTcb, Kernel.setSem, hr, hs, ha, hn]

/-- `timedJoinAll` reads the counter when it goes on. -/
theorem timedJoinAll_left (hr : k.running = some P) (hc : (k.tcb P).context = .timedJoinAll) :
    ∃ k', step k .resume = some k' ∧ (k'.tcb P).context = .body ∧
      (k'.tcb P).a0 = .int (k.tcb P).numOfActiveChildren := by
  have he : k.enabled .resume = true := by simp [Kernel.enabled, hr, hc]
  rw [step, if_pos he]
  simp [exec, resumeAt, endWait, leaveWith, leave, childrenLeft, kSemaphore.resolveManner,
    getRunning, Kernel.setTcb, hr, hc]

/-! ## 5. The result -/

/-- **Joining all children waits for those that have not finished.**  In every reachable state the
counter of a thread is the number of its unfinished children, a call of `joinAll` or `timedJoinAll`
waits exactly if there are some, and its wait is ended by the last of them or by its timeout. -/
theorem joins_all (h : Reachable k) (hP : P ∈ k.tcbList) (hmaster : k.master ≠ some P) :
    k.JoinsAll P := by
  obtain ⟨a, hshow, ha⟩ := h.attended
  have hi := hshow.inv
  have hhist : k.history = a.history := congrArg Core.history hshow.rep.core
  rw [hshow.tcbList_eq] at hP
  rw [show k.master = a.master from congrArg Core.master hshow.rep.core] at hmaster
  have hleft : a.stage.isLeft = false := by rw [hshow.idle.stage]; rfl
  have hvalue := ha.spent.value P hP (.joinAll P) (SemPtr.mem_own.mpr rfl) rfl
  have hcounter : (a.thread P).finished = false →
      (a.thread P).numOfActiveChildren = k.unfinishedChildren P :=
    hshow.toSim.counter ha hleft hP hmaster
  have hnum := hshow.toSim.numOfActiveChildren_eq P
  have hactive : (a.thread P).finished = false → (a.sem (.joinAll P)).active = true := fun hf =>
    hi.alive.own_active P hP hf (fun _ => by rw [hshow.idle.stage]; rfl) _ (SemPtr.mem_own.mpr rfl)
  have hevents : ∀ e l, e :: l <:+ k.history → e.joinAllOk a.master l := fun e l hl =>
    ha.gathered.events e l (hhist ▸ hl)
  constructor
  · exact fun t => hshow.mem_children ha.registered
  · intro hf
    rw [hnum]
    exact hcounter ((congrArg Thread.finished (hshow.rep.thread_apply P)).symm.trans hf)
  · exact (value_eq hshow.rep _).trans hvalue
  · intro hr hz
    obtain rfl := Option.some.inj (hshow.rep.running.symm.trans hr)
    have hcalls : a.Calls → _ := fun hc => by
      have hf := hi.contexts.unfinished hc.activity hc.not_idle
      refine joinAll_late hr ?_ ((active_eq hshow.rep _).trans (hactive hf))
        (hnum.trans ((hcounter hf).trans hz))
      exact (congrArg Thread.semJoinAll (hshow.rep.thread_apply _)).trans (hi.names.pointers _ hP).2.1
    exact ⟨fun he => (hcalls (hshow.calls he nofun).1).1,
      fun n he => (hcalls (hshow.calls he nofun).1).2 n.toNat⟩
  · intro hr hne
    obtain rfl := Option.some.inj (hshow.rep.running.symm.trans hr)
    have hless : a.Calls → (a.sem (.joinAll a.running)).active = true ∧
        (a.sem (.joinAll a.running)).value < (a.thread a.running).numOfActiveChildren := fun hc => by
      have hf := hi.contexts.unfinished hc.activity hc.not_idle
      rw [hvalue, hcounter hf]
      exact ⟨hactive hf, Nat.pos_of_ne_zero hne⟩
    constructor
    · intro he
      obtain ⟨hc, -⟩ := hshow.calls he nofun
      obtain ⟨hopen, hlt⟩ := hless hc
      obtain ⟨o, k', b, hm, -, hsim, ⟨rfl, -, hmiss⟩ | ⟨-, ret, ⟨hret, -⟩, -⟩⟩ :=
        handleJoinAll_waits hshow.toSim (wait_blocks hshow.toSim (.joinAll hc) hopen hlt)
      · obtain ⟨l, hl, -⟩ := hmiss.history
        refine ⟨k', l, hm, ?_⟩
        rw [show k'.history = b.history from congrArg Core.history hsim.rep.core, hl, hhist]
      · cases hret
    · intro n he
      obtain ⟨hc, -⟩ := hshow.calls he nofun
      obtain ⟨hopen, hlt⟩ := hless hc
      obtain ⟨o, k', b, hm, hsteps, hsim, hpost⟩ := handletimedJoinAll_waits hshow.toSim
        (timedWait_blocks hshow.toSim (.timedJoinAll hc) hopen hlt rfl n.toNat_lt)
      have hhist' : k'.history = b.history := congrArg Core.history hsim.rep.core
      rcases hpost with ⟨rfl, ⟨hx, -⟩, hmiss⟩ | ⟨rfl, ret, ⟨hx, hact, hstage, hrun⟩, hmiss⟩
      · obtain ⟨l, hl, -⟩ := hmiss.history
        obtain ⟨hn, -⟩ := hx.resolve_right fun he => nomatch he.2
        exact ⟨_, k', l, hm, Or.inl ⟨hn, rfl⟩, by rw [hhist', hl, hhist]⟩
      · obtain ⟨l, hl, -⟩ := hmiss.history
        obtain ⟨hn, -⟩ := hx.resolve_left fun he => nomatch he.2
        obtain ⟨hb, hmaster'⟩ := (show a.Steps b from hsteps).invariant
          (P := fun b => b.Attended ∧ b.master = a.master)
          (fun hi h hs => ⟨h.1.step hi hs, hs.master.trans h.2⟩) hi ⟨ha, rfl⟩
        have hcount := hsim.counter hb (by rw [hstage]; rfl) hsim.inv.alive.running_mem
          (by rw [hmaster', hrun]; exact hmaster)
          (hsim.inv.contexts.unfinished hact (hsim.inv.contexts.past hstage).1)
        refine ⟨_, k', l, hm, Or.inr ⟨hn, ?_⟩, by rw [hhist', hl, hhist]⟩
        rw [hcount, hrun]
  · exact fun timeout since before he => hshow.awaited ha.records he
  · intro t ht
    rw [hshow.blockedList_eq] at ht
    have hb := (hi.places.mem_queue t _).mp ht
    obtain rfl := Sys.waits_joinAll hi hb
    have hf := (hi.places.live t (Or.inr (Or.inl (by rw [hb]; nofun)))).2.2
    have htokens := ha.gathered.tokens t hb
    rw [hshow.idle.activity, hcounter hf] at htokens
    refine ⟨rfl, (hi.waits.waitsAt t _ hb).tokens.trans_eq htokens, ?_⟩
    exact (congrArg Thread.tokensNeeded (hshow.rep.thread_apply t)).trans htokens
  · exact fun t l hl => hevents (.granted (.joinAll P) t) l hl hmaster
  · exact fun t l hl => hevents (.expired (.joinAll P) t) l hl hmaster
  · intro t hm
    obtain ⟨later, l, he⟩ := List.append_of_mem hm
    exact ha.joined.events (.dismissed (.joinAll P) t) l ⟨later, (hhist.symm.trans he).symm⟩
  · intro hr hctx
    obtain rfl := Option.some.inj (hshow.rep.running.symm.trans hr)
    have hidle : a.running ≠ a.idle := fun he => by
      have hwaits := hi.contexts.idle.1
      rw [← he, ← congrArg Thread.context (hshow.rep.thread_apply a.running)] at hwaits
      cases (congrArg (Context.waitsAt a.running) hctx).symm.trans hwaits
    rw [← hcounter (hi.contexts.unfinished hshow.idle.activity hidle), ← hnum]
    exact timedJoinAll_left hr hctx

/-- A thread has two children.  One finishes before its `timedJoinAll` expires, the other is killed
while it waits in `joinAll`. -/
def twoChildren : List Act :=
  [.ecall (.threadCreate true false (.ok (zeroMessage 0))), .ecall (.timeSleep 50), .resume,
    .ecall (.timeSleep 50), .resume, .ecall (.timeSleep 50), .resume,
    .ecall (.threadCreate true false (.ok (zeroMessage 0))),
    .ecall (.threadCreate true false (.ok (zeroMessage 0))), .ecall (.timedJoinAll 1), .resume,
    .ecall .threadExit, .resume, .timer, .ecall .threadDispatch, .resume, .ecall .joinAll, .resume,
    .exception 2, .resume]

theorem joins_all_run : ∃ k, runFromZero twoChildren = some k ∧ k.JoinsAll 4 := by
  obtain ⟨k₀, k, hboot, hrun, hk⟩ := exists_run twoChildren (by decide +kernel)
  have he : (runFromZero twoChildren).any (fun k => 4 ∈ k.tcbList ∧ k.master ≠ some 4) = true := by
    decide +kernel
  rw [hk] at he
  obtain ⟨hP, hmaster⟩ := of_decide_eq_true he
  exact ⟨k, hk, joins_all ⟨_, _, k₀, twoChildren, hboot, hrun⟩ hP hmaster⟩

end Os1Kernel
