/-
# Semaphores with any number of tokens

The system calls wait for one token and signal one token, but `kSemaphore` takes any number of
them.  The operations still work on lists in good order: `Orderly` is the part of the invariant
that does not depend on how many tokens a call takes, and every operation keeps it, whatever the
numbers.  In particular the loops end.

* `Orderly` has the places of the threads, the order and the bounds of the deadlines, and that the
  threads on the lists exist.  What it leaves out is what the calls owe each other, which
  `Spec.Invariant` states for waits that need a single token.
* `Goes` is the counterpart of `Does`: a program ends in a state that represents an orderly one.
  There is no step relation behind it, and none is needed, since nothing is claimed about what the
  semaphores owe.
* `Serves` is what a signal does, whatever the numbers: the first waiters of the semaphore were
  made ready, as many as the tokens sufficed for, in their order.

As in `Os1Kernel.Refine.Operations`, an operation is taken apart along the steps of its source; the
abstract states in between are written out, and only their order is remembered.
-/
import Os1Kernel.Refine.Operations

namespace Os1Kernel

open Linked DeltaList Simulation

variable {c : Kernel} {a b : Sys} {t : Tid} {s : SemPtr}

/-! ## 1. What is kept -/

/-- The part of the invariant that does not count tokens. -/
structure Sys.Orderly (a : Sys) : Prop where
  places : a.Places
  ticks : a.Ticks
  threads_lt : ∀ t ∈ a.threads, t < a.IDCounter
  running_mem : a.running ∈ a.threads
  idle_mem : a.idle ∈ a.threads
  finished : (a.thread a.running).finished = true → a.running = a.idle

namespace Sys.Orderly

theorem free (h : a.Orderly) (ha : a.activity = .none) :
    (a.thread a.running).blockedAtSem = none ∧ a.running ∉ a.asleep :=
  h.places.running_free (Sys.not_leaving_of ha rfl)

theorem live (h : a.Orderly) (hi : a.running ≠ a.idle) :
    a.running ∈ a.threads ∧ a.running ≠ a.idle ∧ (a.thread a.running).finished = false :=
  ⟨h.running_mem, hi, Bool.eq_false_iff.mpr fun hf => hi (h.finished hf)⟩

theorem canRelease (h : a.Orderly) (ht : (a.thread t).blockedAtSem ≠ none ∨ t ∈ a.asleep) :
    CanRelease a t :=
  h.places.canRelease h.threads_lt h.ticks.lt ht

/-- The lists stay, and nobody finishes. -/
theorem same (h : a.Orderly) (hl : a.activity.isLeaving = false) (hready : b.ready = a.ready)
    (hqueue : b.queue = a.queue) (hasleep : b.asleep = a.asleep) (hticks : b.Ticks)
    (hthread : ∀ t, (b.thread t).blockedAtSem = (a.thread t).blockedAtSem ∧
      (b.thread t).finished = (a.thread t).finished)
    (hrun : b.running = a.running) (hidle : b.idle = a.idle) (hthreads : b.threads = a.threads)
    (hid : b.IDCounter = a.IDCounter) : b.Orderly where
  places := h.places.same hl hready hqueue hasleep (fun t => (hthread t).1) hrun hidle
    fun t _ ht hf => ⟨hthreads ▸ ht, (hthread t).2.trans hf⟩
  ticks := hticks
  threads_lt := by
    rw [hthreads, hid]
    exact h.threads_lt
  running_mem := by
    rw [hrun, hthreads]
    exact h.running_mem
  idle_mem := by
    rw [hidle, hthreads]
    exact h.idle_mem
  finished := by
    rw [hrun, hidle, (hthread _).2]
    exact h.finished

/-- Between two operations semaphores change, and of the threads what belongs to no list. -/
theorem noted (h : a.Orderly) (ha : a.activity = .none) {sem : SemPtr → Sem}
    {thread : Tid → Thread} {history : List Event}
    (hthread : ∀ t, (thread t).blockedAtSem = (a.thread t).blockedAtSem ∧
      (thread t).finished = (a.thread t).finished) :
    Orderly { a with sem := sem, thread := thread, history := history } :=
  h.same (Sys.not_leaving_of ha rfl) rfl rfl rfl
    ⟨h.ticks.sorted, h.ticks.lt, h.ticks.pos, h.ticks.next⟩ hthread rfl rfl rfl rfl

/-- The same, for the update of one thread. -/
theorem noted_update (h : a.Orderly) (ha : a.activity = .none) {sem : SemPtr → Sem} {u : Tid}
    {x : Thread} {history : List Event} (hb : x.blockedAtSem = (a.thread u).blockedAtSem)
    (hf : x.finished = (a.thread u).finished) :
    Orderly { a with sem := sem, thread := Function.update a.thread u x, history := history } :=
  h.noted ha fun t =>
    ⟨Sys.update_field Thread.blockedAtSem hb t, Sys.update_field Thread.finished hf t⟩

/-- A waiter is released. -/
theorem unblock (h : a.Orderly) (hl : a.activity.isLeaving = false)
    (hb : (a.thread t).blockedAtSem = some s) (manner : UnblockManner) (e : Event) :
    Orderly { (a.unblock s t manner).emit e with ready := a.ready ++ [t] } where
  places := h.places.unblock hl hb manner e a.activity
  ticks := ⟨h.ticks.sorted.sublist List.filter_sublist,
    fun p hp => h.ticks.lt p (List.mem_of_mem_filter hp),
    fun ha p hp => h.ticks.pos ha p (List.mem_of_mem_filter hp), h.ticks.next⟩
  threads_lt := h.threads_lt
  running_mem := h.running_mem
  idle_mem := h.idle_mem
  finished := fun hf => h.finished ((Sys.update_field Thread.finished (by rfl) _).symm.trans hf)

/-- A sleeper that only slept is made ready. -/
theorem wake (h : a.Orderly) (hl : a.activity.isLeaving = false) (ht : t ∈ a.asleep)
    (hb : (a.thread t).blockedAtSem = none) :
    Orderly { (a.awake t).emit (.woken t) with ready := a.ready ++ [t] } where
  places := by
    have hnq : ∀ s, t ∉ a.queue s := by
      intro s hq
      rw [h.places.mem_queue, hb] at hq
      cases hq
    exact h.places.freed hl (Or.inr ht) rfl (fun s => (List.erase_of_not_mem (hnq s)).symm)
      Sys.asleep_awake hb (fun _ _ => rfl) rfl rfl rfl fun _ => rfl
  ticks := ⟨h.ticks.sorted.sublist List.filter_sublist,
    fun p hp => h.ticks.lt p (List.mem_of_mem_filter hp),
    fun ha p hp => h.ticks.pos ha p (List.mem_of_mem_filter hp), h.ticks.next⟩
  threads_lt := h.threads_lt
  running_mem := h.running_mem
  idle_mem := h.idle_mem
  finished := h.finished

/-- A sleeper leaves the sleep list, and is not made ready. -/
theorem awake (h : a.Orderly) (t : Tid) : Orderly (a.awake t) where
  places := by
    have hsub : ∀ u ∈ (a.awake t).asleep, u ∈ a.asleep := fun u hu => by
      rw [Sys.asleep_awake] at hu
      exact List.mem_of_mem_filter hu
    exact
      { h.places with
        asleep_nodup := by
          rw [Sys.asleep_awake]
          exact h.places.asleep_nodup.filter _
        ready_awake := fun u hu => ⟨(h.places.ready_awake u hu).1,
          fun hm => (h.places.ready_awake u hu).2 (hsub u hm)⟩
        running_free := fun hl => ⟨(h.places.running_free hl).1,
          fun hm => (h.places.running_free hl).2 (hsub _ hm)⟩
        leaving_awake := fun ctx n hl hm => h.places.leaving_awake ctx n hl (hsub _ hm)
        live := fun u hu => h.places.live u (hu.imp_right (Or.imp_right (hsub u))) }
  ticks := ⟨h.ticks.sorted.sublist List.filter_sublist,
    fun p hp => h.ticks.lt p (List.mem_of_mem_filter hp),
    fun ha p hp => h.ticks.pos ha p (List.mem_of_mem_filter hp), h.ticks.next⟩
  threads_lt := h.threads_lt
  running_mem := h.running_mem
  idle_mem := h.idle_mem
  finished := h.finished

/-- The first ready thread leaves the ready list, and is not chosen. -/
theorem dropReady (h : a.Orderly) : Orderly { a with ready := a.ready.tail } where
  places := { h.places with
    ready_nodup := h.places.ready_nodup.tail
    ready_awake := fun u hu => h.places.ready_awake u (List.mem_of_mem_tail hu)
    running_ready := fun hm => h.places.running_ready (List.mem_of_mem_tail hm)
    live := fun u hu => h.places.live u (hu.imp_left List.mem_of_mem_tail) }
  ticks := ⟨h.ticks.sorted, h.ticks.lt, h.ticks.pos, h.ticks.next⟩
  threads_lt := h.threads_lt
  running_mem := h.running_mem
  idle_mem := h.idle_mem
  finished := h.finished

/-- The running thread joins the waiters of a semaphore, and is about to leave. -/
theorem block (h : a.Orderly) (ha : a.activity = .none) (hi : a.running ≠ a.idle) (s : SemPtr)
    (n : Nat) (timeout : Option Nat) (ht : ∀ n ∈ timeout, n < 2 ^ 64) (ctx : Context) (e : Event)
    (f : Sem → Sem) : Orderly { ((a.setSem s f).emit e).enqueue s a.running n with
      activity := .leaving ctx timeout } where
  places := h.places.joined (Sys.not_leaving_of ha rfl) (h.live hi) rfl rfl rfl
    (Sys.enqueue_self _)
    (fun u hu => congrArg Thread.blockedAtSem (Function.update_of_ne hu _ _)) rfl rfl rfl
    (fun u => Sys.update_field Thread.finished (by rfl) u) rfl
  ticks := ⟨h.ticks.sorted, h.ticks.lt, fun _ => h.ticks.pos (by simp [ha]), by
    rintro _ m ⟨⟩
    exact ht m rfl⟩
  threads_lt := h.threads_lt
  running_mem := h.running_mem
  idle_mem := h.idle_mem
  finished := fun hf => h.finished ((Sys.update_field Thread.finished (by rfl) _).symm.trans hf)

/-- The running thread falls asleep. -/
theorem fallAsleep (h : a.Orderly) {ctx : Context} {n : Nat}
    (ha : a.activity = .leaving ctx (some n)) (h0 : n ≠ 0) (hi : a.running ≠ a.idle) :
    Orderly { (a.fallAsleep a.running n).emit (.slept a.running n) with
      activity := .leaving ctx none } where
  places := h.places.slept ha (h.live hi) rfl rfl Sys.asleep_fallAsleep rfl rfl rfl rfl rfl
  ticks := by
    have hmem : ∀ p ∈ DeltaList.insertBy a.running n a.sleepers,
        p = (a.running, n) ∨ p ∈ a.sleepers := fun p hp => DeltaList.mem_insertBy.mp hp
    refine ⟨DeltaList.insertBy_sorted h.ticks.sorted, fun p hp => ?_, fun _ p hp => ?_, nofun⟩
    · rcases hmem p hp with rfl | hp
      · exact h.ticks.next ctx n ha
      · exact h.ticks.lt p hp
    · rcases hmem p hp with rfl | hp
      · exact Nat.one_le_iff_ne_zero.mpr h0
      · exact h.ticks.pos (by rw [ha]; simp) p hp
  threads_lt := h.threads_lt
  running_mem := h.running_mem
  idle_mem := h.idle_mem
  finished := h.finished

/-- The wait of a thread that was about to leave is over at once. -/
theorem returned (h : a.Orderly) {ctx : Context} (ha : a.activity = .leaving ctx (some 0))
    (hb : (a.thread a.running).blockedAtSem = some s) (history : List Event) :
    Orderly { a.unblock s a.running .waitTimeout with
      history := history, activity := .none } where
  places := by
    have hna := h.places.leaving_awake _ _ ha
    refine h.places.returned ha rfl (h.places.queue_unblock hb .waitTimeout) ?_
      (Sys.unblock_self s .waitTimeout)
      (fun u hu => congrArg Thread.blockedAtSem (Function.update_of_ne hu _ _)) rfl rfl rfl
      (fun u => Sys.update_field Thread.finished (by rfl) u)
    exact Sys.asleep_awake.trans (List.filter_eq_self.mpr fun u hu =>
      decide_eq_true fun e => hna (e ▸ hu))
  ticks := ⟨h.ticks.sorted.sublist List.filter_sublist,
    fun p hp => h.ticks.lt p (List.mem_of_mem_filter hp),
    fun _ p hp => h.ticks.pos (by rw [ha]; simp) p (List.mem_of_mem_filter hp), nofun⟩
  threads_lt := h.threads_lt
  running_mem := h.running_mem
  idle_mem := h.idle_mem
  finished := fun hf => h.finished ((Sys.update_field Thread.finished (by rfl) _).symm.trans hf)

/-- The next thread is chosen; `pre` is what `Scheduler::put` has added to the ready list. -/
theorem chosen (h : a.Orderly) (pre : List Tid) (ctx : Context) {act : Activity}
    (hpre : pre = [] ∨ pre = [a.running] ∧ a.activity.isLeaving = false ∧ a.running ≠ a.idle)
    (hpos : a.activity ≠ .ticking) (hact : act = .none) :
    Orderly { { a with ready := a.ready ++ pre }.choose ctx with activity := act } where
  places := by
    have hpre' : pre = [] ∨ pre = [a.running] ∧ a.activity.isLeaving = false ∧
        a.running ∈ a.threads ∧ a.running ≠ a.idle ∧ (a.thread a.running).finished = false :=
      hpre.imp_right fun hp => ⟨hp.1, hp.2.1, h.live hp.2.2⟩
    exact h.places.chosen hpre' rfl rfl rfl
      (fun u => Sys.update_field Thread.blockedAtSem (by rfl) u) rfl rfl rfl
      fun u => Sys.update_field Thread.finished (by rfl) u
  ticks := ⟨h.ticks.sorted, h.ticks.lt, fun _ => h.ticks.pos hpos, fun _ _ he => by
    rw [hact] at he
    cases he⟩
  threads_lt := h.threads_lt
  running_mem := by
    show (a.ready ++ pre).headD a.idle ∈ a.threads
    cases hr : a.ready with
    | nil =>
      rcases hpre with rfl | ⟨rfl, -⟩
      · exact h.idle_mem
      · exact h.running_mem
    | cons u l => exact (h.places.live u (Or.inl (by simp [hr]))).1
  idle_mem := h.idle_mem
  finished := by
    show (Function.update a.thread a.running _ ((a.ready ++ pre).headD a.idle)).finished = true →
      (a.ready ++ pre).headD a.idle = a.idle
    rw [Sys.update_field Thread.finished (by rfl)]
    cases hr : a.ready with
    | nil =>
      rcases hpre with rfl | ⟨rfl, -⟩
      · exact fun _ => rfl
      · exact h.finished
    | cons u l =>
      intro hf
      have := (h.places.live u (Or.inl (by simp [hr]))).2.2
      simp [this] at hf

theorem switch (h : a.Orderly) {ctx : Context} (ha : a.activity = .leaving ctx none)
    (ctx' : Context) : Orderly { a.choose ctx' with activity := .none } := by
  have := h.chosen [] ctx' (Or.inl rfl) (by rw [ha]; simp) rfl
  rwa [List.append_nil] at this

theorem preempt (h : a.Orderly) (ha : a.activity = .none) (ctx : Context) :
    Orderly ((a.pushReady a.running).choose ctx) := by
  by_cases hi : a.running = a.idle
  · have := h.chosen [] ctx (Or.inl rfl) (by rw [ha]; simp) ha
    rw [List.append_nil] at this
    rwa [Sys.pushReady, if_pos hi]
  · rw [pushReady_of_ne hi]
    exact h.chosen _ ctx (Or.inr ⟨rfl, Sys.not_leaving_of ha rfl, hi⟩)
      (by rw [ha]; simp) ha

end Sys.Orderly

/-! ## 2. Programs that keep the order -/

/-- The counterpart of `Sim` where any number of tokens may be asked for. -/
structure Well (c : Kernel) (a : Sys) : Prop where
  rep : Rep c a
  orderly : a.Orderly

/-- Running `m` from `c` ends in an orderly state. -/
abbrev Goes {α : Type} (m : KernelM α) (c : Kernel) (a : Sys) (Q : α → Sys → Prop) : Prop :=
  Follows Well (fun _ _ => True) m c a Q

theorem Goes.run {α β : Type} {m : KernelM α} {k : α → KernelM β} {x : α} {Q : β → Sys → Prop}
    (hb : b.Orderly) (hm : Yields Rep m c x b) (hk : ∀ c', Well c' b → Goes (k x) c' b Q) :
    Goes (m >>= k) c a Q := by
  obtain ⟨c', hc, hr⟩ := hm
  exact Follows.silent trivial (Follows.bind_eq hc (hk c' ⟨hr, hb⟩))

theorem Goes.last {α : Type} {m : KernelM α} {x : α} {Q : α → Sys → Prop} (hb : b.Orderly)
    (hm : Yields Rep m c x b) (hq : Q x b) : Goes m c a Q := by
  obtain ⟨c', hc, hr⟩ := hm
  exact ⟨x, c', b, hc, .single trivial, ⟨hr, hb⟩, hq⟩

/-! ## 3. `signal` -/

/-- From `a` to `b` the first waiters of `s` were made ready, in their order. -/
structure Serves (s : SemPtr) (a b : Sys) : Prop where
  split : ∃ m, b.queue s = (a.queue s).drop m ∧ b.ready = a.ready ++ (a.queue s).take m
  sem : b.sem = a.sem
  IDCounter : b.IDCounter = a.IDCounter

theorem Serves.refl (s : SemPtr) (a : Sys) : Serves s a a :=
  ⟨⟨0, by simp⟩, rfl, rfl⟩

/-- One more waiter was served before. -/
theorem Serves.head {d : Sys} (h : Serves s d b) {rest : List Tid} (hq : a.queue s = t :: rest)
    (hqueue : d.queue s = rest) (hready : d.ready = a.ready ++ [t]) (hsem : d.sem = a.sem)
    (hid : d.IDCounter = a.IDCounter) : Serves s a b := by
  obtain ⟨m, h1, h2⟩ := h.split
  refine ⟨⟨m + 1, ?_, ?_⟩, h.sem.trans hsem, h.IDCounter.trans hid⟩
  · rw [h1, hqueue, hq, List.drop_succ_cons]
  · rw [h2, hready, hqueue, hq, List.take_succ_cons, List.append_assoc]
    rfl

/-- The loop of `signal` ends, whatever the waiters need. -/
theorem signalLoop_goes (n : Nat) {tokens : Nat} (h : Well c a) (ha : a.activity = .none)
    (hn : (a.queue s).length < n ∨ tokens = 0 ∧ 0 < n) :
    Goes (kSemaphore.signalLoop s n tokens) c a fun _ b => b.activity = .none ∧ Serves s a b := by
  induction n generalizing c a tokens with
  | zero => omega
  | succ n ih =>
    have hr := h.rep
    refine Follows.bind_eq (getSem_apply c s) ?_
    rw [hr.blockedHead_eq]
    cases hq : a.queue s with
    | nil => exact Follows.pure h ⟨ha, .refl s a⟩
    | cons t rest =>
      rw [hq, List.length_cons] at hn
      show Goes (if 0 < tokens then _ else _) c a _
      by_cases h0 : 0 < tokens
      · have hb : (a.thread t).blockedAtSem = some s := by
          rw [← h.orderly.places.mem_queue, hq]
          exact List.mem_cons_self
        have hc := h.orderly.canRelease (t := t) (Or.inl (by rw [hb]; simp))
        rw [if_pos h0]
        refine Follows.bind_eq (getTcb_apply c t) ?_
        rw [hr.thread_apply]
        by_cases hle : (a.thread t).tokensNeeded ≤ tokens
        · rw [if_pos hle]
          have hrel := release_yields (hr.setThread t fun x => { x with tokensNeeded := 0 })
            (hc.setThread fun _ => rfl) hq .regular
          rw [unblock_setThread] at hrel
          have hrest : (a.unblock s t .regular).queue s = rest := by
            simp [Sys.unblock, hq]
          refine Follows.bind_eq (setThread_apply ..) (Goes.run
            (h.orderly.unblock (Sys.not_leaving_of ha rfl) hb .regular _) hrel fun c' h' => ?_)
          refine (ih h' ha (Or.inl ?_)).mono fun _ b hb => ⟨hb.1, hb.2.head hq hrest rfl rfl rfl⟩
          show ((a.unblock s t .regular).queue s).length < n
          rw [hrest]
          omega
        · rw [if_neg hle]
          have ho : (a.setThread t fun x =>
              { x with tokensNeeded := x.tokensNeeded - tokens }).Orderly :=
            h.orderly.noted_update ha rfl rfl
          have hset := hr.setThread t fun x => { x with tokensNeeded := x.tokensNeeded - tokens }
          refine Goes.run ho (Yields.of_eq (setThread_apply ..) hset) fun c' h' => ?_
          refine (ih h' ha (Or.inr ⟨rfl, by omega⟩)).mono fun _ b hb => ⟨hb.1, ?_⟩
          exact ⟨hb.2.split, hb.2.sem, hb.2.IDCounter⟩
      · rw [if_neg h0]
        exact Follows.pure h ⟨ha, .refl s a⟩

theorem signal_goes (h : Well c a) (ha : a.activity = .none) (s : SemPtr) (n : Nat) :
    Goes (kSemaphore.signal s n) c a fun _ b => b.activity = .none := by
  unfold kSemaphore.signal
  refine Follows.bind_eq (getSem_apply c s) ?_
  rw [active_eq h.rep]
  cases hact : (a.sem s).active with
  | false => exact Follows.pure h ha
  | true =>
    have ho : (a.emit (.signalled s n)).Orderly :=
      h.orderly.noted ha fun _ => ⟨rfl, rfl⟩
    refine Goes.run ho (Yields.of_eq (emit_apply ..) (h.rep.emit _)) fun c₁ h₁ => ?_
    refine Follows.bind_eq h₁.rep.fuel_apply (Follows.bind (signalLoop_goes _ h₁ ha
      (Or.inl (Nat.lt_succ_of_le (h₁.orderly.places.queue_length h₁.orderly.threads_lt s))))
      fun left c₂ b h₂ hb => ?_)
    have hset := h₂.rep.setSem s fun x => { x with value := u64 (x.value + left) }
    have ho' : (b.setSem s fun x => { x with value := u64 (x.value + left) }).Orderly :=
      h₂.orderly.noted hb.1 fun _ => ⟨rfl, rfl⟩
    exact Goes.last ho' (Yields.bind_eq (setSem_apply ..) (Yields.pure hset)) hb.1

/-! ## 4. `close` -/

/-- The loop of `signalAll` ends. -/
theorem signalAllLoop_goes (n : Nat) {manner : UnblockManner} (h : Well c a)
    (ha : a.activity = .none) (hn : (a.queue s).length < n) :
    Goes (kSemaphore.signalAllLoop s manner n) c a fun _ b =>
      b.activity = .none ∧ Frame a b := by
  induction n generalizing c a with
  | zero => cases hn
  | succ n ih =>
    refine Follows.bind_eq (getSem_apply c s) ?_
    rw [h.rep.blockedHead_eq]
    cases hq : a.queue s with
    | nil => exact Follows.pure h ⟨ha, .refl a⟩
    | cons t rest =>
      rw [hq, List.length_cons] at hn
      have hb : (a.thread t).blockedAtSem = some s := by
        rw [← h.orderly.places.mem_queue, hq]
        exact List.mem_cons_self
      have hc := h.orderly.canRelease (t := t) (Or.inl (by rw [hb]; simp))
      have hrest : (a.unblock s t manner).queue s = rest := by
        simp [Sys.unblock, hq]
      refine Goes.run (h.orderly.unblock (Sys.not_leaving_of ha rfl) hb manner _)
        (release_yields h.rep hc hq manner) fun c' h' => ?_
      refine (ih h' ha ?_).mono fun _ b hb => ⟨hb.1, Frame.trans ?_ hb.2⟩
      · show ((a.unblock s t manner).queue s).length < n
        rw [hrest]
        omega
      · exact Frame.unblock s t manner _ _ a.activity

theorem close_goes (h : Well c a) (ha : a.activity = .none) (s : SemPtr) :
    Goes (kSemaphore.close s) c a fun _ b => b.activity = .none ∧ Frame a b := by
  unfold kSemaphore.close
  refine Follows.bind_eq (getSem_apply c s) ?_
  rw [active_eq h.rep]
  cases hact : (a.sem s).active with
  | false => exact Follows.pure h ⟨ha, .refl a⟩
  | true =>
    have ho : (a.emit (.closed s)).Orderly := h.orderly.noted ha fun _ => ⟨rfl, rfl⟩
    refine Goes.run ho (Yields.of_eq (emit_apply ..) (h.rep.emit _)) fun c₁ h₁ => ?_
    have hact₁ : (c₁.sem s).active = true := (active_eq h₁.rep s).trans hact
    rw [kSemaphore.signalAll, bind_assoc]
    refine Follows.bind_eq (getSem_apply c₁ s) ?_
    rw [hact₁]
    simp only [Bool.not_true, Bool.false_eq_true, if_false, if_true, bind_assoc, pure_bind]
    refine Follows.bind_eq h₁.rep.fuel_apply (Follows.bind (signalAllLoop_goes _ h₁ ha
      (Nat.lt_succ_of_le (h₁.orderly.places.queue_length h₁.orderly.threads_lt s)))
      fun _ c₂ b h₂ hb => ?_)
    have hset := (h₂.rep.setSem s fun x => { x with value := 0 }).setSem s fun x =>
      { x with active := false }
    have he : ((b.setSem s fun x => { x with value := 0 }).setSem s fun x =>
        { x with active := false }) = b.setSem s fun x => { x with value := 0, active := false } := by
      simp [Sys.setSem]
    rw [he] at hset
    have ho' : (b.setSem s fun x => { x with value := 0, active := false }).Orderly :=
      h₂.orderly.noted hb.1 fun _ => ⟨rfl, rfl⟩
    refine Goes.last ho' (Yields.bind_eq (setSem_apply ..) (Yields.bind_eq (setSem_apply ..)
      (Yields.pure hset))) ⟨hb.1, ?_⟩
    have hf : Frame a (a.emit (.closed s)) := { Frame.refl a with }
    have hd : Frame b { (b.setSem s fun x => { x with value := 0, active := false }) with
        activity := b.activity } := Frame.setSem fun _ _ => rfl
    exact (hf.trans hb.2).trans hd

/-! ## 5. Waiting -/

/-- `TCB::yield` of a thread that leaves. -/
theorem leave_goes (h : Well c a) {ctx ctx' : Context} (ha : a.activity = .leaving ctx none) :
    Goes (α := Outcome Int) (do
      TCB.yield false ctx'
      pure .switched) c a fun o b => o = .switched ∧ b.activity = .none := by
  have hy : Yields Rep (do
      TCB.yield false ctx'
      pure (.switched : Outcome Int)) c .switched (a.choose ctx') :=
    Yields.bind (yield_yields h.rep ctx') fun _ h' => Yields.pure h'
  exact Goes.last (h.orderly.switch ha ctx') (yields_control hy) ⟨rfl, rfl⟩

theorem acquire_goes (h : Well c a) (ha : a.activity = .none) (s : SemPtr) (m : Nat) :
    Goes (α := Outcome Int) (do
      kSemaphore.acquire s m
      return .done (← kSemaphore.resolveManner)) c a fun _ b => b.activity = .none := by
  have ho : (((a.setSem s fun x => { x with value := x.value - m }).setThread a.running
      fun x => { x with unblockManner := .regular }).emit (.acquired s a.running m)).Orderly :=
    h.orderly.noted_update ha rfl rfl
  refine Goes.run ho (acquire_yields h.rep s m) fun c' h' => ?_
  exact Follows.bind_eq (resolveManner_apply h'.rep) (Follows.pure h' ha)

theorem wait_goes (h : Well c a) (ha : a.activity = .none) (hi : a.running ≠ a.idle) (s : SemPtr)
    (m : Nat) (ctx : Context) :
    Goes (kSemaphore.wait s m ctx) c a fun _ b => b.activity = .none := by
  unfold kSemaphore.wait
  refine Follows.bind_eq (getSem_apply c s) ?_
  rw [active_eq h.rep, value_eq h.rep]
  cases hact : (a.sem s).active with
  | false => exact Follows.pure h ha
  | true =>
    simp only [Bool.not_true, Bool.false_eq_true, if_false]
    by_cases hv : m ≤ (a.sem s).value
    · rw [if_pos hv]
      exact acquire_goes h ha s m
    · rw [if_neg hv]
      have hblock := block_yields h.rep h.orderly.places.mem_queue (h.orderly.free ha).1 s m none
      have ho := h.orderly.block ha hi s (m - (a.sem s).value) none nofun ctx
        (.blocked s a.running none) fun x => { x with value := 0 }
      exact Goes.run ho (yields_control hblock) fun c' h' =>
        (leave_goes h' rfl).mono fun _ _ hb => hb.2

theorem tryWait_goes (h : Well c a) (ha : a.activity = .none) (s : SemPtr) (m : Nat) :
    Goes (kSemaphore.tryWait s m) c a fun _ b => b.activity = .none := by
  unfold kSemaphore.tryWait
  refine Follows.bind_eq (getSem_apply c s) ?_
  rw [active_eq h.rep, value_eq h.rep]
  cases hact : (a.sem s).active with
  | false => exact Follows.pure h ha
  | true =>
    simp only [Bool.not_true, Bool.false_eq_true, if_false]
    by_cases hv : m ≤ (a.sem s).value
    · rw [if_pos hv]
      have ho : (((a.setSem s fun x => { x with value := x.value - m }).setThread a.running
          fun x => { x with unblockManner := .regular }).emit (.acquired s a.running m)).Orderly :=
        h.orderly.noted_update ha rfl rfl
      exact Goes.run ho (acquire_yields h.rep s m) fun c' h' => Follows.pure h' ha
    · rw [if_neg hv]
      refine Follows.bind_eq (getRunning_apply h.rep) ?_
      have ho : (a.setThread a.running fun x => { x with unblockManner := .regular }).Orderly :=
        h.orderly.noted_update ha rfl rfl
      have hset := h.rep.setThread a.running fun x => { x with unblockManner := .regular }
      exact Goes.last ho (Yields.bind_eq (setThread_apply ..) (Yields.pure hset)) ha

/-- The rest of `timedWait` once the thread has joined the waiters. -/
theorem sleepBlocked_goes (h : Well c a) {ctx : Context} {n : Nat} (hi : a.running ≠ a.idle)
    (ha : a.activity = .leaving ctx (some n)) (hb : (a.thread a.running).blockedAtSem = some s) :
    Goes (α := Outcome Int) (do
      match ← Sleep.sleep n ctx with
      | .switched => pure .switched
      | .done _ => do
        let ret ← kSemaphore.resolveManner
        let r ← getRunning
        Os1Kernel.emit (.returned r ret)
        pure (.done ret)) c a fun _ b => b.activity = .none := by
  by_cases h0 : n = 0
  · subst h0
    refine Goes.run (h.orderly.returned ha hb _) (yields_control (sleepZero_yields h.rep
      h.orderly.places h.orderly.threads_lt ha hb)) fun c₁ h₁ => ?_
    refine Follows.bind_eq (resolveManner_apply h₁.rep) (Follows.bind_eq (getRunning_apply h₁.rep)
      ?_)
    exact Goes.last (h₁.orderly.noted rfl fun _ => ⟨rfl, rfl⟩)
      (Yields.bind_eq (emit_apply ..) (Yields.pure (h₁.rep.emit _))) rfl
  · have hput := sleepPut_yields h.rep (h.orderly.ticks.next _ _ ha)
      (h.orderly.places.leaving_awake _ _ ha) h.orderly.ticks.lt
      (h.orderly.places.asleep_length h.orderly.threads_lt)
    have hsleep : Goes (Sleep.sleep n ctx) c a fun o b => o = .switched ∧ b.activity = .none := by
      unfold Sleep.sleep
      refine Follows.bind_eq (getRunning_apply h.rep) ?_
      rw [if_neg h0]
      refine Goes.run (h.orderly.fallAsleep ha h0 hi) (yields_control hput) fun c' h' => ?_
      exact leave_goes h' rfl
    refine Follows.bind hsleep fun o c' b h' hb => ?_
    rw [hb.1]
    exact Follows.pure h' hb.2

theorem timedWait_goes (h : Well c a) (ha : a.activity = .none) (hi : a.running ≠ a.idle)
    (s : SemPtr) (m : Nat) {timeout : Nat} (ht : timeout < 2 ^ 64) (ctx : Context) :
    Goes (kSemaphore.timedWait s timeout m ctx) c a fun _ b => b.activity = .none := by
  unfold kSemaphore.timedWait
  refine Follows.bind_eq (getSem_apply c s) ?_
  rw [active_eq h.rep, value_eq h.rep]
  cases hact : (a.sem s).active with
  | false => exact Follows.pure h ha
  | true =>
    simp only [Bool.not_true, Bool.false_eq_true, if_false]
    by_cases hv : m ≤ (a.sem s).value
    · rw [if_pos hv]
      exact acquire_goes h ha s m
    · rw [if_neg hv]
      have hblock := block_yields h.rep h.orderly.places.mem_queue (h.orderly.free ha).1 s m
        (some timeout)
      have ho := h.orderly.block ha hi s (m - (a.sem s).value) (some timeout)
        (by rintro n ⟨⟩; exact ht) ctx (.blocked s a.running (some timeout))
        fun x => { x with value := 0 }
      exact Goes.run ho (yields_control hblock) fun c' h' =>
        sleepBlocked_goes h' hi rfl (Sys.enqueue_self _)

/-! ## 6. The timer -/

/-- The loop of `Sleep::onTick` ends. -/
theorem wakeLoop_goes (n : Nat) (h : Well c a) (ha : a.activity = .ticking)
    (hn : a.asleep.length < n) :
    Goes (Sleep.wakeLoop n) c a fun _ b => b.activity = .none := by
  induction n generalizing c a with
  | zero => cases hn
  | succ n ih =>
    have hr := h.rep
    have hl := Sys.not_leaving_of ha rfl
    refine Follows.bind_eq (getKernel_apply c) ?_
    rw [hr.sleepHead_eq]
    -- nobody is due
    have hend : (∀ p ∈ a.sleepers, 1 ≤ p.2) →
        Goes (pure () : KernelM Unit) c a fun _ b => b.activity = .none := fun hs =>
      Goes.last (h.orderly.same (b := { a with activity := .none }) hl rfl rfl rfl
        ⟨h.orderly.ticks.sorted, h.orderly.ticks.lt, fun _ => hs, nofun⟩
        (fun _ => ⟨rfl, rfl⟩) rfl rfl rfl rfl) (Yields.pure hr.control) rfl
    cases hs : a.sleepers with
    | nil => exact hend (by simp [hs])
    | cons p rest =>
      obtain ⟨t, d⟩ := p
      have hdeltas := hr.deltas
      rw [hs] at hdeltas
      have hd : (c.tcb t).timeSleepRelative = d := by
        have := hdeltas.1
        rwa [Nat.zero_add] at this
      show Goes (if (c.tcb t).timeSleepRelative = 0 then _ else _) c a _
      rw [hd]
      by_cases hd0 : d = 0
      · subst hd0
        rw [if_pos rfl]
        have hm : t ∈ a.asleep := by simp [Sys.asleep, hs]
        have hc := h.orderly.canRelease (Or.inr hm)
        have hlen : (a.awake t).asleep.length < n := by
          have hle : (a.awake t).asleep.length = (a.asleep.filter fun u => u ≠ t).length :=
            congrArg List.length Sys.asleep_awake
          have hlt : (a.asleep.filter fun u => u ≠ t).length < a.asleep.length :=
            List.length_filter_lt_length_iff_exists.mpr ⟨t, hm, by simp⟩
          omega
        cases hb : (a.thread t).blockedAtSem with
        | some s =>
          exact Goes.run (h.orderly.unblock hl hb .waitTimeout _)
            (wakeBlocked_yields hr hc hs hb) fun c' h' => ih h' ha hlen
        | none =>
          exact Goes.run (h.orderly.wake hl hm hb) (wakeFree_yields hr hc hs hb) fun c' h' =>
            ih h' ha hlen
      · rw [if_neg hd0]
        refine hend fun p hp => ?_
        have hsorted := h.orderly.ticks.sorted
        rw [hs] at hp hsorted
        rcases List.mem_cons.mp hp with rfl | hp
        · exact Nat.one_le_iff_ne_zero.mpr hd0
        · exact (Nat.one_le_iff_ne_zero.mpr hd0).trans ((List.pairwise_cons.mp hsorted).1 p hp)

/-- `Sleep::onTick`, once the timer interrupt has counted the tick. -/
theorem onTick_goes (h : Well c a) (ha : a.activity = .none) :
    Goes Sleep.onTick c a fun _ b => b.activity = .none := by
  have hlt : ∀ p ∈ a.sleepers, 1 ≤ p.2 ∧ p.2 < 2 ^ 64 := fun p hp =>
    ⟨h.orderly.ticks.pos (by rw [ha]; simp) p hp, h.orderly.ticks.lt p hp⟩
  have h₁ := h.rep.emit .tick
  -- the loop, from a state in which every deadline is one tick nearer
  have hloop : ∀ {c' : Kernel}, Rep c' { a with
        history := .tick :: a.history
        sleepers := a.sleepers.map fun p => (p.1, p.2 - 1) } →
      Goes (do Sleep.wakeLoop (← fuel)) c' a fun _ b => b.activity = .none := by
    intro c' hr
    have ho : Sys.Orderly { a with
        history := .tick :: a.history
        sleepers := a.sleepers.map fun p => (p.1, p.2 - 1)
        activity := .ticking } :=
      h.orderly.same (Sys.not_leaving_of ha rfl) rfl rfl Sys.asleep_map
        ⟨List.pairwise_map.mpr (h.orderly.ticks.sorted.imp fun hle => Nat.sub_le_sub_right hle 1),
          fun p hp => by
            obtain ⟨q, hq, rfl⟩ := List.mem_map.mp hp
            exact (Nat.sub_le _ _).trans_lt (hlt q hq).2,
          fun hne => absurd rfl hne, nofun⟩
        (fun _ => ⟨rfl, rfl⟩) rfl rfl rfl rfl
    refine Follows.silent trivial (Follows.bind_eq hr.fuel_apply (wakeLoop_goes _ ⟨hr.control, ho⟩
      rfl (Nat.lt_succ_of_le (ho.places.asleep_length ho.threads_lt))))
  unfold Sleep.onTick
  refine Follows.bind_eq (emit_apply ..) (Follows.bind_eq (getKernel_apply _) ?_)
  have hhead : c.sleepHead = a.sleepers.head?.map Prod.fst := h.rep.sleepHead_eq
  have hcases : a.sleepers = [] ∨ ∃ p rest, a.sleepers = p :: rest := by
    cases a.sleepers <;> simp
  rcases hcases with hs | ⟨⟨t, d⟩, rest, hs⟩
  · rw [hs] at hhead
    have hmap : (a.sleepers.map fun p => (p.1, p.2 - 1)) = a.sleepers := by
      rw [hs]
      rfl
    have h₂ : Rep { c with history := .tick :: c.history } { a with
        history := .tick :: a.history
        sleepers := a.sleepers.map fun p => (p.1, p.2 - 1) } := by
      rw [hmap]
      exact h₁
    refine Follows.bind_eq (x := ()) ?_ (hloop h₂)
    dsimp only
    rw [hhead]
    rfl
  · rw [hs] at hhead
    refine Follows.bind_eq (x := ()) ?_ (hloop (h₁.countdown hlt hs))
    dsimp only
    rw [hhead]
    rfl

/-- `TCB::yield` of a thread that stays ready. -/
theorem preempt_goes (h : Well c a) (ha : a.activity = .none) (ctx : Context) :
    Goes (TCB.yield true ctx) c a fun _ b => b.activity = .none :=
  Goes.last (h.orderly.preempt ha ctx) (preempt_yields h.rep ctx (h.orderly.free ha)
    h.orderly.finished h.orderly.places.running_ready) ha

/-- The timer interrupt. -/
theorem handleTimer_goes (h : Well c a) (ha : a.activity = .none) :
    Goes handleTimer c a fun _ b => b.activity = .none := by
  have hr : Rep { c with timeSliceCounter := u64 (c.timeSliceCounter + 1) }
      { a with timeSliceCounter := u64 (a.timeSliceCounter + 1) } := by
    have hcore := h.rep.core
    refine { h.rep with core := ?_ }
    show ({ c.toCore with timeSliceCounter := u64 (c.toCore.timeSliceCounter + 1) } : Core) = _
    rw [hcore]
  have ho : Sys.Orderly { a with timeSliceCounter := u64 (a.timeSliceCounter + 1) } :=
    h.orderly.same (Sys.not_leaving_of ha rfl) rfl rfl rfl
      ⟨h.orderly.ticks.sorted, h.orderly.ticks.lt, h.orderly.ticks.pos, h.orderly.ticks.next⟩
      (fun _ => ⟨rfl, rfl⟩) rfl rfl rfl rfl
  unfold handleTimer
  refine Goes.run ho (Yields.of_eq (modify_apply ..) hr) fun c₁ h₁ => ?_
  refine Follows.bind (onTick_goes h₁ ha) fun _ c' b h' hb => ?_
  refine Follows.bind_eq (getRunning_apply h'.rep) (Follows.bind_eq (getKernel_apply c') ?_)
  by_cases ht : (c'.tcb b.running).timeSlice ≤ c'.timeSliceCounter
  · rw [if_pos ht]
    exact preempt_goes h' hb .timer
  · rw [if_neg ht]
    exact Follows.pure h' hb

end Os1Kernel
