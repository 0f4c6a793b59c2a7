/-
# The loops

What is proved here: `Sleep::onTick`, `signal`, `signalAll` and `close` come back, and follow steps
of the abstract system.

The three loops walk along a list and release the threads on it.  An iteration is one step of
`Sys.Step`: a waiter that is taken out of a semaphore's list or the sleep list, and made ready.
Each loop is an induction on the list it walks along, with the rest of the list as the place where
it stands.

* The fuel is always enough.  The list consists of different threads, all of which have been
  created, so it is no longer than `IDCounter`, and `IDCounter` is the fuel (section 3).
* While it runs, the loop holds on to a pointer to the next waiter.  That this pointer is still the
  head of the rest is what `CanRelease` and the disjointness of the lists give.
* What the loop does not change is collected in `Frame`, so that whoever calls it can go on: the
  running thread, the stage, who exists, and of each thread all but its place.

From here on the two states are related by `Sim`, which carries the invariant along, and `Does m c
a Q` says that `m` run from `c` comes back, in a state that represents an abstract state reachable
from `a` that satisfies `Q`.  `Does.run`, `Does.step` and `Does.last` are the rules with which a
program is taken apart: a part without a step, with one, and the last part.
-/
import Mathlib.Data.List.Perm.Subperm
import Mathlib.Data.List.Nodup
import Os1Kernel.Refine.SleepList

namespace Os1Kernel

open Linked DeltaList Simulation

variable {c : Kernel} {a b : Sys} {t : Tid} {s : SemPtr}

/-! ## 1. The simulation relation -/

/-- The representation relation, and the invariant of the state that is represented. -/
structure Sim (c : Kernel) (a : Sys) : Prop where
  rep : Rep c a
  inv : a.Inv

/-- Running `m` from `c` follows steps of the abstract system from `a`. -/
abbrev Does {α : Type} (m : KernelM α) (c : Kernel) (a : Sys) (Q : α → Sys → Prop) : Prop :=
  Follows Sim Sys.Step m c a Q

/-- A part of the program that leads to the abstract state `b`, where the abstract system is
already. -/
theorem Does.run {α β : Type} {m : KernelM α} {k : α → KernelM β} {x : α} {Q : β → Sys → Prop}
    (hb : b.Inv) (hm : Yields Rep m c x b) (hk : ∀ c', Sim c' b → Does (k x) c' b Q) :
    Does (m >>= k) c b Q := by
  obtain ⟨c', hc, hr⟩ := hm
  exact Follows.bind_eq hc (hk c' ⟨hr, hb⟩)

/-- A part of the program that implements one step. -/
theorem Does.step {α β : Type} {m : KernelM α} {k : α → KernelM β} {x : α} {Q : β → Sys → Prop}
    (h : a.Inv) (hs : a.Step b) (hm : Yields Rep m c x b)
    (hk : ∀ c', Sim c' b → Does (k x) c' b Q) : Does (m >>= k) c a Q :=
  Follows.silent hs (Does.run (h.step hs) hm hk)

/-- The last part of the program implements one step. -/
theorem Does.last {α : Type} {m : KernelM α} {x : α} {Q : α → Sys → Prop} (h : a.Inv)
    (hs : a.Step b) (hm : Yields Rep m c x b) (hq : Q x b) : Does m c a Q := by
  obtain ⟨c', hc, hr⟩ := hm
  exact ⟨x, c', b, hc, .single hs, ⟨hr, h.step hs⟩, hq⟩

/-- What the kernel is in the middle of has no representation in its state. -/
theorem Rep.control (h : Rep c a) {activity : Activity} {stage : Stage} :
    Rep c { a with activity := activity, stage := stage } := { h with }

theorem yields_control {α : Type} {m : KernelM α} {x : α} (h : Yields Rep m c x a)
    {activity : Activity} {stage : Stage} :
    Yields Rep m c x { a with activity := activity, stage := stage } := by
  obtain ⟨c', hc, hr⟩ := h
  exact ⟨c', hc, hr.control⟩

/-! ## 2. What the loops leave alone -/

/-- A thread without what the loops may change. -/
def Thread.still (x : Thread) : Thread :=
  { x with tokensNeeded := 0, blockedAtSem := none, unblockManner := .regular }

structure Frame (a b : Sys) : Prop where
  running : b.running = a.running
  idle : b.idle = a.idle
  stage : b.stage = a.stage
  threads : b.threads = a.threads
  sems : b.sems = a.sems
  IDCounter : b.IDCounter = a.IDCounter
  still : ∀ t, (b.thread t).still = (a.thread t).still
  dead : ∀ s, (a.sem s).active = false → (b.sem s).active = false

theorem Frame.refl (a : Sys) : Frame a a := ⟨rfl, rfl, rfl, rfl, rfl, rfl, fun _ => rfl, fun _ h => h⟩

theorem Frame.trans {d : Sys} (h : Frame a b) (h' : Frame b d) : Frame a d where
  running := h'.running.trans h.running
  idle := h'.idle.trans h.idle
  stage := h'.stage.trans h.stage
  threads := h'.threads.trans h.threads
  sems := h'.sems.trans h.sems
  IDCounter := h'.IDCounter.trans h.IDCounter
  still := fun t => (h'.still t).trans (h.still t)
  dead := fun s hs => h'.dead s (h.dead s hs)

theorem Frame.field {β : Type} (h : Frame a b) (φ : Thread → β) (hφ : ∀ x, φ x.still = φ x)
    (t : Tid) : φ (b.thread t) = φ (a.thread t) := by
  rw [← hφ, h.still, hφ]

theorem Frame.context (h : Frame a b) (t : Tid) : (b.thread t).context = (a.thread t).context :=
  h.field Thread.context (fun _ => rfl) t

theorem Frame.finished (h : Frame a b) (t : Tid) : (b.thread t).finished = (a.thread t).finished :=
  h.field Thread.finished (fun _ => rfl) t

theorem Frame.atBody (h : Frame a b) (ha : a.activity = .ticking) (hi : a.Inv)
    (hb : b.activity = .none) : b.AtBody := by
  obtain ⟨hs, hc⟩ := hi.contexts.ticking ha
  exact ⟨hb, h.stage.trans hs, by rw [h.running, h.context]; exact hc⟩

/-! ## 3. How long the lists are -/

theorem length_le_of_nodup {l : List Nat} {n : Nat} (hl : l.Nodup) (hn : ∀ x ∈ l, x < n) :
    l.length ≤ n := by
  have hsub : l ⊆ List.range n := fun x hx => List.mem_range.mpr (hn x hx)
  simpa using (List.subperm_of_subset hl hsub).length_le

theorem Sys.Places.queue_length (h : a.Places) (hlt : ∀ t ∈ a.threads, t < a.IDCounter)
    (s : SemPtr) : (a.queue s).length ≤ a.IDCounter := by
  refine length_le_of_nodup (h.queue_nodup s) fun t ht => ?_
  have hb : (a.thread t).blockedAtSem ≠ none := by
    rw [(h.mem_queue t s).mp ht]
    simp
  exact hlt t (h.live t (Or.inr (Or.inl hb))).1

theorem Sys.Places.asleep_length (h : a.Places) (hlt : ∀ t ∈ a.threads, t < a.IDCounter) :
    a.asleep.length ≤ a.IDCounter :=
  length_le_of_nodup h.asleep_nodup fun t ht => hlt t (h.live t (Or.inr (Or.inr ht))).1

theorem Sys.Inv.queue_length (h : a.Inv) (s : SemPtr) : (a.queue s).length ≤ a.IDCounter :=
  h.places.queue_length h.names.threads_lt s

theorem Sys.Inv.asleep_length (h : a.Inv) : a.asleep.length ≤ a.IDCounter :=
  h.places.asleep_length h.names.threads_lt

theorem Rep.sleepHead_eq (h : Rep c a) : c.sleepHead = a.sleepers.head?.map Prod.fst := by
  rw [h.asleep.head, Sys.asleep, List.head?_map]

theorem Rep.fuel_apply (h : Rep c a) : fuel c = some (a.IDCounter + 1, c) := by
  rw [Os1Kernel.fuel_apply, show c.IDCounter = a.IDCounter from congrArg Core.IDCounter h.core]

/-! ## 4. Releasing a waiter

A waiter of a timed wait is on two lists, the semaphore's and the sleep list, and is taken out of
both before it is made ready; whoever releases it, the order is the same. -/

theorem awake_of_not_mem (h : t ∉ a.asleep) : a.awake t = a := by
  have : a.sleepers.filter (fun p => p.1 ≠ t) = a.sleepers :=
    List.filter_eq_self.mpr fun p hp => decide_eq_true fun e => h (e ▸ List.mem_map_of_mem hp)
  rw [Sys.awake, this]

/-- The parts of `unblock`, in the order of `release`. -/
theorem unblock_eq (s : SemPtr) (t : Tid) (manner : UnblockManner) :
    ((a.dequeue s t).awake t).setThread t (fun x => { x with unblockManner := manner }) =
      a.unblock s t manner := by
  simp only [Sys.dequeue, Sys.awake, Sys.setThread, Sys.unblock, Function.update_self,
    Function.update_idem]

/-- What `kSemaphore::get` clears need not be kept before. -/
theorem unblock_setThread (s : SemPtr) (t : Tid) (manner : UnblockManner) (n : Nat) :
    (a.setThread t fun x => { x with tokensNeeded := n }).unblock s t manner =
      a.unblock s t manner := by
  simp only [Sys.setThread, Sys.unblock, Function.update_self, Function.update_idem]

theorem pushReady_of_ne (h : t ≠ a.idle) : a.pushReady t = { a with ready := a.ready ++ [t] } := by
  rw [Sys.pushReady, if_neg h]

/-- A released thread is put on the ready list. -/
theorem putReleased_yields (h : Rep c a) (e : Event) (hready : t ∉ a.ready) (hidle : t ≠ a.idle) :
    Yields Rep (do
      Os1Kernel.emit e
      Scheduler.put t) c () { a.emit e with ready := a.ready ++ [t] } := by
  have hput := schedulerPut_yields (h.emit e) hready
  rw [pushReady_of_ne (a := a.emit e) hidle] at hput
  exact Yields.bind_eq (emit_apply ..) hput

/-- What the releases need to know about a waiter or sleeper `t`. -/
structure CanRelease (a : Sys) (t : Tid) : Prop where
  mem_queue : ∀ u s, u ∈ a.queue s ↔ (a.thread u).blockedAtSem = some s
  not_ready : t ∉ a.ready
  not_idle : t ≠ a.idle
  lt : ∀ p ∈ a.sleepers, p.2 < 2 ^ 64
  queue_length : ∀ s, (a.queue s).length ≤ a.IDCounter
  asleep_length : a.asleep.length ≤ a.IDCounter

theorem Sys.Places.canRelease (h : a.Places) (hlt : ∀ t ∈ a.threads, t < a.IDCounter)
    (hticks : ∀ p ∈ a.sleepers, p.2 < 2 ^ 64)
    (ht : (a.thread t).blockedAtSem ≠ none ∨ t ∈ a.asleep) : CanRelease a t where
  mem_queue := h.mem_queue
  not_ready := by
    intro hr
    obtain ⟨hb, hs⟩ := h.ready_awake t hr
    exact ht.elim (· hb) hs
  not_idle := (h.live t (Or.inr ht)).2.1
  lt := hticks
  queue_length := h.queue_length hlt
  asleep_length := h.asleep_length hlt

theorem Sys.Inv.canRelease (h : a.Inv)
    (ht : (a.thread t).blockedAtSem ≠ none ∨ t ∈ a.asleep) : CanRelease a t :=
  h.places.canRelease h.names.threads_lt h.ticks.lt ht

theorem CanRelease.setThread (h : CanRelease a t) {u : Tid} {f : Thread → Thread}
    (hf : ∀ x, (f x).blockedAtSem = x.blockedAtSem) : CanRelease (a.setThread u f) t where
  mem_queue := by
    intro v s
    have : ((a.setThread u f).thread v).blockedAtSem = (a.thread v).blockedAtSem :=
      Sys.update_field Thread.blockedAtSem (hf _) v
    rw [this]
    exact h.mem_queue v s
  not_ready := h.not_ready
  not_idle := h.not_idle
  lt := h.lt
  queue_length := h.queue_length
  asleep_length := h.asleep_length

/-- `release` -/
theorem release_yields (h : Rep c a) (hc : CanRelease a t) {rest : List Tid}
    (hq : a.queue s = t :: rest) (manner : UnblockManner) :
    Yields Rep (kSemaphore.release s manner) c ()
      { (a.unblock s t manner).emit (manner.event s t) with ready := a.ready ++ [t] } := by
  unfold kSemaphore.release
  refine Yields.bind (semaphoreGetHead_yields h hc.mem_queue hq) fun c₁ h₁ => ?_
  refine Yields.bind_eq rfl (Yields.bind_eq (getTcb_apply ..) ?_)
  have hsleep : Yields Rep (if (c₁.tcb t).sleeps then do let _ ← Sleep.get (some t) else pure ())
      c₁ () ((a.dequeue s t).awake t) := by
    rw [h₁.sleeps_eq]
    by_cases ht : t ∈ (a.dequeue s t).asleep
    · rw [if_pos (decide_eq_true ht)]
      exact Yields.bind (sleepGet_yields h₁ ht hc.lt hc.asleep_length) fun _ h₂ => Yields.pure h₂
    · rw [if_neg (by simpa using ht), awake_of_not_mem ht]
      exact Yields.pure h₁
  refine Yields.bind hsleep fun c₂ h₂ => ?_
  refine Yields.bind_eq (setThread_apply ..) ?_
  have h₃ := h₂.setThread t fun x => { x with unblockManner := manner }
  rw [unblock_eq] at h₃
  have hevent : (if manner = .onClose then Event.dismissed s t else .granted s t) =
      manner.event s t := by
    cases manner <;> rfl
  rw [hevent]
  exact putReleased_yields h₃ _ hc.not_ready hc.not_idle

/-! ## 5. `Sleep::onTick` -/

/-- The first sleeper is due and blocked. -/
theorem wakeBlocked_yields (h : Rep c a) (hc : CanRelease a t) {rest : List (Tid × Nat)}
    (hs : a.sleepers = (t, 0) :: rest) (hb : (a.thread t).blockedAtSem = some s) :
    Yields Rep Sleep.wake c ()
      { (a.unblock s t .waitTimeout).emit (.expired s t) with ready := a.ready ++ [t] } := by
  unfold Sleep.wake
  refine Yields.bind (sleepGetHead_yields h hs hc.lt) fun c₁ h₁ => ?_
  refine Yields.bind_eq rfl (Yields.bind_eq (getTcb_apply ..) ?_)
  rw [h₁.thread_apply, show ((a.awake t).thread t).blockedAtSem = some s from hb]
  refine Yields.bind (x := ()) (a := (a.unblock s t .waitTimeout).emit (.expired s t)) ?_ fun c₂ h₂ => ?_
  · have hm : t ∈ (a.awake t).queue s := (hc.mem_queue t s).mpr hb
    refine Yields.bind (semaphoreGet_yields h₁ hc.mem_queue hm (hc.queue_length s)) fun c₂ h₂ => ?_
    refine Yields.bind_eq (setThread_apply ..) (Yields.of_eq (emit_apply ..) (Rep.emit ?_ _))
    have h₃ := h₂.setThread t fun x => { x with unblockManner := .waitTimeout }
    have he : ((a.awake t).dequeue s t).setThread t
        (fun x => { x with unblockManner := .waitTimeout }) = a.unblock s t .waitTimeout :=
      unblock_eq s t .waitTimeout
    rwa [he] at h₃
  · have hput := schedulerPut_yields h₂ hc.not_ready
    rw [pushReady_of_ne (a := (a.unblock s t .waitTimeout).emit (.expired s t)) hc.not_idle] at hput
    exact hput

/-- The first sleeper is due, and only slept. -/
theorem wakeFree_yields (h : Rep c a) (hc : CanRelease a t) {rest : List (Tid × Nat)}
    (hs : a.sleepers = (t, 0) :: rest) (hb : (a.thread t).blockedAtSem = none) :
    Yields Rep Sleep.wake c () { (a.awake t).emit (.woken t) with ready := a.ready ++ [t] } := by
  unfold Sleep.wake
  refine Yields.bind (sleepGetHead_yields h hs hc.lt) fun c₁ h₁ => ?_
  refine Yields.bind_eq rfl (Yields.bind_eq (getTcb_apply ..) ?_)
  rw [h₁.thread_apply, show ((a.awake t).thread t).blockedAtSem = none from hb]
  exact putReleased_yields h₁ _ hc.not_ready hc.not_idle

theorem still_unblock (s : SemPtr) (t : Tid) (manner : UnblockManner) (u : Tid) :
    ((a.unblock s t manner).thread u).still = (a.thread u).still :=
  Sys.update_field Thread.still (by rfl) u

theorem Frame.unblock (s : SemPtr) (t : Tid) (manner : UnblockManner) (e : Event) (l : List Tid)
    (activity : Activity) :
    Frame a { (a.unblock s t manner).emit e with ready := l, activity := activity } :=
  ⟨rfl, rfl, rfl, rfl, rfl, rfl, still_unblock s t manner, fun _ h => h⟩

/-- The loop of `Sleep::onTick` ends, and wakes one sleeper after the other. -/
theorem wakeLoop_does (n : Nat) (h : Sim c a) (ha : a.activity = .ticking)
    (hn : a.asleep.length < n) :
    Does (Sleep.wakeLoop n) c a fun _ b => b.activity = .none ∧ Frame a b := by
  induction n generalizing c a with
  | zero => cases hn
  | succ n ih =>
    obtain ⟨hr, hi⟩ := h
    refine Follows.bind_eq (getKernel_apply c) ?_
    rw [hr.sleepHead_eq]
    have htickEnd : (∀ p ∈ a.sleepers.head?, p.2 ≠ 0) →
        Does (pure () : KernelM Unit) c a fun _ b => b.activity = .none ∧ Frame a b := fun hs =>
      Does.last hi (.tickEnd ha hs) (Yields.pure hr.control) ⟨rfl, { Frame.refl a with }⟩
    cases hs : a.sleepers with
    | nil =>
      exact htickEnd (by simp [hs])
    | cons p rest =>
      obtain ⟨t, d⟩ := p
      have hdeltas := hr.deltas
      rw [hs] at hdeltas
      have hd : (c.tcb t).timeSleepRelative = d := by
        have := hdeltas.1
        rwa [Nat.zero_add] at this
      show Does (if (c.tcb t).timeSleepRelative = 0 then _ else _) c a _
      rw [hd]
      by_cases hd0 : d = 0
      · subst hd0
        rw [if_pos rfl]
        have hm : t ∈ a.asleep := by simp [Sys.asleep, hs]
        have hc := hi.canRelease (Or.inr hm)
        have hlen : (a.awake t).asleep.length < n := by
          have hle : (a.awake t).asleep.length = (a.asleep.filter fun u => u ≠ t).length :=
            congrArg List.length Sys.asleep_awake
          have hlt : (a.asleep.filter fun u => u ≠ t).length < a.asleep.length :=
            List.length_filter_lt_length_iff_exists.mpr ⟨t, hm, by simp⟩
          omega
        cases hb : (a.thread t).blockedAtSem with
        | some s =>
          refine Does.step hi (.expire ha hs hb) (wakeBlocked_yields hr hc hs hb) fun c' h' => ?_
          have hf : Frame a _ := Frame.unblock s t .waitTimeout (.expired s t) (a.ready ++ [t])
            a.activity
          exact (ih h' ha hlen).mono fun _ b hb => ⟨hb.1, hf.trans hb.2⟩
        | none =>
          refine Does.step hi (.wake ha hs hb) (wakeFree_yields hr hc hs hb) fun c' h' => ?_
          have hf : Frame a { (a.awake t).emit (.woken t) with ready := a.ready ++ [t] } :=
            { Frame.refl a with }
          exact (ih h' ha hlen).mono fun _ b hb => ⟨hb.1, hf.trans hb.2⟩
      · rw [if_neg hd0]
        exact htickEnd (by simpa [hs] using hd0)

/-- `Sleep::onTick`, once the timer interrupt has counted the tick. -/
theorem onTick_does (h : Rep c { a with timeSliceCounter := u64 (a.timeSliceCounter + 1) })
    (hi : a.Inv) (hb : a.AtBody) :
    Does Sleep.onTick c a fun _ b => b.AtBody ∧ b.running = a.running := by
  have hlt : ∀ p ∈ a.sleepers, 1 ≤ p.2 ∧ p.2 < 2 ^ 64 := fun p hp =>
    ⟨hi.ticks.pos (by rw [hb.activity]; simp) p hp, hi.ticks.lt p hp⟩
  have hi' := hi.step (.tick hb)
  have h₁ := h.emit .tick
  -- the loop, from a state in which every deadline is one tick nearer
  have hloop : ∀ {c' : Kernel}, Rep c' { a with
        timeSliceCounter := u64 (a.timeSliceCounter + 1)
        history := .tick :: a.history
        sleepers := a.sleepers.map fun p => (p.1, p.2 - 1) } →
      Does (do Sleep.wakeLoop (← fuel)) c' { a with
        timeSliceCounter := u64 (a.timeSliceCounter + 1)
        history := .tick :: a.history
        sleepers := a.sleepers.map fun p => (p.1, p.2 - 1)
        activity := .ticking } fun _ b => b.AtBody ∧ b.running = a.running := by
    intro c' hr
    refine Follows.bind_eq hr.fuel_apply ?_
    have hlen := Nat.lt_succ_of_le hi'.asleep_length
    refine (wakeLoop_does _ ⟨hr.control, hi'⟩ rfl hlen).mono fun _ b hb => ?_
    exact ⟨hb.2.atBody rfl hi' hb.1, hb.2.running⟩
  unfold Sleep.onTick
  refine Follows.silent (.tick hb) ?_
  refine Follows.bind_eq (emit_apply ..) (Follows.bind_eq (getKernel_apply _) ?_)
  have hhead : c.sleepHead = a.sleepers.head?.map Prod.fst := h.sleepHead_eq
  have hcases : a.sleepers = [] ∨ ∃ p rest, a.sleepers = p :: rest := by
    cases a.sleepers <;> simp
  rcases hcases with hs | ⟨⟨t, d⟩, rest, hs⟩
  · rw [hs] at hhead
    have hmap : (a.sleepers.map fun p => (p.1, p.2 - 1)) = a.sleepers := by
      rw [hs]
      rfl
    rw [← hmap] at h₁
    refine Follows.bind_eq (x := ()) ?_ (hloop h₁)
    dsimp only
    rw [hhead]
    rfl
  · rw [hs] at hhead
    refine Follows.bind_eq (x := ()) ?_ (hloop (h₁.countdown hlt hs))
    dsimp only
    rw [hhead]
    rfl

/-! ## 6. `signal`

As long as a token and a waiter are there, the first waiter takes the token, and what is left when
the loop stops becomes the value. -/

theorem Rep.blockedHead_eq (h : Rep c a) (s : SemPtr) :
    (c.sem s).blockedHead = (a.queue s).head? := (h.queue s).chain.head

theorem Frame.setThread {f : Thread → Thread} (hf : ∀ x, (f x).still = x.still)
    {activity : Activity} : Frame a { a.setThread t f with activity := activity } :=
  ⟨rfl, rfl, rfl, rfl, rfl, rfl, fun u => Sys.update_field Thread.still (hf _) u, fun _ h => h⟩

theorem Frame.setSem {f : Sem → Sem} (hf : ∀ x, x.active = false → (f x).active = false)
    {activity : Activity} : Frame a { a.setSem s f with activity := activity } := by
  refine ⟨rfl, rfl, rfl, rfl, rfl, rfl, fun _ => rfl, fun s' h => ?_⟩
  by_cases hs : s' = s
  · subst hs
    simpa [Sys.setSem] using hf _ h
  · simpa [Sys.setSem, Function.update_of_ne hs] using h

/-- The loop of `signal` ends, and hands the tokens to one waiter after the other. -/
theorem signalLoop_does (n : Nat) {tokens : Nat} (h : Sim c a) (ha : a.activity = .handing s tokens)
    (hn : (a.queue s).length < n ∨ tokens = 0 ∧ 0 < n) :
    Does (kSemaphore.signalLoop s n tokens) c a fun left b =>
      (b.activity = .handing s left ∧ (b.queue s = [] ∨ left = 0)) ∧ Frame a b := by
  induction n generalizing c a tokens with
  | zero => omega
  | succ n ih =>
    have hr := h.rep
    have hi := h.inv
    refine Follows.bind_eq (getSem_apply c s) ?_
    rw [hr.blockedHead_eq]
    cases hq : a.queue s with
    | nil => exact Follows.pure h ⟨⟨ha, Or.inl hq⟩, Frame.refl a⟩
    | cons t rest =>
      rw [hq] at hn
      by_cases h0 : 0 < tokens
      · show Does (if 0 < tokens then _ else _) c a _
        rw [if_pos h0]
        have hb : (a.thread t).blockedAtSem = some s := by
          rw [← hi.places.mem_queue, hq]
          exact List.mem_cons_self
        have hc := hi.canRelease (t := t) (Or.inl (by rw [hb]; simp))
        refine Follows.bind_eq (getTcb_apply c t) ?_
        rw [hr.thread_apply]
        by_cases hle : (a.thread t).tokensNeeded ≤ tokens
        · rw [if_pos hle]
          have hs : a.Step _ := .grant ha hq h0 hle
          have hr₁ := hr.setThread t fun x => { x with tokensNeeded := 0 }
          have hrel := release_yields hr₁ (hc.setThread fun _ => rfl) hq .regular
          rw [unblock_setThread] at hrel
          refine Follows.silent hs (Follows.bind_eq (setThread_apply ..) ?_)
          refine Does.run (hi.step hs) (yields_control hrel) fun c' h' => ?_
          have hlen : ((a.unblock s t .regular).queue s).length < n := by
            have : (a.unblock s t .regular).queue s = rest := by
              simp [Sys.unblock, hq]
            rw [this]
            simp only [List.length_cons] at hn
            omega
          refine (ih h' rfl (Or.inl hlen)).mono fun _ b hb => ⟨hb.1, Frame.trans ?_ hb.2⟩
          exact Frame.unblock s t .regular _ _ _
        · rw [if_neg hle]
          have hs : a.Step _ := .part ha hq h0 (Nat.not_le.mp hle)
          refine Follows.silent hs (Follows.bind_eq (setThread_apply ..) ?_)
          have hr₁ := hr.setThread t fun x => { x with tokensNeeded := x.tokensNeeded - tokens }
          have h' : Sim _ _ := ⟨hr₁.control, hi.step hs⟩
          refine (ih h' rfl (Or.inr ⟨rfl, ?_⟩)).mono fun _ b hb => ⟨hb.1, Frame.trans ?_ hb.2⟩
          · simp only [List.length_cons] at hn
            omega
          · refine Frame.setThread ?_
            exact fun _ => rfl
      · show Does (if 0 < tokens then _ else _) c a _
        rw [if_neg h0]
        exact Follows.pure h ⟨⟨ha, Or.inr (Nat.le_zero.mp (Nat.not_lt.mp h0))⟩, Frame.refl a⟩

/-- `signal`, once it has noted the tokens. -/
theorem handOut_does (h : Sim c a) {tokens : Nat} (ha : a.activity = .handing s tokens) :
    Does (do
      let left ← kSemaphore.signalLoop s (← fuel) tokens
      setSem s fun x => { x with value := u64 (x.value + left) }
      pure (0 : Int)) c a fun _ b => b.activity = .none ∧ Frame a b := by
  refine Follows.bind_eq h.rep.fuel_apply ?_
  have hlen := Nat.lt_succ_of_le (h.inv.queue_length s)
  refine Follows.bind (signalLoop_does _ h ha (Or.inl hlen)) fun left c' b h' hb => ?_
  obtain ⟨⟨hact, hend⟩, hf⟩ := hb
  have hr := h'.rep.setSem s fun x => { x with value := u64 (x.value + left) }
  refine Does.last h'.inv (.handEnd hact hend)
    (Yields.bind_eq (setSem_apply ..) (Yields.pure hr.control)) ⟨rfl, hf.trans (Frame.setSem ?_)⟩
  exact fun _ hx => hx

/-- `signal` of an active semaphore, when the abstract system has noted the tokens already. -/
theorem signalActive_does (h : Rep c a) (ha : (a.sem s).active = true) {n : Nat} {stage : Stage}
    (hi : Sys.Inv { a.emit (.signalled s n) with activity := .handing s n, stage := stage }) :
    Does (kSemaphore.signal s n) c
      { a.emit (.signalled s n) with activity := .handing s n, stage := stage }
      fun _ b => b.activity = .none ∧ Frame { a with stage := stage } b := by
  unfold kSemaphore.signal
  refine Follows.bind_eq (getSem_apply c s) ?_
  rw [show (c.sem s).active = true from (congrArg Sem.active (h.sem_apply s)).trans ha]
  refine Does.run hi (Yields.of_eq (emit_apply ..) ((h.emit _).control)) fun c' h' => ?_
  refine (handOut_does h' rfl).mono fun _ b hb => ⟨hb.1, Frame.trans ?_ hb.2⟩
  exact ⟨rfl, rfl, rfl, rfl, rfl, rfl, fun _ => rfl, fun _ h => h⟩

/-- `signal(1)` -/
theorem signal_does (h : Sim c a) {stage : Stage} (hc : a.SignalCall s stage) :
    Does (kSemaphore.signal s 1) c a fun _ b =>
      b.activity = .none ∧ Frame { a with stage := stage } b := by
  cases ha : (a.sem s).active with
  | false =>
    unfold kSemaphore.signal
    refine Follows.bind_eq (getSem_apply c s) ?_
    rw [show (c.sem s).active = false from (congrArg Sem.active (h.rep.sem_apply s)).trans ha]
    exact Does.last h.inv (.skip hc ha) (Yields.pure h.rep.control) ⟨hc.activity, Frame.refl _⟩
  | true =>
    have hs : a.Step _ := .signal hc ha
    exact Follows.silent hs (signalActive_does h.rep ha (h.inv.step hs))

/-! ## 7. `signalAll` and `close` -/

/-- The loop of `signalAll` ends, and releases every waiter. -/
theorem signalAllLoop_does (n : Nat) {manner : UnblockManner} (h : Sim c a)
    (ha : a.activity = .releasing s manner) (hn : (a.queue s).length < n) :
    Does (kSemaphore.signalAllLoop s manner n) c a fun _ b =>
      (b.activity = .releasing s manner ∧ b.queue s = []) ∧ Frame a b := by
  induction n generalizing c a with
  | zero => cases hn
  | succ n ih =>
    have hr := h.rep
    have hi := h.inv
    refine Follows.bind_eq (getSem_apply c s) ?_
    rw [hr.blockedHead_eq]
    cases hq : a.queue s with
    | nil => exact Follows.pure h ⟨⟨ha, hq⟩, Frame.refl a⟩
    | cons t rest =>
      have hb : (a.thread t).blockedAtSem = some s := by
        rw [← hi.places.mem_queue, hq]
        exact List.mem_cons_self
      have hc := hi.canRelease (t := t) (Or.inl (by rw [hb]; simp))
      have hs : a.Step _ := .release ha hq
      refine Does.step hi hs (release_yields hr hc hq manner) fun c' h' => ?_
      have hlen : ((a.unblock s t manner).queue s).length < n := by
        have : (a.unblock s t manner).queue s = rest := by
          simp [Sys.unblock, hq]
        rw [this]
        rw [hq, List.length_cons] at hn
        omega
      refine (ih h' ha hlen).mono fun _ b hb => ⟨hb.1, Frame.trans ?_ hb.2⟩
      exact Frame.unblock s t manner _ _ a.activity

/-- The loop of `signalAll`, with what follows it: the value is cleared, and `close` makes the
semaphore inactive. -/
theorem releaseAll_does {β : Type} (h : Sim c a) {manner : UnblockManner} {m : KernelM β} {x : β}
    (ha : a.activity = .releasing s manner)
    (hm : ∀ {c' b}, Rep c' b → Yields Rep m c' x (b.setSem s fun x =>
      { x with value := 0, active := x.active && manner ≠ .onClose })) :
    Does (do
      kSemaphore.signalAllLoop s manner (← fuel)
      m) c a fun _ b => b.activity = .none ∧ Frame a b ∧ b.queue s = [] ∧
        (manner = .onClose → (b.sem s).active = false) := by
  refine Follows.bind_eq h.rep.fuel_apply ?_
  have hlen := Nat.lt_succ_of_le (h.inv.queue_length s)
  refine Follows.bind (signalAllLoop_does _ h ha hlen) fun _ c' b h' hb => ?_
  obtain ⟨⟨hact, hq⟩, hf⟩ := hb
  refine Does.last h'.inv (.releaseEnd hact hq) (yields_control (hm h'.rep))
    ⟨rfl, hf.trans (Frame.setSem ?_), hq, ?_⟩
  · intro x hx
    simp [hx]
  · intro hm
    simp [Sys.setSem, hm]

/-- `signalAll(0, false)`, with which `TCB::finish` releases the threads that wait for it. -/
theorem signalAll_does (h : Sim c a) (ha : a.activity = .none) (hs : a.stage = .finishing) :
    Does (kSemaphore.signalAll (.join a.running) 0 false) c a fun _ b =>
      b.activity = .none ∧ Frame a b ∧ b.queue (.join a.running) = [] := by
  unfold kSemaphore.signalAll
  refine Follows.bind_eq (getSem_apply c _) ?_
  rw [show (c.sem (.join a.running)).active = (a.sem (.join a.running)).active from
    congrArg Sem.active (h.rep.sem_apply _)]
  by_cases hactive : (a.sem (.join a.running)).active = false
  · rw [hactive]
    refine Follows.pure h ⟨ha, Frame.refl a, ?_⟩
    rw [List.eq_nil_iff_forall_not_mem]
    intro t ht
    have hw := h.inv.waits.waitsAt t _ ((h.inv.places.mem_queue t _).mp ht)
    cases hactive.symm.trans hw.active
  rw [Bool.not_eq_false] at hactive
  rw [hactive]
  have hstep : a.Step _ := .signalAll ha hs hactive
  have h' : Sim c _ := ⟨h.rep.control, h.inv.step hstep⟩
  refine Follows.silent hstep ((releaseAll_does (x := 1) h' rfl fun {c' b} hr => ?_).mono
    fun _ b hb => ⟨hb.1, Frame.trans ?_ hb.2.1, hb.2.2.1⟩)
  · have hset := hr.setSem (.join a.running) fun x => { x with value := 0 }
    refine Yields.bind_eq (setSem_apply ..) (Yields.pure ?_)
    simpa using hset
  · exact ⟨rfl, rfl, rfl, rfl, rfl, rfl, fun _ => rfl, fun _ h => h⟩

/-- `close` of an active or inactive semaphore. -/
theorem close_does (h : Sim c a) (hc : a.CloseCall s) :
    Does (kSemaphore.close s) c a fun _ b =>
      b.activity = .none ∧ Frame a b ∧ (b.sem s).active = false := by
  have hact : (c.sem s).active = (a.sem s).active := congrArg Sem.active (h.rep.sem_apply s)
  unfold kSemaphore.close
  refine Follows.bind_eq (getSem_apply c s) ?_
  rw [hact]
  cases ha : (a.sem s).active with
  | false => exact Follows.pure h ⟨hc.activity, Frame.refl a, ha⟩
  | true =>
    refine Does.step h.inv (.close hc ha) (Yields.of_eq (emit_apply ..) ((h.rep.emit _).control))
      fun c' h' => ?_
    have hact' : (c'.sem s).active = true := (congrArg Sem.active (h'.rep.sem_apply s)).trans ha
    rw [kSemaphore.signalAll, bind_assoc]
    refine Follows.bind_eq (getSem_apply c' s) ?_
    rw [hact']
    simp only [Bool.not_true, Bool.false_eq_true, if_false, if_true, bind_assoc, pure_bind]
    refine (releaseAll_does (x := 0) h' rfl fun {c' b} hr => ?_).mono
      fun _ b hb => ⟨hb.1, Frame.trans ?_ hb.2.1, hb.2.2.2 rfl⟩
    · have hset := (hr.setSem s fun x => { x with value := 0 }).setSem s fun x =>
        { x with active := false }
      refine Yields.bind_eq (setSem_apply ..) (Yields.bind_eq (setSem_apply ..) (Yields.pure ?_))
      simpa [Sys.setSem] using hset
    · exact ⟨rfl, rfl, rfl, rfl, rfl, rfl, fun _ => rfl, fun _ h => h⟩

end Os1Kernel
