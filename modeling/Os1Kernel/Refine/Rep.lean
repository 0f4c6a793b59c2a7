/-
# The representation relation

What is proved here: the operations on the three queues, on the registry of the semaphores, and
every write to a single object, act on the pointers of the kernel as their counterparts in
`Os1Kernel.Spec.System` act on sequences.

`Rep c a` is the relation: the objects of the kernel state `c`, with their links followed, are the
sequences of the abstract state `a`.  A head, a tail and a link field stand for one sequence
(`IsQueue`); the sleep list stands for pairs of a thread and a deadline, whose differences are the
fields `timeSleepRelative` (`Deltas`); all fields without a link are equal on both sides.

* The representation determines the sequences, so that nothing has to be said about who is linked
  to whom: a thread that is in none of the sequences may hold any old pointer in its link field.
  The exceptions are what the code relies on in a thread that is not in the list: `sleeps`,
  `timeSleepRelative`, and the link `nextTCB` of a thread that is about to be appended.
* An operation that walks along a list finds what it looks for only if it is there.  Each lemma has
  that as a hypothesis on the sequence, and concludes that the operation comes back (`Yields`); the
  loop's fuel is discharged there as well.
* The relation says nothing about which part of the kernel is running.  What the abstract state
  says about this (`activity`, `stage`) can be changed freely, and `Refine.Loops` adds the
  invariant, which cannot.
-/
import Os1Kernel.Lib.Chain
import Os1Kernel.Lib.Delta
import Os1Kernel.Lib.Simulation
import Os1Kernel.Spec.Invariant

namespace Os1Kernel

open Linked DeltaList Simulation

/-! ## 1. The relation -/

/-- The part of the relation that holds from the first instruction of `main` on. -/
structure Links (c : Kernel) (a : Sys) : Prop where
  core : c.toCore = a.toCore
  thread : TCB.toThread ∘ c.tcb = a.thread
  sem : KSemaphore.toSem ∘ c.sem = a.sem
  ready : IsQueue (TCB.nextReady ∘ c.tcb) c.readyHead c.readyTail a.ready
  queue : ∀ s, IsQueue (TCB.nextSemBlocked ∘ c.tcb) (c.sem s).blockedHead (c.sem s).blockedTail
    (a.queue s)
  asleep : Chain (TCB.nextSleep ∘ c.tcb) c.sleepHead a.asleep
  deltas : Deltas (TCB.timeSleepRelative ∘ c.tcb) 0 a.sleepers
  sleeps : ∀ t, (TCB.sleeps ∘ c.tcb) t = true ↔ t ∈ a.asleep
  awake : ∀ t, t ∉ a.asleep → (TCB.timeSleepRelative ∘ c.tcb) t = 0
  threads : IsQueue (TCB.nextTCB ∘ c.tcb) c.TCBsHead c.TCBsTail a.threads
  unlinked : ∀ t, t ∉ a.threads → (TCB.nextTCB ∘ c.tcb) t = none
  sems : IsQueue (KSemaphore.nextSem ∘ c.sem) c.kSemsHead c.kSemsTail a.sems

/-- The relation.  From the end of the boot sequence on there is a running thread and an idle one.
-/
structure Rep (c : Kernel) (a : Sys) : Prop extends Links c a where
  running : c.running = some a.running
  idle : c.idle = some a.idle

/-- A field that the update of one object does not touch. -/
theorem comp_update_same {ι α β : Type*} [DecidableEq ι] (φ : α → β) {g : ι → α} {i : ι} {x : α}
    (h : φ x = φ (g i)) : φ ∘ Function.update g i x = φ ∘ g := by
  rw [Function.comp_update, h]
  exact Function.update_eq_self i (φ ∘ g)

variable {c : Kernel} {a : Sys} {t : Tid} {s : SemPtr}

theorem comp_setTcb {β : Type} (φ : TCB → β) (f : TCB → TCB) :
    φ ∘ (c.setTcb t f).tcb = Function.update (φ ∘ c.tcb) t (φ (f (c.tcb t))) :=
  Function.comp_update ..

theorem comp_setTcb_same {β : Type} (φ : TCB → β) {f : TCB → TCB} (h : ∀ x, φ (f x) = φ x) :
    φ ∘ (c.setTcb t f).tcb = φ ∘ c.tcb :=
  comp_update_same φ (h _)

theorem comp_setSem {β : Type} (φ : KSemaphore → β) (f : KSemaphore → KSemaphore) :
    φ ∘ (c.setSem s f).sem = Function.update (φ ∘ c.sem) s (φ (f (c.sem s))) :=
  Function.comp_update ..

theorem comp_setSem_same {β : Type} (φ : KSemaphore → β) {f : KSemaphore → KSemaphore}
    (h : ∀ x, φ (f x) = φ x) : φ ∘ (c.setSem s f).sem = φ ∘ c.sem :=
  comp_update_same φ (h _)

theorem Rep.thread_apply (h : Rep c a) (t : Tid) : (c.tcb t).toThread = a.thread t :=
  congrFun h.thread t

theorem Rep.sem_apply (h : Rep c a) (s : SemPtr) : (c.sem s).toSem = a.sem s :=
  congrFun h.sem s

theorem Rep.string_eq (h : Rep c a) (p : CharPtr) : c.string p = a.string p := by
  have hmessage : (fun t => (c.tcb t).message) = fun t => (a.thread t).message :=
    funext fun t => congrArg Thread.message (h.thread_apply t)
  rw [Kernel.string, Sys.string, h.core, hmessage]

theorem Rep.store (h : Rep c a) (strings : Nat → CString) :
    Rep { c with strings } { a with strings } := by
  have hcore := h.core
  refine { h with core := ?_ }
  change ({ c.toCore with strings } : Core) = _
  rw [hcore]

/-! ## 2. Updates of single objects -/

/-- The ready queue is relinked, and the fields that are no links change. -/
theorem Rep.relink (h : Rep c a) {g : Tid → TCB} {thread : Tid → Thread} {hd tl : Option Tid}
    {l : List Tid} (hthread : TCB.toThread ∘ g = thread)
    (hready : IsQueue (TCB.nextReady ∘ g) hd tl l)
    (hblocked : TCB.nextSemBlocked ∘ g = TCB.nextSemBlocked ∘ c.tcb)
    (hsleep : TCB.nextSleep ∘ g = TCB.nextSleep ∘ c.tcb)
    (hrel : TCB.timeSleepRelative ∘ g = TCB.timeSleepRelative ∘ c.tcb)
    (hsleeps : TCB.sleeps ∘ g = TCB.sleeps ∘ c.tcb)
    (hnext : TCB.nextTCB ∘ g = TCB.nextTCB ∘ c.tcb) :
    Rep { c with tcb := g, readyHead := hd, readyTail := tl }
      { a with thread := thread, ready := l } where
  core := h.core
  running := h.running
  idle := h.idle
  thread := hthread
  sem := h.sem
  ready := hready
  queue := hblocked ▸ h.queue
  asleep := hsleep ▸ h.asleep
  deltas := hrel ▸ h.deltas
  sleeps := hsleeps ▸ h.sleeps
  awake := hrel ▸ h.awake
  threads := hnext ▸ h.threads
  unlinked := hnext ▸ h.unlinked
  sems := h.sems

theorem Rep.setThread (h : Rep c a) (t : Tid) (f : Thread → Thread) :
    Rep (c.setTcb t fun x => { x with toThread := f x.toThread }) (a.setThread t f) := by
  have hready : TCB.nextReady ∘ (c.setTcb t fun x => { x with toThread := f x.toThread }).tcb =
      TCB.nextReady ∘ c.tcb := comp_update_same _ rfl
  refine h.relink ?_ (hready ▸ h.ready) (comp_update_same _ rfl) (comp_update_same _ rfl)
    (comp_update_same _ rfl) (comp_update_same _ rfl) (comp_update_same _ rfl)
  rw [Function.comp_update, h.thread]
  exact congrArg (fun x => Function.update a.thread t (f x)) (h.thread_apply t)

theorem Rep.emit (h : Rep c a) (e : Event) :
    Rep { c with history := e :: c.history } (a.emit e) := by
  have hcore := h.core
  refine { h with core := ?_ }
  show ({ c.toCore with history := e :: c.toCore.history } : Core) = _
  rw [hcore]
  rfl

theorem Rep.setSem (h : Rep c a) (s : SemPtr) (f : Sem → Sem) :
    Rep (c.setSem s fun x => { x with toSem := f x.toSem }) (a.setSem s f) := by
  have hsame : KSemaphore.nextSem ∘ (c.setSem s fun x => { x with toSem := f x.toSem }).sem =
      KSemaphore.nextSem ∘ c.sem := comp_update_same _ rfl
  refine { h with sem := ?_, queue := fun s' => ?_, sems := ?_ }
  · show KSemaphore.toSem ∘ Function.update c.sem s _ = _
    rw [Function.comp_update, h.sem]
    exact congrArg (fun x => Function.update a.sem s (f x)) (h.sem_apply s)
  · have hq := h.queue s'
    by_cases hs : s' = s
    · subst hs
      simp only [Kernel.setSem, Function.update_self]
      exact hq
    · simp only [Kernel.setSem, Function.update_of_ne hs]
      exact hq
  · exact hsame ▸ h.sems

/-! ## 3. The ready queue -/

/-- A `nextReady` is set, and the head and the tail of the ready queue. -/
theorem Rep.setNextReady (h : Rep c a) {v hd tl : Option Tid} {l : List Tid}
    (hl : IsQueue (Function.update (TCB.nextReady ∘ c.tcb) t v) hd tl l) :
    Rep { c.setTcb t fun x => { x with nextReady := v } with readyHead := hd, readyTail := tl }
      { a with ready := l } := by
  have hthread : TCB.toThread ∘ (c.setTcb t fun x => { x with nextReady := v }).tcb =
      TCB.toThread ∘ c.tcb := comp_update_same _ rfl
  refine h.relink (hthread.trans h.thread) ?_ (comp_update_same _ rfl) (comp_update_same _ rfl)
    (comp_update_same _ rfl) (comp_update_same _ rfl) (comp_update_same _ rfl)
  rwa [Kernel.setTcb, Function.comp_update]

/-- `Scheduler::put` appends. -/
theorem schedulerPut_yields (h : Rep c a) (ht : t ∉ a.ready) :
    Yields Rep (Scheduler.put t) c () (a.pushReady t) := by
  unfold Scheduler.put
  refine Yields.bind_eq (getKernel_apply c) ?_
  rw [h.idle]
  by_cases hi : a.idle = t
  · rw [if_pos (by rw [hi]), Sys.pushReady, if_pos hi.symm]
    exact Yields.pure h
  · rw [if_neg (by simpa using hi), Sys.pushReady, if_neg (Ne.symm hi)]
    refine Yields.bind_eq (setTcb_apply c t _) ?_
    cases htail : c.readyTail with
    | none =>
      have hnil : a.ready = [] := h.ready.tail_eq_none.mp htail
      refine Yields.of_eq rfl ?_
      rw [hnil]
      exact h.setNextReady isQueue_singleton
    | some last =>
      refine Yields.bind_eq (setTcb_apply _ last _) ?_
      refine Yields.of_eq rfl ?_
      have h1 := h.setNextReady (t := t) (v := none) (h.ready.update ht)
      have hpush := (htail ▸ h.ready).push ht
      refine h1.setNextReady (t := last) (v := some t) ?_
      show IsQueue (Function.update (TCB.nextReady ∘ Function.update c.tcb t _) last _) _ _ _
      rw [Function.comp_update]
      exact hpush

/-- `Scheduler::get` takes the first, or the idle thread. -/
theorem schedulerGet_yields (h : Rep c a) :
    Yields Rep Scheduler.get c (some (a.ready.headD a.idle)) { a with ready := a.ready.tail } := by
  unfold Scheduler.get
  refine Yields.bind_eq (getKernel_apply c) ?_
  have hq := h.ready
  cases hl : a.ready with
  | nil =>
    rw [hl] at hq
    rw [show c.readyHead = none from hq.chain, h.idle]
    refine Yields.pure ?_
    have : { a with ready := [] } = a := by rw [← hl]
    rwa [List.tail_nil, this]
  | cons t l =>
    rw [hl] at hq
    rw [show c.readyHead = some t from hq.chain.1]
    refine Yields.bind_eq (getTcb_apply c t) (Yields.bind_eq rfl (Yields.bind_eq rfl ?_))
    refine Yields.of_eq rfl ?_
    exact h.setNextReady (hq.pop.update (List.nodup_cons.mp hq.nodup).1)

theorem getRunning_apply (h : Rep c a) : getRunning c = some (a.running, c) := by
  simp [getRunning, h.running]

/-- `TCB::running` is set, and the time slice starts. -/
theorem Rep.setRunning (h : Rep c a) (t : Tid) :
    Rep { c with running := some t, timeSliceCounter := 0 }
      { a with running := t, timeSliceCounter := 0 } := by
  have hcore := h.core
  refine { h with core := ?_, running := rfl }
  show ({ c.toCore with timeSliceCounter := 0 } : Core) = _
  rw [hcore]

/-- The part of `TCB::yield` behind `Scheduler::put`. -/
theorem choose_yields (h : Rep c a) (ctx : Context) {old : Tid} (hold : old = a.running) :
    Yields Rep (do
      let chosen ← follow (← Scheduler.get)
      modify fun k => { k with running := some chosen, timeSliceCounter := 0 }
      setThread old fun x => { x with context := ctx }
      Os1Kernel.emit (.chosen chosen)) c () (a.choose ctx) := by
  subst hold
  refine Yields.bind (schedulerGet_yields h) fun c' h' => ?_
  refine Yields.bind_eq rfl (Yields.bind_eq rfl (Yields.bind_eq rfl ?_))
  refine Yields.of_eq rfl ?_
  exact ((h'.setRunning _).setThread a.running fun x => { x with context := ctx }).emit _

/-- `TCB::yield` of a thread that gives the processor up. -/
theorem yield_yields (h : Rep c a) (ctx : Context) :
    Yields Rep (TCB.yield false ctx) c () (a.choose ctx) := by
  unfold TCB.yield
  refine Yields.bind_eq (getRunning_apply h) (Yields.bind_eq (getTcb_apply c _) ?_)
  rw [Bool.and_false, if_neg (by decide)]
  exact Yields.bind_eq rfl (choose_yields h ctx rfl)

theorem Rep.sleeps_eq (h : Rep c a) (t : Tid) : (c.tcb t).sleeps = decide (t ∈ a.asleep) := by
  have := h.sleeps t
  by_cases ht : t ∈ a.asleep
  · rw [decide_eq_true ht]
    exact this.mpr ht
  · rw [decide_eq_false ht]
    exact Bool.eq_false_iff.mpr fun hs => ht (this.mp hs)

/-- `TCB::yield` of a thread that stays ready. -/
theorem preempt_yields (h : Rep c a) (ctx : Context)
    (hfree : (a.thread a.running).blockedAtSem = none ∧ a.running ∉ a.asleep)
    (hfin : (a.thread a.running).finished = true → a.running = a.idle)
    (hready : a.running ∉ a.ready) :
    Yields Rep (TCB.yield true ctx) c () ((a.pushReady a.running).choose ctx) := by
  unfold TCB.yield
  refine Yields.bind_eq (getRunning_apply h) (Yields.bind_eq (getTcb_apply c _) ?_)
  rw [h.thread_apply, h.sleeps_eq, hfree.1, decide_eq_false hfree.2]
  cases hf : (a.thread a.running).finished with
  | true =>
    have hi : a.pushReady a.running = a := by rw [Sys.pushReady, if_pos (hfin hf)]
    rw [hi]
    exact Yields.bind_eq rfl (choose_yields h ctx rfl)
  | false =>
    exact Yields.bind (schedulerPut_yields h hready) fun c' h' => choose_yields h' ctx rfl

/-! ## 4. The threads blocked at a semaphore -/

/-- The lists of waiters are relinked. -/
theorem Rep.requeue (h : Rep c a) {g : Tid → TCB} {gs : SemPtr → KSemaphore}
    {queue : SemPtr → List Tid} (hthread : TCB.toThread ∘ g = TCB.toThread ∘ c.tcb)
    (hready : TCB.nextReady ∘ g = TCB.nextReady ∘ c.tcb)
    (hsleep : TCB.nextSleep ∘ g = TCB.nextSleep ∘ c.tcb)
    (hrel : TCB.timeSleepRelative ∘ g = TCB.timeSleepRelative ∘ c.tcb)
    (hsleeps : TCB.sleeps ∘ g = TCB.sleeps ∘ c.tcb)
    (hnext : TCB.nextTCB ∘ g = TCB.nextTCB ∘ c.tcb)
    (hsem : KSemaphore.toSem ∘ gs = KSemaphore.toSem ∘ c.sem)
    (hnextSem : KSemaphore.nextSem ∘ gs = KSemaphore.nextSem ∘ c.sem)
    (hqueue : ∀ s, IsQueue (TCB.nextSemBlocked ∘ g) (gs s).blockedHead (gs s).blockedTail
      (queue s)) :
    Rep { c with tcb := g, sem := gs } { a with queue := queue } where
  core := h.core
  running := h.running
  idle := h.idle
  thread := hthread.trans h.thread
  sem := hsem.trans h.sem
  ready := hready ▸ h.ready
  queue := hqueue
  asleep := hsleep ▸ h.asleep
  deltas := hrel ▸ h.deltas
  sleeps := hsleeps ▸ h.sleeps
  awake := hrel ▸ h.awake
  threads := hnext ▸ h.threads
  unlinked := hnext ▸ h.unlinked
  sems := hnextSem ▸ h.sems

theorem setTcb_comm {f g : TCB → TCB} (h : ∀ x, g (f x) = f (g x)) :
    (c.setTcb t f).setTcb t g = (c.setTcb t g).setTcb t f := by
  simp only [Kernel.setTcb, Function.update_self, Function.update_idem, h]

/-- A waiter of one semaphore is no waiter of another. -/
theorem not_mem_queue (hmem : ∀ t s, t ∈ a.queue s ↔ (a.thread t).blockedAtSem = some s)
    {s' : SemPtr} (hs : s' ≠ s) : ∀ t ∈ a.queue s, t ∉ a.queue s' := by
  intro t ht ht'
  rw [hmem] at ht ht'
  exact hs (Option.some.inj (ht'.symm.trans ht))

/-- `kSemaphore::put` appends. -/
theorem semaphorePut_yields (h : Rep c a) (n : Nat)
    (hmem : ∀ t s, t ∈ a.queue s ↔ (a.thread t).blockedAtSem = some s)
    (ht : (a.thread t).blockedAtSem = none) :
    Yields Rep (kSemaphore.put s t n) c () (a.enqueue s t n) := by
  have hnot : ∀ s, t ∉ a.queue s := by
    intro s hm
    rw [hmem, ht] at hm
    cases hm
  -- the fields that are no links are set in between; the order does not matter
  have finish : ∀ {k : Kernel},
      Rep (k.setTcb t fun x => { x with nextSemBlocked := none })
        { a with queue := Function.update a.queue s (a.queue s ++ [t]) } →
      Yields Rep (do
        setThread t fun x => { x with blockedAtSem := some s, tokensNeeded := n }
        setTcb t fun x => { x with nextSemBlocked := none }) k () (a.enqueue s t n) := by
    intro k hk
    have hset := hk.setThread t fun x => { x with blockedAtSem := some s, tokensNeeded := n }
    refine Yields.bind_eq rfl (Yields.of_eq ?_ hset)
    exact congrArg (fun k => some ((), k)) (setTcb_comm fun _ => rfl)
  unfold kSemaphore.put
  refine Yields.bind_eq (getSem_apply c s) ?_
  have hq := h.queue s
  cases hhead : (c.sem s).blockedHead with
  | none =>
    have hnil : a.queue s = [] := by
      have := hq.chain.head
      rw [hhead] at this
      exact List.head?_eq_none_iff.mp this.symm
    refine Yields.bind_eq (setSem_apply ..) (finish ?_)
    refine h.requeue (comp_update_same _ rfl) (comp_update_same _ rfl) (comp_update_same _ rfl)
      (comp_update_same _ rfl) (comp_update_same _ rfl) (comp_update_same _ rfl)
      (comp_update_same _ rfl) (comp_update_same _ rfl) fun s' => ?_
    rw [Function.comp_update, hnil]
    by_cases hs : s' = s
    · subst hs
      simp only [Kernel.setSem, Function.update_self]
      exact isQueue_singleton
    · simp only [Kernel.setSem, Function.update_of_ne hs]
      exact (h.queue s').update (hnot s')
  | some hd =>
    have hne : a.queue s ≠ [] := by
      intro hnil
      have := hq.chain.head
      rw [hhead, hnil] at this
      cases this
    obtain ⟨last, hlast⟩ : ∃ last, (c.sem s).blockedTail = some last :=
      Option.ne_none_iff_exists'.mp fun he => hne (hq.tail_eq_none.mp he)
    have hmemlast : last ∈ a.queue s := List.mem_of_getLast? (hq.last ▸ hlast)
    have htl : t ≠ last := fun e => hnot s (e ▸ hmemlast)
    rw [hlast, follow_some]
    refine Yields.bind_eq rfl (finish (k := (c.setTcb last fun x =>
      { x with nextSemBlocked := some t }).setSem s fun x => { x with blockedTail := some t }) ?_)
    have hsame : ∀ {β : Type} (φ : TCB → β), (∀ x v, φ { x with nextSemBlocked := v } = φ x) →
        φ ∘ (((c.setTcb last fun x => { x with nextSemBlocked := some t }).setSem s
          fun x => { x with blockedTail := some t }).setTcb t
          fun x => { x with nextSemBlocked := none }).tcb = φ ∘ c.tcb := fun φ hφ =>
      (comp_update_same φ (hφ _ _)).trans (comp_update_same φ (hφ _ _))
    refine h.requeue (hsame _ fun _ _ => rfl) (hsame _ fun _ _ => rfl) (hsame _ fun _ _ => rfl)
      (hsame _ fun _ _ => rfl) (hsame _ fun _ _ => rfl) (hsame _ fun _ _ => rfl)
      (comp_update_same _ rfl) (comp_update_same _ rfl) fun s' => ?_
    have hcomp : TCB.nextSemBlocked ∘ (((c.setTcb last fun x =>
          { x with nextSemBlocked := some t }).setSem s fun x =>
          { x with blockedTail := some t }).setTcb t fun x => { x with nextSemBlocked := none }).tcb =
        Function.update (Function.update (TCB.nextSemBlocked ∘ c.tcb) t none) last (some t) := by
      rw [Function.update_comm htl]
      exact (Function.comp_update ..).trans (congrArg (Function.update · t none)
        (Function.comp_update ..))
    refine (congrArg (fun f => IsQueue f _ _ _) hcomp).mpr ?_
    by_cases hs : s' = s
    · subst hs
      simp only [Kernel.setSem, Kernel.setTcb, Function.update_self]
      exact (hlast ▸ hq).push (hnot s')
    · simp only [Kernel.setSem, Kernel.setTcb, Function.update_of_ne hs]
      exact ((h.queue s').update (hnot s')).update (not_mem_queue hmem hs last hmemlast)

/-- The head of the list of waiters is taken off. -/
theorem Rep.unlinkHead (h : Rep c a)
    (hmem : ∀ t s, t ∈ a.queue s ↔ (a.thread t).blockedAtSem = some s) {rest : List Tid}
    (hq : a.queue s = t :: rest) :
    Rep ((c.setSem s fun x =>
        { x with
          blockedHead := (c.tcb t).nextSemBlocked
          blockedTail := if (c.tcb t).nextSemBlocked = none then none else x.blockedTail }).setTcb t
        fun x => { x with nextSemBlocked := none })
      { a with queue := Function.update a.queue s rest } := by
  have hqs := h.queue s
  rw [hq] at hqs
  refine h.requeue (comp_update_same _ rfl) (comp_update_same _ rfl) (comp_update_same _ rfl)
    (comp_update_same _ rfl) (comp_update_same _ rfl) (comp_update_same _ rfl)
    (comp_update_same _ rfl) (comp_update_same _ rfl) fun s' => ?_
  rw [Function.comp_update]
  by_cases hs : s' = s
  · subst hs
    simp only [Kernel.setSem, Function.update_self]
    exact hqs.pop.update (List.nodup_cons.mp hqs.nodup).1
  · simp only [Kernel.setSem, Function.update_of_ne hs]
    exact (h.queue s').update (not_mem_queue hmem hs t (hq ▸ List.mem_cons_self))

/-- A waiter behind another one, `u`, is taken off. -/
theorem Rep.unlinkAfter (h : Rep c a)
    (hmem : ∀ t s, t ∈ a.queue s ↔ (a.thread t).blockedAtSem = some s) {u : Tid}
    {ys rest : List Tid} (hq : a.queue s = ys ++ u :: t :: rest) :
    Rep (((c.setTcb u fun x => { x with nextSemBlocked := (c.tcb t).nextSemBlocked }).setSem s
        fun x => if some t = x.blockedTail then { x with blockedTail := some u } else x).setTcb t
        fun x => { x with nextSemBlocked := none })
      { a with queue := Function.update a.queue s (ys ++ u :: rest) } := by
  have hqs := h.queue s
  rw [hq] at hqs
  have hnd := hqs.nodup
  rw [List.nodup_append] at hnd
  have htu : t ≠ u := by
    rintro rfl
    exact (List.nodup_cons.mp hnd.2.1).1 List.mem_cons_self
  have hsame : ∀ {β : Type} (φ : TCB → β), (∀ x v, φ { x with nextSemBlocked := v } = φ x) →
      φ ∘ (((c.setTcb u fun x => { x with nextSemBlocked := (c.tcb t).nextSemBlocked }).setSem s
        fun x => if some t = x.blockedTail then { x with blockedTail := some u } else x).setTcb t
        fun x => { x with nextSemBlocked := none }).tcb = φ ∘ c.tcb := fun φ hφ =>
    (comp_update_same φ (hφ _ _)).trans (comp_update_same φ (hφ _ _))
  have htail : ∀ {β : Type} (φ : KSemaphore → β), (∀ x v, φ { x with blockedTail := v } = φ x) →
      ∀ x, φ (if some t = x.blockedTail then { x with blockedTail := some u } else x) = φ x := by
    intro β φ hφ x
    split
    · exact hφ _ _
    · rfl
  refine h.requeue (hsame _ fun _ _ => rfl) (hsame _ fun _ _ => rfl) (hsame _ fun _ _ => rfl)
    (hsame _ fun _ _ => rfl) (hsame _ fun _ _ => rfl) (hsame _ fun _ _ => rfl)
    (comp_update_same _ (htail _ (fun _ _ => rfl) _))
    (comp_update_same _ (htail _ (fun _ _ => rfl) _)) fun s' => ?_
  have hcomp : TCB.nextSemBlocked ∘ (((c.setTcb u fun x =>
        { x with nextSemBlocked := (c.tcb t).nextSemBlocked }).setSem s fun x =>
        if some t = x.blockedTail then { x with blockedTail := some u } else x).setTcb t
        fun x => { x with nextSemBlocked := none }).tcb =
      Function.update (Function.update (TCB.nextSemBlocked ∘ c.tcb) u
        ((TCB.nextSemBlocked ∘ c.tcb) t)) t none :=
    (Function.comp_update ..).trans (congrArg (Function.update · t none)
      (Function.comp_update ..))
  refine (congrArg (fun f => IsQueue f _ _ _) hcomp).mpr ?_
  have hends : ∀ (x : KSemaphore) {f : Tid → Option Tid} {l : List Tid},
      IsQueue f x.blockedHead (if some t = x.blockedTail then some u else x.blockedTail) l →
      IsQueue f (if some t = x.blockedTail then { x with blockedTail := some u } else x).blockedHead
        (if some t = x.blockedTail then { x with blockedTail := some u } else x).blockedTail l := by
    intro x f l hl
    by_cases he : some t = x.blockedTail
    · simpa only [if_pos he] using hl
    · simpa only [if_neg he] using hl
  have hin : ∀ v ∈ [u, t], v ∈ a.queue s := by
    intro v hv
    rw [hq]
    simp only [List.mem_cons, List.not_mem_nil, or_false] at hv
    rcases hv with rfl | rfl <;> simp
  by_cases hs : s' = s
  · subst hs
    have hout : t ∉ ys ++ u :: rest := by
      intro hm
      rcases List.mem_append.mp hm with hm | hm
      · exact hnd.2.2 _ hm _ (List.mem_cons_of_mem _ List.mem_cons_self) rfl
      · rcases List.mem_cons.mp hm with hm | hm
        · exact htu hm
        · exact (List.nodup_cons.mp (List.nodup_cons.mp hnd.2.1).2).1 hm
    have := hqs.unlink.update (v := none) hout
    simp only [Kernel.setSem, Kernel.setTcb, Function.update_self]
    exact hends _ this
  · simp only [Kernel.setSem, Kernel.setTcb, Function.update_of_ne hs]
    exact ((h.queue s').update (not_mem_queue hmem hs u (hin u (by simp)))).update
      (not_mem_queue hmem hs t (hin t (by simp)))

/-- `kSemaphore::get` of a waiter. -/
def Sys.dequeue (a : Sys) (s : SemPtr) (t : Tid) : Sys :=
  { a with
    queue := Function.update a.queue s ((a.queue s).erase t)
    thread := Function.update a.thread t
      { a.thread t with blockedAtSem := none, tokensNeeded := 0 } }

/-- The search of `kSemaphore::get` ends at the waiter, which is unlinked. -/
theorem semaphoreUnlink (h : Rep c a)
    (hmem : ∀ t s, t ∈ a.queue s ↔ (a.thread t).blockedAtSem = some s) (ht : t ∈ a.queue s)
    (hfuel : (a.queue s).length ≤ a.IDCounter) :
    ∃ k, kSemaphore.unlink s t c = some (some t, k) ∧
      Rep (k.setTcb t fun x => { x with nextSemBlocked := none })
        { a with queue := Function.update a.queue s ((a.queue s).erase t) } := by
  have hb : (c.tcb t).blockedAtSem = some s := by
    rw [h.thread_apply]
    exact (hmem t s).mp ht
  have hn : c.IDCounter = a.IDCounter := congrArg Core.IDCounter h.core
  obtain ⟨ys, rest, hys, hq, he⟩ := List.exists_erase_eq ht
  have hsearch : search (fun t => (c.tcb t).nextSemBlocked) t (c.IDCounter + 1) none
      (c.sem s).blockedHead = some (ys.getLast?, some t) := by
    have hchain := (h.queue s).chain
    rw [hq] at hchain
    have hlt : ys.length < c.IDCounter + 1 := by
      rw [hq, List.length_append, List.length_cons] at hfuel
      omega
    exact (hchain.search_eq hys hlt).trans (by rw [Option.or_none])
  rw [he]
  rcases List.eq_nil_or_concat ys with rfl | ⟨ys, u, rfl⟩
  · refine ⟨_, ?_, h.unlinkHead hmem hq⟩
    simp [kSemaphore.unlink, hb, hsearch]
  · rw [List.concat_append] at hq ⊢
    refine ⟨_, ?_, h.unlinkAfter hmem hq⟩
    simp [kSemaphore.unlink, hb, hsearch]

/-- The fields that `kSemaphore::get` clears behind the unlinking. -/
theorem Rep.dequeue (h : Rep (c.setTcb t fun x => { x with nextSemBlocked := none })
      { a with queue := Function.update a.queue s ((a.queue s).erase t) }) :
    Rep ((c.setTcb t fun x => { x with blockedAtSem := none, tokensNeeded := 0 }).setTcb t
      fun x => { x with nextSemBlocked := none }) (a.dequeue s t) := by
  have hset := h.setThread t fun x => { x with blockedAtSem := none, tokensNeeded := 0 }
  refine (congrArg (Rep · (a.dequeue s t)) (setTcb_comm ?_)).mpr hset
  exact fun _ => rfl

theorem semaphoreGet_yields (h : Rep c a)
    (hmem : ∀ t s, t ∈ a.queue s ↔ (a.thread t).blockedAtSem = some s) (ht : t ∈ a.queue s)
    (hfuel : (a.queue s).length ≤ a.IDCounter) :
    Yields Rep (kSemaphore.get s (some t)) c (some t) (a.dequeue s t) := by
  obtain ⟨k, hk, hrep⟩ := semaphoreUnlink h hmem ht hfuel
  refine Yields.bind_eq hk (Yields.of_eq ?_ hrep.dequeue)
  rfl

/-- `kSemaphore::get` without an argument takes the first waiter. -/
theorem semaphoreGetHead_yields (h : Rep c a)
    (hmem : ∀ t s, t ∈ a.queue s ↔ (a.thread t).blockedAtSem = some s) {rest : List Tid}
    (hq : a.queue s = t :: rest) :
    Yields Rep (kSemaphore.get s none) c (some t) (a.dequeue s t) := by
  have hhead : (c.sem s).blockedHead = some t := by
    rw [(h.queue s).chain.head, hq]
    rfl
  have he : (a.queue s).erase t = rest := by rw [hq, List.erase_cons_head]
  have hrep := h.unlinkHead hmem hq
  rw [← he] at hrep
  have hunlink : kSemaphore.unlinkHead s c = some (some t, c.setSem s fun x =>
      { x with
        blockedHead := (c.tcb t).nextSemBlocked
        blockedTail := if (c.tcb t).nextSemBlocked = none then none else x.blockedTail }) := by
    simp [kSemaphore.unlinkHead, hhead]
  refine Yields.bind_eq hunlink (Yields.of_eq ?_ hrep.dequeue)
  rfl

end Os1Kernel
