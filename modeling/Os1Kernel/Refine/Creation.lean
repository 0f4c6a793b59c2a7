/-
# Creating and finishing threads

`TCB::threadCreate` builds a thread from parts that can be missing, and takes it apart again when
one is; `TCB::finish` closes what the thread owns, one semaphore after the other.

* While the constructor runs the thread is in no list, and the semaphores it has created are in the
  registry but known to nobody else.  `Building` is what holds meanwhile; it is kept by every
  creation and every closing, so that the constructor is followed statement by statement.
* A semaphore that could not be created is the null pointer.  `Built` has both cases, and
  `closeIf_does` is the source's test for it.
* The constructor ends in `Complete` or in `Failed`.  In the second case all semaphores that were
  created are closed, and stay in the registry: `~TCB` does not delete them.  `threadCreate_does`
  joins the two, with the lists and `numOfActiveChildren` in the first case only.
* `TCB::finish` releases those who join, closes three semaphores, signals to a parent that waits
  for its children, and closes the fourth.  Each of these is a step of `Sys.Step` or a loop of
  them, and `Finishing` says how far it has come: the stage, and which semaphores are closed.
-/
import Os1Kernel.Refine.Operations

namespace Os1Kernel

open Linked DeltaList Simulation

variable {c : Kernel} {a a₀ b : Sys} {t : Tid} {s : SemPtr}

/-! ## 1. The parts of a new thread

The semaphores are created one by one, each a step of its own, and the thread's object is written
in another, which may write what it likes, since the thread is in no list yet. -/

/-- The running thread, the caller of `threadCreate`, is building `t`. -/
structure Building (a₀ : Sys) (t : Tid) (a : Sys) : Prop where
  calls : a.Calls
  running : a.running = a₀.running
  threads : a.threads = a₀.threads
  lt : t < a.IDCounter
  new : ∀ u ∈ a.threads, u < t

theorem Building.not_mem (h : Building a₀ t a) : t ∉ a.threads := fun ht => lt_irrefl t (h.new t ht)

/-- A semaphore of `t`, or the null pointer that stands for it. -/
def Built (s : SemPtr) (p : Option SemPtr) (a : Sys) : Prop :=
  p = some s ∧ s ∈ a.sems ∧ (a.sem s).active = true ∧ (a.sem s).value = s.initial ∨
    p = none ∧ s ∉ a.sems

theorem Built.mono {p : Option SemPtr} (h : Built s p a) (hsem : b.sem s = a.sem s)
    (hsems : s ∈ b.sems ↔ s ∈ a.sems) : Built s p b := by
  rw [Built, hsem, hsems]
  exact h

theorem Sys.Inv.queue_nil (h : a.Inv) (hs : s ∉ a.sems) : a.queue s = [] := by
  refine List.eq_nil_iff_forall_not_mem.mpr fun t ht => hs ?_
  exact h.alive.active_mem s (h.waits.waitsAt t s ((h.places.mem_queue t s).mp ht)).active

/-- `kSemaphoreCreate` of one of the semaphores of `t`, for which there may be no memory. -/
theorem semaphoreCreate_does (h : Sim c a) (hb : Building a₀ t a) (hown : s ∈ SemPtr.own t)
    (hnew : s ∉ a.sems) (mem : Bool) :
    Does (kSemaphore.kSemaphoreCreate s s.initial mem) c a fun p b =>
      Building a₀ t b ∧ Built s p b ∧ ∀ s' ≠ s, ∀ p', Built s' p' a → Built s' p' b := by
  cases mem with
  | false => exact Follows.pure h ⟨hb, Or.inr ⟨rfl, hnew⟩, fun _ _ _ h => h⟩
  | true =>
    have hinit : s.initial < 2 ^ 64 := by
      cases s <;> simp [SemPtr.initial]
    have hs : a.Step _ := .openSem hb.calls hinit
      (Or.inr ⟨t, hown, hnew, hb.not_mem, hb.lt, rfl⟩)
    refine Does.last h.inv hs (semaphoreCreate_yields h.rep hnew (h.inv.queue_nil hnew) _)
      ⟨?_, Or.inl ⟨rfl, by simp, ?_, ?_⟩, fun s' hne p' hp => hp.mono ?_ ?_⟩
    · exact { hb with calls := { hb.calls with } }
    · simp [Sys.emit, Sys.setSem]
    · simp [Sys.emit, Sys.setSem]
    · exact Function.update_of_ne hne ..
    · simp [hne]

/-- The fields of a thread are set that is on no list. -/
theorem Links.construct (h : Links c a) (hready : t ∉ a.ready) (hqueue : ∀ s, t ∉ a.queue s)
    (hasleep : t ∉ a.asleep) (ht : t ∉ a.threads) {f : TCB → TCB}
    (hrel : (f (c.tcb t)).timeSleepRelative = 0) (hsleeps : (f (c.tcb t)).sleeps = false)
    (hnext : (f (c.tcb t)).nextTCB = none) :
    Links (c.setTcb t f) (a.setThread t fun _ => (f (c.tcb t)).toThread) where
  core := h.core
  thread := by
    rw [comp_setTcb, h.thread]
    rfl
  sem := h.sem
  ready := by
    rw [comp_setTcb]
    exact h.ready.update hready
  queue s := by
    rw [comp_setTcb]
    exact (h.queue s).update (hqueue s)
  asleep := by
    rw [comp_setTcb]
    exact h.asleep.update hasleep
  deltas := by
    rw [comp_setTcb]
    exact h.deltas.update hasleep
  sleeps u := by
    rw [comp_setTcb]
    by_cases hu : u = t
    · subst hu
      rw [Function.update_self, hsleeps]
      exact iff_of_false (by simp) hasleep
    · rw [Function.update_of_ne hu]
      exact h.sleeps u
  awake u hu := by
    rw [comp_setTcb]
    by_cases hut : u = t
    · subst hut
      rw [Function.update_self, hrel]
    · rw [Function.update_of_ne hut]
      exact h.awake u hu
  threads := by
    rw [comp_setTcb]
    exact h.threads.update ht
  unlinked u hu := by
    rw [comp_setTcb]
    by_cases hut : u = t
    · subst hut
      rw [Function.update_self, hnext]
    · rw [Function.update_of_ne hut]
      exact h.unlinked u hu
  sems := h.sems

theorem Rep.construct (h : Rep c a) (hi : a.Inv) (ht : t ∉ a.threads) {f : TCB → TCB}
    (hrel : (f (c.tcb t)).timeSleepRelative = 0) (hsleeps : (f (c.tcb t)).sleeps = false)
    (hnext : (f (c.tcb t)).nextTCB = none) :
    Rep (c.setTcb t f) (a.setThread t fun _ => (f (c.tcb t)).toThread) := by
  have hlive := hi.places.live t
  have hqueue : ∀ s, t ∉ a.queue s := by
    intro s hm
    have hb := (hi.places.mem_queue t s).mp hm
    exact ht (hlive (Or.inr (Or.inl (by rw [hb]; simp)))).1
  exact ⟨h.toLinks.construct (fun hm => ht (hlive (Or.inl hm)).1) hqueue
    (fun hm => ht (hlive (Or.inr (Or.inr hm))).1) ht hrel hsleeps hnext, h.running, h.idle⟩

/-! ## 2. `TCB::TCB` -/

theorem Building.frame (h : Building a₀ t a) (hf : Frame a b) (hb : b.activity = .none) :
    Building a₀ t b where
  calls :=
    { activity := hb
      stage := hf.stage.trans h.calls.stage
      context := by rw [hf.running, hf.context, h.calls.context]
      not_idle := by rw [hf.running, hf.idle]; exact h.calls.not_idle }
  running := hf.running.trans h.running
  threads := hf.threads.trans h.threads
  lt := by rw [hf.IDCounter]; exact h.lt
  new := by rw [hf.threads]; exact h.new

/-- The thread under construction changes. -/
theorem Building.init (h : Building a₀ t a) (hr : a.running ∈ a.threads) (f : Thread → Thread) :
    Building a₀ t (a.setThread t f) := by
  have hne : a.running ≠ t := fun e => h.not_mem (e ▸ hr)
  refine { h with calls := { h.calls with context := ?_ } }
  exact (congrArg Thread.context (Function.update_of_ne hne ..)).trans h.calls.context

/-- `if (sem) sem->close()` for a semaphore of the thread under construction. -/
theorem closeIf_does (h : Sim c a) (hb : Building a₀ t a) {p : Option SemPtr}
    (hp : ∀ s ∈ p, s ∈ SemPtr.own t ∧ s ∈ a.sems) :
    Does (TCB.closeIf p) c a fun _ b => b.activity = .none ∧ Frame a b := by
  cases p with
  | none => exact Follows.pure h ⟨hb.calls.activity, Frame.refl a⟩
  | some s =>
    obtain ⟨hown, hmem⟩ := hp s rfl
    refine Follows.bind (close_does h (.undo hb.calls hown hb.not_mem hmem)) fun _ c' b h' hb' => ?_
    exact Follows.pure h' ⟨hb'.1, hb'.2.1⟩

theorem closeOwn_does (h : Sim c a) (hb : Building a₀ t a) {p q r o : Option SemPtr}
    (hp : ∀ s, p = some s ∨ q = some s ∨ r = some s ∨ o = some s →
      s ∈ SemPtr.own t ∧ s ∈ a.sems) :
    Does (do
      TCB.closeIf p
      TCB.closeIf q
      TCB.closeIf r
      TCB.closeIf o) c a fun _ b => b.activity = .none ∧ Frame a b := by
  refine Follows.bind (closeIf_does h hb fun s hs => hp s (Or.inl hs)) fun _ c₁ b₁ h₁ ⟨ha₁, hf₁⟩ => ?_
  have hb₁ := hb.frame hf₁ ha₁
  refine Follows.bind (closeIf_does h₁ hb₁ fun s hs => ?_) fun _ c₂ b₂ h₂ ⟨ha₂, hf₂⟩ => ?_
  · rw [hf₁.sems]
    exact hp s (Or.inr (Or.inl hs))
  have hb₂ := hb₁.frame hf₂ ha₂
  refine Follows.bind (closeIf_does h₂ hb₂ fun s hs => ?_) fun _ c₃ b₃ h₃ ⟨ha₃, hf₃⟩ => ?_
  · rw [hf₂.sems, hf₁.sems]
    exact hp s (Or.inr (Or.inr (Or.inl hs)))
  refine (closeIf_does h₃ (hb₂.frame hf₃ ha₃) fun s hs => ?_).mono fun _ b ⟨ha, hf⟩ =>
    ⟨ha, ((hf₁.trans hf₂).trans hf₃).trans hf⟩
  rw [hf₃.sems, hf₂.sems, hf₁.sems]
  exact hp s (Or.inr (Or.inr (Or.inr hs)))

/-- The constructor had everything it needed. -/
structure Complete (t : Tid) (body : Bool) (a : Sys) : Prop where
  context : (a.thread t).context = .threadWrapper
  finished : (a.thread t).finished = false
  parent : (a.thread t).parent = some a.running
  children : (a.thread t).numOfActiveChildren = 0
  tokens : (a.thread t).tokensNeeded = 0
  hasBody : (a.thread t).hasBody = body
  pointers : (a.thread t).semJoin = some (.join t) ∧ (a.thread t).semJoinAll = some (.joinAll t) ∧
    (a.thread t).semSend = some (.send t) ∧ (a.thread t).semReceive = some (.receive t)
  sems : ∀ s ∈ SemPtr.own t, s ∈ a.sems ∧ (a.sem s).active = true ∧ (a.sem s).value = s.initial

/-- Something was missing, and what there is has been closed. -/
structure Failed (t : Tid) (a : Sys) : Prop where
  finished : (a.thread t).finished = true
  pointers : ∀ s, (a.thread t).semSend = some s ∨ (a.thread t).semReceive = some s ∨
    (a.thread t).semJoin = some s ∨ (a.thread t).semJoinAll = some s →
    s ∈ SemPtr.own t ∧ s ∈ a.sems

theorem Failed.frame (h : Failed t a) (hf : Frame a b) : Failed t b := by
  obtain ⟨hfin, hp⟩ := h
  refine ⟨(hf.finished t).trans hfin, ?_⟩
  rw [hf.field Thread.semSend (fun _ => rfl), hf.field Thread.semReceive (fun _ => rfl),
    hf.field Thread.semJoin (fun _ => rfl), hf.field Thread.semJoinAll (fun _ => rfl), hf.sems]
  exact hp

theorem Rep.allocate (h : Rep c a) :
    Rep { c with IDCounter := c.IDCounter + 1 } { a with IDCounter := a.IDCounter + 1 } := by
  have hcore := h.core
  refine { h with core := ?_ }
  show ({ c.toCore with IDCounter := c.toCore.IDCounter + 1 } : Core) = _
  rw [hcore]

theorem Built.pointer {p : Option SemPtr} (h : Built s p a) {s' : SemPtr} (hp : p = some s') :
    s' = s ∧ s' ∈ a.sems := by
  rcases h with ⟨he, hs, -⟩ | ⟨he, -⟩
  · obtain rfl := Option.some.inj (he.symm.trans hp)
    exact ⟨rfl, hs⟩
  · rw [he] at hp
    cases hp

/-- The last part of the constructor: the fields are set, and a thread that misses something is
marked finished and loses its semaphores again. -/
theorem constructFields_does (h : Sim c a) (hb : Building a₀ t a) {f : TCB → TCB} {fail : Bool}
    {send receive join joinAll : Option SemPtr} {body : Bool}
    (hrel : (f (c.tcb t)).timeSleepRelative = 0) (hsleeps : (f (c.tcb t)).sleeps = false)
    (hnext : (f (c.tcb t)).nextTCB = none) (hblocked : (f (c.tcb t)).blockedAtSem = none)
    (hpointers : (f (c.tcb t)).semSend = send ∧ (f (c.tcb t)).semReceive = receive ∧
      (f (c.tcb t)).semJoin = join ∧ (f (c.tcb t)).semJoinAll = joinAll)
    (hsend : Built (.send t) send a) (hreceive : Built (.receive t) receive a)
    (hjoin : Built (.join t) join a) (hjoinAll : Built (.joinAll t) joinAll a)
    (hcomplete : fail = false → send ≠ none ∧ receive ≠ none ∧ join ≠ none ∧ joinAll ≠ none ∧
      (f (c.tcb t)).context = .threadWrapper ∧ (f (c.tcb t)).finished = false ∧
      (f (c.tcb t)).parent = some a.running ∧ (f (c.tcb t)).numOfActiveChildren = 0 ∧
      (f (c.tcb t)).tokensNeeded = 0 ∧ (f (c.tcb t)).hasBody = body) :
    Does (do
      setTcb t f
      (if fail then do
        setThread t fun x => { x with userStack := false, systemStack := false, finished := true }
        TCB.closeIf send
        TCB.closeIf receive
        TCB.closeIf join
        TCB.closeIf joinAll
      else
        setThread t fun x => { x with message := x.message.set msgLen 0 })
      pure t) c a fun this b => this = t ∧ Building a₀ t b ∧ (Complete t body b ∨ Failed t b) := by
  have hi := h.inv
  have hr := hi.alive.running_mem
  have hs : a.Step _ := .init hb.calls hb.not_mem hb.lt hblocked
  have hrep := h.rep.construct hi hb.not_mem hrel hsleeps hnext
  refine Does.step hi hs (Yields.of_eq (setTcb_apply ..) hrep) fun c₁ h₁ => ?_
  have hb₁ := hb.init hr fun _ => (f (c.tcb t)).toThread
  have hx : ((a.setThread t fun _ => (f (c.tcb t)).toThread).thread t) = (f (c.tcb t)).toThread :=
    Function.update_self ..
  refine Follows.bind (Q := fun _ b => Building a₀ t b ∧ (Complete t body b ∨ Failed t b)) ?_
    fun _ c' b h' hb' => Follows.pure h' ⟨rfl, hb'⟩
  have hown : ∀ s, send = some s ∨ receive = some s ∨ join = some s ∨ joinAll = some s →
      s ∈ SemPtr.own t ∧ s ∈ a.sems := by
    rintro s (he | he | he | he)
    · obtain ⟨rfl, hm⟩ := hsend.pointer he
      exact ⟨SemPtr.mem_own.mpr rfl, hm⟩
    · obtain ⟨rfl, hm⟩ := hreceive.pointer he
      exact ⟨SemPtr.mem_own.mpr rfl, hm⟩
    · obtain ⟨rfl, hm⟩ := hjoin.pointer he
      exact ⟨SemPtr.mem_own.mpr rfl, hm⟩
    · obtain ⟨rfl, hm⟩ := hjoinAll.pointer he
      exact ⟨SemPtr.mem_own.mpr rfl, hm⟩
  obtain ⟨a₁, ha₁⟩ : ∃ a₁, a₁ = a.setThread t fun _ => (f (c.tcb t)).toThread := ⟨_, rfl⟩
  have hsems₁ : a₁.sems = a.sems := by rw [ha₁]; rfl
  have hsem₁ : a₁.sem = a.sem := by rw [ha₁]; rfl
  have hrun₁ : a₁.running = a.running := by rw [ha₁]; rfl
  rw [← ha₁] at h₁ hb₁ hx ⊢
  have hblocked₁ : (a₁.thread t).blockedAtSem = none := by rw [hx, hblocked]
  cases fail with
  | true =>
    rw [if_pos rfl]
    have hset := h₁.rep.setThread t fun x =>
      { x with userStack := false, systemStack := false, finished := true }
    have hs₁ : a₁.Step _ := .init hb₁.calls hb₁.not_mem hb₁.lt
      (x := { a₁.thread t with userStack := false, systemStack := false, finished := true })
      hblocked₁
    refine Does.step h₁.inv hs₁ (Yields.of_eq (setThread_apply ..) hset) fun c₂ h₂ => ?_
    have hb₂ := hb₁.init h₁.inv.alive.running_mem fun _ =>
      { a₁.thread t with userStack := false, systemStack := false, finished := true }
    refine (closeOwn_does h₂ hb₂ (hsems₁ ▸ hown)).mono fun _ b ⟨hact, hf⟩ =>
      ⟨hb₂.frame hf hact, Or.inr (Failed.frame ?_ hf)⟩
    have hx₂ : ∀ {β : Type} (φ : Thread → β), φ ((a₁.setThread t fun _ => { a₁.thread t with
        userStack := false, systemStack := false, finished := true }).thread t) = φ
        { a₁.thread t with userStack := false, systemStack := false, finished := true } :=
      fun φ => congrArg φ (Function.update_self ..)
    refine ⟨hx₂ Thread.finished, ?_⟩
    rw [hx₂ Thread.semSend, hx₂ Thread.semReceive, hx₂ Thread.semJoin, hx₂ Thread.semJoinAll]
    dsimp only
    rw [hx, hpointers.1, hpointers.2.1, hpointers.2.2.1, hpointers.2.2.2]
    exact hsems₁ ▸ hown
  | false =>
    rw [if_neg (by simp)]
    obtain ⟨h1, h2, h3, h4, hctx, hfin, hparent, hchildren, htokens, hbody⟩ := hcomplete rfl
    have hset := h₁.rep.setThread t fun x => { x with message := x.message.set msgLen 0 }
    have hs₁ : a₁.Step _ := .init hb₁.calls hb₁.not_mem hb₁.lt
      (x := { a₁.thread t with message := (a₁.thread t).message.set msgLen 0 }) hblocked₁
    refine Does.last h₁.inv hs₁ (Yields.of_eq (setThread_apply ..) hset)
      ⟨hb₁.init h₁.inv.alive.running_mem fun _ =>
        { a₁.thread t with message := (a₁.thread t).message.set msgLen 0 }, Or.inl ?_⟩
    have hx₂ : ∀ {β : Type} (φ : Thread → β), (∀ x v, φ { x with message := v } = φ x) →
        φ ((a₁.setThread t fun _ =>
          { a₁.thread t with message := (a₁.thread t).message.set msgLen 0 }).thread t) =
          φ (f (c.tcb t)).toThread := by
      intro β φ hφ
      rw [← hx, ← hφ (a₁.thread t) ((a₁.thread t).message.set msgLen 0)]
      exact congrArg φ (Function.update_self ..)
    have hbuilt : ∀ {s p}, Built s p a → p ≠ none → p = some s ∧ s ∈ a.sems ∧
        (a.sem s).active = true ∧ (a.sem s).value = s.initial := fun h hp =>
      h.resolve_right fun h' => hp h'.1
    refine ⟨?_, ?_, ?_, ?_, ?_, ?_, ⟨?_, ?_, ?_, ?_⟩, fun s hs => ?_⟩
    · exact (hx₂ Thread.context fun _ _ => rfl).trans hctx
    · exact (hx₂ Thread.finished fun _ _ => rfl).trans hfin
    · exact (hx₂ Thread.parent fun _ _ => rfl).trans (hparent.trans (by rw [← hrun₁]; rfl))
    · exact (hx₂ Thread.numOfActiveChildren fun _ _ => rfl).trans hchildren
    · exact (hx₂ Thread.tokensNeeded fun _ _ => rfl).trans htokens
    · exact (hx₂ Thread.hasBody fun _ _ => rfl).trans hbody
    · exact (hx₂ Thread.semJoin fun _ _ => rfl).trans
        (hpointers.2.2.1.trans (hbuilt hjoin h3).1)
    · exact (hx₂ Thread.semJoinAll fun _ _ => rfl).trans
        (hpointers.2.2.2.trans (hbuilt hjoinAll h4).1)
    · exact (hx₂ Thread.semSend fun _ _ => rfl).trans (hpointers.1.trans (hbuilt hsend h1).1)
    · exact (hx₂ Thread.semReceive fun _ _ => rfl).trans
        (hpointers.2.1.trans (hbuilt hreceive h2).1)
    · show s ∈ a₁.sems ∧ (a₁.sem s).active = true ∧ (a₁.sem s).value = s.initial
      rw [hsems₁, hsem₁]
      simp only [SemPtr.own, List.mem_cons, List.not_mem_nil, or_false] at hs
      rcases hs with rfl | rfl | rfl | rfl
      · exact (hbuilt hjoin h3).2
      · exact (hbuilt hjoinAll h4).2
      · exact (hbuilt hsend h1).2
      · exact (hbuilt hreceive h2).2

/-- `TCB::TCB` -/
theorem construct_does (h : Sim c a) (hc : a.Calls) (body : Bool) (mode : Mode) (space : Bool)
    (timeSlice : Nat) (mem : CreateMem) :
    Does (TCB.construct body mode space timeSlice mem) c a fun this b =>
      this = a.IDCounter ∧ Building a a.IDCounter b ∧
        (Complete a.IDCounter body b ∨ Failed a.IDCounter b) := by
  have hid : c.IDCounter = a.IDCounter := congrArg Core.IDCounter h.rep.core
  have hnew : ∀ s ∈ SemPtr.own a.IDCounter, s ∉ a.sems := fun s hs hm =>
    lt_irrefl _ (h.inv.names.own_lt s hm _ hs)
  unfold TCB.construct
  refine Follows.bind_eq (getKernel_apply c) ?_
  rw [hid]
  refine Does.step h.inv (.allocate hc) (Yields.of_eq rfl h.rep.allocate) fun c₁ h₁ => ?_
  have hb₁ : Building a a.IDCounter { a with IDCounter := a.IDCounter + 1 } :=
    ⟨{ hc with }, rfl, rfl, Nat.lt_succ_self _, h.inv.names.threads_lt⟩
  have hown : ∀ {s}, s ∈ [SemPtr.join a.IDCounter, .joinAll a.IDCounter, .send a.IDCounter,
      .receive a.IDCounter] → s ∈ SemPtr.own a.IDCounter := id
  have hj := hown (s := .join a.IDCounter) (by simp)
  have hja := hown (s := .joinAll a.IDCounter) (by simp)
  have hse := hown (s := .send a.IDCounter) (by simp)
  have hre := hown (s := .receive a.IDCounter) (by simp)
  have hnone : ∀ {s : SemPtr} {b : Sys}, Built s none b → s ∉ b.sems := fun h =>
    (h.resolve_left fun h' => by cases h'.1).2
  refine Follows.bind (semaphoreCreate_does h₁ hb₁ hj (hnew _ hj) mem.semJoin)
    fun join c₂ b₂ h₂ ⟨hb₂, hjoin₂, hk₂⟩ => ?_
  refine Follows.bind (semaphoreCreate_does h₂ hb₂ hja
    (hnone (hk₂ _ (by simp) _ (Or.inr ⟨rfl, hnew _ hja⟩))) mem.semJoinAll)
    fun joinAll c₃ b₃ h₃ ⟨hb₃, hjoinAll₃, hk₃⟩ => ?_
  refine Follows.bind (semaphoreCreate_does h₃ hb₃ hse
    (hnone (hk₃ _ (by simp) _ (hk₂ _ (by simp) _ (Or.inr ⟨rfl, hnew _ hse⟩)))) mem.semSend)
    fun send c₄ b₄ h₄ ⟨hb₄, hsend₄, hk₄⟩ => ?_
  refine Follows.bind (semaphoreCreate_does h₄ hb₄ hre
    (hnone (hk₄ _ (by simp) _ (hk₃ _ (by simp) _ (hk₂ _ (by simp) _ (Or.inr ⟨rfl, hnew _ hre⟩)))))
    mem.semReceive) fun receive c₅ b₅ h₅ ⟨hb₅, hreceive₅, hk₅⟩ => ?_
  refine constructFields_does h₅ hb₅ rfl rfl rfl rfl ⟨rfl, rfl, rfl, rfl⟩
    (hk₅ _ (by simp) _ hsend₄) hreceive₅ (hk₅ _ (by simp) _ (hk₄ _ (by simp) _ (hk₃ _ (by simp) _ hjoin₂)))
    (hk₅ _ (by simp) _ (hk₄ _ (by simp) _ hjoinAll₃)) fun hfail => ?_
  simp only [Bool.or_eq_false_iff, Option.isNone_eq_false_iff, Option.isSome_iff_ne_none] at hfail
  exact ⟨hfail.1.1.1.2, hfail.1.1.2, hfail.1.2, hfail.2, rfl, rfl,
    h.rep.running.trans (by rw [hb₅.running]), rfl, rfl, rfl⟩

/-! ## 3. `TCB::threadCreate`

A thread that is complete is put on the list of all threads, on the ready list if it has a body,
and is counted by its parent: in the abstract system one step, in the source six statements. -/

/-- `TCB::~TCB` of a thread whose construction failed. -/
theorem destruct_does (h : Sim c a) (hb : Building a₀ t a) (hf : Failed t a) :
    Does (TCB.destruct t) c a fun _ b => b.activity = .none ∧ Frame a b := by
  have hna : t ∉ a.asleep := fun hm =>
    hb.not_mem (h.inv.places.live t (Or.inr (Or.inr hm))).1
  have hsleeps : (c.tcb t).sleeps = false := by
    rw [h.rep.sleeps_eq]
    exact decide_eq_false hna
  have hrep := h.rep.construct h.inv hb.not_mem (f := fun x => { x with
    nextTCB := none, nextReady := none, nextSleep := none, nextSemBlocked := none })
    (h.rep.awake t hna) hsleeps rfl
  have hsame : (a.setThread t fun _ => (c.tcb t).toThread) = a := by
    rw [h.rep.thread_apply, Sys.setThread, Function.update_eq_self]
  rw [hsame] at hrep
  have h' : Sim _ a := ⟨hrep, h.inv⟩
  unfold TCB.destruct
  refine Follows.bind_eq (setTcb_apply ..) (Follows.bind_eq (getTcb_apply ..) ?_)
  rw [hrep.thread_apply]
  exact closeOwn_does h' hb hf.pointers

/-- A thread joins the list of all threads, at its end. -/
theorem Links.enlist (h : Links c a) (ht : t ∉ a.threads) {last : Tid} (hl : c.TCBsTail = some last) :
    Links { c.setTcb last fun x => { x with nextTCB := some t } with TCBsTail := some t }
      { a with threads := a.threads ++ [t] } := by
  have hkeep : ∀ {β : Type} (φ : TCB → β), (∀ x v, φ { x with nextTCB := v } = φ x) →
      φ ∘ (c.setTcb last fun x => { x with nextTCB := some t }).tcb = φ ∘ c.tcb :=
    fun φ hφ => comp_setTcb_same φ fun x => hφ x _
  have hlast : last ∈ a.threads := List.mem_of_getLast? (h.threads.last ▸ hl)
  have hnext := h.unlinked t ht
  exact
    { core := h.core
      thread := (hkeep _ fun _ _ => rfl).trans h.thread
      sem := h.sem
      ready := (hkeep TCB.nextReady fun _ _ => rfl) ▸ h.ready
      queue := (hkeep TCB.nextSemBlocked fun _ _ => rfl) ▸ h.queue
      asleep := (hkeep TCB.nextSleep fun _ _ => rfl) ▸ h.asleep
      deltas := (hkeep TCB.timeSleepRelative fun _ _ => rfl) ▸ h.deltas
      sleeps := (hkeep TCB.sleeps fun _ _ => rfl) ▸ h.sleeps
      awake := (hkeep TCB.timeSleepRelative fun _ _ => rfl) ▸ h.awake
      threads := by
        have hpush := (hl ▸ h.threads).push ht
        rw [← hnext, Function.update_eq_self] at hpush
        rw [← comp_setTcb (c := c) (t := last) TCB.nextTCB fun x =>
          { x with nextTCB := some t }] at hpush
        exact hpush
      unlinked := fun u hu => by
        rw [comp_setTcb, Function.update_of_ne]
        · exact h.unlinked u fun hm => hu (List.mem_append_left _ hm)
        · rintro rfl
          exact hu (List.mem_append_left _ hlast)
      sems := h.sems }

/-- The first thread joins the list of all threads. -/
theorem Links.enlistFirst (h : Links c a) (ha : a.threads = []) :
    Links { c with TCBsHead := some t, TCBsTail := some t }
      { a with threads := a.threads ++ [t] } := by
  have hnext := h.unlinked t (by simp [ha])
  rw [ha]
  exact { h with
    threads := ⟨⟨rfl, hnext⟩, rfl⟩
    unlinked := fun u _ => h.unlinked u (by simp [ha]) }

/-- `TCB::threadCreate` for a caller in its own code. -/
theorem threadCreate_does (h : Sim c a) (hc : a.Calls) (body : Bool) (mode : Mode) (space : Bool)
    (timeSlice : Nat) (mem : CreateMem) (hroom : a.threads.length < 2 ^ 58) :
    Does (TCB.threadCreate body mode space timeSlice true mem) c a fun _ b =>
      b.Calls ∧ b.running = a.running ∧ b.threads.length ≤ a.threads.length + 1 := by
  unfold TCB.threadCreate
  refine Follows.bind (construct_does h hc body mode space timeSlice mem)
    fun t c₁ b₁ h₁ ⟨ht, hb₁, hend⟩ => ?_
  rw [← ht] at hb₁ hend
  refine Follows.bind_eq (getTcb_apply ..) ?_
  rw [h₁.rep.thread_apply]
  rcases hend with hcomplete | hfailed
  · rw [hcomplete.finished]
    simp only [Bool.false_eq_true, if_false, Bool.and_true]
    refine Follows.bind_eq (getKernel_apply _) ?_
    have hne : b₁.threads ≠ [] := List.ne_nil_of_mem h₁.inv.alive.running_mem
    obtain ⟨last, hlast⟩ : ∃ last, c₁.TCBsTail = some last :=
      Option.ne_none_iff_exists'.mp fun he => hne (h₁.rep.threads.tail_eq_none.mp he)
    rw [hlast]
    have hs : b₁.Step _ := .enlist hb₁.calls hb₁.new hb₁.lt (hb₁.threads ▸ hroom)
      ⟨hcomplete.context, hcomplete.finished, hcomplete.parent, hcomplete.children,
        hcomplete.tokens⟩ hcomplete.pointers hcomplete.sems
    rw [hcomplete.hasBody] at hs
    have hready : t ∉ b₁.ready := fun hm =>
      hb₁.not_mem (h₁.inv.places.live t (Or.inl hm)).1
    have hidle : t ≠ b₁.idle := fun e => hb₁.not_mem (e ▸ h₁.inv.names.idle_mem)
    have hput : ∀ {k : Kernel}, Rep k { b₁ with threads := b₁.threads ++ [t] } →
        Yields Rep (if body = true then Scheduler.put t else pure ()) k ()
          { b₁ with
            ready := if body = true then b₁.ready ++ [t] else b₁.ready
            threads := b₁.threads ++ [t] } := by
      intro k hk
      cases body with
      | true =>
        have := schedulerPut_yields hk hready
        rw [pushReady_of_ne (a := { b₁ with threads := b₁.threads ++ [t] }) hidle] at this
        exact this
      | false => exact Yields.pure hk
    refine Follows.silent hs (Follows.bind_eq rfl ?_)
    obtain ⟨c₂, hc₂, hr₂⟩ := hput ⟨h₁.rep.toLinks.enlist hb₁.not_mem hlast,
      h₁.rep.running, h₁.rep.idle⟩
    refine Follows.bind_eq hc₂ ?_
    rw [hcomplete.parent]
    have hr₃ := (hr₂.setThread b₁.running fun x =>
      { x with numOfActiveChildren := u64 (x.numOfActiveChildren + 1) }).emit
      (.created t (some b₁.running) body)
    refine Follows.bind_eq (setThread_apply ..) (Follows.bind_eq (emit_apply ..) ?_)
    refine Follows.pure ⟨hr₃, h₁.inv.step hs⟩ ⟨?_, hb₁.running, ?_⟩
    · refine { hb₁.calls with context := ?_ }
      exact (Sys.update_field Thread.context (by rfl) _).trans hb₁.calls.context
    · rw [← hb₁.threads]
      exact List.length_append.le
  · rw [hfailed.finished, if_pos rfl]
    refine Follows.bind (destruct_does h₁ hb₁ hfailed) fun _ c₂ b₂ h₂ ⟨hact, hf⟩ => ?_
    have hb₂ := hb₁.frame hf hact
    exact Follows.pure h₂ ⟨hb₂.calls, hb₂.running, hb₂.threads ▸ Nat.le_succ _⟩

/-! ## 4. `TCB::finish` -/

/-- How far `TCB::finish` has come: it is at this stage, and these semaphores are closed. -/
structure Finishing (r : Tid) (parent : Option Tid) (stage : Stage) (closed : List SemPtr)
    (a : Sys) : Prop where
  running : a.running = r
  parent_eq : (a.thread r).parent = parent
  activity : a.activity = .none
  stage_eq : a.stage = stage
  closed_eq : ∀ s ∈ closed, (a.sem s).active = false

variable {r : Tid} {parent : Option Tid} {stage : Stage} {closed : List SemPtr}

theorem Finishing.frame (h : Finishing r parent stage closed a) (hf : Frame a b)
    (hb : b.activity = .none) : Finishing r parent stage closed b :=
  ⟨hf.running.trans h.running, (hf.field Thread.parent (fun _ => rfl) r).trans h.parent_eq, hb,
    hf.stage.trans h.stage_eq,
    fun s hs => hf.dead s (h.closed_eq s hs)⟩

/-- One of the `close`s of `TCB::finish`. -/
theorem finishClose_does (h : Sim c a) (hf : Finishing r parent stage closed a)
    (hc : a.CloseCall s) :
    Does (kSemaphore.close s) c a fun _ b => Finishing r parent stage (s :: closed) b := by
  refine (close_does h hc).mono fun _ b ⟨hact, hframe, hdead⟩ => ?_
  refine { hf.frame hframe hact with closed_eq := fun s' hs' => ?_ }
  rcases List.mem_cons.mp hs' with rfl | hs'
  · exact hdead
  · exact (hf.frame hframe hact).closed_eq s' hs'

/-- The part of `TCB::finish` that is about the parent. -/
theorem finishParent_does (h : Sim c a) (hf : Finishing r parent .finishing closed a) :
    Does (match parent with
      | none => pure ()
      | some p => do
        let y ← getTcb p
        if y.finished then pure ()
        else do
          setThread p fun y => { y with numOfActiveChildren := dec64 y.numOfActiveChildren }
          if y.blockedAtSem = y.semJoinAll then do
            let _ ← kSemaphore.signal (← follow y.semJoinAll) 1
          else pure ()) c a fun _ b => Finishing r parent .left closed b := by
  obtain ⟨rfl, hp, hact, hstage, hclosed⟩ := hf
  cases parent with
  | none =>
    have hs : a.Step _ := .noParent hact hstage (by simp [hp])
    exact Does.last h.inv hs (Yields.pure h.rep.control) ⟨rfl, hp, hact, rfl, hclosed⟩
  | some p =>
    refine Follows.bind_eq (getTcb_apply c p) ?_
    rw [h.rep.thread_apply]
    cases hfin : (a.thread p).finished with
    | true =>
      have hs : a.Step _ := .noParent hact hstage (by simp [hp, hfin])
      exact Does.last h.inv hs (Yields.pure h.rep.control) ⟨rfl, hp, hact, rfl, hclosed⟩
    | false =>
      simp only [Bool.false_eq_true, if_false]
      have hpm := (h.inv.names.parent _ h.inv.alive.running_mem p hp).1
      have hja := (h.inv.names.pointers p hpm).2.1
      have hr := h.rep.setThread p fun y =>
        { y with numOfActiveChildren := dec64 y.numOfActiveChildren }
      rw [hja]
      by_cases hb : (a.thread p).blockedAtSem = some (.joinAll p)
      · rw [if_pos hb]
        have hs : a.Step _ := .childSignals hact hstage hp hfin hb
        have hactive := (h.inv.waits.waitsAt p _ hb).active
        refine Follows.silent hs (Follows.bind_eq (setThread_apply ..) (Follows.bind_eq rfl ?_))
        refine Follows.bind (signalActive_does hr hactive (h.inv.step hs)) fun _ c' b h' hb' => ?_
        have hf' : Finishing a.running (some p) .left closed { a.setThread p fun y =>
            { y with numOfActiveChildren := dec64 y.numOfActiveChildren } with stage := .left } :=
          ⟨rfl, (Sys.update_field Thread.parent (by rfl) _).trans hp, hact, rfl, hclosed⟩
        exact Follows.pure h' (hf'.frame hb'.2 hb'.1)
      · rw [if_neg hb]
        have hs : a.Step _ := .childLeaves hact hstage hp hfin hb
        exact Does.last h.inv hs (Yields.bind_eq (setThread_apply ..) (Yields.pure hr.control))
          ⟨rfl, (Sys.update_field Thread.parent (by rfl) _).trans hp, hact, rfl, hclosed⟩

/-- `TCB::finish` -/
theorem finish_does (h : Sim c a) (hb : a.AtBody) (exitStatus : Nat) :
    Does (TCB.finish exitStatus) c a fun _ b => b.Idle := by
  unfold TCB.finish
  refine Follows.bind_eq (getRunning_apply h.rep) ?_
  refine Does.step h.inv (.finish hb) (Yields.of_eq (emit_apply ..) ((h.rep.emit _).control))
    fun c₁ h₁ => ?_
  refine Follows.bind_eq (getTcb_apply ..) ?_
  rw [h₁.rep.thread_apply]
  obtain ⟨b₁, hb₁⟩ : ∃ b₁, b₁ = { a.emit (.finish a.running) with stage := .finishing } := ⟨_, rfl⟩
  rw [← hb₁] at h₁ ⊢
  have hf₁ : Finishing a.running (b₁.thread a.running).parent .finishing [] b₁ := by
    rw [hb₁]
    exact ⟨rfl, rfl, hb.activity, rfl, by simp⟩
  obtain ⟨hjoin, hjoinAll, hsend, hreceive⟩ :=
    h₁.inv.names.pointers b₁.running h₁.inv.alive.running_mem
  rw [hf₁.running] at hjoin hjoinAll hsend hreceive
  rw [hjoin, hjoinAll, hsend, hreceive]
  have hcall : ∀ {b : Sys} {p closed s}, Finishing a.running p .finishing closed b →
      s ∈ SemPtr.own a.running → s ≠ .joinAll a.running →
      (s = .join a.running → b.queue s = []) → b.CloseCall s := by
    intro b p closed s hf hown hne hq
    rw [← hf.running] at hown hne hq
    exact .finish hf.activity hf.stage_eq hown hne hq
  refine Follows.bind_eq rfl (Follows.bind (finishClose_does h₁ hf₁
    (hcall hf₁ (SemPtr.mem_own.mpr rfl) (by simp) fun he => by cases he)) fun _ c₂ b₂ h₂ hf₂ => ?_)
  refine Follows.bind_eq rfl (Follows.bind (finishClose_does h₂ hf₂
    (hcall hf₂ (SemPtr.mem_own.mpr rfl) (by simp) fun he => by cases he)) fun _ c₃ b₃ h₃ hf₃ => ?_)
  have hall := signalAll_does h₃ hf₃.activity hf₃.stage_eq
  rw [hf₃.running] at hall
  refine Follows.bind_eq rfl (Follows.bind hall fun _ c₄ b₄ h₄ ⟨hact₄, hframe₄, hq₄⟩ => ?_)
  have hf₄ := hf₃.frame hframe₄ hact₄
  refine Follows.bind (finishClose_does h₄ hf₄
    (hcall hf₄ (SemPtr.mem_own.mpr rfl) (by simp) fun _ => hq₄)) fun _ c₅ b₅ h₅ hf₅ => ?_
  refine Follows.bind (finishParent_does h₅ hf₅) fun _ c₆ b₆ h₆ hf₆ => ?_
  have hlast : b₆.CloseCall (.joinAll b₆.running) := .last hf₆.activity hf₆.stage_eq
  rw [hf₆.running] at hlast
  refine Follows.bind_eq rfl (Follows.bind (finishClose_does h₆ hf₆ hlast) fun _ c₇ b₇ h₇ hf₇ => ?_)
  -- the running thread is neither blocked nor asleep
  obtain ⟨hfree, hawake⟩ := h₇.inv.free hf₇.activity
  rw [hf₇.running] at hfree hawake
  refine Follows.bind_eq (getTcb_apply ..) ?_
  rw [h₇.rep.thread_apply, hfree]
  refine Follows.bind_eq rfl (Follows.bind_eq (getTcb_apply ..) ?_)
  rw [h₇.rep.sleeps_eq, decide_eq_false hawake]
  refine Follows.bind_eq rfl ?_
  have hdead : ∀ s ∈ SemPtr.own b₇.running, (b₇.sem s).active = false := by
    intro s hs
    rw [hf₇.running] at hs
    refine hf₇.closed_eq s ?_
    simp only [SemPtr.own, List.mem_cons, List.not_mem_nil, or_false] at hs ⊢
    tauto
  have hset := h₇.rep.setThread a.running fun x =>
    { x with exitStatus := exitStatus, finished := true }
  have hs₇ : b₇.Step _ := .retire hf₇.activity hf₇.stage_eq hdead exitStatus
  rw [hf₇.running] at hs₇
  refine Does.step h₇.inv hs₇ (Yields.of_eq (setThread_apply ..) hset.control) fun c₈ h₈ => ?_
  exact Does.last h₈.inv (.switch rfl) (yields_control (yield_yields h₈.rep .finish)) ⟨rfl, rfl⟩

end Os1Kernel
