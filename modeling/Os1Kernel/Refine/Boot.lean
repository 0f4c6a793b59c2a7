/-
# The boot sequence

`main` creates the thread it is itself the body of, the idle thread, the console's semaphores and
the two threads of the console.

* `boot_shows`: the boot sequence succeeds, in a state that represents a state of the abstract
  system with its invariant.
* `run_shows`: so does every run of enabled steps from there.
* `boot_history`: a condition on the history that holds when the console is ready holds after the
  boot sequence, if creations keep it.
* `Reachable.shows` and `Sys.Steps.invariant` are how the results use it: what the invariant of the
  abstract system says, and what each of its steps keeps, holds in every state that a run can
  reach.

Up to the end of the initialisation of the console nothing can block and nothing is missing, so
that the state is computed: each part of `main` has one lemma, which gives the abstract state it
leads to (`Boots`), and the invariant is verified for the last of these states only, field by field
(section 4).  From there on two threads are created as any other thread is, and `threadCreate_does`
applies.

The memory from which the slots of the messages and the rings of the console are made is a
parameter: nothing is assumed about what it holds.
-/
import Os1Kernel.Kernel.Frame
import Os1Kernel.Refine.Machine

namespace Os1Kernel

open Linked DeltaList Simulation

variable {c : Kernel} {a b : Sys} {t : Tid} {s : SemPtr}

/-! ## 1. Semaphores that are opened one after the other -/

/-- The semaphore `s` is opened with the value `v`. -/
def Sys.opened (a : Sys) (creator : Option Tid) (s : SemPtr) (v : Nat) : Sys :=
  { (a.setSem s fun _ => { creator := creator, value := v, active := true }).emit (.opened s v) with
    semIDCounter := a.semIDCounter + 1
    sems := a.sems ++ [s] }

/-- These semaphores are opened, with the values a thread's own ones have. -/
def Sys.openAll (a : Sys) (creator : Option Tid) : List (SemPtr × Nat) → Sys
  | [] => a
  | (s, v) :: l => (a.opened creator s v).openAll creator l

section OpenAll

variable (a) (creator : Option Tid) (l : List (SemPtr × Nat))

theorem openAll_sems : (a.openAll creator l).sems = a.sems ++ l.map Prod.fst := by
  induction l generalizing a with
  | nil => simp [Sys.openAll]
  | cons p l ih =>
    rw [Sys.openAll, ih]
    simp [Sys.opened]

theorem openAll_sem (h : s ∉ l.map Prod.fst) : (a.openAll creator l).sem s = a.sem s := by
  induction l generalizing a with
  | nil => rfl
  | cons p l ih =>
    simp only [List.map_cons, List.mem_cons, not_or] at h
    rw [Sys.openAll, ih _ h.2]
    exact Function.update_of_ne h.1 ..

theorem openAll_thread : (a.openAll creator l).thread = a.thread := by
  induction l generalizing a with
  | nil => rfl
  | cons p l ih => exact ih _

end OpenAll

/-- The semaphores of a thread with the values they are opened with, in the order of the
constructor. -/
def ownValues (t : Tid) : List (SemPtr × Nat) :=
  [(.join t, 0), (.joinAll t, 0), (.send t, 1), (.receive t, 0)]

/-- The semaphores of a `CharBuffer`. -/
def consoleValues (b : BufferId) : List (SemPtr × Nat) :=
  [(.put b, bufferLength), (.get b, 0), (.mutex b, 1)]

/-! ## 2. `TCB::threadCreate` with enough memory

The threads that `main` creates before there is a running thread, or before there is an idle one:
`Rep` does not hold yet, and `Refine.Creation` does not apply. -/

/-- The thread that the constructor builds, in memory that held `old`. -/
def newThread (body : Bool) (mode : Mode) (space : Bool) (timeSlice : Nat) (parent : Option Tid)
    (t : Tid) (raw : Message) (old : Thread) : Thread :=
  { mode := mode, parent := parent, hasBody := body, userStack := body && !space,
    systemStack := body, context := .threadWrapper, finished := false, exitStatus := 0,
    semJoin := some (.join t), semJoinAll := some (.joinAll t), numOfActiveChildren := 0,
    timeSlice := if timeSlice = 0 then 1
      else if maxTimeSlice < timeSlice then maxTimeSlice else timeSlice,
    tokensNeeded := 0, blockedAtSem := none, unblockManner := .regular,
    semSend := some (.send t), semReceive := some (.receive t), message := raw.set msgLen 0 (Nat.lt_succ_self msgLen),
    a0 := old.a0, handle := old.handle }

/-- `parent->numOfActiveChildren++` -/
def Sys.addChild (a : Sys) : Option Tid → Sys
  | none => a
  | some p => a.setThread p fun x => { x with numOfActiveChildren := u64 (x.numOfActiveChildren + 1) }

/-- A thread is created that is not put on the ready list. -/
def Sys.born (a : Sys) (parent : Option Tid) (t : Tid) (x : Thread) : Sys :=
  let b := ({ a with IDCounter := a.IDCounter + 1 } : Sys).openAll parent (ownValues t)
  (Sys.addChild { b.setThread t fun _ => x with threads := b.threads ++ [t] } parent).emit
    (.created t parent x.hasBody)

/-- The relation between the states of the boot sequence: the pointers that `Rep` takes to be set
may be null. -/
structure Boots (running idle : Option Tid) (c : Kernel) (a : Sys) : Prop extends Links c a where
  running : c.running = running
  idle : c.idle = idle

variable {p i : Option Tid}

theorem semaphoreCreate_boots (h : Boots p i c a) (hnew : s ∉ a.sems) (hq : a.queue s = [])
    (v : Nat) : Yields (Boots p i) (kSemaphore.kSemaphoreCreate s v true) c (some s)
      (a.opened p s v) := by
  obtain ⟨c', hc, hrun, hidle, hlinks⟩ := semaphoreCreate_links h.toLinks hnew hq v
  rw [h.running] at hlinks
  exact ⟨c', hc, hlinks, hrun.trans h.running, hidle.trans h.idle⟩

theorem Links.setThread (h : Links c a) (t : Tid) (f : Thread → Thread) :
    Links (c.setTcb t fun x => { x with toThread := f x.toThread }) (a.setThread t f) := by
  have hkeep : ∀ {β : Type} (φ : TCB → β), (∀ x v, φ { x with toThread := v } = φ x) →
      φ ∘ (c.setTcb t fun x => { x with toThread := f x.toThread }).tcb = φ ∘ c.tcb :=
    fun φ hφ => comp_setTcb_same φ fun x => hφ x _
  exact
    { core := h.core
      thread := by
        rw [comp_setTcb, h.thread]
        exact congrArg (fun x => Function.update a.thread t (f x)) (congrFun h.thread t)
      sem := h.sem
      ready := (hkeep TCB.nextReady fun _ _ => rfl) ▸ h.ready
      queue := (hkeep TCB.nextSemBlocked fun _ _ => rfl) ▸ h.queue
      asleep := (hkeep TCB.nextSleep fun _ _ => rfl) ▸ h.asleep
      deltas := (hkeep TCB.timeSleepRelative fun _ _ => rfl) ▸ h.deltas
      sleeps := (hkeep TCB.sleeps fun _ _ => rfl) ▸ h.sleeps
      awake := (hkeep TCB.timeSleepRelative fun _ _ => rfl) ▸ h.awake
      threads := (hkeep TCB.nextTCB fun _ _ => rfl) ▸ h.threads
      unlinked := (hkeep TCB.nextTCB fun _ _ => rfl) ▸ h.unlinked
      sems := h.sems }

/-- The part of `threadCreate` behind the constructor; `m` counts the child. -/
theorem enlist_boots (h : Boots p i c a) (ht : t ∉ a.threads) (body : Bool) {m : KernelM Unit}
    (hm : ∀ {c' b}, Boots p i c' b → Yields (Boots p i) m c' () (b.addChild p)) :
    Yields (Boots p i) (do
      let k ← getKernel
      (match k.TCBsTail with
        | none => modify fun k => { k with TCBsHead := some t, TCBsTail := some t }
        | some last => do
          setTcb last fun x => { x with nextTCB := some t }
          modify fun k => { k with TCBsTail := some t })
      m
      Os1Kernel.emit (.created t p body)
      pure (some t)) c (some t)
      ((Sys.addChild { a with threads := a.threads ++ [t] } p).emit (.created t p body)) := by
  refine Yields.bind_eq (getKernel_apply c) ?_
  refine Yields.bind (x := ()) (a := { a with threads := a.threads ++ [t] }) ?_ fun c' h' => ?_
  · cases htail : c.TCBsTail with
    | none =>
      have hnil : a.threads = [] := h.threads.tail_eq_none.mp htail
      exact Yields.of_eq rfl ⟨h.toLinks.enlistFirst hnil, h.running, h.idle⟩
    | some last => exact Yields.of_eq rfl ⟨h.toLinks.enlist ht htail, h.running, h.idle⟩
  · refine Yields.bind (hm h') fun c'' h'' => ?_
    exact Yields.bind_eq (emit_apply ..)
      (Yields.pure ⟨h''.toLinks.emit _, h''.running, h''.idle⟩)

/-- The boot sequence, and no other part of the kernel, creates threads while every list but those
of all threads and all semaphores is empty. -/
structure Empty (a : Sys) : Prop where
  ready : a.ready = []
  sleepers : a.sleepers = []
  queue : ∀ s, a.queue s = []

theorem construct_boots (h : Boots p i c a) (he : Empty a) (ht : a.IDCounter = t)
    (hnew : ∀ q ∈ ownValues t, q.1 ∉ a.sems) (hmem : t ∉ a.threads) (body : Bool) (mode : Mode)
    (space : Bool) (n : Nat) (raw : Message) :
    Yields (Boots p i) (TCB.construct body mode space n (.ok raw)) c t
      ((({ a with IDCounter := a.IDCounter + 1 } : Sys).openAll p (ownValues t)).setThread t
        fun _ => newThread body mode space n p t raw (a.thread t)) := by
  have hid : c.IDCounter = t := (congrArg Core.IDCounter h.core).trans ht
  have hsem : ∀ {s v}, (s, v) ∈ ownValues t → s ∉ a.sems := fun hm => hnew _ hm
  have h₁ : Boots p i { c with IDCounter := c.IDCounter + 1 }
      { a with IDCounter := a.IDCounter + 1 } := by
    refine ⟨{ h.toLinks with core := ?_ }, h.running, h.idle⟩
    show ({ c.toCore with IDCounter := c.toCore.IDCounter + 1 } : Core) = _
    rw [h.core]
  unfold TCB.construct
  refine Yields.bind_eq (getKernel_apply c) ?_
  rw [hid]
  refine Yields.bind_eq rfl ?_
  refine Yields.bind (semaphoreCreate_boots (s := .join t) h₁ ?_ (he.queue _) 0) fun c₂ h₂ => ?_
  · exact hsem (s := .join t) (v := 0) (by simp [ownValues])
  refine Yields.bind (semaphoreCreate_boots (s := .joinAll t) h₂ ?_ (he.queue _) 0) fun c₃ h₃ => ?_
  · have := hsem (s := .joinAll t) (v := 0) (by simp [ownValues])
    simpa [Sys.opened] using this
  refine Yields.bind (semaphoreCreate_boots (s := .send t) h₃ ?_ (he.queue _) 1) fun c₄ h₄ => ?_
  · have := hsem (s := .send t) (v := 1) (by simp [ownValues])
    simpa [Sys.opened] using this
  refine Yields.bind (semaphoreCreate_boots (s := .receive t) h₄ ?_ (he.queue _) 0)
    fun c₅ h₅ => ?_
  · have := hsem (s := .receive t) (v := 0) (by simp [ownValues])
    simpa [Sys.opened] using this
  obtain ⟨b, hb⟩ : ∃ b, b = ({ a with IDCounter := a.IDCounter + 1 } : Sys).openAll p
    (ownValues t) := ⟨_, rfl⟩
  have hb₅ : Boots p i c₅ b := hb ▸ h₅
  rw [← hb]
  have hold : (c₅.tcb t).toThread = a.thread t := congrFun h₅.thread t
  have hset := hb₅.toLinks.construct (t := t) (f := fun x =>
    { newThread body mode space n p t raw x.toThread with
      message := raw, nextTCB := none, nextReady := none, sleeps := false,
      timeSleepRelative := 0, nextSleep := none, nextSemBlocked := none })
    (by simp [hb, Sys.openAll, Sys.opened, Sys.emit, Sys.setSem, he.ready, ownValues])
    (by simp [hb, Sys.openAll, Sys.opened, Sys.emit, Sys.setSem, he.queue, ownValues])
    (by simp [hb, Sys.openAll, Sys.opened, Sys.emit, Sys.setSem, Sys.asleep, he.sleepers,
      ownValues])
    (by simpa [hb, Sys.openAll, Sys.opened, Sys.emit, Sys.setSem, ownValues] using hmem) rfl rfl rfl
  have hmsg := hset.setThread t fun x => { x with message := x.message.set msgLen 0 }
  have heq : (b.setThread t fun _ => newThread body mode space n p t raw (a.thread t)) =
      (b.setThread t fun _ => { newThread body mode space n p t raw (c₅.tcb t).toThread with
        message := raw }).setThread t fun x => { x with message := x.message.set msgLen 0 } := by
    simp only [Sys.setThread, Function.update_self, Function.update_idem, hold]
    rfl
  rw [heq, h.running]
  cases body <;> cases space <;>
    exact Yields.bind_eq rfl (Yields.bind_eq rfl (Yields.of_eq rfl ⟨hmsg, hb₅.running, hb₅.idle⟩))

theorem threadCreate_boots (h : Boots p i c a) (he : Empty a) (ht : a.IDCounter = t)
    (hnew : ∀ q ∈ ownValues t, q.1 ∉ a.sems) (hmem : t ∉ a.threads) {body : Bool} {mode : Mode}
    {space put : Bool} (hput : (body && put) = false) (n : Nat) (raw : Message) :
    Yields (Boots p i) (TCB.threadCreate body mode space n put (.ok raw)) c (some t)
      (a.born p t (newThread body mode space n p t raw (a.thread t))) := by
  unfold TCB.threadCreate
  refine Yields.bind (construct_boots h he ht hnew hmem body mode space n raw) fun c' h' => ?_
  have hthread : (c'.tcb t).toThread = newThread body mode space n p t raw (a.thread t) :=
    (congrFun h'.thread t).trans (Function.update_self ..)
  refine Yields.bind_eq (getTcb_apply ..) ?_
  rw [hthread]
  simp only [newThread, hput, Bool.false_eq_true, if_false, pure_bind]
  have hmem' : t ∉ ((({ a with IDCounter := a.IDCounter + 1 } : Sys).openAll p
      (ownValues t)).setThread t fun _ =>
        newThread body mode space n p t raw (a.thread t)).threads := by
    simpa [Sys.openAll, Sys.opened, Sys.emit, Sys.setSem, Sys.setThread, ownValues] using hmem
  refine enlist_boots h' hmem' body fun {c' b} hb => ?_
  cases p with
  | none => exact Yields.pure hb
  | some p =>
    have hset := hb.toLinks.setThread p fun x =>
      { x with numOfActiveChildren := u64 (x.numOfActiveChildren + 1) }
    exact Yields.of_eq (setThread_apply ..) ⟨hset, hb.running, hb.idle⟩

/-! ## 3. `main` -/

/-- The state before the first instruction of `main`. -/
def Sys.zero : Sys :=
  { toCore := Kernel.zero.toCore
    thread := TCB.toThread ∘ Kernel.zero.tcb
    sem := KSemaphore.toSem ∘ Kernel.zero.sem
    queue := fun _ => []
    ready := []
    sleepers := []
    threads := []
    sems := []
    running := 0
    idle := 1
    activity := .none
    stage := .code }

theorem zero_boots : Boots none none Kernel.zero Sys.zero where
  core := rfl
  thread := rfl
  sem := rfl
  ready := isQueue_empty
  queue _ := isQueue_empty
  asleep := rfl
  deltas := trivial
  sleeps t := by simp [Kernel.zero, Sys.zero, Sys.asleep]
  awake t _ := rfl
  threads := isQueue_empty
  unlinked t _ := rfl
  sems := isQueue_empty
  running := rfl
  idle := rfl

variable (raw : Tid → Message) (rawBuffer : BufferId → Vector UInt8 bufferLength)

/-- The thread `master` as `main` creates it. -/
def masterThread : Thread :=
  newThread false .system false DEFAULT_TIME_SLICE none 0 (raw 0) (Sys.zero.thread 0)

def idleThread : Thread :=
  newThread true .system false DEFAULT_TIME_SLICE (some 0) 1 (raw 1) (Sys.zero.thread 1)

/-- `master` exists and runs. -/
def Sys.masterBorn : Sys :=
  { ((Sys.zero.born none 0 (masterThread raw)).setThread 0 fun x => { x with context := .body })
    with master := some 0 }

/-- The idle thread exists. -/
def Sys.idleBorn : Sys := (Sys.masterBorn raw).born (some 0) 1 (idleThread raw)

/-- One `CharBuffer` is initialised. -/
def Sys.console (a : Sys) (b : BufferId) (raw : Vector UInt8 bufferLength) : Sys :=
  let a' := a.openAll (some 0) (consoleValues b)
  { a' with
    buffer := Function.update a'.buffer b
      { buffer := raw, pos_w := 0, pos_r := 0, semPut := some (.put b), semGet := some (.get b),
        mutex := some (.mutex b) } }

/-- The state before the threads of the console are created. -/
def Sys.consoleReady : Sys :=
  ((Sys.idleBorn raw).console .input (rawBuffer .input)).console .output (rawBuffer .output)

theorem construct_console (h : Boots (some 0) i c a) (he : Empty a) (b : BufferId)
    (hnew : ∀ q ∈ consoleValues b, q.1 ∉ a.sems) (raw : Vector UInt8 bufferLength) :
    Yields (Boots (some 0) i) (CharBuffer.construct b raw) c () (a.console b raw) := by
  unfold CharBuffer.construct
  refine Yields.bind (semaphoreCreate_boots (s := .put b) h ?_ (he.queue _) bufferLength)
    fun c₁ h₁ => ?_
  · exact hnew (.put b, bufferLength) (by simp [consoleValues])
  refine Yields.bind (semaphoreCreate_boots (s := .get b) h₁ ?_ (he.queue _) 0) fun c₂ h₂ => ?_
  · simpa [Sys.opened] using hnew (.get b, 0) (by simp [consoleValues])
  refine Yields.bind (semaphoreCreate_boots (s := .mutex b) h₂ ?_ (he.queue _) 1) fun c₃ h₃ => ?_
  · simpa [Sys.opened] using hnew (.mutex b, 1) (by simp [consoleValues])
  refine Yields.of_eq (modify_apply ..) ⟨{ h₃.toLinks with core := ?_ }, h₃.running, h₃.idle⟩
  have hcore := h₃.core
  show ({ c₃.toCore with buffer := Function.update c₃.toCore.buffer b _ } : Core) = _
  rw [hcore]
  rfl

theorem masterBorn_empty : Empty (Sys.masterBorn raw) := ⟨rfl, rfl, fun _ => rfl⟩

theorem idleBorn_empty : Empty (Sys.idleBorn raw) := ⟨rfl, rfl, fun _ => rfl⟩

theorem consoleInput_empty (raw₁ : Vector UInt8 bufferLength) :
    Empty ((Sys.idleBorn raw).console .input raw₁) := ⟨rfl, rfl, fun _ => rfl⟩

theorem masterBorn_sems : (Sys.masterBorn raw).sems = (ownValues 0).map Prod.fst := rfl

theorem idleBorn_sems :
    (Sys.idleBorn raw).sems = (ownValues 0 ++ ownValues 1).map Prod.fst := rfl

theorem consoleReady_sems : (Sys.consoleReady raw rawBuffer).sems =
    (ownValues 0 ++ ownValues 1 ++ consoleValues .input ++ consoleValues .output).map Prod.fst :=
  rfl

/-- What `main` does behind the initialisation of the console. -/
def startConsole : KernelM Unit := do
  let _ ← TCB.threadCreate true .system false DEFAULT_TIME_SLICE true (.ok (raw 2))
  let _ ← TCB.threadCreate true .system false DEFAULT_TIME_SLICE true (.ok (raw 3))

theorem bind_of_eq {α β : Type} {m : KernelM α} {k : α → KernelM β} {c c' : Kernel} {x : α}
    (h : m c = some (x, c')) : (m >>= k) c = k x c' := by
  rw [bind_apply, h, Option.bind_some]

/-- What `main` does to the kernel before the threads of the console, one call after the other. -/
theorem bootstrap_steps : ∃ c₁ c₃ c₅ c₆, Rep c₆ (Sys.consoleReady raw rawBuffer) ∧
    TCB.threadCreate false .system false DEFAULT_TIME_SLICE true (.ok (raw 0)) Kernel.zero =
      some (some 0, c₁) ∧
    TCB.threadCreate true .system false DEFAULT_TIME_SLICE false (.ok (raw 1))
      (Kernel.setTcb { c₁ with master := some 0, running := some 0 } 0
        fun x => { x with context := .body }) = some (some 1, c₃) ∧
    CharBuffer.construct .input (rawBuffer .input) { c₃ with idle := some 1 } = some ((), c₅) ∧
    CharBuffer.construct .output (rawBuffer .output) c₅ = some ((), c₆) ∧
    bootstrap raw rawBuffer Kernel.zero = startConsole raw c₆ := by
  have hmaster : (false && true) = false := rfl
  have hidle : (true && false) = false := rfl
  obtain ⟨c₁, he₁, hb₁⟩ := threadCreate_boots (t := 0) zero_boots ⟨rfl, rfl, fun _ => rfl⟩ rfl
    (by simp [Sys.zero]) (by simp [Sys.zero]) hmaster DEFAULT_TIME_SLICE (raw 0)
  have hlinks : Links { c₁ with master := some 0, running := some 0 }
      { Sys.zero.born none 0 (masterThread raw) with master := some 0 } := by
    refine { hb₁.toLinks with core := ?_ }
    show ({ c₁.toCore with master := some 0 } : Core) = _
    rw [hb₁.core]
    rfl
  have hb₂ : Boots (some 0) none (Kernel.setTcb { c₁ with master := some 0, running := some 0 } 0
      fun x => { x with context := .body }) (Sys.masterBorn raw) :=
    ⟨hlinks.setThread 0 fun x => { x with context := .body }, rfl, hb₁.idle⟩
  obtain ⟨c₃, he₃, hb₃⟩ := threadCreate_boots (t := 1) hb₂ (masterBorn_empty raw) rfl
    (by simp [masterBorn_sems, ownValues]) (show (1 : Tid) ∉ [0] by decide) hidle DEFAULT_TIME_SLICE
    (raw 1)
  have hb₄ : Boots (some 0) (some 1) { c₃ with idle := some 1 } (Sys.idleBorn raw) :=
    ⟨{ hb₃.toLinks with }, hb₃.running, rfl⟩
  obtain ⟨c₅, he₅, hb₅⟩ := construct_console hb₄ (idleBorn_empty raw) .input
    (by simp [idleBorn_sems, ownValues, consoleValues]) (rawBuffer .input)
  obtain ⟨c₆, he₆, hb₆⟩ := construct_console hb₅ (consoleInput_empty raw _) .output
    (by simp [Sys.console, openAll_sems, idleBorn_sems, ownValues, consoleValues])
    (rawBuffer .output)
  refine ⟨c₁, c₃, c₅, c₆, ⟨hb₆.toLinks, hb₆.running, hb₆.idle⟩, he₁, he₃, he₅, he₆, ?_⟩
  unfold bootstrap
  rw [bind_of_eq he₁, bind_of_eq (modify_apply ..), bind_of_eq (modify_apply ..),
    bind_of_eq (x := 0) rfl, bind_of_eq (setThread_apply ..), bind_of_eq he₃,
    bind_of_eq (modify_apply ..), bind_of_eq he₅, bind_of_eq he₆]
  rfl

/-- The boot sequence up to the threads of the console. -/
theorem bootstrap_console : ∃ c, Rep c (Sys.consoleReady raw rawBuffer) ∧
    bootstrap raw rawBuffer Kernel.zero = startConsole raw c := by
  obtain ⟨-, -, -, c, hrep, -, -, -, -, he⟩ := bootstrap_steps raw rawBuffer
  exact ⟨c, hrep, he⟩

/-! ## 4. The invariant holds at the start

Each lemma of this section computes one sequence, or one field for all threads or all semaphores;
`consoleReady_inv` puts them together. -/

theorem consoleReady_threads : (Sys.consoleReady raw rawBuffer).threads = [0, 1] := rfl

theorem consoleReady_master : (Sys.consoleReady raw rawBuffer).thread 0 =
    { masterThread raw with context := .body, numOfActiveChildren := 1 } := rfl

theorem consoleReady_idle : (Sys.consoleReady raw rawBuffer).thread 1 = idleThread raw := rfl

/-- The events of these openings, the last one first. -/
def openings (l : List (SemPtr × Nat)) : List Event := (l.map fun q => .opened q.1 q.2).reverse

theorem consoleReady_history : (Sys.consoleReady raw rawBuffer).history =
    openings (consoleValues .output) ++ openings (consoleValues .input) ++
      .created 1 (some 0) true :: openings (ownValues 1) ++
      .created 0 none false :: openings (ownValues 0) := rfl

/-- All semaphores are open, with the values they were opened with. -/
theorem consoleReady_sem : ∀ q ∈ ownValues 0 ++ ownValues 1 ++ consoleValues .input ++
    consoleValues .output, ((Sys.consoleReady raw rawBuffer).sem q.1).active = true ∧
      ((Sys.consoleReady raw rawBuffer).sem q.1).value = q.2 := by
  simp only [ownValues, consoleValues, List.cons_append, List.nil_append, List.forall_mem_cons]
  exact ⟨⟨rfl, rfl⟩, ⟨rfl, rfl⟩, ⟨rfl, rfl⟩, ⟨rfl, rfl⟩, ⟨rfl, rfl⟩, ⟨rfl, rfl⟩, ⟨rfl, rfl⟩,
    ⟨rfl, rfl⟩, ⟨rfl, rfl⟩, ⟨rfl, rfl⟩, ⟨rfl, rfl⟩, ⟨rfl, rfl⟩, ⟨rfl, rfl⟩, ⟨rfl, rfl⟩, by simp⟩

theorem consoleReady_active (hs : s ∈ (Sys.consoleReady raw rawBuffer).sems) :
    ((Sys.consoleReady raw rawBuffer).sem s).active = true := by
  rw [consoleReady_sems] at hs
  obtain ⟨q, hq, rfl⟩ := List.mem_map.mp hs
  exact (consoleReady_sem raw rawBuffer q hq).1

theorem born_sem (parent : Option Tid) (x : Thread) (h : s ∉ (ownValues t).map Prod.fst) :
    (a.born parent t x).sem s = a.sem s := by
  have := openAll_sem { a with IDCounter := a.IDCounter + 1 } parent (ownValues t) h
  cases parent <;> exact this

theorem console_sem (b : BufferId) (raw₁ : Vector UInt8 bufferLength)
    (h : s ∉ (consoleValues b).map Prod.fst) : (a.console b raw₁).sem s = a.sem s :=
  openAll_sem _ _ _ h

theorem console_thread (b : BufferId) (raw₁ : Vector UInt8 bufferLength) :
    (a.console b raw₁).thread = a.thread := openAll_thread ..

/-- Where no semaphore has been opened, there is none. -/
theorem consoleReady_closed (hs : s ∉ (Sys.consoleReady raw rawBuffer).sems) :
    ((Sys.consoleReady raw rawBuffer).sem s).active = false := by
  rw [consoleReady_sems] at hs
  simp only [List.map_append, List.mem_append, not_or] at hs
  rw [Sys.consoleReady, console_sem _ _ hs.2, console_sem _ _ hs.1.2, Sys.idleBorn,
    born_sem _ _ hs.1.1.2]
  show (Sys.sem (Sys.born Sys.zero none 0 (masterThread raw)) s).active = false
  rw [born_sem _ _ hs.1.1.1]
  rfl

theorem consoleReady_own (ht : t ∈ (Sys.consoleReady raw rawBuffer).threads)
    (hs : s ∈ SemPtr.own t) : s ∈ (Sys.consoleReady raw rawBuffer).sems := by
  rw [consoleReady_threads] at ht
  rw [consoleReady_sems]
  simp only [List.mem_cons, List.not_mem_nil, or_false] at ht
  rcases ht with rfl | rfl <;> revert s <;> decide

theorem consoleReady_calls : (Sys.consoleReady raw rawBuffer).Calls where
  activity := rfl
  stage := rfl
  context := rfl
  not_idle := show (0 : Tid) ≠ 1 by decide

theorem consoleReady_parent (ht : t ∈ (Sys.consoleReady raw rawBuffer).threads) (p : Tid)
    (hp : ((Sys.consoleReady raw rawBuffer).thread t).parent = some p) : p = 0 ∧ t = 1 := by
  rw [consoleReady_threads] at ht
  simp only [List.mem_cons, List.not_mem_nil, or_false] at ht
  rcases ht with rfl | rfl
  · rw [consoleReady_master] at hp
    cases hp
  · rw [consoleReady_idle] at hp
    cases hp
    exact ⟨rfl, rfl⟩

theorem born_thread {parent : Option Tid} {x : Thread} {u : Tid} (ht : u ≠ t)
    (hp : ∀ p ∈ parent, u ≠ p) : (a.born parent t x).thread u = a.thread u := by
  have hold := openAll_thread { a with IDCounter := a.IDCounter + 1 } parent (ownValues t)
  have hset := (Function.update_of_ne ht x (Sys.openAll _ parent (ownValues t)).thread).trans
    (congrFun hold u)
  cases parent with
  | none => exact hset
  | some p => exact (Function.update_of_ne (hp p rfl) _ _).trans hset

/-- No other object has been constructed. -/
theorem consoleReady_thread (ht : t ∉ (Sys.consoleReady raw rawBuffer).threads) :
    (Sys.consoleReady raw rawBuffer).thread t = Sys.zero.thread t := by
  rw [consoleReady_threads] at ht
  simp only [List.mem_cons, List.not_mem_nil, or_false, not_or] at ht
  rw [Sys.consoleReady, console_thread, console_thread, Sys.idleBorn,
    born_thread ht.2 (by rintro p ⟨⟩; exact ht.1)]
  show Function.update (Sys.born Sys.zero none 0 (masterThread raw)).thread 0 _ t = _
  rw [Function.update_of_ne ht.1, born_thread ht.1 (by rintro p ⟨⟩)]

/-- No thread waits or has finished. -/
theorem consoleReady_free (t : Tid) :
    ((Sys.consoleReady raw rawBuffer).thread t).blockedAtSem = none ∧
      ((Sys.consoleReady raw rawBuffer).thread t).finished = false := by
  by_cases ht : t ∈ (Sys.consoleReady raw rawBuffer).threads
  · rw [consoleReady_threads] at ht
    simp only [List.mem_cons, List.not_mem_nil, or_false] at ht
    rcases ht with rfl | rfl
    · rw [consoleReady_master]
      exact ⟨rfl, rfl⟩
    · rw [consoleReady_idle]
      exact ⟨rfl, rfl⟩
  · rw [consoleReady_thread _ _ ht]
    exact ⟨rfl, rfl⟩

theorem consoleReady_inv : (Sys.consoleReady raw rawBuffer).Inv := by
  have hcalls := consoleReady_calls raw rawBuffer
  have hfree := consoleReady_free raw rawBuffer
  have hmem : ∀ {t}, t ∈ (Sys.consoleReady raw rawBuffer).threads → t = 0 ∨ t = 1 := by
    intro t ht
    simpa [consoleReady_threads] using ht
  constructor
  · constructor
    · exact List.nodup_nil
    · exact fun _ => List.nodup_nil
    · exact List.nodup_nil
    · intro t s
      rw [(hfree t).1]
      exact ⟨nofun, nofun⟩
    · exact fun t ht => nomatch ht
    · exact nofun
    · exact fun _ => ⟨(hfree _).1, nofun⟩
    · exact fun _ _ h => nomatch h
    · rintro t (h | h | h)
      · cases h
      · exact absurd (hfree t).1 h
      · cases h
  · constructor
    · rw [consoleReady_threads]
      decide
    · intro t ht
      show t < 2
      rcases hmem ht with rfl | rfl <;> decide
    · rw [consoleReady_sems]
      decide
    · intro n hn
      rw [consoleReady_sems] at hn
      simp [ownValues, consoleValues] at hn
    · have howner : ∀ s ∈ (Sys.consoleReady raw rawBuffer).sems, ∀ t ∈ s.owner, t < 2 := by
        rw [consoleReady_sems]
        decide
      exact fun s hs t ht => howner s hs t (SemPtr.mem_own.mp ht)
    · exact fun t ht s hs => consoleReady_own raw rawBuffer ht hs
    · intro t ht
      rcases hmem ht with rfl | rfl
      · rw [consoleReady_master]
        exact ⟨rfl, rfl, rfl, rfl⟩
      · rw [consoleReady_idle]
        exact ⟨rfl, rfl, rfl, rfl⟩
    · intro t ht p hp
      obtain ⟨rfl, rfl⟩ := consoleReady_parent raw rawBuffer ht p hp
      exact ⟨List.mem_cons_self, by decide⟩
    · exact List.mem_cons_of_mem _ List.mem_cons_self
    · rw [consoleReady_sems]
      exact le_refl 14
    · rw [consoleReady_threads]
      decide
  · constructor
    · exact List.mem_cons_self
    · intro s hs
      by_contra hn
      rw [consoleReady_closed raw rawBuffer hn] at hs
      cases hs
    · exact fun t ht _ _ s hs => consoleReady_active raw rawBuffer (consoleReady_own _ _ ht hs)
    · intro t _ hf
      rw [(hfree t).2] at hf
      cases hf
    · exact fun s h => nomatch h
    · exact nofun
  · constructor
    · intro b s hs
      refine consoleReady_active raw rawBuffer ?_
      rw [consoleReady_sems]
      cases b <;> revert s <;> decide
    · rintro (_ | _) <;> exact ⟨rfl, rfl, rfl⟩
    · rintro (_ | _) <;> exact ⟨Nat.zero_lt_succ 255, Nat.zero_lt_succ 255⟩
  · constructor
    · intro t ht
      rcases hmem ht with rfl | rfl
      · rw [consoleReady_master]
        trivial
      · rw [consoleReady_idle]
        trivial
    · trivial
    · trivial
    · exact ⟨rfl, show Context.threadWrapper ≠ .sleep by decide⟩
    · intro hf
      rw [(hfree _).2] at hf
      cases hf
  · constructor
    · intro t s hb
      rw [(hfree t).1] at hb
      cases hb
    · exact fun t ht => nomatch ht
    · exact fun _ _ h => nomatch h
  · constructor
    · exact List.Pairwise.nil
    · exact fun p hp => nomatch hp
    · exact fun _ p hp => nomatch hp
    · exact fun _ _ h => nomatch h
  · constructor
    · intro t ht
      rcases hmem ht with rfl | rfl
      · exact Or.inr (Or.inl rfl)
      · exact Or.inl rfl
    · exact fun _ h => nomatch h

/-! ## 5. Boot, and every run

The threads of the console are created when `main` runs already, by the lemmas about
`threadCreate`. -/

theorem startConsole_does (h : Sim c a) (hc : a.Calls) (hroom : a.threads.length + 1 < 2 ^ 58) :
    Does (startConsole raw) c a fun _ b => b.Idle := by
  unfold startConsole
  refine Follows.bind (threadCreate_does h hc true .system false DEFAULT_TIME_SLICE _
    (Nat.lt_of_succ_lt hroom)) fun _ c₁ b h₁ ⟨hc₁, _, hlen⟩ => ?_
  refine Follows.bind (threadCreate_does h₁ hc₁ true .system false DEFAULT_TIME_SLICE _
    (hlen.trans_lt hroom)) fun _ c₂ b₂ h₂ ⟨hc₂, _⟩ => ?_
  exact Follows.pure h₂ ⟨hc₂.activity, hc₂.stage⟩

/-- **The boot sequence succeeds.** -/
theorem boot_shows : ∃ k a, boot raw rawBuffer = some k ∧
    (Sys.consoleReady raw rawBuffer).Steps a ∧ Shows k a := by
  obtain ⟨c, hrep, heq⟩ := bootstrap_console raw rawBuffer
  obtain ⟨_, k, a, hk, hs, hsim, hi⟩ := startConsole_does raw
    ⟨hrep, consoleReady_inv raw rawBuffer⟩ (consoleReady_calls raw rawBuffer)
    (show 2 + 1 < 2 ^ 58 by decide)
  refine ⟨k, a, ?_, hs, hsim, hi⟩
  rw [boot, heq, hk]
  rfl

/-- What holds of the history when the console is ready, and is kept by the creation of a thread,
holds after the boot sequence. -/
theorem boot_history {Q : Option Tid → List Event → Prop}
    (hQ : ∀ i e l, e.passing = true → Q i l → Q i (e :: l))
    (hc : ∀ t p i l, Q i l → Q i (.created t p true :: l))
    (h₀ : Q (some 1) (Sys.consoleReady raw rawBuffer).history) {k : Kernel}
    (h : boot raw rawBuffer = some k) : Q k.idle k.history := by
  obtain ⟨c, hrep, heq⟩ := bootstrap_console raw rawBuffer
  have hc₀ : Q c.idle c.history := by
    rw [hrep.idle, congrArg Core.history hrep.core]
    exact h₀
  rw [boot, heq] at h
  obtain ⟨⟨u, c'⟩, hc', rfl⟩ := Option.map_eq_some_iff.mp h
  have hkeeps : Keeps (fun k => Q k.idle k.history) (startConsole raw) :=
    .bind (threadCreate_history hQ hc _ _ _ _ _) fun _ =>
      .bind (threadCreate_history hQ hc _ _ _ _ _) fun _ => .pure _
  exact hkeeps c u c' hc₀ hc'

/-- **Every run of the machine is one of the abstract system.** -/
theorem run_shows {c' : Kernel} {acts : List Act} (h : Shows c a)
    (hr : Run.run step c acts = some c') : ∃ b, a.Steps b ∧ Shows c' b := by
  refine Run.run_invariant (P := fun c => ∃ b, a.Steps b ∧ Shows c b) ?_ ⟨a, .refl, h⟩ hr
  rintro c act c' ⟨b, hb, hshow⟩ hs
  obtain ⟨d, hd, hshow'⟩ := step_shows hshow hs
  exact ⟨d, hb.trans hd, hshow'⟩

/-- Memory that is all zero. -/
def zeroMessage : Tid → Message := fun _ => Vector.replicate _ 0

def zeroBuffer : BufferId → Vector UInt8 bufferLength := fun _ => Vector.replicate _ 0

/-- The state after these steps, in a machine whose memory was all zero. -/
def runFromZero (acts : List Act) : Option Kernel :=
  (boot zeroMessage zeroBuffer).bind fun k => Run.run step k acts

/-- The threads of the console run, and their time slices pass. -/
def consoleSlices : List Act := [.resume, .timer, .timer, .resume, .timer, .timer]

theorem exists_run (acts : List Act) (h : (runFromZero acts).isSome = true) : ∃ k₀ k,
    boot zeroMessage zeroBuffer = some k₀ ∧ Run.run step k₀ acts = some k ∧
      runFromZero acts = some k := by
  obtain ⟨k, hk⟩ := Option.isSome_iff_exists.mp h
  obtain ⟨k₀, hk₀, hrun⟩ := Option.bind_eq_some_iff.mp hk
  exact ⟨k₀, k, hk₀, hrun, hk⟩

theorem Reachable.shows {k : Kernel} (h : Reachable k) :
    ∃ raw rawBuffer a, (Sys.consoleReady raw rawBuffer).Steps a ∧ Shows k a := by
  obtain ⟨raw, rawBuffer, k₀, acts, hboot, hrun⟩ := h
  obtain ⟨k₁, a, hk, hs, hshow⟩ := boot_shows raw rawBuffer
  obtain rfl := Option.some.inj (hboot.symm.trans hk)
  obtain ⟨b, hb, hshow'⟩ := run_shows hshow hrun
  exact ⟨raw, rawBuffer, b, hs.trans hb, hshow'⟩

/-- What holds at the start and is kept by every step holds in every reachable state. -/
theorem Sys.Steps.invariant {P : Sys → Prop} (hstep : ∀ {a b : Sys}, a.Inv → P a → a.Step b → P b)
    (hi : a.Inv) (ha : P a) (hs : a.Steps b) : P b := by
  have : b.Inv ∧ P b := by
    induction hs with
    | refl => exact ⟨hi, ha⟩
    | tail _ hs ih => exact ⟨ih.1.step hs, hstep ih.1 ih.2 hs⟩
  exact this.2

end Os1Kernel
