/-
# The kernel as a transition system

What the kernel is for, without pointers: the ready threads, the waiters of each semaphore and the
sleepers are sequences, a sleeper is paired with the ticks it still has to wait, and nothing is
said twice (no links, no tail pointers, no differences).  `Sys.Step` lists everything that can
happen, in units small enough to be looked at one by one: one iteration of a loop of the kernel is
one step.  What the kernel is in the middle of is therefore part of the state:

* `Activity`: the loop that is running, or that the running thread is about to be switched from;
* `Stage`: how far the handler behind the loop has come.

The kernel of `Os1Kernel.Kernel` follows these steps (`Os1Kernel.Refine`); everything that is
proved about whole runs is proved here, one step at a time.
-/
import Os1Kernel.Kernel.Trap
import Os1Kernel.Lib.Delta

namespace Os1Kernel

/-! ## 1. Waiting -/

/-- The semaphore that a thread in this context waits at, or waited at. -/
def Context.waitsAt (t : Tid) : Context → Option SemPtr
  | .semWait s => some s
  | .join tcb => some (.join tcb)
  | .joinAll | .timedJoinAll => some (.joinAll t)
  | .send tcb _ => some (.send tcb)
  | .receive => some (.receive t)
  | .put b _ => some (.put b)
  | .putMutex b _ | .getMutex b => some (.mutex b)
  | .get b => some (.get b)
  | .threadWrapper | .body | .timer | .dispatch | .sleep | .finish => none

/-- The contexts of `timedWait`. -/
def Context.timed : Context → Bool
  | .semWait _ | .join _ | .timedJoinAll => true
  | _ => false

/-- Behind the wait, the handler does nothing but return. -/
def Context.plain : Context → Bool
  | .semWait _ | .join _ | .joinAll | .timedJoinAll => true
  | _ => false

/-- The thread whose object a semaphore is. -/
def SemPtr.owner : SemPtr → Option Tid
  | .join t | .joinAll t | .send t | .receive t => some t
  | .opened _ | .put _ | .get _ | .mutex _ => none

/-- The semaphores of a thread. -/
def SemPtr.own (t : Tid) : List SemPtr := [.join t, .joinAll t, .send t, .receive t]

/-- The value a thread's own semaphore is opened with. -/
def SemPtr.initial : SemPtr → Nat
  | .send _ => 1
  | _ => 0

theorem SemPtr.mem_own {s : SemPtr} {t : Tid} : s ∈ SemPtr.own t ↔ s.owner = some t := by
  cases s <;> simp [SemPtr.own, SemPtr.owner]

/-- The result that `resolveManner` reads off. -/
def UnblockManner.result : UnblockManner → Int
  | .regular => 0
  | .onClose => ERR_SEM_WAITCLOSE
  | .waitTimeout => TIMEOUT

/-- The event that `signalAll` notes for a waiter. -/
def UnblockManner.event (s : SemPtr) (t : Tid) : UnblockManner → Event
  | .onClose => .dismissed s t
  | _ => .granted s t

/-! ## 2. The state

The state of the kernel as its lists see it.  `Core` is shared with the pointer-level kernel: the
counters, the buffers, the strings and the history.  A thread or a semaphore has the fields that
are no links; the links are the sequences `queue`, `ready`, `sleepers`, `threads` and `sems`.  So
there is nothing here that could be inconsistent with itself, and what remains to be proved is how
the sequences and the fields fit together. -/

/-- What the kernel is doing. -/
inductive Activity
  | none
  /-- The loop of `Sleep::onTick`. -/
  | ticking
  /-- The loop of `signal`, with this many tokens left. -/
  | handing (s : SemPtr) (tokens : Nat)
  /-- The loop of `signalAll`. -/
  | releasing (s : SemPtr) (manner : UnblockManner)
  /-- The running thread leaves, to go on in this context; before that it goes to sleep if there
  is a timeout. -/
  | leaving (context : Context) (timeout : Option Nat)

def Activity.isLeaving : Activity → Bool
  | .leaving .. => true
  | _ => false

/-- How far the handler has come. -/
inductive Stage
  /-- The running thread is where its context says. -/
  | code
  /-- Behind the wait of this context. -/
  | past (context : Context)
  /-- In `kPut` or `uPut`, before `semPut->wait()`. -/
  | putting (b : BufferId) (c : UInt8)
  /-- A token has still to be given to each of these, then the handler is done. -/
  | owes (sems : List SemPtr)
  /-- In `handleReceive`, behind `semSend->signal()`. -/
  | taking
  /-- In `TCB::finish`, before the parent's counter is touched. -/
  | finishing
  /-- In `TCB::finish`, behind that. -/
  | left

structure Sys extends Core where
  thread : Tid → Thread
  sem : SemPtr → Sem
  queue : SemPtr → List Tid
  ready : List Tid
  /-- The sleeping threads with the ticks they still have to wait, the first to wake first. -/
  sleepers : List (Tid × Nat)
  threads : List Tid
  sems : List SemPtr
  running : Tid
  idle : Tid
  activity : Activity
  stage : Stage

namespace Sys

variable (a : Sys)

def asleep : List Tid := a.sleepers.map Prod.fst

/-- The string that a pointer points to. -/
def string : CharPtr → CString := a.toCore.string fun t => (a.thread t).message

/-- The running thread is in its own code. -/
structure AtBody : Prop where
  activity : a.activity = .none
  stage : a.stage = .code
  context : (a.thread a.running).context = .body

/-- The running thread may make a system call other than `thread_exit`. -/
structure Calls : Prop extends AtBody a where
  not_idle : a.running ≠ a.idle

/-! ## 3. Changes of the state

The operations on the lists, one for each function of the source that moves a thread from one list
to another.  `unblock` is what all three ways out of a wait have in common. -/

def emit (e : Event) : Sys := { a with history := e :: a.history }

def setThread (t : Tid) (f : Thread → Thread) : Sys :=
  { a with thread := Function.update a.thread t (f (a.thread t)) }

def setSem (s : SemPtr) (f : Sem → Sem) : Sys :=
  { a with sem := Function.update a.sem s (f (a.sem s)) }

/-- `Scheduler::put` -/
def pushReady (t : Tid) : Sys := { a with ready := if t = a.idle then a.ready else a.ready ++ [t] }

/-- `kSemaphore::put` -/
def enqueue (s : SemPtr) (t : Tid) (tokens : Nat) : Sys :=
  { a with
    queue := Function.update a.queue s (a.queue s ++ [t])
    thread := Function.update a.thread t
      { a.thread t with blockedAtSem := some s, tokensNeeded := tokens } }

/-- `Sleep::put` -/
def fallAsleep (t : Tid) (timeout : Nat) : Sys :=
  { a with sleepers := DeltaList.insertBy t timeout a.sleepers }

/-- `Sleep::get` of a sleeper. -/
def awake (t : Tid) : Sys := { a with sleepers := a.sleepers.filter fun p => p.1 ≠ t }

/-- A waiter is taken off its semaphore's list and off the sleep list. -/
def unblock (s : SemPtr) (t : Tid) (manner : UnblockManner) : Sys :=
  { a with
    queue := Function.update a.queue s ((a.queue s).erase t)
    sleepers := a.sleepers.filter fun p => p.1 ≠ t
    thread := Function.update a.thread t
      { a.thread t with blockedAtSem := none, tokensNeeded := 0, unblockManner := manner } }

/-- `TCB::yield`, behind `Scheduler::put`. -/
def choose (context : Context) : Sys :=
  { a with
    running := a.ready.headD a.idle
    ready := a.ready.tail
    timeSliceCounter := 0
    thread := Function.update a.thread a.running { a.thread a.running with context := context }
    history := .chosen (a.ready.headD a.idle) :: a.history }

/-! ## 4. Which calls come next

The operations of `kSemaphore` are called from many handlers.  Instead of one step for each handler
there is one step for each operation, and a relation that says who may call it: `WaitCall` for
`wait` and `timedWait`, with the tokens and with the context that the thread blocks in,
`SignalCall` for `signal(1)` and `CloseCall` for `close`.  An invariant then looks at the
operation, and at the caller only where it matters. -/

/-- The waits that can be called, with the tokens they ask for and the context behind them. -/
inductive WaitCall : SemPtr → Nat → Context → Prop
  | semWait (h : a.Calls) {n : Nat} (hs : .opened n ∈ a.sems) :
    WaitCall (.opened n) 1 (.semWait (.opened n))
  | join (h : a.Calls) {t : Tid} (ht : t ∈ a.threads) (hne : t ≠ a.running)
    (hf : (a.thread t).finished = false) : WaitCall (.join t) 1 (.join t)
  | joinAll (h : a.Calls) :
    WaitCall (.joinAll a.running) (a.thread a.running).numOfActiveChildren .joinAll
  | timedJoinAll (h : a.Calls) :
    WaitCall (.joinAll a.running) (a.thread a.running).numOfActiveChildren .timedJoinAll
  | send (h : a.Calls) {t : Tid} (ht : t ∈ a.threads) (hne : t ≠ a.running) (msg : CharPtr) :
    WaitCall (.send t) 1 (.send t msg)
  | receive (h : a.Calls) : WaitCall (.receive a.running) 1 .receive
  | put (ha : a.activity = .none) {b : BufferId} {c : UInt8} (hs : a.stage = .putting b c) :
    WaitCall (.put b) 1 (.put b c)
  | get (h : a.Calls) (b : BufferId) : WaitCall (.get b) 1 (.get b)
  | putMutex (ha : a.activity = .none) {b : BufferId} {c : UInt8} (hs : a.stage = .past (.put b c)) :
    WaitCall (.mutex b) 1 (.putMutex b c)
  | getMutex (ha : a.activity = .none) {b : BufferId} (hs : a.stage = .past (.get b)) :
    WaitCall (.mutex b) 1 (.getMutex b)

/-- The calls of `signal(1)`, with the stage behind them. -/
inductive SignalCall : SemPtr → Stage → Prop
  | semSignal (h : a.Calls) {n : Nat} (hs : .opened n ∈ a.sems) : SignalCall (.opened n) .code
  | owed (ha : a.activity = .none) {s : SemPtr} {l : List SemPtr} (hs : a.stage = .owes (s :: l)) :
    SignalCall s (.owes l)
  | slot (ha : a.activity = .none) (hs : a.stage = .past .receive) :
    SignalCall (.send a.running) .taking

/-- The calls of `close`. -/
inductive CloseCall : SemPtr → Prop
  | semClose (h : a.Calls) {n : Nat} (hs : .opened n ∈ a.sems) : CloseCall (.opened n)
  /-- The waiters of `semJoin` have been released before. -/
  | finish (ha : a.activity = .none) (hs : a.stage = .finishing) {s : SemPtr}
    (hown : s ∈ SemPtr.own a.running) (hne : s ≠ .joinAll a.running)
    (hq : s = .join a.running → a.queue s = []) : CloseCall s
  | last (ha : a.activity = .none) (hs : a.stage = .left) : CloseCall (.joinAll a.running)
  /-- The constructor or destructor of a `TCB` that could not be completed. -/
  | undo (h : a.Calls) {s : SemPtr} {t : Tid} (hown : s ∈ SemPtr.own t) (ht : t ∉ a.threads)
    (hs : s ∈ a.sems) : CloseCall s

variable {a} {s : SemPtr}

theorem WaitCall.activity {m : Nat} {ctx : Context} (h : a.WaitCall s m ctx) :
    a.activity = .none := by
  cases h with
  | put ha | putMutex ha | getMutex ha => exact ha
  | semWait h | join h | joinAll h | timedJoinAll h | send h | receive h | get h =>
    exact h.activity

/-- The context of a wait belongs to its semaphore. -/
theorem WaitCall.waitsAt {m : Nat} {ctx : Context} (h : a.WaitCall s m ctx) :
    ctx.waitsAt a.running = some s := by
  cases h <;> rfl

theorem SignalCall.activity {stage : Stage} (h : a.SignalCall s stage) : a.activity = .none := by
  cases h with
  | semSignal h => exact h.activity
  | owed ha | slot ha => exact ha

theorem CloseCall.activity (h : a.CloseCall s) : a.activity = .none := by
  cases h with
  | semClose h | undo h => exact h.activity
  | finish ha | last ha => exact ha

variable (a)

/-- Nothing is left to do in the kernel but to return to the thread's own code. -/
inductive Leaves : Prop
  | code (hs : a.stage = .code)
    (hc : (a.thread a.running).context.waitsAt a.running = none)
  | past {ctx : Context} (hs : a.stage = .past ctx) (hc : ctx.plain)
  | done (hs : a.stage = .owes [])

/-! ## 5. The steps

Each step has in its hypotheses what the code has tested when it gets there, and no more.  Steps
that depend on the kernel being in a loop or a handler look at `activity` and `stage`; the others
begin a handler, and need the running thread to be in its own code. -/

/-- One step. -/
inductive Step (a : Sys) : Sys → Prop
  /- ### Time -/
  | tick (h : a.AtBody) :
    Step a { a with
      timeSliceCounter := u64 (a.timeSliceCounter + 1)
      history := .tick :: a.history
      sleepers := a.sleepers.map fun p => (p.1, p.2 - 1)
      activity := .ticking }
  | expire (h : a.activity = .ticking) {t : Tid} {rest : List (Tid × Nat)}
    (hs : a.sleepers = (t, 0) :: rest) {s : SemPtr} (hb : (a.thread t).blockedAtSem = some s) :
    Step a { (a.unblock s t .waitTimeout).emit (.expired s t) with ready := a.ready ++ [t] }
  | wake (h : a.activity = .ticking) {t : Tid} {rest : List (Tid × Nat)}
    (hs : a.sleepers = (t, 0) :: rest) (hb : (a.thread t).blockedAtSem = none) :
    Step a { (a.awake t).emit (.woken t) with ready := a.ready ++ [t] }
  | tickEnd (h : a.activity = .ticking) (hs : ∀ p ∈ a.sleepers.head?, p.2 ≠ 0) :
    Step a { a with activity := .none }
  /- ### Switching -/
  | preempt (h : a.AtBody) {ctx : Context} (hc : ctx = .timer ∨ ctx = .dispatch) :
    Step a ((a.pushReady a.running).choose ctx)
  | switch {ctx : Context} (h : a.activity = .leaving ctx none) :
    Step a { a.choose ctx with activity := .none }
  | sleep (h : a.Calls) {n : Nat} (h1 : 1 ≤ n) (hn : n < 2 ^ 64) :
    Step a { a with activity := .leaving .sleep (some n) }
  | fallAsleep {ctx : Context} {n : Nat} (h : a.activity = .leaving ctx (some n)) (h1 : n ≠ 0) :
    Step a { (a.fallAsleep a.running n).emit (.slept a.running n) with
      activity := .leaving ctx none }
  | leave (h : a.activity = .none) (hl : a.Leaves) (a0 handle : Word) :
    Step a { a.setThread a.running fun x => { x with context := .body, a0 := a0, handle := handle }
      with stage := .code }
  /- ### Waiting -/
  | acquire {s : SemPtr} {m : Nat} {ctx : Context} (h : a.WaitCall s m ctx)
    (ha : (a.sem s).active = true) (hv : m ≤ (a.sem s).value) :
    Step a { ((a.setSem s fun x => { x with value := x.value - m }).setThread a.running
        fun x => { x with unblockManner := .regular }).emit (.acquired s a.running m) with
      stage := .past ctx }
  | block {s : SemPtr} {m : Nat} {ctx : Context} {timeout : Option Nat} (h : a.WaitCall s m ctx)
    (ha : (a.sem s).active = true) (hv : (a.sem s).value < m)
    (ht : ∀ n ∈ timeout, ctx.timed ∧ n < 2 ^ 64) :
    Step a { ((a.setSem s fun x => { x with value := 0 }).emit
        (.blocked s a.running timeout)).enqueue s a.running (m - (a.sem s).value) with
      activity := .leaving ctx timeout, stage := .code }
  | timeoutZero {ctx : Context} (h : a.activity = .leaving ctx (some 0)) {s : SemPtr}
    (hb : (a.thread a.running).blockedAtSem = some s) :
    Step a { ((a.unblock s a.running .waitTimeout).emit (.expired s a.running)).emit
        (.returned a.running TIMEOUT) with
      activity := .none, stage := .past ctx }
  | dead {s : SemPtr} {m : Nat} {ctx : Context} (h : a.WaitCall s m ctx)
    (ha : (a.sem s).active = false) : Step a { a with stage := .past ctx }
  | tryFail (h : a.Calls) {n : Nat} (hs : .opened n ∈ a.sems) :
    Step a (a.setThread a.running fun x => { x with unblockManner := .regular })
  | endWait (h : a.activity = .none) (hs : a.stage = .code) {s : SemPtr}
    (hc : (a.thread a.running).context.waitsAt a.running = some s) :
    Step a { a.emit (.returned a.running (a.thread a.running).unblockManner.result) with
      stage := .past (a.thread a.running).context }
  /- ### Signalling -/
  | signal {s : SemPtr} {stage : Stage} (h : a.SignalCall s stage)
    (ha : (a.sem s).active = true) :
    Step a { a.emit (.signalled s 1) with activity := .handing s 1, stage := stage }
  | skip {s : SemPtr} {stage : Stage} (h : a.SignalCall s stage)
    (ha : (a.sem s).active = false) : Step a { a with stage := stage }
  | grant {s : SemPtr} {n : Nat} (h : a.activity = .handing s n) {t : Tid} {rest : List Tid}
    (hq : a.queue s = t :: rest) (hn : 0 < n) (ht : (a.thread t).tokensNeeded ≤ n) :
    Step a { (a.unblock s t .regular).emit (.granted s t) with
      ready := a.ready ++ [t]
      activity := .handing s (n - (a.thread t).tokensNeeded) }
  | part {s : SemPtr} {n : Nat} (h : a.activity = .handing s n) {t : Tid} {rest : List Tid}
    (hq : a.queue s = t :: rest) (hn : 0 < n) (ht : n < (a.thread t).tokensNeeded) :
    Step a { a.setThread t fun x => { x with tokensNeeded := x.tokensNeeded - n } with
      activity := .handing s 0 }
  | handEnd {s : SemPtr} {n : Nat} (h : a.activity = .handing s n)
    (hq : a.queue s = [] ∨ n = 0) :
    Step a { a.setSem s fun x => { x with value := u64 (x.value + n) } with activity := .none }
  /- ### Closing -/
  | close {s : SemPtr} (h : a.CloseCall s) (ha : (a.sem s).active = true) :
    Step a { a.emit (.closed s) with activity := .releasing s .onClose }
  | signalAll (h : a.activity = .none) (hs : a.stage = .finishing)
    (ha : (a.sem (.join a.running)).active = true) :
    Step a { a with activity := .releasing (.join a.running) .regular }
  | release {s : SemPtr} {manner : UnblockManner} (h : a.activity = .releasing s manner) {t : Tid}
    {rest : List Tid} (hq : a.queue s = t :: rest) :
    Step a { (a.unblock s t manner).emit (manner.event s t) with ready := a.ready ++ [t] }
  | releaseEnd {s : SemPtr} {manner : UnblockManner} (h : a.activity = .releasing s manner)
    (hq : a.queue s = []) :
    Step a { a.setSem s fun x => { x with value := 0, active := x.active && manner ≠ .onClose } with
      activity := .none }
  /- ### Messages and characters -/
  | store (h : a.Calls) (strings : Nat → CString) : Step a { a with strings := strings }
  | write (h : a.activity = .none) {t : Tid} {msg : CharPtr} (hs : a.stage = .past (.send t msg))
    {message : Message}
    (hm : setMsgFrom (a.string msg) (msgLen + 1) 0 (a.thread t).message = some message) :
    Step a { (a.setThread t fun x => { x with message := message }).emit
        (.wrote t a.running (a.string msg)) with stage := .owes [.receive t] }
  | received (h : a.activity = .none) (hs : a.stage = .taking) :
    Step a { a.emit (.received a.running (a.thread a.running).message.text) with
      stage := .owes [] }
  | putting (h : a.Calls) (b : BufferId) (c : UInt8) :
    Step a { a.emit (.putting b a.running c) with stage := .putting b c }
  | putChar (h : a.activity = .none) {b : BufferId} {c : UInt8}
    (hs : a.stage = .past (.putMutex b c)) (hw : (a.buffer b).pos_w < bufferLength) :
    Step a { a with
      buffer := Function.update a.buffer b
        { a.buffer b with
          buffer := (a.buffer b).buffer.set (a.buffer b).pos_w c
          pos_w := ((a.buffer b).pos_w + 1) % bufferLength }
      history := .stored b a.running c :: a.history
      stage := .owes [.mutex b, .get b] }
  | getChar (h : a.activity = .none) {b : BufferId} (hs : a.stage = .past (.getMutex b))
    (hr : (a.buffer b).pos_r < bufferLength) :
    Step a { a with
      buffer := Function.update a.buffer b
        { a.buffer b with pos_r := ((a.buffer b).pos_r + 1) % bufferLength }
      history := .loaded b a.running (a.buffer b).buffer[(a.buffer b).pos_r] :: a.history
      stage := .owes [.mutex b, .put b] }
  /- ### Creating -/
  | allocate (h : a.Calls) : Step a { a with IDCounter := a.IDCounter + 1 }
  | openSem (h : a.Calls) {s : SemPtr} {v : Nat} (hv : v < 2 ^ 64)
    (hs : s = .opened a.semIDCounter ∨
      ∃ t, s ∈ SemPtr.own t ∧ s ∉ a.sems ∧ t ∉ a.threads ∧ t < a.IDCounter ∧ v = s.initial) :
    Step a { (a.setSem s fun _ => { creator := some a.running, value := v, active := true }).emit
        (.opened s v) with
      semIDCounter := a.semIDCounter + 1, sems := a.sems ++ [s] }
  | init (h : a.Calls) {t : Tid} (ht : t ∉ a.threads) (hlt : t < a.IDCounter) {x : Thread}
    (hx : x.blockedAtSem = none) : Step a (a.setThread t fun _ => x)
  | enlist (h : a.Calls) {t : Tid} (hnew : ∀ u ∈ a.threads, u < t) (hlt : t < a.IDCounter)
    (hroom : a.threads.length < 2 ^ 58)
    (hx : (a.thread t).context = .threadWrapper ∧ (a.thread t).finished = false ∧
      (a.thread t).parent = some a.running ∧ (a.thread t).numOfActiveChildren = 0 ∧
      (a.thread t).tokensNeeded = 0)
    (hp : (a.thread t).semJoin = some (.join t) ∧ (a.thread t).semJoinAll = some (.joinAll t) ∧
      (a.thread t).semSend = some (.send t) ∧ (a.thread t).semReceive = some (.receive t))
    (hs : ∀ s ∈ SemPtr.own t, s ∈ a.sems ∧ (a.sem s).active = true ∧ (a.sem s).value = s.initial) :
    Step a { (a.setThread a.running fun x =>
          { x with numOfActiveChildren := u64 (x.numOfActiveChildren + 1) }).emit
          (.created t (some a.running) (a.thread t).hasBody) with
      ready := if (a.thread t).hasBody then a.ready ++ [t] else a.ready
      threads := a.threads ++ [t] }
  /- ### Finishing -/
  | finish (h : a.AtBody) : Step a { a.emit (.finish a.running) with stage := .finishing }
  | noParent (h : a.activity = .none) (hs : a.stage = .finishing)
    (hp : ∀ p ∈ (a.thread a.running).parent, (a.thread p).finished = true) :
    Step a { a with stage := .left }
  | childLeaves (h : a.activity = .none) (hs : a.stage = .finishing) {p : Tid}
    (hp : (a.thread a.running).parent = some p) (hf : (a.thread p).finished = false)
    (hb : (a.thread p).blockedAtSem ≠ some (.joinAll p)) :
    Step a { a.setThread p fun x =>
        { x with numOfActiveChildren := dec64 x.numOfActiveChildren } with stage := .left }
  | childSignals (h : a.activity = .none) (hs : a.stage = .finishing) {p : Tid}
    (hp : (a.thread a.running).parent = some p) (hf : (a.thread p).finished = false)
    (hb : (a.thread p).blockedAtSem = some (.joinAll p)) :
    Step a { (a.setThread p fun x =>
        { x with numOfActiveChildren := dec64 x.numOfActiveChildren }).emit
          (.signalled (.joinAll p) 1) with
      activity := .handing (.joinAll p) 1, stage := .left }
  | retire (h : a.activity = .none) (hs : a.stage = .left)
    (hc : ∀ s ∈ SemPtr.own a.running, (a.sem s).active = false) (exitStatus : Nat) :
    Step a { a.setThread a.running fun x =>
        { x with exitStatus := exitStatus, finished := true } with
      stage := .code, activity := .leaving .finish none }

end Sys

end Os1Kernel
