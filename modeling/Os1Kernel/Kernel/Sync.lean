/-
# Switching, waiting, sleeping, finishing

`TCB::yield`, the public operations of `kSemaphore`, `Sleep::sleep` and `Sleep::onTick`,
`TCB::threadCreate` and `TCB::finish`.

A call that may switch to another thread takes one more argument, the `Context` in which its
caller goes on after the switch, and returns an `Outcome`: `done` when the call came back
without a switch, `switched` when `TCB::running` is another thread (or this one again, newly
chosen) and the rest of the caller waits in its `context`.
-/
import Os1Kernel.Kernel.Queues

namespace Os1Kernel

inductive Outcome (α : Type)
  | done (ret : α)
  | switched
  deriving DecidableEq, Repr

/-! ## 1. `TCB::yield` -/

namespace TCB

/-- `TCB::yield`, up to the moment when `contextSwitch` loads the context of the thread that was
chosen. -/
def yield (schPut : Bool) (context : Context) : KernelM Unit := do
  let old ← getRunning
  let x ← getTcb old
  (if !x.finished && x.blockedAtSem.isNone && !x.sleeps && schPut then Scheduler.put old
    else pure ())
  let chosen ← follow (← Scheduler.get)
  modify fun k => { k with running := some chosen, timeSliceCounter := 0 }
  -- `contextSwitch` stores the registers of `old` in its context
  setThread old fun x => { x with context := context }
  emit (.chosen chosen)

end TCB

/-! ## 2. `Sleep` -/

namespace Sleep

/-- `Sleep::sleep` -/
def sleep (timeout : Nat) (context : Context) : KernelM (Outcome Int) := do
  let r ← getRunning
  if timeout = 0 then do
    let x ← getTcb r
    (match x.blockedAtSem with
      | some s => do
        let _ ← kSemaphore.get s (some r)
        setThread r fun x => { x with unblockManner := .waitTimeout }
        emit (.expired s r)
      | none => pure ())
    pure (.done ERR_SLEEP_ZERO)
  else do
    Sleep.put r timeout
    TCB.yield false context
    pure .switched

/-- What `Sleep::onTick` does with the first sleeper when it is due. -/
def wake : KernelM Unit := do
  let tcb ← follow (← Sleep.get none)
  let x ← getTcb tcb
  (match x.blockedAtSem with
    | some s => do
      let _ ← kSemaphore.get s (some tcb)
      setThread tcb fun x => { x with unblockManner := .waitTimeout }
      emit (.expired s tcb)
    | none => emit (.woken tcb))
  Scheduler.put tcb

/-- The `while` loop of `Sleep::onTick`. -/
def wakeLoop : Nat → KernelM Unit
  | 0 => failure
  | n + 1 => do
    let k ← getKernel
    match k.sleepHead with
    | none => pure ()
    | some head =>
      if (k.tcb head).timeSleepRelative = 0 then do
        wake
        wakeLoop n
      else pure ()

/-- `Sleep::onTick` -/
def onTick : KernelM Unit := do
  emit .tick
  let k ← getKernel
  (match k.sleepHead with
    | some head => setTcb head fun x => { x with timeSleepRelative := dec64 x.timeSleepRelative }
    | none => pure ())
  wakeLoop (← fuel)

end Sleep

/-! ## 3. `kSemaphore` -/

namespace kSemaphore

/-- `kSemaphoreCreate`: `address` names the new object, `mem` says whether `operator new` got
memory for it. -/
def kSemaphoreCreate (address : SemPtr) (val : Nat) (mem : Bool) :
    KernelM (Option SemPtr) := do
  if mem then do
    let k ← getKernel
    setSem address fun _ =>
      { creator := k.running, value := val, active := true, nextSem := none,
        blockedHead := none, blockedTail := none }
    modify fun k => { k with semIDCounter := k.semIDCounter + 1 }
    (match k.kSemsTail with
      | none => modify fun k => { k with kSemsHead := some address, kSemsTail := some address }
      | some last => do
        setSem last fun x => { x with nextSem := some address }
        modify fun k => { k with kSemsTail := some address })
    emit (.opened address val)
    pure (some address)
  else pure none

/-- `resolveManner` -/
def resolveManner : KernelM Int := do
  let r ← getRunning
  let x ← getTcb r
  pure (match x.unblockManner with
    | .regular => 0
    | .onClose => ERR_SEM_WAITCLOSE
    | .waitTimeout => TIMEOUT)

/-- What `signal` and `signalAll` do with a waiter they release: take the head off the list and
off the sleep list, note the manner, make it ready. -/
def release (this : SemPtr) (manner : UnblockManner) : KernelM Unit := do
  let tcb ← follow (← get this none)
  let x ← getTcb tcb
  (if x.sleeps then do let _ ← Sleep.get (some tcb) else pure ())
  setThread tcb fun x => { x with unblockManner := manner }
  emit (if manner = .onClose then .dismissed this tcb else .granted this tcb)
  Scheduler.put tcb

/-- The `while` loop of `signal`; the result is what is left of `tokens`. -/
def signalLoop (this : SemPtr) : Nat → Nat → KernelM Nat
  | 0, _ => failure
  | n + 1, tokens => do
    let sem ← getSem this
    match sem.blockedHead with
    | none => pure tokens
    | some head =>
      if 0 < tokens then do
        let x ← getTcb head
        if x.tokensNeeded ≤ tokens then do
          setThread head fun x => { x with tokensNeeded := 0 }
          release this .regular
          signalLoop this n (tokens - x.tokensNeeded)
        else do
          setThread head fun x => { x with tokensNeeded := x.tokensNeeded - tokens }
          signalLoop this n 0
      else pure tokens

/-- `signal` -/
def signal (this : SemPtr) (tokens : Nat) : KernelM Int := do
  let sem ← getSem this
  if !sem.active then pure ERR_SEM_DEAD
  else do
    emit (.signalled this tokens)
    let left ← signalLoop this (← fuel) tokens
    setSem this fun x => { x with value := u64 (x.value + left) }
    pure 0

/-- The `while` loop of `signalAll`. -/
def signalAllLoop (this : SemPtr) (manner : UnblockManner) : Nat → KernelM Unit
  | 0 => failure
  | n + 1 => do
    let sem ← getSem this
    match sem.blockedHead with
    | none => pure ()
    | some _ => do
      release this manner
      signalAllLoop this manner n

/-- `signalAll` -/
def signalAll (this : SemPtr) (tokens : Nat) (onClose : Bool) : KernelM Int := do
  let sem ← getSem this
  if !sem.active then pure ERR_SEM_DEAD
  else do
    signalAllLoop this (if onClose then .onClose else .regular) (← fuel)
    setSem this fun x => { x with value := tokens }
    pure 1

/-- `close` -/
def close (this : SemPtr) : KernelM Int := do
  let sem ← getSem this
  if !sem.active then pure ERR_SEM_DEAD
  else do
    emit (.closed this)
    let _ ← signalAll this 0 true
    setSem this fun x => { x with active := false }
    pure 0

/-- The branch of `wait` and `timedWait` that finds `value >= tokens`. -/
def acquire (this : SemPtr) (tokens : Nat) : KernelM Unit := do
  let r ← getRunning
  setSem this fun x => { x with value := x.value - tokens }
  setThread r fun x => { x with unblockManner := .regular }
  emit (.acquired this r tokens)

/-- The start of the other branch: take what there is and join the waiters for the rest. -/
def block (this : SemPtr) (tokens : Nat) (timeout : Option Nat) : KernelM Unit := do
  let r ← getRunning
  let sem ← getSem this
  setSem this fun x => { x with value := 0 }
  emit (.blocked this r timeout)
  put this r (tokens - sem.value)

/-- `wait` -/
def wait (this : SemPtr) (tokens : Nat) (context : Context) : KernelM (Outcome Int) := do
  let sem ← getSem this
  if !sem.active then pure (.done ERR_SEM_DEAD)
  else if tokens ≤ sem.value then do
    acquire this tokens
    return .done (← resolveManner)
  else do
    block this tokens none
    TCB.yield false context
    pure .switched

/-- `tryWait` -/
def tryWait (this : SemPtr) (tokens : Nat) : KernelM Int := do
  let sem ← getSem this
  if !sem.active then pure ERR_SEM_DEAD
  else if tokens ≤ sem.value then do
    acquire this tokens
    pure 0
  else do
    let r ← getRunning
    setThread r fun x => { x with unblockManner := .regular }
    pure 1

/-- `timedWait` -/
def timedWait (this : SemPtr) (timeout tokens : Nat) (context : Context) :
    KernelM (Outcome Int) := do
  let sem ← getSem this
  if !sem.active then pure (.done ERR_SEM_DEAD)
  else if tokens ≤ sem.value then do
    acquire this tokens
    return .done (← resolveManner)
  else do
    block this tokens (some timeout)
    match ← Sleep.sleep timeout context with
    | .switched => pure .switched
    | .done _ => do
      let ret ← resolveManner
      let r ← getRunning
      emit (.returned r ret)
      pure (.done ret)

end kSemaphore

/-! ## 4. Creating and finishing threads -/

/-- What the allocations of one `TCB::threadCreate` meet: whether there is memory for each
object, and the bytes the memory of the `TCB` holds. -/
structure CreateMem where
  userStack : Bool
  systemStack : Bool
  semJoin : Bool
  semJoinAll : Bool
  semSend : Bool
  semReceive : Bool
  raw : Message

namespace TCB

/-- `if (sem) sem->close()` -/
def closeIf (sem : Option SemPtr) : KernelM Unit :=
  match sem with
  | some s => do let _ ← kSemaphore.close s
  | none => pure ()

/-- The constructor `TCB::TCB`; the result is `this`. -/
def construct (body : Bool) (mode : Mode) (userStackSpace : Bool) (timeSlice : Nat)
    (mem : CreateMem) : KernelM Tid := do
  let k ← getKernel
  let this := k.IDCounter
  modify fun k => { k with IDCounter := k.IDCounter + 1 }
  let userStack := body && !userStackSpace && mem.userStack
  let systemStack := body && mem.systemStack
  let semJoin ← kSemaphore.kSemaphoreCreate (.join this) 0 mem.semJoin
  let semJoinAll ← kSemaphore.kSemaphoreCreate (.joinAll this) 0 mem.semJoinAll
  let semSend ← kSemaphore.kSemaphoreCreate (.send this) 1 mem.semSend
  let semReceive ← kSemaphore.kSemaphoreCreate (.receive this) 0 mem.semReceive
  setTcb this fun x =>
    { mode := mode, parent := k.running, nextTCB := none, userStack := userStack,
      systemStack := systemStack, context := .threadWrapper, hasBody := body,
      finished := false, exitStatus := 0, nextReady := none, semJoin := semJoin,
      semJoinAll := semJoinAll, numOfActiveChildren := 0,
      timeSlice := if timeSlice = 0 then 1
        else if maxTimeSlice < timeSlice then maxTimeSlice else timeSlice,
      sleeps := false, timeSleepRelative := 0, nextSleep := none, tokensNeeded := 0,
      blockedAtSem := none, nextSemBlocked := none, unblockManner := .regular,
      semSend := semSend, semReceive := semReceive, message := mem.raw,
      a0 := x.a0, handle := x.handle }
  -- `sps.userSP == 0 || sps.systemSP == 0`, or a semaphore is missing
  (if (body && (!(userStackSpace || userStack) || !systemStack))
      || semSend.isNone || semReceive.isNone || semJoin.isNone || semJoinAll.isNone then do
    setThread this fun x =>
      { x with userStack := false, systemStack := false, finished := true }
    closeIf semSend
    closeIf semReceive
    closeIf semJoin
    closeIf semJoinAll
  else
    setThread this fun x => { x with message := x.message.set msgLen 0 })
  pure this

/-- The destructor `TCB::~TCB`, without the memory it gives back. -/
def destruct (this : Tid) : KernelM Unit := do
  setTcb this fun x => { x with nextTCB := none, nextReady := none, nextSleep := none,
                                nextSemBlocked := none }
  let x ← getTcb this
  closeIf x.semSend
  closeIf x.semReceive
  closeIf x.semJoin
  closeIf x.semJoinAll

/-- `TCB::threadCreate`, once `operator new` has got memory for the `TCB` itself. -/
def threadCreate (body : Bool) (mode : Mode) (userStackSpace : Bool) (timeSlice : Nat)
    (schPut : Bool) (mem : CreateMem) : KernelM (Option Tid) := do
  let tcb ← construct body mode userStackSpace timeSlice mem
  let x ← getTcb tcb
  if x.finished then do
    destruct tcb
    pure none
  else do
    let k ← getKernel
    (match k.TCBsTail with
      | none => modify fun k => { k with TCBsHead := some tcb, TCBsTail := some tcb }
      | some last => do
        setTcb last fun x => { x with nextTCB := some tcb }
        modify fun k => { k with TCBsTail := some tcb })
    (if body && schPut then Scheduler.put tcb else pure ())
    (match x.parent with
      | some p => setThread p fun y =>
          { y with numOfActiveChildren := u64 (y.numOfActiveChildren + 1) }
      | none => pure ())
    emit (.created tcb x.parent body)
    pure (some tcb)

/-- `TCB::finish` -/
def finish (exitStatus : Nat) : KernelM Unit := do
  let r ← getRunning
  emit (.finish r)
  let x ← getTcb r
  let _ ← kSemaphore.close (← follow x.semSend)
  let _ ← kSemaphore.close (← follow x.semReceive)
  let semJoin ← follow x.semJoin
  let _ ← kSemaphore.signalAll semJoin 0 false
  let _ ← kSemaphore.close semJoin
  (match x.parent with
    | none => pure ()
    | some p => do
      let y ← getTcb p
      if y.finished then pure ()
      else do
        setThread p fun y => { y with numOfActiveChildren := dec64 y.numOfActiveChildren }
        if y.blockedAtSem = y.semJoinAll then do
          let _ ← kSemaphore.signal (← follow y.semJoinAll) 1
        else pure ())
  let _ ← kSemaphore.close (← follow x.semJoinAll)
  let x ← getTcb r
  (match x.blockedAtSem with
    | some s => do let _ ← kSemaphore.get s (some r)
    | none => pure ())
  let x ← getTcb r
  (if x.sleeps then do let _ ← Sleep.get (some r) else pure ())
  setThread r fun x => { x with exitStatus := exitStatus, finished := true }
  TCB.yield false .finish

end TCB

end Os1Kernel
