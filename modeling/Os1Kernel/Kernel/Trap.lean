/-
# Traps, the kernel's steps, and the boot sequence

The handlers of `kernel.cpp` and `CharBuffer` (`io.hpp`), `handleSupervisorTrap`, and the start
of `main`.  A step of the machine (`step`) is one of the following, each running with interrupts
off until it comes back to the thread's own code or `TCB::yield` switches:

* a trap of the running thread: a system call, an exception, a timer interrupt;
* a call of `CharBuffer::uPut`/`uGet` by a thread that runs in supervisor mode;
* `store`: the running thread writes its own memory;
* `resume`: the thread chosen by the last `TCB::yield` goes on behind its own `contextSwitch`.

An external interrupt changes nothing that is modelled here.
-/
import Os1Kernel.Kernel.Sync
import Os1Kernel.Lib.Run

namespace Os1Kernel

/-! ## 1. `setMsg` -/

/-- The `for` loop of `TCB::setMsg` and the store behind it; `none` when it would write past the
array.  `msg[i]` is the terminating zero behind the last character. -/
def setMsgFrom (msg : CString) : Nat → Nat → Message → Option Message
  | 0, _, _ => none
  | n + 1, i, message =>
    if h : i < msgLen + 1 then
      if msg.getD i 0 ≠ 0 ∧ i < msgLen then
        setMsgFrom msg n (i + 1) (message.set i (msg.getD i 0))
      else some (message.set i 0)
    else none

/-- `TCB::setMsg`, called by the running thread with a pointer to this string.  The loop reads
`msg[i]` before it writes `message[i]`, so a pointer into the array itself makes no difference. -/
def setMsg (tcb : Tid) (msg : CString) : KernelM Unit := do
  let x ← getTcb tcb
  let message ← follow (setMsgFrom msg (msgLen + 1) 0 x.message)
  setThread tcb fun x => { x with message := message }
  emit (.wrote tcb (← getRunning) msg)

/-! ## 2. `CharBuffer` -/

namespace CharBuffer

/-- `CharBuffer::put` -/
def put (b : BufferId) (c : UInt8) : KernelM Unit := do
  let k ← getKernel
  let buf := k.buffer b
  if h : buf.pos_w < bufferLength then do
    modify fun k =>
      { k with buffer := Function.update k.buffer b
                { buf with buffer := buf.buffer.set buf.pos_w c
                           pos_w := (buf.pos_w + 1) % bufferLength } }
    emit (.stored b (← getRunning) c)
  else failure

/-- `CharBuffer::get` -/
def get (b : BufferId) : KernelM UInt8 := do
  let k ← getKernel
  let buf := k.buffer b
  if h : buf.pos_r < bufferLength then do
    modify fun k =>
      { k with buffer := Function.update k.buffer b
                { buf with pos_r := (buf.pos_r + 1) % bufferLength } }
    emit (.loaded b (← getRunning) buf.buffer[buf.pos_r])
    pure buf.buffer[buf.pos_r]
  else failure

/-- `kPut` and `uPut` behind `mutex->wait()`. -/
def putChar (b : BufferId) (c : UInt8) : KernelM (Outcome Word) := do
  put b c
  let buf := (← getKernel).buffer b
  let _ ← kSemaphore.signal (← follow buf.mutex) 1
  let _ ← kSemaphore.signal (← follow buf.semGet) 1
  pure (.done (.int 0))

/-- `kPut` and `uPut` behind `semPut->wait()`. -/
def putLocked (b : BufferId) (c : UInt8) : KernelM (Outcome Word) := do
  let buf := (← getKernel).buffer b
  match ← kSemaphore.wait (← follow buf.mutex) 1 (.putMutex b c) with
  | .switched => pure .switched
  | .done _ => putChar b c

/-- `kPut`; `uPut` does the same with interrupts switched off. -/
def kPut (b : BufferId) (c : UInt8) : KernelM (Outcome Word) := do
  emit (.putting b (← getRunning) c)
  let buf := (← getKernel).buffer b
  match ← kSemaphore.wait (← follow buf.semPut) 1 (.put b c) with
  | .switched => pure .switched
  | .done _ => putLocked b c

/-- `kGet` and `uGet` behind `mutex->wait()`. -/
def getChar (b : BufferId) : KernelM (Outcome Word) := do
  let c ← get b
  let buf := (← getKernel).buffer b
  let _ ← kSemaphore.signal (← follow buf.mutex) 1
  let _ ← kSemaphore.signal (← follow buf.semPut) 1
  pure (.done (.int c.toNat))

/-- `kGet` and `uGet` behind `semGet->wait()`. -/
def getLocked (b : BufferId) : KernelM (Outcome Word) := do
  let buf := (← getKernel).buffer b
  match ← kSemaphore.wait (← follow buf.mutex) 1 (.getMutex b) with
  | .switched => pure .switched
  | .done _ => getChar b

/-- `kGet`; `uGet` does the same with interrupts switched off. -/
def kGet (b : BufferId) : KernelM (Outcome Word) := do
  let buf := (← getKernel).buffer b
  match ← kSemaphore.wait (← follow buf.semGet) 1 (.get b) with
  | .switched => pure .switched
  | .done _ => getLocked b

end CharBuffer

/-! ## 3. The handlers of the system calls -/

/-- The system calls, with the values of `a1` to `a4` that their handlers read, and what the
allocator answers where they allocate.  `mem_alloc` and `mem_free` touch no thread. -/
inductive Syscall
  | threadCreate (start_routine : Bool) (stack_space : Bool) (mem : CreateMem)
  | threadExit
  | threadDispatch
  | join (handle : Tid)
  | timedJoin (handle : Tid) (timeout : UInt64)
  | joinAll
  | timedJoinAll (timeout : UInt64)
  | semOpen (init : UInt64) (mem : Bool)
  | semClose (handle : Nat)
  | semWait (handle : Nat)
  | semSignal (handle : Nat)
  | semTimedWait (handle : Nat) (timeout : UInt64)
  | semTryWait (handle : Nat)
  | timeSleep (timeout : UInt64)
  | getc
  | putc (c : UInt8)
  | send (handle : Tid) (msg : CharPtr)
  | receive

/-- `RET_VOID` -/
def Syscall.retVoid : Syscall → Bool
  | .threadDispatch | .joinAll | .putc _ | .send .. => true
  | _ => false

/-- The result of a wait as the result of its handler. -/
def Outcome.word : Outcome Int → Outcome Word
  | .done ret => .done (.int ret)
  | .switched => .switched

/-- `handleThreadCreate` -/
def handleThreadCreate (start_routine stack_space : Bool) (mem : CreateMem) :
    KernelM (Outcome Word) := do
  let tcb ← TCB.threadCreate start_routine .user stack_space DEFAULT_TIME_SLICE true mem
  let r ← getRunning
  setThread r fun x => { x with handle := .tcb tcb }
  pure (.done (.int (if tcb.isSome then 0 else ERR_THREAD_CREATE)))

/-- `handleThreadExit` -/
def handleThreadExit : KernelM (Outcome Word) := do
  TCB.finish 0
  pure .switched

/-- `handleThreadDispatch` -/
def handleThreadDispatch : KernelM (Outcome Word) := do
  TCB.yield true .dispatch
  pure .switched

/-- The two tests with which `handleJoin` and `handleTimedJoin` begin, and the wait behind
them. -/
def joinWith (tcb : Tid) (wait : SemPtr → KernelM (Outcome Int)) : KernelM (Outcome Word) := do
  let r ← getRunning
  if tcb = r then pure (.done (.int ERR_THREAD_SELFJOIN))
  else do
    let x ← getTcb tcb
    if x.finished then pure (.done (.int 0))
    else return (← wait (← follow x.semJoin)).word

def handleJoin (tcb : Tid) : KernelM (Outcome Word) :=
  joinWith tcb fun s => kSemaphore.wait s 1 (.join tcb)

def handleTimedJoin (tcb : Tid) (timeout : Nat) : KernelM (Outcome Word) :=
  joinWith tcb fun s => kSemaphore.timedWait s timeout 1 (.join tcb)

/-- `handleJoinAll` -/
def handleJoinAll : KernelM (Outcome Word) := do
  let x ← getTcb (← getRunning)
  match ← kSemaphore.wait (← follow x.semJoinAll) x.numOfActiveChildren .joinAll with
  | .switched => pure .switched
  | .done _ => pure (.done (.int 0))

/-- `handletimedJoinAll` behind the wait. -/
def childrenLeft : KernelM (Outcome Word) := do
  let x ← getTcb (← getRunning)
  pure (.done (.int x.numOfActiveChildren))

/-- `handletimedJoinAll` -/
def handletimedJoinAll (timeout : Nat) : KernelM (Outcome Word) := do
  let x ← getTcb (← getRunning)
  match ← kSemaphore.timedWait (← follow x.semJoinAll) timeout x.numOfActiveChildren
      .timedJoinAll with
  | .switched => pure .switched
  | .done _ => childrenLeft

/-- `handleSemOpen` -/
def handleSemOpen (init : Nat) (mem : Bool) : KernelM (Outcome Word) := do
  let k ← getKernel
  let sem ← kSemaphore.kSemaphoreCreate (.opened k.semIDCounter) init mem
  let r ← getRunning
  setThread r fun x => { x with handle := .sem sem }
  pure (.done (.int (if sem.isSome then 0 else ERR_SEM_CREATE)))

/-- `handleSend` behind `tcb->semSend->wait()`: only now the string is read. -/
def sendMessage (tcb : Tid) (msg : CharPtr) : KernelM (Outcome Word) := do
  setMsg tcb ((← getKernel).string msg)
  let x ← getTcb tcb
  let _ ← kSemaphore.signal (← follow x.semReceive) 1
  pure (.done (.int 0))

/-- `handleSend` -/
def handleSend (tcb : Tid) (msg : CharPtr) : KernelM (Outcome Word) := do
  let r ← getRunning
  if tcb = r then pure (.done (.int 0))
  else do
    let x ← getTcb tcb
    match ← kSemaphore.wait (← follow x.semSend) 1 (.send tcb msg) with
    | .switched => pure .switched
    | .done _ => sendMessage tcb msg

/-- `handleReceive` behind `TCB::running->semReceive->wait()`. -/
def receiveMessage : KernelM (Outcome Word) := do
  let r ← getRunning
  let x ← getTcb r
  let _ ← kSemaphore.signal (← follow x.semSend) 1
  emit (.received r x.message.text)
  pure (.done (.message r))

/-- `handleReceive` -/
def handleReceive : KernelM (Outcome Word) := do
  let x ← getTcb (← getRunning)
  match ← kSemaphore.wait (← follow x.semReceive) 1 .receive with
  | .switched => pure .switched
  | .done _ => receiveMessage

/-- `irr[a0](a1, a2, a3, a4)` -/
def Syscall.handle : Syscall → KernelM (Outcome Word)
  | .threadCreate start_routine stack_space mem =>
    handleThreadCreate start_routine stack_space mem
  | .threadExit => handleThreadExit
  | .threadDispatch => handleThreadDispatch
  | .join h => handleJoin h
  | .timedJoin h timeout => handleTimedJoin h timeout.toNat
  | .joinAll => handleJoinAll
  | .timedJoinAll timeout => handletimedJoinAll timeout.toNat
  | .semOpen init mem => handleSemOpen init.toNat mem
  | .semClose h => return .done (.int (← kSemaphore.close (.opened h)))
  | .semWait h => return (← kSemaphore.wait (.opened h) 1 (.semWait (.opened h))).word
  | .semSignal h => return .done (.int (← kSemaphore.signal (.opened h) 1))
  | .semTimedWait h timeout =>
    return (← kSemaphore.timedWait (.opened h) timeout.toNat 1 (.semWait (.opened h))).word
  | .semTryWait h => return .done (.int (← kSemaphore.tryWait (.opened h) 1))
  | .timeSleep timeout => return (← Sleep.sleep timeout.toNat .sleep).word
  | .getc => CharBuffer.kGet .input
  | .putc c => CharBuffer.kPut .output c
  | .send h msg => handleSend h msg
  | .receive => handleReceive

/-! ## 4. One step of the machine -/

inductive Act
  | ecall (c : Syscall)
  | exception (scause : UInt64)
  | timer
  | uPut (b : BufferId) (c : UInt8)
  | uGet (b : BufferId)
  /-- The strings that the threads' own memory holds then. -/
  | store (strings : Nat → CString)
  | resume

/-- Back to the thread's own code, with `ret` in `a0` unless the call is `void`. -/
def leave (ret : Option Word) : KernelM Unit := do
  let r ← getRunning
  setThread r fun x => { x with context := .body, a0 := ret.getD x.a0 }

/-- The end of a trap (or of `uPut`, `uGet`) whose handler has come back. -/
def leaveWith (void : Bool) (o : Outcome Word) : KernelM Unit :=
  match o with
  | .switched => pure ()
  | .done ret => leave (if void then none else some ret)

/-- The end of a blocked wait: the result it returns is noted. -/
def endWait : KernelM Int := do
  let ret ← kSemaphore.resolveManner
  emit (.returned (← getRunning) ret)
  pure ret

/-- What the chosen thread does behind the `contextSwitch` that suspended it. -/
def resumeAt : Context → KernelM Unit
  | .body => failure
  | .threadWrapper => leave none
  | .timer => leave none
  | .dispatch => leave none
  | .sleep => leave (some (.int 0))
  | .semWait _ | .join _ => do leave (some (.int (← endWait)))
  | .joinAll => do
    let _ ← endWait
    leave none
  | .timedJoinAll => do
    let _ ← endWait
    leaveWith false (← childrenLeft)
  | .send tcb msg => do
    let _ ← endWait
    leaveWith true (← sendMessage tcb msg)
  | .receive => do
    let _ ← endWait
    leaveWith false (← receiveMessage)
  | .put b c => do
    let _ ← endWait
    leaveWith true (← CharBuffer.putLocked b c)
  | .putMutex b c => do
    let _ ← endWait
    leaveWith true (← CharBuffer.putChar b c)
  | .get b => do
    let _ ← endWait
    leaveWith false (← CharBuffer.getLocked b)
  | .getMutex b => do
    let _ ← endWait
    leaveWith false (← CharBuffer.getChar b)
  -- `TCB::finish` returns, `thread_exit` returns to `threadWrapper`, and `threadWrapper`, which
  -- was entered with its own address in `ra`, returns to its own start
  | .finish => leave (some (.int ERR_THREAD_EXIT))

/-- The timer case of `handleSupervisorTrap`. -/
def handleTimer : KernelM Unit := do
  modify fun k => { k with timeSliceCounter := u64 (k.timeSliceCounter + 1) }
  Sleep.onTick
  let r ← getRunning
  let k ← getKernel
  if (k.tcb r).timeSlice ≤ k.timeSliceCounter then TCB.yield true .timer else pure ()

def exec : Act → KernelM Unit
  | .ecall c => do leaveWith c.retVoid (← c.handle)
  | .exception scause => TCB.finish (u64 (2 ^ 64 - scause.toNat))
  | .timer => handleTimer
  | .uPut b c => do leaveWith true (← CharBuffer.kPut b c)
  | .uGet b => do leaveWith false (← CharBuffer.kGet b)
  | .store strings => modify fun k => { k with strings }
  | .resume => do
    let r ← getRunning
    resumeAt (← getTcb r).context

/-! ## 5. Which step can come next -/

namespace Kernel

/-- The ready queue. -/
def readyList (k : Kernel) : List Tid :=
  Linked.walk (fun t => (k.tcb t).nextReady) k.IDCounter k.readyHead

/-- The threads blocked at a semaphore. -/
def blockedList (k : Kernel) (s : SemPtr) : List Tid :=
  Linked.walk (fun t => (k.tcb t).nextSemBlocked) k.IDCounter (k.sem s).blockedHead

/-- The sleep list. -/
def sleepList (k : Kernel) : List Tid :=
  Linked.walk (fun t => (k.tcb t).nextSleep) k.IDCounter k.sleepHead

/-- All threads, from `TCBsHead`. -/
def tcbList (k : Kernel) : List Tid :=
  Linked.walk (fun t => (k.tcb t).nextTCB) k.IDCounter k.TCBsHead

/-- All semaphores, from `kSemsHead`. -/
def semList (k : Kernel) : List SemPtr :=
  Linked.walk (fun s => (k.sem s).nextSem) k.semIDCounter k.kSemsHead

/-- The arguments of a call are handles that the kernel has given out, and a `TCB` is only
allocated while the 64-byte blocks of a 64-bit address space have room for one more. -/
def validCall (k : Kernel) : Syscall → Bool
  | .threadCreate .. => k.tcbList.length < 2 ^ 58
  | .join h | .timedJoin h _ | .send h _ => h ∈ k.tcbList
  | .semClose h | .semWait h | .semSignal h | .semTimedWait h _ | .semTryWait h =>
    .opened h ∈ k.semList
  | _ => true

/-- Whether the running thread can take the step.  The idle thread's body, `Scheduler::spin`,
does nothing: it can be interrupted, and it returns to `threadWrapper`, which calls
`thread_exit`. -/
def enabled (k : Kernel) (a : Act) : Bool :=
  match k.running with
  | none => false
  | some r =>
    let x := k.tcb r
    match a with
    | .resume => x.context ≠ .body
    | .timer => x.context = .body
    | .ecall .threadExit => x.context = .body
    | .ecall c => x.context = .body && k.running ≠ k.idle && k.validCall c
    | .exception _ | .store _ => x.context = .body && k.running ≠ k.idle
    | .uPut .. | .uGet _ => x.context = .body && k.running ≠ k.idle && x.mode = .system

end Kernel

/-- One step; `none` when it cannot come next, or fails. -/
def step (k : Kernel) (a : Act) : Option Kernel :=
  if k.enabled a then (exec a k).map (·.2) else none

/-! ## 6. Boot -/

/-- The memory of the objects before any of them is constructed, and null pointers. -/
def Kernel.zero : Kernel :=
  { IDCounter := 0, semIDCounter := 0, timeSliceCounter := 0, master := none, history := [],
    strings := fun _ => [],
    buffer := fun _ =>
      { buffer := Vector.replicate bufferLength 0, pos_w := 0, pos_r := 0, semPut := none,
        semGet := none, mutex := none },
    tcb := fun _ =>
      { mode := .user, parent := none, hasBody := false, userStack := false,
        systemStack := false, context := .body, finished := false, exitStatus := 0,
        semJoin := none, semJoinAll := none, numOfActiveChildren := 0, timeSlice := 0,
        tokensNeeded := 0, blockedAtSem := none, unblockManner := .regular, semSend := none,
        semReceive := none, message := Vector.replicate (msgLen + 1) 0, a0 := .int 0,
        handle := .int 0, nextTCB := none, nextReady := none, sleeps := false,
        timeSleepRelative := 0, nextSleep := none, nextSemBlocked := none },
    sem := fun _ =>
      { creator := none, value := 0, active := false, nextSem := none, blockedHead := none,
        blockedTail := none },
    running := none, TCBsHead := none, TCBsTail := none, kSemsHead := none, kSemsTail := none,
    readyHead := none, readyTail := none, idle := none, sleepHead := none }

/-- The allocator has memory; `raw` is what it holds. -/
def CreateMem.ok (raw : Message) : CreateMem :=
  { userStack := true, systemStack := true, semJoin := true, semJoinAll := true,
    semSend := true, semReceive := true, raw := raw }

/-- `CharBuffer::CharBuffer` -/
def CharBuffer.construct (b : BufferId) (raw : Vector UInt8 bufferLength) : KernelM Unit := do
  let semPut ← kSemaphore.kSemaphoreCreate (.put b) bufferLength true
  let semGet ← kSemaphore.kSemaphoreCreate (.get b) 0 true
  let mutex ← kSemaphore.kSemaphoreCreate (.mutex b) 1 true
  modify fun k =>
    { k with buffer := Function.update k.buffer b
              { buffer := raw, pos_w := 0, pos_r := 0, semPut, semGet, mutex } }

/-- `main` up to the instruction that enables interrupts, with `USE_IO == 1`. -/
def bootstrap (raw : Tid → Message) (rawBuffer : BufferId → Vector UInt8 bufferLength) :
    KernelM Unit := do
  -- `Kernel::init`
  let master ← TCB.threadCreate false .system false DEFAULT_TIME_SLICE true (.ok (raw 0))
  modify fun k => { k with master := master }
  -- from here on, `main` is the body of the thread `master`
  modify fun k => { k with running := master }
  setThread (← getRunning) fun x => { x with context := .body }
  -- `Scheduler::init`
  let idle ← TCB.threadCreate true .system false DEFAULT_TIME_SLICE false (.ok (raw 1))
  modify fun k => { k with idle := idle }
  -- the initialisation of the console
  CharBuffer.construct .input (rawBuffer .input)
  CharBuffer.construct .output (rawBuffer .output)
  let _ ← TCB.threadCreate true .system false DEFAULT_TIME_SLICE true (.ok (raw 2))
  let _ ← TCB.threadCreate true .system false DEFAULT_TIME_SLICE true (.ok (raw 3))

def boot (raw : Tid → Message) (rawBuffer : BufferId → Vector UInt8 bufferLength) :
    Option Kernel :=
  (bootstrap raw rawBuffer Kernel.zero).map (·.2)

/-- The states of all runs. -/
def Reachable (k : Kernel) : Prop :=
  ∃ raw rawBuffer k₀ acts, boot raw rawBuffer = some k₀ ∧ Run.run step k₀ acts = some k

end Os1Kernel
