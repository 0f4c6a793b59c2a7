/-
# The kernel's data

The objects of `tcb.hpp`, `kSemaphore.hpp`, `io.hpp` and the static members of `Scheduler`,
`Sleep`, `TCB` and `kSemaphore`, as one state record.

* A `TCB*` is the `threadID` of the block it points to (`IDCounter` never repeats one); null is
  `none`.
* A `kSemaphore*` is named by the statement that created the object: distinct objects have
  distinct addresses, and no code looks at an address otherwise.
* The threads' own memory is seen only where the kernel reads it, in `TCB::setMsg`: as the string at
  each address (`Core.strings`).  The threads write it as they like.
* `uint64` and `time_t` are natural numbers; where the code can wrap, the operation says so
  (`u64`, `sub64`, `dec64`).
* `TCB::context` and the kernel stack of a suspended thread are the point at which its kernel
  code goes on when `TCB::contextSwitch` comes back to it: the constructors of `Context`, each
  with the variables that are live there.

`Core.history` is a ghost: a record of what has happened, written beside the source's statements
and read by none of them.
-/
import Mathlib.Algebra.Group.Nat.Defs
import Mathlib.Data.Vector.Defs
import Mathlib.Logic.Function.Basic
import Os1Kernel.Lib.Simulation

namespace Os1Kernel

/-! ## 1. Pointers, constants and machine arithmetic -/

/-- A `TCB*` that is not null. -/
abbrev Tid := Nat

/-- The two `CharBuffer`s of `IO`. -/
inductive BufferId
  | input
  | output
  deriving DecidableEq, Repr

/-- A `kSemaphore*` that is not null. -/
inductive SemPtr
  | opened (semID : Nat)
  | join (t : Tid)
  | joinAll (t : Tid)
  | send (t : Tid)
  | receive (t : Tid)
  | put (b : BufferId)
  | get (b : BufferId)
  | mutex (b : BufferId)
  deriving DecidableEq, Repr

def DEFAULT_TIME_SLICE : Nat := 2

def maxTimeSlice : Nat := 32 * DEFAULT_TIME_SLICE

def ERR_THREAD_CREATE : Int := -1
def ERR_THREAD_EXIT : Int := -1
def ERR_THREAD_SELFJOIN : Int := -3
def ERR_SEM_DEAD : Int := -1
def ERR_SEM_CREATE : Int := -3
def ERR_SEM_WAITCLOSE : Int := -4
def ERR_SLEEP_ZERO : Int := -1
def TIMEOUT : Int := -2

/-- The value a `uint64` holds after a computation. -/
def u64 (n : Nat) : Nat := n % 2 ^ 64

/-- `m - n` on two `uint64`s. -/
def sub64 (m n : Nat) : Nat := (m + (2 ^ 64 - n)) % 2 ^ 64

/-- `n--` on a `uint64`. -/
def dec64 (n : Nat) : Nat := sub64 n 1

theorem u64_of_lt {n : Nat} (h : n < 2 ^ 64) : u64 n = n := Nat.mod_eq_of_lt h

theorem u64_lt (n : Nat) : u64 n < 2 ^ 64 := Nat.mod_lt _ (by decide)

theorem sub64_of_le {m n : Nat} (h : n ≤ m) (hm : m < 2 ^ 64) : sub64 m n = m - n := by
  unfold sub64
  omega

theorem dec64_of_pos {n : Nat} (h : 0 < n) (hn : n < 2 ^ 64) : dec64 n = n - 1 :=
  sub64_of_le h hn

/-- What a system call leaves in a register or in the cell its first argument points to. -/
inductive Word
  | int (v : Int)
  | tcb (p : Option Tid)
  | sem (p : Option SemPtr)
  /-- The address of `message` in a `TCB`. -/
  | message (t : Tid)
  deriving DecidableEq, Repr

/-! ## 2. `TCB` -/

inductive Mode
  | user
  | system
  deriving DecidableEq, Repr

inductive UnblockManner
  | regular
  | onClose
  | waitTimeout
  deriving DecidableEq, Repr

/-- The characters of a C string, the terminating zero left out. -/
abbrev CString := List UInt8

/-- A `const char*`, as a caller of `send` passes it. -/
inductive CharPtr
  /-- An address in the threads' own memory. -/
  | memory (p : Nat)
  /-- `&message[i]` of a `TCB`: from what its `receive` returned. -/
  | message (t : Tid) (i : Nat)
  deriving DecidableEq, Repr

/-- `static const size_t msgLen = 256` -/
def msgLen : Nat := 256

/-- `char message[msgLen+1]` -/
abbrev Message := Vector UInt8 (msgLen + 1)

/-- The string that starts at `message[i]`. -/
def Message.textFrom (m : Message) (i : Nat) : CString := (m.toList.drop i).takeWhile (· ≠ 0)

/-- The characters of `message`, read as a C string. -/
def Message.text (m : Message) : CString := m.toList.takeWhile (· ≠ 0)

/-- Where a suspended thread's code goes on. -/
inductive Context
  /-- Never run: `context.ra` is `threadWrapper`. -/
  | threadWrapper
  /-- Not in the kernel: the thread's own code, between two traps. -/
  | body
  /-- In `handleSupervisorTrap`, behind the `TCB::yield` of a timer interrupt. -/
  | timer
  | dispatch
  /-- In `Sleep::sleep`, called from `handleTimeSleep`. -/
  | sleep
  /-- In `wait` or `timedWait`, called from `handleSemWait` or `handleSemTimedWait`. -/
  | semWait (s : SemPtr)
  /-- In `wait` or `timedWait`, called from `handleJoin` or `handleTimedJoin`. -/
  | join (tcb : Tid)
  | joinAll
  | timedJoinAll
  /-- In `tcb->semSend->wait()` of `handleSend`: the string is still the sender's. -/
  | send (tcb : Tid) (msg : CharPtr)
  | receive
  /-- In `semPut->wait()` of `CharBuffer::kPut` or `uPut`. -/
  | put (b : BufferId) (c : UInt8)
  /-- In `mutex->wait()` of `CharBuffer::kPut` or `uPut`. -/
  | putMutex (b : BufferId) (c : UInt8)
  | get (b : BufferId)
  | getMutex (b : BufferId)
  /-- In `TCB::finish`, behind its `TCB::yield`. -/
  | finish
  deriving DecidableEq, Repr

/-- The fields of a `TCB` that are not links of a list or part of `Sleep`'s bookkeeping. -/
structure Thread where
  mode : Mode
  parent : Option Tid
  /-- `body != nullptr` -/
  hasBody : Bool
  /-- `userStack != nullptr` -/
  userStack : Bool
  /-- `systemStack != nullptr` -/
  systemStack : Bool
  context : Context
  finished : Bool
  exitStatus : Nat
  semJoin : Option SemPtr
  semJoinAll : Option SemPtr
  numOfActiveChildren : Nat
  timeSlice : Nat
  tokensNeeded : Nat
  blockedAtSem : Option SemPtr
  unblockManner : UnblockManner
  semSend : Option SemPtr
  semReceive : Option SemPtr
  message : Message
  /-- Register `a0` of the thread when its last trap returned. -/
  a0 : Word
  /-- The cell of the thread's own memory that `a1` pointed to in its last `thread_create` or
  `sem_open`. -/
  handle : Word

structure TCB extends Thread where
  nextTCB : Option Tid
  nextReady : Option Tid
  sleeps : Bool
  timeSleepRelative : Nat
  nextSleep : Option Tid
  nextSemBlocked : Option Tid

/-! ## 3. `kSemaphore` and `CharBuffer` -/

structure Sem where
  creator : Option Tid
  value : Nat
  active : Bool

structure KSemaphore extends Sem where
  nextSem : Option SemPtr
  blockedHead : Option Tid
  blockedTail : Option Tid

/-- `static const size_t length = 256` -/
def bufferLength : Nat := 256

structure CharBuffer where
  buffer : Vector UInt8 bufferLength
  pos_w : Nat
  pos_r : Nat
  semPut : Option SemPtr
  semGet : Option SemPtr
  mutex : Option SemPtr

/-! ## 4. The state -/

/-- Ghost events. -/
inductive Event
  /-- `Sleep::onTick` ran. -/
  | tick
  | created (t : Tid) (parent : Option Tid) (body : Bool)
  /-- `TCB::finish` ran for the thread. -/
  | finish (t : Tid)
  /-- `TCB::running` was set. -/
  | chosen (t : Tid)
  | opened (s : SemPtr) (val : Nat)
  /-- `close` of an active semaphore. -/
  | closed (s : SemPtr)
  /-- `signal` of an active semaphore. -/
  | signalled (s : SemPtr) (tokens : Nat)
  /-- A wait that found enough tokens. -/
  | acquired (s : SemPtr) (t : Tid) (tokens : Nat)
  /-- A wait that did not, with its timeout if it has one. -/
  | blocked (s : SemPtr) (t : Tid) (timeout : Option Nat)
  /-- A waiter released by `signal`, or by `signalAll` when its owner finishes. -/
  | granted (s : SemPtr) (t : Tid)
  /-- A waiter released by `close`. -/
  | dismissed (s : SemPtr) (t : Tid)
  /-- A waiter released by its timeout. -/
  | expired (s : SemPtr) (t : Tid)
  /-- A blocked wait returned this result. -/
  | returned (t : Tid) (result : Int)
  /-- `Sleep::put` -/
  | slept (t : Tid) (timeout : Nat)
  /-- A thread that only slept was woken by its last tick. -/
  | woken (t : Tid)
  /-- `setMsg` on the TCB, by the sender, with the string as it was read. -/
  | wrote (tcb : Tid) (sender : Tid) (msg : CString)
  /-- `handleReceive` returned, with these characters in `message`. -/
  | received (tcb : Tid) (msg : CString)
  /-- `kPut` or `uPut` was called. -/
  | putting (b : BufferId) (t : Tid) (c : UInt8)
  /-- `CharBuffer::put` -/
  | stored (b : BufferId) (t : Tid) (c : UInt8)
  /-- `CharBuffer::get`, with the character that it returns. -/
  | loaded (b : BufferId) (t : Tid) (c : UInt8)
  deriving DecidableEq, Repr

/-- The part of the state that is no list and no object. -/
structure Core where
  /-- `TCB::IDCounter` -/
  IDCounter : Nat
  /-- `kSemaphore::IDCounter` -/
  semIDCounter : Nat
  timeSliceCounter : Nat
  master : Option Tid
  buffer : BufferId → CharBuffer
  /-- The string at each address of the threads' own memory. -/
  strings : Nat → CString
  history : List Event

/-- The string that a pointer points to, where these are the `message`s. -/
def Core.string (c : Core) (message : Tid → Message) : CharPtr → CString
  | .memory p => c.strings p
  | .message t i => (message t).textFrom i

structure Kernel extends Core where
  tcb : Tid → TCB
  sem : SemPtr → KSemaphore
  running : Option Tid
  TCBsHead : Option Tid
  TCBsTail : Option Tid
  kSemsHead : Option SemPtr
  kSemsTail : Option SemPtr
  readyHead : Option Tid
  readyTail : Option Tid
  idle : Option Tid
  sleepHead : Option Tid

/-- Kernel code: it changes the state, and fails (`none`) where it would follow a null pointer,
leave an array, or stay in a loop longer than the list it walks allows. -/
abbrev KernelM := StateT Kernel Option

/-! ## 5. Access to the objects -/

def Kernel.string (k : Kernel) : CharPtr → CString := k.toCore.string fun t => (k.tcb t).message

def Kernel.setTcb (k : Kernel) (t : Tid) (f : TCB → TCB) : Kernel :=
  { k with tcb := Function.update k.tcb t (f (k.tcb t)) }

def Kernel.setSem (k : Kernel) (s : SemPtr) (f : KSemaphore → KSemaphore) : Kernel :=
  { k with sem := Function.update k.sem s (f (k.sem s)) }

def getKernel : KernelM Kernel := get

def getTcb (t : Tid) : KernelM TCB := fun k => some (k.tcb t, k)

def setTcb (t : Tid) (f : TCB → TCB) : KernelM Unit := fun k => some ((), k.setTcb t f)

/-- An update that leaves the links alone. -/
def setThread (t : Tid) (f : Thread → Thread) : KernelM Unit :=
  setTcb t fun x => { x with toThread := f x.toThread }

def getSem (s : SemPtr) : KernelM KSemaphore := fun k => some (k.sem s, k)

def setSem (s : SemPtr) (f : KSemaphore → KSemaphore) : KernelM Unit :=
  fun k => some ((), k.setSem s f)

/-- Follow a pointer. -/
def follow {α : Type} (p : Option α) : KernelM α :=
  match p with
  | some x => pure x
  | none => failure

def emit (e : Event) : KernelM Unit := modify fun k => { k with history := e :: k.history }

/-- `TCB::running`, followed. -/
def getRunning : KernelM Tid := do follow (← getKernel).running

/-- The number of iterations after which a walk along a list of threads must have ended. -/
def fuel : KernelM Nat := do return (← getKernel).IDCounter + 1

section Apply

variable {α : Type} (k : Kernel) (t : Tid) (s : SemPtr)

@[simp] theorem getKernel_apply : getKernel k = some (k, k) := rfl

@[simp] theorem getTcb_apply : getTcb t k = some (k.tcb t, k) := rfl

@[simp] theorem setTcb_apply (f : TCB → TCB) : setTcb t f k = some ((), k.setTcb t f) := rfl

@[simp] theorem setThread_apply (f : Thread → Thread) :
    setThread t f k = some ((), k.setTcb t fun x => { x with toThread := f x.toThread }) := rfl

@[simp] theorem getSem_apply : getSem s k = some (k.sem s, k) := rfl

@[simp] theorem setSem_apply (f : KSemaphore → KSemaphore) :
    setSem s f k = some ((), k.setSem s f) := rfl

@[simp] theorem follow_some (x : α) : follow (some x) = pure x := rfl

@[simp] theorem emit_apply (e : Event) :
    emit e k = some ((), { k with history := e :: k.history }) := rfl

@[simp] theorem fuel_apply : fuel k = some (k.IDCounter + 1, k) := rfl

end Apply

end Os1Kernel
