/-
# Shutting down

The end of `main`, from `kSemaphore::kSemaphoreDeleteAll` to `TCB::threadDeleteAll`, on the kernel
and the heap together, with interrupts off.  The objects are those of the kernel's state; where
they lie is a parameter, `Addresses`, which is what their `operator new`s returned.

An `operator delete` gives the memory back and leaves its contents: the memory manager writes into
the headers only.  So a member function that is called for an object that is gone still reads the
object's last contents, and this model lets it.  The ghost `log` says which objects are gone.
-/
import Os1Kernel.Memory.Creation

namespace Os1Kernel

open Simulation MemoryManager

/-! ## 1. Addresses and the log -/

structure Addresses where
  sem : SemPtr → Nat
  tcb : Tid → Nat
  userStack : Tid → Nat
  systemStack : Tid → Nat

inductive ClosingEvent
  /-- A member function of the semaphore was called. -/
  | call (s : SemPtr)
  /-- The destructor of the `TCB` was called. -/
  | destruct (t : Tid)
  | deleteSem (s : SemPtr)
  | deleteTCB (t : Tid)
  /-- `kMemFree` was called with this address, and returned this. -/
  | freed (p result : Nat)
  deriving DecidableEq

/-- The latest event comes first. -/
structure Closing extends Machine where
  log : List ClosingEvent

abbrev ClosingM := StateT Closing Option

namespace Closing

/-- Statements of the kernel. -/
def ofKernel {α : Type} (m : KernelM α) : ClosingM α := fun c =>
  (m c.kernel).map fun x => (x.1, { c with kernel := x.2 })

/-- Statements of the memory manager. -/
def ofHeap {α : Type} (m : HeapM α) : ClosingM α := fun c =>
  (m c.heap).map fun x => (x.1, { c with heap := x.2 })

def note (e : ClosingEvent) : ClosingM Unit := fun c => some ((), { c with log := e :: c.log })

/-- `operator delete` -/
def free (p : Nat) : ClosingM Unit := do
  let result ← ofHeap (kMemFree p)
  note (.freed p result)

/-- `s->close()` -/
def close (s : SemPtr) : ClosingM Unit := do
  note (.call s)
  let _ ← ofKernel (kSemaphore.close s)

/-- `if (sem) sem->close()` -/
def closeIf (sem : Option SemPtr) : ClosingM Unit :=
  match sem with
  | some s => close s
  | none => pure ()

/-! ## 2. The four phases -/

/-- The `while` loop of `kSemaphoreDeleteAll`. -/
def deleteSems (z : Addresses) : Nat → ClosingM Unit
  | 0 => failure
  | n + 1 => do
    let k ← ofKernel getKernel
    match k.kSemsHead with
    | none => pure ()
    | some del => do
      let x ← ofKernel (getSem del)
      ofKernel <| modify fun k =>
        { k with
          kSemsHead := x.nextSem
          kSemsTail := if x.nextSem = none then none else k.kSemsTail }
      (if x.active then close del else pure ())
      note (.deleteSem del)
      free (z.sem del)
      deleteSems z n

/-- `kSemaphore::kSemaphoreDeleteAll` -/
def kSemaphoreDeleteAll (z : Addresses) : ClosingM Unit := do
  let k ← ofKernel getKernel
  deleteSems z (k.semIDCounter + 1)

/-- The `while` loop of `Sleep::wakeUpAll`. -/
def wakeAll : Nat → KernelM Unit
  | 0 => failure
  | n + 1 => do
    match ← Sleep.get none with
    | none => pure ()
    | some _ => wakeAll n

/-- `Sleep::wakeUpAll` -/
def wakeUpAll : KernelM Unit := do wakeAll (← fuel)

/-- The `while` loop of `Scheduler::close`. -/
def closeReady : Nat → KernelM Unit
  | 0 => failure
  | n + 1 => do
    let k ← getKernel
    match k.readyHead with
    | none => pure ()
    | some _ => do
      let _ ← Scheduler.get
      closeReady n

/-- `Scheduler::close` -/
def closeScheduler : KernelM Unit := do closeReady (← fuel)

/-- `TCB::~TCB` -/
def destruct (z : Addresses) (this : Tid) : ClosingM Unit := do
  note (.destruct this)
  let x ← ofKernel (getTcb this)
  (if x.userStack then free (z.userStack this) else pure ())
  (if x.systemStack then free (z.systemStack this) else pure ())
  ofKernel <| setTcb this fun x =>
    { x with nextTCB := none, nextReady := none, nextSleep := none, nextSemBlocked := none }
  closeIf x.semSend
  closeIf x.semReceive
  closeIf x.semJoin
  closeIf x.semJoinAll

/-- The `while` loop of `threadDeleteAll`. -/
def deleteTCBs (z : Addresses) : Nat → ClosingM Unit
  | 0 => failure
  | n + 1 => do
    let k ← ofKernel getKernel
    match k.TCBsHead with
    | none => pure ()
    | some del => do
      let x ← ofKernel (getTcb del)
      ofKernel <| modify fun k =>
        { k with
          TCBsHead := x.nextTCB
          TCBsTail := if x.nextTCB = none then none else k.TCBsTail }
      destruct z del
      note (.deleteTCB del)
      free (z.tcb del)
      deleteTCBs z n

/-- `TCB::threadDeleteAll` -/
def threadDeleteAll (z : Addresses) : ClosingM Unit := do deleteTCBs z (← ofKernel fuel)

/-- The system closing of `main`. -/
def shutdown (z : Addresses) : ClosingM Unit := do
  kSemaphoreDeleteAll z
  ofKernel wakeUpAll
  ofKernel closeScheduler
  threadDeleteAll z

/-! ## 3. What is expected of it -/

/-- No member function was called for an object that was gone. -/
def CallsLive : List ClosingEvent → Prop
  | [] => True
  | .call s :: log => .deleteSem s ∉ log ∧ CallsLive log
  | .destruct t :: log => .deleteTCB t ∉ log ∧ CallsLive log
  | _ :: log => CallsLive log

instance decidableCallsLive : (log : List ClosingEvent) → Decidable (CallsLive log)
  | [] => inferInstanceAs (Decidable True)
  | .call s :: log =>
    have := decidableCallsLive log
    inferInstanceAs (Decidable (.deleteSem s ∉ log ∧ CallsLive log))
  | .destruct t :: log =>
    have := decidableCallsLive log
    inferInstanceAs (Decidable (.deleteTCB t ∉ log ∧ CallsLive log))
  | .deleteSem _ :: log | .deleteTCB _ :: log | .freed _ _ :: log => decidableCallsLive log

/-- The calls of `kMemFree`, with their results. -/
def frees (log : List ClosingEvent) : List (Nat × Nat) :=
  log.filterMap fun
    | .freed p result => some (p, result)
    | _ => none

/-- The shutdown ends, uses no object that is gone, gives every segment back once, and leaves none
behind. -/
structure Clean (z : Addresses) (k : Kernel) (heap : Heap) (c : Closing) : Prop where
  ends : shutdown z ⟨⟨k, heap⟩, []⟩ = some ((), c)
  live : CallsLive c.log
  once : ((frees c.log).map Prod.fst).Nodup
  returns : ∀ f ∈ frees c.log, f.2 = 0
  empty : c.heap.head .systemMemoryHead = none

end Closing

/-! ## 4. The objects that the boot creates -/

/-- The `new`s of one `TCB::threadCreate`. -/
def Addresses.thread (size : Sizes) (body : Bool) (t : Tid) (z : Addresses) :
    HeapM Addresses := do
  let p ← kMemAlloc_byte size.tcb
  let m ← TCB.allocate size body false
  pure
    { tcb := Function.update z.tcb t p
      userStack := Function.update z.userStack t m.userStack
      systemStack := Function.update z.systemStack t m.systemStack
      sem := Function.update (Function.update (Function.update (Function.update z.sem
        (.join t) m.semJoin) (.joinAll t) m.semJoinAll) (.send t) m.semSend)
        (.receive t) m.semReceive }

/-- The `new` of a `CharBuffer` of `n` bytes, and those of its constructor. -/
def Addresses.buffer (size : Sizes) (n : Nat) (b : BufferId) (z : Addresses) :
    HeapM Addresses := do
  let _ ← kMemAlloc_byte n
  let semPut ← kMemAlloc_byte size.semaphore
  let semGet ← kMemAlloc_byte size.semaphore
  let mutex ← kMemAlloc_byte size.semaphore
  pure { z with
    sem := Function.update (Function.update (Function.update z.sem (.put b) semPut)
      (.get b) semGet) (.mutex b) mutex }

/-- What `bootstrap` allocates, on the heap from `start` to `stop`. -/
def bootAllocate (size : Sizes) (charBuffer start stop : Nat) : HeapM Addresses := do
  MemoryManager.init start stop
  let z ← Addresses.thread size false 0 ⟨fun _ => 0, fun _ => 0, fun _ => 0, fun _ => 0⟩
  let z ← Addresses.thread size true 1 z
  let z ← Addresses.buffer size charBuffer .input z
  let z ← Addresses.buffer size charBuffer .output z
  let z ← Addresses.thread size true 2 z
  Addresses.thread size true 3 z

end Os1Kernel
