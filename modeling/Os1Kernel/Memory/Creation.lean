/-
# Creating a thread, with the memory manager

`SYSCALL_THREAD_CREATE` on the kernel and the heap together.  The kernel's data and the headers of
the heap are apart, so each of the two sees its own statements in the order of the source:
`TCB.threadCreate` those of the kernel, and here those of the heap, which are the `operator new`s
of the `TCB`, of its stacks and of its semaphores, and the `operator delete`s of a thread whose
construction failed.  A class's `operator new` that gets null yields null without a construction.
-/
import Os1Kernel.Memory.Manager
import Os1Kernel.Kernel.Trap

namespace Os1Kernel

open Simulation MemoryManager

/-- The `sizeof`s, in bytes. -/
structure Sizes where
  tcb : Nat
  /-- `StackField[DEFAULT_STACK_SIZE]` -/
  stack : Nat
  semaphore : Nat

/-- What the `new`s of the constructor yield, null where there is none. -/
structure Allocated where
  userStack : Nat
  systemStack : Nat
  semJoin : Nat
  semJoinAll : Nat
  semSend : Nat
  semReceive : Nat

/-- The answers, as the constructor sees them. -/
def Allocated.answers (m : Allocated) (raw : Message) : CreateMem where
  userStack := m.userStack ≠ 0
  systemStack := m.systemStack ≠ 0
  semJoin := m.semJoin ≠ 0
  semJoinAll := m.semJoinAll ≠ 0
  semSend := m.semSend ≠ 0
  semReceive := m.semReceive ≠ 0
  raw := raw

/-- `b ? new … : nullptr` for something of `n` bytes. -/
def newIf (b : Bool) (n : Nat) : HeapM Nat := if b then kMemAlloc_byte n else pure 0

/-- The `new`s of the constructor `TCB::TCB`, in its order. -/
def TCB.allocate (z : Sizes) (body userStackSpace : Bool) : HeapM Allocated := do
  let userStack ← newIf (body && !userStackSpace) z.stack
  let systemStack ← newIf body z.stack
  let semJoin ← kMemAlloc_byte z.semaphore
  let semJoinAll ← kMemAlloc_byte z.semaphore
  let semSend ← kMemAlloc_byte z.semaphore
  let semReceive ← kMemAlloc_byte z.semaphore
  pure { userStack, systemStack, semJoin, semJoinAll, semSend, semReceive }

/-- The `delete[]`s of a constructor that fails, and the `delete` behind the destructor. -/
def TCB.discard (tcb : Nat) (m : Allocated) : HeapM Unit := do
  let _ ← kMemFree m.userStack
  let _ ← kMemFree m.systemStack
  let _ ← kMemFree tcb

structure Machine where
  kernel : Kernel
  heap : Heap

abbrev MachineM := StateT Machine Option

/-- Statements of the kernel. -/
def onKernel {α : Type} (m : KernelM α) : MachineM α := fun s =>
  (m s.kernel).map fun x => (x.1, { s with kernel := x.2 })

/-- Statements of the memory manager. -/
def onHeap {α : Type} (m : HeapM α) : MachineM α := fun s =>
  (m s.heap).map fun x => (x.1, { s with heap := x.2 })

namespace Machine

/-- `TCB::threadCreate` -/
def threadCreate (z : Sizes) (body : Bool) (mode : Mode) (userStackSpace : Bool) (timeSlice : Nat)
    (schPut : Bool) (raw : Message) : MachineM (Option Tid) := do
  let p ← onHeap (kMemAlloc_byte z.tcb)
  -- without memory `tcb` is null, and `tcb->isFinished()` follows it
  let p ← onHeap (followMSH (toPtr p))
  let m ← onHeap (TCB.allocate z body userStackSpace)
  let tcb ← onKernel (TCB.threadCreate body mode userStackSpace timeSlice schPut (m.answers raw))
  (if tcb.isNone then onHeap (TCB.discard p m) else pure ())
  pure tcb

/-- `handleThreadCreate`; `raw` is what the memory of the `TCB` holds. -/
def handleThreadCreate (z : Sizes) (start_routine stack_space : Bool) (raw : Message) :
    MachineM (Outcome Word) := do
  let tcb ← threadCreate z start_routine .user stack_space DEFAULT_TIME_SLICE true raw
  let r ← onKernel getRunning
  onKernel (setThread r fun x => { x with handle := .tcb tcb })
  pure (.done (.int (if tcb.isSome then 0 else ERR_THREAD_CREATE)))

end Machine

end Os1Kernel
