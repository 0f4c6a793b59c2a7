/-
# The kernel on its heap

The kernel and the memory manager as one machine, from the first instruction of `main` on: the
kernel's objects are those of the kernel's state, and `pointer` says where each of them is, which
is what its class's `operator new` returned.  Every answer of the allocator that the kernel's steps
take as an argument is computed here, from the heap.

The clients allocate and free memory too.  Memory is written, but no header of a segment; what the
kernel's objects hold is in the kernel's state.  As in `Os1Kernel.Memory.Creation`, the kernel and
the heap each see their own statements in the order of the source.
-/
import Os1Kernel.Memory.Creation
import Os1Kernel.Memory.Runs

namespace Os1Kernel

open Simulation MemoryManager

/-! ## 1. Objects and where they are -/

/-- What the kernel allocates. -/
inductive Object
  | tcb (t : Tid)
  | userStack (t : Tid)
  | systemStack (t : Tid)
  | sem (s : SemPtr)
  | charBuffer (b : BufferId)
  deriving DecidableEq

/-- The `sizeof`s of all of it. -/
structure ObjectSizes extends Sizes where
  charBuffer : Nat

/-- How many bytes an object has. -/
def ObjectSizes.bytes (z : ObjectSizes) : Object → Nat
  | .tcb _ => z.tcb
  | .userStack _ | .systemStack _ => z.stack
  | .sem _ => z.semaphore
  | .charBuffer _ => z.charBuffer

structure Placed extends Machine where
  /-- Null for an object that is not there. -/
  pointer : Object → Nat

abbrev PlacedM := StateT Placed Option

namespace Placed

/-- Statements of the kernel. -/
def ofKernel {α : Type} (m : KernelM α) : PlacedM α := fun s =>
  (m s.kernel).map fun x => (x.1, { s with kernel := x.2 })

/-- Statements of the memory manager. -/
def ofHeap {α : Type} (m : HeapM α) : PlacedM α := fun s =>
  (m s.heap).map fun x => (x.1, { s with heap := x.2 })

/-- Pointers are stored. -/
def store (f : (Object → Nat) → Object → Nat) : PlacedM Unit := fun s =>
  some ((), { s with pointer := f s.pointer })

/-- The pointers to the semaphores of a thread. -/
def placeSems (t : Tid) (m : Allocated) (f : Object → Nat) : Object → Nat :=
  Function.update (Function.update (Function.update (Function.update f
    (.sem (.join t)) m.semJoin) (.sem (.joinAll t)) m.semJoinAll) (.sem (.send t)) m.semSend)
    (.sem (.receive t)) m.semReceive

/-- The pointers to a thread, its stacks and its semaphores. -/
def placeThread (t : Tid) (p : Nat) (m : Allocated) (f : Object → Nat) : Object → Nat :=
  placeSems t m (Function.update (Function.update (Function.update f
    (.tcb t) p) (.userStack t) m.userStack) (.systemStack t) m.systemStack)

/-! ## 2. What the kernel allocates -/

/-- `TCB::threadCreate` -/
def threadCreate (z : ObjectSizes) (body : Bool) (mode : Mode) (userStackSpace : Bool)
    (timeSlice : Nat) (schPut : Bool) (raw : Message) : PlacedM (Option Tid) := do
  let p ← ofHeap (kMemAlloc_byte z.tcb)
  -- without memory `tcb` is null, and `tcb->isFinished()` follows it
  let p ← ofHeap (followMSH (toPtr p))
  let m ← ofHeap (TCB.allocate z.toSizes body userStackSpace)
  let k ← ofKernel getKernel
  let tcb ← ofKernel (TCB.threadCreate body mode userStackSpace timeSlice schPut (m.answers raw))
  match tcb with
  | some tcb => do
    store (placeThread tcb p m)
    pure (some tcb)
  | none => do
    -- the semaphores of the thread that is not there stay on the list of all semaphores
    store (placeSems k.IDCounter m)
    ofHeap (TCB.discard p m)
    pure none

/-- `handleThreadCreate` -/
def handleThreadCreate (z : ObjectSizes) (start_routine stack_space : Bool) (raw : Message) :
    PlacedM (Outcome Word) := do
  let tcb ← threadCreate z start_routine .user stack_space DEFAULT_TIME_SLICE true raw
  let r ← ofKernel getRunning
  ofKernel (setThread r fun x => { x with handle := .tcb tcb })
  pure (.done (.int (if tcb.isSome then 0 else ERR_THREAD_CREATE)))

/-- `kSemaphoreCreate` -/
def kSemaphoreCreate (z : ObjectSizes) (s : SemPtr) (val : Nat) : PlacedM (Option SemPtr) := do
  let p ← ofHeap (kMemAlloc_byte z.semaphore)
  store fun f => Function.update f (.sem s) p
  ofKernel (kSemaphore.kSemaphoreCreate s val (p ≠ 0))

/-- `handleSemOpen` -/
def handleSemOpen (z : ObjectSizes) (init : Nat) : PlacedM (Outcome Word) := do
  let k ← ofKernel getKernel
  let sem ← kSemaphoreCreate z (.opened k.semIDCounter) init
  let r ← ofKernel getRunning
  ofKernel (setThread r fun x => { x with handle := .sem sem })
  pure (.done (.int (if sem.isSome then 0 else ERR_SEM_CREATE)))

/-! ## 3. One step -/

end Placed

inductive PlacedAct
  /-- `thread_create`, which passes no stack space; `raw` is what the memory of the `TCB` holds. -/
  | threadCreate (start_routine : Bool) (raw : Message)
  | semOpen (init : UInt64)
  | memAlloc (size : UInt64)
  | memFree (p : UInt64)
  /-- Memory is written. -/
  | write (p : Nat) (x : MSH)
  /-- A step of the kernel that allocates nothing. -/
  | kernel (act : Act)

/-- The steps that the kernel makes, with some answers of the allocator. -/
inductive PlacedAct.Makes : PlacedAct → List Act → Prop
  | threadCreate (start_routine : Bool) (raw : Message) (mem : CreateMem) :
    Makes (.threadCreate start_routine raw) [.ecall (.threadCreate start_routine false mem)]
  | semOpen (init : UInt64) (mem : Bool) : Makes (.semOpen init) [.ecall (.semOpen init mem)]
  | memAlloc (size : UInt64) : Makes (.memAlloc size) []
  | memFree (p : UInt64) : Makes (.memFree p) []
  | write (p : Nat) (x : MSH) : Makes (.write p x) []
  | kernel (act : Act) : Makes (.kernel act) [act]

/-- The steps of the kernel that allocate. -/
def Act.allocates : Act → Bool
  | .ecall (.threadCreate ..) | .ecall (.semOpen ..) => true
  | _ => false

namespace Placed

/-- The running thread may make a system call. -/
def calls (s : Placed) : Bool := s.kernel.enabled (.ecall .threadDispatch)

/-- Whether the step can come next.  `MEM_BLOCK_SIZE` is the address whose header would be at the
null pointer. -/
def enabled (s : Placed) : PlacedAct → Prop
  | .threadCreate .. | .semOpen _ | .memAlloc _ => s.calls = true
  | .memFree p => s.calls = true ∧ p.toNat ≠ MEM_BLOCK_SIZE
  | .write p _ => p ∉ s.heap.headers .freeMemoryHead ∧ p ∉ s.heap.headers .systemMemoryHead ∧
    p ∉ s.heap.headers .userMemoryHead
  | .kernel act => act.allocates = false ∧ s.kernel.enabled act = true

instance (s : Placed) : (act : PlacedAct) → Decidable (s.enabled act)
  | .threadCreate .. | .semOpen _ | .memAlloc _ => inferInstanceAs (Decidable (s.calls = true))
  | .memFree p => inferInstanceAs (Decidable (s.calls = true ∧ p.toNat ≠ MEM_BLOCK_SIZE))
  | .write p _ => inferInstanceAs (Decidable (p ∉ s.heap.headers .freeMemoryHead ∧
      p ∉ s.heap.headers .systemMemoryHead ∧ p ∉ s.heap.headers .userMemoryHead))
  | .kernel act => inferInstanceAs (Decidable (act.allocates = false ∧ s.kernel.enabled act = true))

def exec (z : ObjectSizes) : PlacedAct → PlacedM Unit
  | .threadCreate start_routine raw => do
    let ret ← handleThreadCreate z start_routine false raw
    ofKernel (leaveWith false ret)
  | .semOpen init => do
    let ret ← handleSemOpen z init.toNat
    ofKernel (leaveWith false ret)
  -- the pointer and the result go back in a register
  | .memAlloc size => do
    let _ ← ofHeap (mem_alloc size.toNat)
  | .memFree p => do
    let _ ← ofHeap (handleMemFree p.toNat)
  | .write p x => ofHeap (setMSH p fun _ => x)
  | .kernel act => ofKernel (Os1Kernel.exec act)

/-- One step; `none` when it cannot come next, or fails. -/
def step (z : ObjectSizes) (s : Placed) (act : PlacedAct) : Option Placed :=
  if s.enabled act then (exec z act s).map (·.2) else none

/-! ## 4. Boot -/

/-- `CharBuffer::CharBuffer`, in memory that its `operator new` returned. -/
def construct (z : ObjectSizes) (b : BufferId) (raw : Vector UInt8 bufferLength) :
    PlacedM Unit := do
  let p ← ofHeap (kMemAlloc_byte z.charBuffer)
  let p ← ofHeap (followMSH (toPtr p))
  store fun f => Function.update f (.charBuffer b) p
  let semPut ← kSemaphoreCreate z (.put b) bufferLength
  let semGet ← kSemaphoreCreate z (.get b) 0
  let mutex ← kSemaphoreCreate z (.mutex b) 1
  ofKernel <| modify fun k =>
    { k with buffer := Function.update k.buffer b
              { buffer := raw, pos_w := 0, pos_r := 0, semPut, semGet, mutex } }

/-- `main` up to the instruction that enables interrupts. -/
def bootstrap (r : HeapRange) (z : ObjectSizes) (raw : Tid → Message)
    (rawBuffer : BufferId → Vector UInt8 bufferLength) : PlacedM Unit := do
  ofHeap (MemoryManager.init r.start r.stop)
  -- `Kernel::init`
  let master ← threadCreate z false .system false DEFAULT_TIME_SLICE true (raw 0)
  ofKernel (modify fun k => { k with master := master })
  ofKernel (modify fun k => { k with running := master })
  let running ← ofKernel getRunning
  ofKernel (setThread running fun x => { x with context := .body })
  -- `Scheduler::init`
  let idle ← threadCreate z true .system false DEFAULT_TIME_SLICE false (raw 1)
  ofKernel (modify fun k => { k with idle := idle })
  -- `IO::init`
  construct z .input (rawBuffer .input)
  construct z .output (rawBuffer .output)
  let _ ← threadCreate z true .system false DEFAULT_TIME_SLICE true (raw 2)
  let _ ← threadCreate z true .system false DEFAULT_TIME_SLICE true (raw 3)

/-- `mem` is what the memory holds before. -/
def boot (r : HeapRange) (z : ObjectSizes) (mem : Nat → MSH) (raw : Tid → Message)
    (rawBuffer : BufferId → Vector UInt8 bufferLength) : Option Placed :=
  (bootstrap r z raw rawBuffer
    { kernel := Kernel.zero, heap := ⟨mem, fun _ => none⟩, pointer := fun _ => 0 }).map (·.2)

/-- How many blocks of the heap a `new` of `n` bytes takes, with the header's. -/
def cost (n : Nat) : Nat := ROUNDUP n MEM_BLOCK_SIZE + 1

/-- How many blocks `main` needs before it enables interrupts: four threads, three of them with
stacks, two buffers, and the semaphores of all of them. -/
def bootCost (z : ObjectSizes) : Nat :=
  4 * cost z.tcb + 6 * cost z.stack + 22 * cost z.semaphore + 2 * cost z.charBuffer

end Placed

end Os1Kernel
