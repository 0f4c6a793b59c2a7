/-
# The memory manager

`MSH` and `MemoryManager` (`memoryManager.hpp`, `memoryManager.cpp`), statement by statement.

* An `MSH*` that is not null is the address it holds; null is `none`.  What a client gets and
  gives back, a `void*`, is the `uint64` itself.
* The three static head pointers are one table, since the functions get them by reference.
* The memory is a table of headers: the heap is cut at multiples of the block size, 64 bytes, a
  header has 24 bytes, and no code looks at memory otherwise.
* A loop along a list gets as much fuel as the address space has blocks, and one more.
-/
import Os1Kernel.Kernel.State

namespace Os1Kernel

/-! ## 1. The data -/

def MEM_BLOCK_SIZE : Nat := 64

/-- `ERR_MEM_FREE`, which is -1, as a `uint64`. -/
def ERR_MEM_FREE : Nat := 2 ^ 64 - 1

/-- A number of blocks that no heap exceeds. -/
def maxBlocks : Nat := 2 ^ 58

/-- Memory segment header. -/
structure MSH where
  prev : Option Nat
  next : Option Nat
  size : Nat

/-- The static members of `MemoryManager`. -/
inductive HeadPtr
  | freeMemoryHead
  | systemMemoryHead
  | userMemoryHead
  deriving DecidableEq, Repr

structure Heap where
  mem : Nat → MSH
  head : HeadPtr → Option Nat

/-- Code of the memory manager; it fails where it would follow a null pointer, or stay in a loop
longer than any list allows. -/
abbrev HeapM := StateT Heap Option

/-- The pointer that a `uint64` is cast to. -/
def toPtr (n : Nat) : Option Nat := if n = 0 then none else some n

def Heap.setMSH (h : Heap) (p : Nat) (f : MSH → MSH) : Heap :=
  { h with mem := Function.update h.mem p (f (h.mem p)) }

def getMSH (p : Nat) : HeapM MSH := fun h => some (h.mem p, h)

def setMSH (p : Nat) (f : MSH → MSH) : HeapM Unit := fun h => some ((), h.setMSH p f)

/-- `if (p) f` for an update of the header that `p` points to. -/
def setMSHIf (p : Option Nat) (f : MSH → MSH) : HeapM Unit :=
  match p with
  | some p => setMSH p f
  | none => pure ()

def getHead (i : HeadPtr) : HeapM (Option Nat) := fun h => some (h.head i, h)

def setHead (i : HeadPtr) (p : Option Nat) : HeapM Unit :=
  fun h => some ((), { h with head := Function.update h.head i p })

/-- Follow an `MSH*`. -/
def followMSH (p : Option Nat) : HeapM Nat :=
  match p with
  | some p => pure p
  | none => failure

/-! ## 2. `MSH` -/

namespace MSH

/-- The `while` loop of `merge`. -/
def mergeLoop (this : Nat) : Nat → Nat → HeapM Nat
  | 0, _ => failure
  | n + 1, mergeCounter => do
    let x ← getMSH this
    match x.next with
    | none => pure mergeCounter
    | some next =>
      if u64 (this + u64 (x.size * MEM_BLOCK_SIZE)) = next then do
        let y ← getMSH next
        setMSH this fun x => { x with size := u64 (x.size + y.size) }
        let y ← getMSH next
        setMSH this fun x => { x with next := y.next }
        let x ← getMSH this
        setMSHIf x.next fun y => { y with prev := some this }
        mergeLoop this n (mergeCounter + 1)
      else pure mergeCounter

/-- `MSH::merge` -/
def merge (this : Nat) : HeapM Nat := mergeLoop this (maxBlocks + 1) 0

/-- `MSH::reduce` -/
def reduce (this : Nat) (by' : Nat) (pHead : HeadPtr) : HeapM Bool := do
  let x ← getMSH this
  if x.size < 1 ∨ x.size ≤ by' then pure false
  else do
    let newHeader ← followMSH (toPtr (u64 (this + u64 (by' * MEM_BLOCK_SIZE))))
    setMSH newHeader fun y => { y with size := x.size - by' }
    setMSH this fun x => { x with size := by' }
    let x ← getMSH this
    setMSH newHeader fun y => { y with prev := x.prev }
    let x ← getMSH this
    setMSH newHeader fun y => { y with next := x.next }
    (if (← getHead pHead) = some this then setHead pHead (some newHeader)
      else do
        let y ← getMSH newHeader
        setMSH (← followMSH y.prev) fun z => { z with next := some newHeader })
    let y ← getMSH newHeader
    setMSHIf y.next fun z => { z with prev := some newHeader }
    setMSH this fun x => { x with prev := none, next := none }
    pure true

/-- `MSH::insertAfter` of a pointer that is not null. -/
def insertAfter (this other : Nat) : HeapM Unit := do
  setMSH other fun y => { y with prev := some this }
  let x ← getMSH this
  setMSH other fun y => { y with next := x.next }
  setMSH this fun x => { x with next := some other }
  let y ← getMSH other
  setMSHIf y.next fun z => { z with prev := some other }

/-- `MSH::insertAsHead` of a pointer that is not null. -/
def insertAsHead (pHead : HeadPtr) (other : Nat) : HeapM Unit := do
  setMSH other fun y => { y with prev := none }
  let head ← getHead pHead
  setMSH other fun y => { y with next := head }
  setHead pHead (some other)
  let y ← getMSH other
  setMSHIf y.next fun z => { z with prev := some other }

/-- `MSH::remove` -/
def remove (this : Nat) (pHead : HeadPtr) : HeapM Unit := do
  let x ← getMSH this
  (if (← getHead pHead) = some this then do
    setHead pHead x.next
    setMSHIf x.next fun z => { z with prev := none }
  else do
    setMSH (← followMSH x.prev) fun z => { z with next := x.next }
    let x ← getMSH this
    setMSHIf x.next fun z => { z with prev := x.prev })
  setMSH this fun x => { x with prev := none, next := none }

/-- The `while` loop of `findByPointer`; `other` is the address that a pointer holds. -/
def findByPointerLoop (other : Nat) : Nat → Nat → HeapM Nat
  | 0, _ => failure
  | n + 1, iterator => do
    let x ← getMSH iterator
    match x.next with
    | some next => if next ≤ other then findByPointerLoop other n next else pure iterator
    | none => pure iterator

/-- `MSH::findByPointer` -/
def findByPointer (head : Option Nat) (other : Nat) : HeapM (Option Nat) :=
  match head with
  | some head =>
    if head ≤ other then return some (← findByPointerLoop other (maxBlocks + 1) head)
    else pure none
  | none => pure none

/-- The `while` loop of `findBySize`. -/
def findBySizeLoop (nBlocksAct : Nat) : Nat → Option Nat → HeapM (Option Nat)
  | 0, _ => failure
  | _ + 1, none => pure none
  | n + 1, some iterator => do
    let x ← getMSH iterator
    if x.size < nBlocksAct then findBySizeLoop nBlocksAct n x.next else pure (some iterator)

/-- `MSH::findBySize` -/
def findBySize (head : Option Nat) (nBlocksAct : Nat) : HeapM (Option Nat) :=
  findBySizeLoop nBlocksAct (maxBlocks + 1) head

end MSH

/-! ## 3. `MemoryManager` -/

namespace MemoryManager

/-- `ALIGN` on `size_t` -/
def ALIGN (addr measure : Nat) : Nat := u64 (u64 (addr + measure - 1) / measure * measure)

/-- `init`; `start` and `stop` are `HEAP_START_ADDR` and `HEAP_END_ADDR`. -/
def init (start stop : Nat) : HeapM Unit := do
  let p := ALIGN start MEM_BLOCK_SIZE
  setHead .freeMemoryHead (toPtr p)
  let head ← followMSH (← getHead .freeMemoryHead)
  setMSH head fun x => { x with prev := none }
  setMSH head fun x => { x with next := none }
  setMSH head fun x => { x with size := sub64 stop p / MEM_BLOCK_SIZE }

/-- The insertion at the end of `memAlloc_` and in the middle of `memFree_`. -/
def insertSorted (memSeg : Nat) (head : HeadPtr) : HeapM Unit := do
  match ← MSH.findByPointer (← getHead head) memSeg with
  | some w => MSH.insertAfter w memSeg
  | none => MSH.insertAsHead head memSeg

/-- `memAlloc_` -/
def memAlloc_ (nBlocks : Nat) (head : HeadPtr) : HeapM Nat := do
  let nBlocksAct := u64 (nBlocks + 1)
  match ← MSH.findBySize (← getHead .freeMemoryHead) nBlocksAct with
  | none => pure 0
  | some memSeg => do
    let x ← getMSH memSeg
    (if x.size = nBlocksAct then MSH.remove memSeg .freeMemoryHead
      else do
        let _ ← MSH.reduce memSeg nBlocksAct .freeMemoryHead)
    insertSorted memSeg head
    pure (u64 (memSeg + MEM_BLOCK_SIZE))

/-- `memFree_` -/
def memFree_ (memAddr : Nat) (head : HeadPtr) : HeapM Nat := do
  if memAddr = 0 then pure 0
  else do
    let memSeg := sub64 memAddr MEM_BLOCK_SIZE
    if toPtr memSeg ≠ (← MSH.findByPointer (← getHead head) memSeg) then pure ERR_MEM_FREE
    else do
      let memSeg ← followMSH (toPtr memSeg)
      MSH.remove memSeg head
      insertSorted memSeg .freeMemoryHead
      let _ ← MSH.merge memSeg
      let x ← getMSH memSeg
      (match x.prev with
        | some prev => do
          let _ ← MSH.merge prev
        | none => pure ())
      pure 0

/-- `memAlloc` -/
def memAlloc (nBlocks : Nat) : HeapM Nat := memAlloc_ nBlocks .userMemoryHead

/-- `memFree` -/
def memFree (memAddr : Nat) : HeapM Nat := memFree_ memAddr .userMemoryHead

/-- `kMemAlloc` -/
def kMemAlloc (nBlocks : Nat) : HeapM Nat := memAlloc_ nBlocks .systemMemoryHead

/-- `kMemFree` -/
def kMemFree (memAddr : Nat) : HeapM Nat := memFree_ memAddr .systemMemoryHead

/-- `ROUNDUP` on `size_t` -/
def ROUNDUP (size block : Nat) : Nat := u64 (size + block - 1) / block

/-- `memAlloc_byte` -/
def memAlloc_byte (nBytes : Nat) : HeapM Nat := memAlloc (ROUNDUP nBytes MEM_BLOCK_SIZE)

/-- `kMemAlloc_byte` -/
def kMemAlloc_byte (nBytes : Nat) : HeapM Nat := kMemAlloc (ROUNDUP nBytes MEM_BLOCK_SIZE)

/-- `Kernel::handleMemAlloc` -/
def handleMemAlloc (a1_size : Nat) : HeapM Nat := memAlloc a1_size

/-- `mem_alloc` of the C interface. -/
def mem_alloc (size : Nat) : HeapM Nat := handleMemAlloc (ROUNDUP size MEM_BLOCK_SIZE)

/-- `Kernel::handleMemFree` -/
def handleMemFree (a1_p : Nat) : HeapM Nat := memFree a1_p

end MemoryManager

end Os1Kernel
