/-
# The three intrusive queues

`Scheduler::put`/`get` (`scheduler.cpp`), `kSemaphore::put`/`get` (`kSemaphore.cpp`) and
`Sleep::put`/`get` (`sleep.cpp`), pointer by pointer.  The search loops of the two `get`s are
`Linked.search` over the list's own link field.

Each statement of the source that writes through a pointer is one update of the state, in the order
of the source, since two pointers may lead to the same object.  A loop that walks along a list gets
as much fuel as threads have been created, and one more, and fails without it; that it never does
is a part of what `Os1Kernel.Refine` shows.
-/
import Os1Kernel.Lib.Chain
import Os1Kernel.Kernel.State

namespace Os1Kernel

/-! ## 1. The ready queue -/

namespace Scheduler

/-- `Scheduler::put` of a pointer that is not null. -/
def put (tcb : Tid) : KernelM Unit := do
  let k ← getKernel
  if k.idle = some tcb then pure ()
  else do
    setTcb tcb fun x => { x with nextReady := none }
    match k.readyTail with
    | none => modify fun k => { k with readyHead := some tcb, readyTail := some tcb }
    | some last => do
      setTcb last fun x => { x with nextReady := some tcb }
      modify fun k => { k with readyTail := some tcb }

/-- `Scheduler::get` -/
def get : KernelM (Option Tid) := do
  let k ← getKernel
  match k.readyHead with
  | none => pure k.idle
  | some ret => do
    let x ← getTcb ret
    modify fun k =>
      { k with
        readyHead := x.nextReady
        readyTail := if x.nextReady = none then none else k.readyTail }
    setTcb ret fun x => { x with nextReady := none }
    pure (some ret)

end Scheduler

/-! ## 2. The threads blocked at a semaphore -/

namespace kSemaphore

/-- `kSemaphore::put` of a pointer that is not null. -/
def put (this : SemPtr) (tcb : Tid) (tokens : Nat) : KernelM Unit := do
  let sem ← getSem this
  (match sem.blockedHead with
    | none => setSem this fun x => { x with blockedHead := some tcb, blockedTail := some tcb }
    | some _ => do
      let last ← follow sem.blockedTail
      setTcb last fun x => { x with nextSemBlocked := some tcb }
      setSem this fun x => { x with blockedTail := some tcb })
  setThread tcb fun x => { x with blockedAtSem := some this, tokensNeeded := tokens }
  setTcb tcb fun x => { x with nextSemBlocked := none }

/-- The part of `kSemaphore::get(tcb)` that searches the list and unlinks `tcb`. -/
def unlink (this : SemPtr) (tcb : Tid) : KernelM (Option Tid) := do
  let k ← getKernel
  if (k.tcb tcb).blockedAtSem = some this then do
    let n ← fuel
    let (prev, curr) ← follow <| Linked.search (fun t => (k.tcb t).nextSemBlocked) tcb n none
      (k.sem this).blockedHead
    match curr with
    | none => pure none
    | some curr => do
      let x ← getTcb curr
      (match prev with
        | some prev => do
          setTcb prev fun y => { y with nextSemBlocked := x.nextSemBlocked }
          setSem this fun s =>
            if some curr = s.blockedTail then { s with blockedTail := some prev } else s
        | none => setSem this fun s =>
            { s with
              blockedHead := x.nextSemBlocked
              blockedTail := if x.nextSemBlocked = none then none else s.blockedTail })
      pure (some curr)
  else pure none

/-- The part of `kSemaphore::get(nullptr)` that takes the head off. -/
def unlinkHead (this : SemPtr) : KernelM (Option Tid) := do
  let sem ← getSem this
  match sem.blockedHead with
  | none => pure none
  | some ret => do
    let x ← getTcb ret
    setSem this fun s =>
      { s with
        blockedHead := x.nextSemBlocked
        blockedTail := if x.nextSemBlocked = none then none else s.blockedTail }
    pure (some ret)

/-- `kSemaphore::get`; `none` stands for the default argument `nullptr`. -/
def get (this : SemPtr) (tcb : Option Tid) : KernelM (Option Tid) := do
  let ret ← (match tcb with
    | some tcb => unlink this tcb
    | none => unlinkHead this)
  (match ret with
    | some ret => do
      setThread ret fun x => { x with blockedAtSem := none, tokensNeeded := 0 }
      setTcb ret fun x => { x with nextSemBlocked := none }
    | none => pure ())
  pure ret

end kSemaphore

/-! ## 3. The sleeping threads -/

namespace Sleep

/-- The `while` loop of `Sleep::put`: step over the threads that wake up no later.  The result is
`target` and what is left of `timeout` there. -/
def advance (next : Tid → Option Tid) (rel : Tid → Nat) : Nat → Tid → Nat → Option (Tid × Nat)
  | 0, _, _ => none
  | n + 1, target, timeout =>
    match next target with
    | none => some (target, timeout)
    | some u =>
      if rel u ≤ timeout then advance next rel n u (sub64 timeout (rel u)) else some (target, timeout)

/-- `Sleep::put` of a pointer that is not null. -/
def put (tcb : Tid) (timeout : Nat) : KernelM Unit := do
  let k ← getKernel
  (match k.sleepHead with
    | none => do
      setTcb tcb fun x => { x with timeSleepRelative := timeout, nextSleep := none }
      modify fun k => { k with sleepHead := some tcb }
    | some head =>
      if timeout < (k.tcb head).timeSleepRelative then do
        setTcb head fun x =>
          { x with timeSleepRelative := sub64 x.timeSleepRelative timeout }
        setTcb tcb fun x => { x with timeSleepRelative := timeout, nextSleep := some head }
        modify fun k => { k with sleepHead := some tcb }
      else do
        let n ← fuel
        let (target, timeout) ← follow <| advance (fun t => (k.tcb t).nextSleep)
          (fun t => (k.tcb t).timeSleepRelative) n head
          (sub64 timeout (k.tcb head).timeSleepRelative)
        (match (k.tcb target).nextSleep with
          | some u => setTcb u fun x =>
              { x with timeSleepRelative := sub64 x.timeSleepRelative timeout }
          | none => pure ())
        setTcb tcb fun x =>
          { x with timeSleepRelative := timeout, nextSleep := (k.tcb target).nextSleep }
        setTcb target fun x => { x with nextSleep := some tcb })
  setTcb tcb fun x => { x with sleeps := true }
  emit (.slept tcb timeout)

/-- `if (tcb) tcb->timeSleepRelative += delta` -/
def addRelative (tcb : Option Tid) (delta : Nat) : KernelM Unit :=
  match tcb with
  | some u => setTcb u fun x =>
      { x with timeSleepRelative := u64 (x.timeSleepRelative + delta) }
  | none => pure ()

/-- The part of `Sleep::get(tcb)` that searches the list and unlinks `tcb`. -/
def unlink (tcb : Tid) : KernelM (Option Tid) := do
  let k ← getKernel
  if (k.tcb tcb).sleeps then do
    let n ← fuel
    let (prev, curr) ← follow <| Linked.search (fun t => (k.tcb t).nextSleep) tcb n none
      k.sleepHead
    match curr with
    | none => pure none
    | some curr => do
      let x ← getTcb curr
      (match prev with
        | some prev => setTcb prev fun y => { y with nextSleep := x.nextSleep }
        | none => modify fun k => { k with sleepHead := x.nextSleep })
      addRelative x.nextSleep x.timeSleepRelative
      pure (some curr)
  else pure none

/-- The part of `Sleep::get(nullptr)` that takes the head off. -/
def unlinkHead : KernelM (Option Tid) := do
  let k ← getKernel
  match k.sleepHead with
  | none => pure none
  | some ret => do
    let x ← getTcb ret
    modify fun k => { k with sleepHead := x.nextSleep }
    addRelative x.nextSleep x.timeSleepRelative
    pure (some ret)

/-- `Sleep::get`; `none` stands for the default argument `nullptr`. -/
def get (tcb : Option Tid) : KernelM (Option Tid) := do
  let ret ← (match tcb with
    | some tcb => unlink tcb
    | none => unlinkHead)
  (match ret with
    | some ret => setTcb ret fun x =>
        { x with timeSleepRelative := 0, sleeps := false, nextSleep := none }
    | none => pure ())
  pure ret

end Sleep

end Os1Kernel
