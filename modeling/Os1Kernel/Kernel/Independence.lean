/-
# The kernel does not look at what it carries

Characters and messages pass through the kernel, and so do the pointers to the strings that are
sent and the results that it leaves in registers.  Here it is shown function by function that
nothing else depends on them: from two states that differ in these only, a function fails or
returns alike, and leaves two such states.

`erase` puts a blank in the place of each datum, so that "differ in these only" is an equation, and
"alike" is an equation between the results as well.  A function that reads the state gets two
different states on the two sides; the rules for reading ask that what it does with them is the
same for any two that are alike, which is where a dependence on the data would show.

The handlers, which take data as arguments, are in `Os1Kernel.Results.Independence`.
-/
import Os1Kernel.Kernel.Trap
import Os1Kernel.Lib.Independence

namespace Os1Kernel

open Simulation

variable {α γ : Type} {w : α → γ} {t : Tid} {s : SemPtr}

/-! ## 1. The state without the data -/

/-- Where a thread goes on, without the characters that it has to pass on there. -/
def Context.erase : Context → Context
  | .send tcb _ => .send tcb (.memory 0)
  | .put b _ => .put b 0
  | .putMutex b _ => .putMutex b 0
  | c => c

def Event.erase : Event → Event
  | .wrote tcb sender _ => .wrote tcb sender []
  | .received tcb _ => .received tcb []
  | .putting b t _ => .putting b t 0
  | .stored b t _ => .stored b t 0
  | .loaded b t _ => .loaded b t 0
  | e => e

/-- What stands in the place of data. -/
structure Blank where
  message : Message
  buffer : Vector UInt8 bufferLength

def TCB.erase (z : Blank) (x : TCB) : TCB :=
  { x with context := x.context.erase, message := z.message, a0 := .int 0 }

def CharBuffer.erase (z : Blank) (x : CharBuffer) : CharBuffer := { x with buffer := z.buffer }

/-- Everything but the data. -/
def Kernel.erase (z : Blank) (k : Kernel) : Kernel :=
  { k with
    tcb := fun t => (k.tcb t).erase z
    buffer := fun b => (k.buffer b).erase z
    strings := fun _ => []
    history := k.history.map Event.erase }

/-- Whether a function has come back. -/
def Outcome.erase (o : Outcome α) : Outcome Unit :=
  match o with
  | .done _ => .done ()
  | .switched => .switched

/-- The two programs do the same but for the data. -/
abbrev Alike (z : Blank) (w : α → γ) (m m' : KernelM α) : Prop := Agrees (Kernel.erase z) w m m'

variable {z : Blank}

theorem erase_setTcb (k : Kernel) (t : Tid) (f : TCB → TCB) :
    (k.setTcb t f).erase z = (k.erase z).setTcb t fun _ => (f (k.tcb t)).erase z := by
  have htcb : (fun u => (Function.update k.tcb t (f (k.tcb t)) u).erase z) =
      Function.update (fun u => (k.tcb u).erase z) t ((f (k.tcb t)).erase z) :=
    Function.comp_update (TCB.erase z) k.tcb t (f (k.tcb t))
  unfold Kernel.erase Kernel.setTcb
  rw [htcb]

/-! ## 2. Access to the objects -/

/-- A read of the state by programs that do not look at the data in it. -/
theorem getKernel_alike {f g : Kernel → KernelM α} (hf : ∀ k, f k = f (k.erase z))
    (hk : ∀ k, Alike z w (f k) (g k)) : Alike z w (getKernel >>= f) (getKernel >>= g) := by
  refine .bind_read getKernel_apply fun k k' h => ?_
  rw [hf k, h, ← hf k']
  exact hk k'

theorem getTcb_alike {f g : TCB → KernelM α} (hf : ∀ x, f x = f (x.erase z))
    (hk : ∀ x, Alike z w (f x) (g x)) : Alike z w (getTcb t >>= f) (getTcb t >>= g) := by
  refine .bind_read (fun k => getTcb_apply k t) fun k k' h => ?_
  have hx : (k.tcb t).erase z = (k'.tcb t).erase z := congrFun (congrArg Kernel.tcb h) t
  rw [hf (k.tcb t), hx, ← hf (k'.tcb t)]
  exact hk (k'.tcb t)

theorem getSem_alike (s : SemPtr) : Alike z id (getSem s) (getSem s) :=
  .read (fun k => getSem_apply k s) fun _ _ h => congrFun (congrArg Kernel.sem h) s

theorem fuel_alike : Alike z id fuel fuel :=
  .read fuel_apply fun _ _ h => congrArg (fun k => k.IDCounter + 1) h

theorem follow_alike (p : Option α) : Alike z id (follow p) (follow p) := by
  cases p with
  | none => exact .failure
  | some x => exact .pure rfl

theorem getRunning_alike : Alike z id getRunning getRunning :=
  getKernel_alike (fun _ => rfl) fun _ => follow_alike _

/-- Two updates of a `TCB` that are the same update `h` but for the data. -/
theorem setTcb_differ {f g : TCB → TCB} (h : TCB → TCB) (hf : ∀ x, (f x).erase z = h (x.erase z))
    (hg : ∀ x, (g x).erase z = h (x.erase z)) : Alike z id (setTcb t f) (setTcb t g) := by
  refine .write (fun k => setTcb_apply k t f) (fun k => setTcb_apply k t g) fun k k' hk => ?_
  have hx : (k.tcb t).erase z = (k'.tcb t).erase z := congrFun (congrArg Kernel.tcb hk) t
  rw [erase_setTcb, erase_setTcb, hf, hg, hx, hk]

theorem setTcb_alike {f : TCB → TCB} (hf : ∀ x, (f x).erase z = f (x.erase z)) :
    Alike z id (setTcb t f) (setTcb t f) :=
  setTcb_differ f hf hf

/-- An update and its counterpart without the data. -/
theorem setTcb_erase {f g : TCB → TCB} (hf : ∀ x, (f x).erase z = g (x.erase z))
    (hg : ∀ x, (g x).erase z = g (x.erase z)) : Alike z id (setTcb t f) (setTcb t g) :=
  setTcb_differ g hf hg

theorem setSem_alike (f : KSemaphore → KSemaphore) : Alike z id (setSem s f) (setSem s f) :=
  .write (fun k => setSem_apply k s f) (fun k => setSem_apply k s f) fun _ _ h =>
    congrArg (fun k => k.setSem s f) h

theorem emit_differ {e e' : Event} (he : e.erase = e'.erase) : Alike z id (emit e) (emit e') := by
  refine .write (fun k => emit_apply k e) (fun k => emit_apply k e') fun k k' h => ?_
  have hadd : ∀ (k : Kernel) (e : Event), Kernel.erase z { k with history := e :: k.history } =
      { k.erase z with history := e.erase :: (k.erase z).history } := fun _ _ => rfl
  rw [hadd, hadd, h, he]

theorem emit_alike (e : Event) : Alike z id (emit e) (emit e) := emit_differ rfl

theorem modify_differ {f g : Kernel → Kernel} (h : Kernel → Kernel)
    (hf : ∀ k, (f k).erase z = h (k.erase z)) (hg : ∀ k, (g k).erase z = h (k.erase z)) :
    Alike z id (modify f : KernelM Unit) (modify g) :=
  .write (fun _ => modify_apply ..) (fun _ => modify_apply ..) fun k k' hk => by rw [hf, hg, hk]

theorem modify_alike {f : Kernel → Kernel} (hf : ∀ k, (f k).erase z = f (k.erase z)) :
    Alike z id (modify f : KernelM Unit) (modify f) :=
  modify_differ f hf hf

/-! ## 3. The queues

No data is involved here, so each operation agrees with itself; the lemmas follow the definitions
line by line. -/

theorem schedulerPut_alike (t : Tid) : Alike z id (Scheduler.put t) (Scheduler.put t) := by
  refine getKernel_alike (fun _ => rfl) fun k => .ite (fun _ => .pure rfl) fun _ => ?_
  refine .bind_id (setTcb_alike fun _ => rfl) fun _ => ?_
  cases k.readyTail with
  | none => exact modify_alike fun _ => rfl
  | some last =>
    exact .bind_id (setTcb_alike fun _ => rfl) fun _ => modify_alike fun _ => rfl

theorem schedulerGet_alike : Alike z id Scheduler.get Scheduler.get := by
  refine getKernel_alike (fun _ => rfl) fun k => ?_
  cases k.readyHead with
  | none => exact .pure rfl
  | some ret =>
    exact getTcb_alike (fun _ => rfl) fun x => .bind_id (modify_alike fun _ => rfl) fun _ =>
      .bind_id (setTcb_alike fun _ => rfl) fun _ => .pure rfl

theorem semaphorePut_alike (s : SemPtr) (t : Tid) (tokens : Nat) :
    Alike z id (kSemaphore.put s t tokens) (kSemaphore.put s t tokens) := by
  refine .bind_id (getSem_alike s) fun x => .bind_id ?_ fun _ =>
    .bind_id (setTcb_alike fun _ => rfl) fun _ => setTcb_alike fun _ => rfl
  cases x.blockedHead with
  | none => exact setSem_alike _
  | some _ =>
    exact .bind_id (follow_alike _) fun last => .bind_id (setTcb_alike fun _ => rfl) fun _ =>
      setSem_alike _

theorem semaphoreUnlink_alike (s : SemPtr) (t : Tid) :
    Alike z id (kSemaphore.unlink s t) (kSemaphore.unlink s t) := by
  refine getKernel_alike (fun _ => rfl) fun k => .ite (fun _ => ?_) fun _ => .pure rfl
  refine .bind_id fuel_alike fun n => .bind_id (follow_alike _) fun p => ?_
  obtain ⟨prev, curr⟩ := p
  cases curr with
  | none => exact .pure rfl
  | some curr =>
    refine getTcb_alike (fun _ => rfl) fun x => .bind_id ?_ fun _ => .pure rfl
    cases prev with
    | none => exact setSem_alike _
    | some prev => exact .bind_id (setTcb_alike fun _ => rfl) fun _ => setSem_alike _

theorem semaphoreUnlinkHead_alike (s : SemPtr) :
    Alike z id (kSemaphore.unlinkHead s) (kSemaphore.unlinkHead s) := by
  refine .bind_id (getSem_alike s) fun x => ?_
  cases x.blockedHead with
  | none => exact .pure rfl
  | some ret =>
    exact getTcb_alike (fun _ => rfl) fun x => .bind_id (setSem_alike _) fun _ => .pure rfl

theorem semaphoreGet_alike (s : SemPtr) (t : Option Tid) :
    Alike z id (kSemaphore.get s t) (kSemaphore.get s t) := by
  refine .bind_id ?_ fun ret => .bind_id ?_ fun _ => .pure rfl
  · cases t with
    | none => exact semaphoreUnlinkHead_alike s
    | some t => exact semaphoreUnlink_alike s t
  · cases ret with
    | none => exact .pure rfl
    | some ret => exact .bind_id (setTcb_alike fun _ => rfl) fun _ => setTcb_alike fun _ => rfl

theorem sleepPut_alike (t : Tid) (timeout : Nat) :
    Alike z id (Sleep.put t timeout) (Sleep.put t timeout) := by
  refine getKernel_alike (fun _ => rfl) fun k => .bind_id ?_ fun _ =>
    .bind_id (setTcb_alike fun _ => rfl) fun _ => emit_alike _
  cases k.sleepHead with
  | none => exact .bind_id (setTcb_alike fun _ => rfl) fun _ => modify_alike fun _ => rfl
  | some head =>
    refine .ite (fun _ => ?_) fun _ => ?_
    · exact .bind_id (setTcb_alike fun _ => rfl) fun _ =>
        .bind_id (setTcb_alike fun _ => rfl) fun _ => modify_alike fun _ => rfl
    · refine .bind_id fuel_alike fun n => .bind_id (follow_alike _) fun p => ?_
      obtain ⟨target, left⟩ := p
      refine .bind_id ?_ fun _ => .bind_id (setTcb_alike fun _ => rfl) fun _ =>
        setTcb_alike fun _ => rfl
      cases (k.tcb target).nextSleep with
      | none => exact .pure rfl
      | some u => exact setTcb_alike fun _ => rfl

theorem addRelative_alike (t : Option Tid) (delta : Nat) :
    Alike z id (Sleep.addRelative t delta) (Sleep.addRelative t delta) := by
  cases t with
  | none => exact .pure rfl
  | some u => exact setTcb_alike fun _ => rfl

theorem sleepUnlink_alike (t : Tid) : Alike z id (Sleep.unlink t) (Sleep.unlink t) := by
  refine getKernel_alike (fun _ => rfl) fun k => .ite (fun _ => ?_) fun _ => .pure rfl
  refine .bind_id fuel_alike fun n => .bind_id (follow_alike _) fun p => ?_
  obtain ⟨prev, curr⟩ := p
  cases curr with
  | none => exact .pure rfl
  | some curr =>
    refine getTcb_alike (fun _ => rfl) fun x => .bind_id ?_ fun _ =>
      .bind_id (addRelative_alike _ _) fun _ => .pure rfl
    cases prev with
    | none => exact modify_alike fun _ => rfl
    | some prev => exact setTcb_alike fun _ => rfl

theorem sleepUnlinkHead_alike : Alike z id Sleep.unlinkHead Sleep.unlinkHead := by
  refine getKernel_alike (fun _ => rfl) fun k => ?_
  cases k.sleepHead with
  | none => exact .pure rfl
  | some ret =>
    exact getTcb_alike (fun _ => rfl) fun x => .bind_id (modify_alike fun _ => rfl) fun _ =>
      .bind_id (addRelative_alike _ _) fun _ => .pure rfl

theorem sleepGet_alike (t : Option Tid) : Alike z id (Sleep.get t) (Sleep.get t) := by
  refine .bind_id ?_ fun ret => .bind_id ?_ fun _ => .pure rfl
  · cases t with
    | none => exact sleepUnlinkHead_alike
    | some t => exact sleepUnlink_alike t
  · cases ret with
    | none => exact .pure rfl
    | some ret => exact setTcb_alike fun _ => rfl

/-! ## 4. Switching and sleeping -/

variable {c c' : Context}

theorem yield_alike (hc : c.erase = c'.erase) (schPut : Bool) :
    Alike z id (TCB.yield schPut c) (TCB.yield schPut c') := by
  refine .bind_id getRunning_alike fun old => getTcb_alike (fun _ => rfl) fun x =>
    .bind_id (.ite (fun _ => schedulerPut_alike old) fun _ => .pure rfl) fun _ =>
    .bind_id schedulerGet_alike fun p => .bind_id (follow_alike p) fun chosen =>
    .bind_id (modify_alike fun _ => rfl) fun _ => .bind_id ?_ fun _ => emit_alike _
  refine setTcb_differ (fun x => { x with context := c.erase }) (fun _ => rfl) fun x => ?_
  rw [hc]
  rfl

theorem sleep_alike (hc : c.erase = c'.erase) (timeout : Nat) :
    Alike z id (Sleep.sleep timeout c) (Sleep.sleep timeout c') := by
  refine .bind_id getRunning_alike fun r => .ite (fun _ => ?_) fun _ => ?_
  · refine getTcb_alike (fun _ => rfl) fun x => .bind_id ?_ fun _ => .pure rfl
    cases x.blockedAtSem with
    | none => exact .pure rfl
    | some s =>
      exact .bind_id (semaphoreGet_alike s _) fun _ =>
        .bind_id (setTcb_alike fun _ => rfl) fun _ => emit_alike _
  · exact .bind_id (sleepPut_alike r timeout) fun _ => .bind_id (yield_alike hc _) fun _ =>
      .pure rfl

theorem wake_alike : Alike z id Sleep.wake Sleep.wake := by
  refine .bind_id (sleepGet_alike none) fun p => .bind_id (follow_alike p) fun t =>
    getTcb_alike (fun _ => rfl) fun x => .bind_id ?_ fun _ => schedulerPut_alike t
  cases x.blockedAtSem with
  | none => exact emit_alike _
  | some s =>
    exact .bind_id (semaphoreGet_alike s _) fun _ => .bind_id (setTcb_alike fun _ => rfl) fun _ =>
      emit_alike _

theorem wakeLoop_alike (n : Nat) : Alike z id (Sleep.wakeLoop n) (Sleep.wakeLoop n) := by
  induction n with
  | zero => exact .failure
  | succ n ih =>
    refine getKernel_alike (fun _ => rfl) fun k => ?_
    cases k.sleepHead with
    | none => exact .pure rfl
    | some head => exact .ite (fun _ => .bind_id wake_alike fun _ => ih) fun _ => .pure rfl

theorem onTick_alike : Alike z id Sleep.onTick Sleep.onTick := by
  refine .bind_id (emit_alike _) fun _ => getKernel_alike (fun _ => rfl) fun k =>
    .bind_id ?_ fun _ => .bind_id fuel_alike fun n => wakeLoop_alike n
  cases k.sleepHead with
  | none => exact .pure rfl
  | some head => exact setTcb_alike fun _ => rfl

/-! ## 5. Semaphores

The context that a wait is called with may hold a character, so the two sides are given two
contexts that are alike. -/

theorem kSemaphoreCreate_alike (address : SemPtr) (val : Nat) (mem : Bool) :
    Alike z id (kSemaphore.kSemaphoreCreate address val mem)
      (kSemaphore.kSemaphoreCreate address val mem) := by
  refine .ite (fun _ => getKernel_alike (fun _ => rfl) fun k => ?_) fun _ => .pure rfl
  refine .bind_id (setSem_alike _) fun _ => .bind_id (modify_alike fun _ => rfl) fun _ =>
    .bind_id ?_ fun _ => .bind_id (emit_alike _) fun _ => .pure rfl
  cases k.kSemsTail with
  | none => exact modify_alike fun _ => rfl
  | some last => exact .bind_id (setSem_alike _) fun _ => modify_alike fun _ => rfl

theorem resolveManner_alike : Alike z id kSemaphore.resolveManner kSemaphore.resolveManner :=
  .bind_id getRunning_alike fun _ => getTcb_alike (fun _ => rfl) fun _ => .pure rfl

theorem release_alike (s : SemPtr) (manner : UnblockManner) :
    Alike z id (kSemaphore.release s manner) (kSemaphore.release s manner) := by
  refine .bind_id (semaphoreGet_alike s none) fun p => .bind_id (follow_alike p) fun t =>
    getTcb_alike (fun _ => rfl) fun x => .bind_id (.ite (fun _ => ?_) fun _ => .pure rfl) fun _ =>
    .bind_id (setTcb_alike fun _ => rfl) fun _ => .bind_id (emit_alike _) fun _ =>
    schedulerPut_alike t
  exact .bind_id (sleepGet_alike _) fun _ => .pure rfl

theorem signalLoop_alike (s : SemPtr) (n tokens : Nat) :
    Alike z id (kSemaphore.signalLoop s n tokens) (kSemaphore.signalLoop s n tokens) := by
  induction n generalizing tokens with
  | zero => exact .failure
  | succ n ih =>
    refine .bind_id (getSem_alike s) fun x => ?_
    cases x.blockedHead with
    | none => exact .pure rfl
    | some head =>
      refine .ite (fun _ => getTcb_alike (fun _ => rfl) fun y => ?_) fun _ => .pure rfl
      exact .ite
        (fun _ => .bind_id (setTcb_alike fun _ => rfl) fun _ =>
          .bind_id (release_alike s _) fun _ => ih _)
        fun _ => .bind_id (setTcb_alike fun _ => rfl) fun _ => ih _

theorem signal_alike (s : SemPtr) (tokens : Nat) :
    Alike z id (kSemaphore.signal s tokens) (kSemaphore.signal s tokens) :=
  .bind_id (getSem_alike s) fun _ => .ite (fun _ => .pure rfl) fun _ =>
    .bind_id (emit_alike _) fun _ => .bind_id fuel_alike fun n =>
    .bind_id (signalLoop_alike s n tokens) fun _ => .bind_id (setSem_alike _) fun _ => .pure rfl

theorem signalAllLoop_alike (s : SemPtr) (manner : UnblockManner) (n : Nat) :
    Alike z id (kSemaphore.signalAllLoop s manner n) (kSemaphore.signalAllLoop s manner n) := by
  induction n with
  | zero => exact .failure
  | succ n ih =>
    refine .bind_id (getSem_alike s) fun x => ?_
    cases x.blockedHead with
    | none => exact .pure rfl
    | some head => exact .bind_id (release_alike s manner) fun _ => ih

theorem signalAll_alike (s : SemPtr) (tokens : Nat) (onClose : Bool) :
    Alike z id (kSemaphore.signalAll s tokens onClose) (kSemaphore.signalAll s tokens onClose) :=
  .bind_id (getSem_alike s) fun _ => .ite (fun _ => .pure rfl) fun _ => .bind_id fuel_alike fun n =>
    .bind_id (signalAllLoop_alike s _ n) fun _ => .bind_id (setSem_alike _) fun _ => .pure rfl

theorem close_alike (s : SemPtr) : Alike z id (kSemaphore.close s) (kSemaphore.close s) :=
  .bind_id (getSem_alike s) fun _ => .ite (fun _ => .pure rfl) fun _ =>
    .bind_id (emit_alike _) fun _ => .bind_id (signalAll_alike s _ _) fun _ =>
    .bind_id (setSem_alike _) fun _ => .pure rfl

theorem acquire_alike (s : SemPtr) (tokens : Nat) :
    Alike z id (kSemaphore.acquire s tokens) (kSemaphore.acquire s tokens) :=
  .bind_id getRunning_alike fun _ => .bind_id (setSem_alike _) fun _ =>
    .bind_id (setTcb_alike fun _ => rfl) fun _ => emit_alike _

theorem block_alike (s : SemPtr) (tokens : Nat) (timeout : Option Nat) :
    Alike z id (kSemaphore.block s tokens timeout) (kSemaphore.block s tokens timeout) :=
  .bind_id getRunning_alike fun r => .bind_id (getSem_alike s) fun _ =>
    .bind_id (setSem_alike _) fun _ => .bind_id (emit_alike _) fun _ => semaphorePut_alike s r _

theorem wait_alike (hc : c.erase = c'.erase) (s : SemPtr) (tokens : Nat) :
    Alike z id (kSemaphore.wait s tokens c) (kSemaphore.wait s tokens c') :=
  .bind_id (getSem_alike s) fun _ => .ite (fun _ => .pure rfl) fun _ => .ite
    (fun _ => .bind_id (acquire_alike s tokens) fun _ => .bind_id resolveManner_alike fun _ =>
      .pure rfl)
    fun _ => .bind_id (block_alike s tokens none) fun _ => .bind_id (yield_alike hc _) fun _ =>
      .pure rfl

theorem tryWait_alike (s : SemPtr) (tokens : Nat) :
    Alike z id (kSemaphore.tryWait s tokens) (kSemaphore.tryWait s tokens) :=
  .bind_id (getSem_alike s) fun _ => .ite (fun _ => .pure rfl) fun _ => .ite
    (fun _ => .bind_id (acquire_alike s tokens) fun _ => .pure rfl)
    fun _ => .bind_id getRunning_alike fun _ => .bind_id (setTcb_alike fun _ => rfl) fun _ =>
      .pure rfl

theorem timedWait_alike (hc : c.erase = c'.erase) (s : SemPtr) (timeout tokens : Nat) :
    Alike z id (kSemaphore.timedWait s timeout tokens c)
      (kSemaphore.timedWait s timeout tokens c') := by
  refine .bind_id (getSem_alike s) fun _ => .ite (fun _ => .pure rfl) fun _ => .ite
    (fun _ => .bind_id (acquire_alike s tokens) fun _ => .bind_id resolveManner_alike fun _ =>
      .pure rfl)
    fun _ => .bind_id (block_alike s tokens _) fun _ => .bind_id (sleep_alike hc timeout)
      fun o => ?_
  cases o with
  | switched => exact .pure rfl
  | done ret =>
    exact .bind_id resolveManner_alike fun _ => .bind_id getRunning_alike fun _ =>
      .bind_id (emit_alike _) fun _ => .pure rfl

/-! ## 6. Creating and finishing threads -/

/-- The memory of a new `TCB`, without what was there before. -/
def CreateMem.erase (z : Blank) (mem : CreateMem) : CreateMem := { mem with raw := z.message }

theorem closeIf_alike (s : Option SemPtr) : Alike z id (TCB.closeIf s) (TCB.closeIf s) := by
  cases s with
  | none => exact .pure rfl
  | some s => exact .bind_id (close_alike s) fun _ => .pure rfl

theorem construct_alike (body : Bool) (mode : Mode) (userStackSpace : Bool) (timeSlice : Nat)
    (mem : CreateMem) : Alike z id (TCB.construct body mode userStackSpace timeSlice mem)
      (TCB.construct body mode userStackSpace timeSlice (mem.erase z)) := by
  refine getKernel_alike (fun _ => rfl) fun k => .bind_id (modify_alike fun _ => rfl) fun _ =>
    .bind_id (kSemaphoreCreate_alike _ _ _) fun _ =>
    .bind_id (kSemaphoreCreate_alike _ _ _) fun _ =>
    .bind_id (kSemaphoreCreate_alike _ _ _) fun _ =>
    .bind_id (kSemaphoreCreate_alike _ _ _) fun _ =>
    .bind_id (setTcb_erase (fun _ => rfl) fun _ => rfl) fun _ =>
    .bind_id (.ite (fun _ => ?_) fun _ => ?_) fun _ => .pure rfl
  · exact .bind_id (setTcb_alike fun _ => rfl) fun _ => .bind_id (closeIf_alike _) fun _ =>
      .bind_id (closeIf_alike _) fun _ => .bind_id (closeIf_alike _) fun _ => closeIf_alike _
  · exact setTcb_differ (fun x => { x with message := z.message })
      (fun _ => rfl) fun _ => rfl

theorem destruct_alike (t : Tid) : Alike z id (TCB.destruct t) (TCB.destruct t) :=
  .bind_id (setTcb_alike fun _ => rfl) fun _ => getTcb_alike (fun _ => rfl) fun _ =>
    .bind_id (closeIf_alike _) fun _ => .bind_id (closeIf_alike _) fun _ =>
    .bind_id (closeIf_alike _) fun _ => closeIf_alike _

/-- However the children are counted. -/
theorem countChildren_alike (t : Tid) (f : Nat → Nat) :
    Alike z id (setThread t fun x => { x with numOfActiveChildren := f x.numOfActiveChildren })
      (setThread t fun x => { x with numOfActiveChildren := f x.numOfActiveChildren }) :=
  setTcb_alike fun _ => rfl

theorem threadCreate_alike (body : Bool) (mode : Mode) (userStackSpace : Bool) (timeSlice : Nat)
    (schPut : Bool) (mem : CreateMem) :
    Alike z id (TCB.threadCreate body mode userStackSpace timeSlice schPut mem)
      (TCB.threadCreate body mode userStackSpace timeSlice schPut (mem.erase z)) := by
  refine .bind_id (construct_alike body mode userStackSpace timeSlice mem) fun t =>
    getTcb_alike (fun _ => rfl) fun x => .ite
      (fun _ => .bind_id (destruct_alike t) fun _ => .pure rfl) fun _ => ?_
  refine getKernel_alike (fun _ => rfl) fun k => .bind_id ?_ fun _ =>
    .bind_id (.ite (fun _ => schedulerPut_alike t) fun _ => .pure rfl) fun _ =>
    .bind_id ?_ fun _ => .bind_id (emit_alike _) fun _ => .pure rfl
  · cases k.TCBsTail with
    | none => exact modify_alike fun _ => rfl
    | some last => exact .bind_id (setTcb_alike fun _ => rfl) fun _ => modify_alike fun _ => rfl
  · cases x.parent with
    | none => exact .pure rfl
    | some p => exact countChildren_alike p fun n => u64 (n + 1)

theorem finish_alike (exitStatus : Nat) :
    Alike z id (TCB.finish exitStatus) (TCB.finish exitStatus) := by
  refine .bind_id getRunning_alike fun r => .bind_id (emit_alike _) fun _ =>
    getTcb_alike (fun _ => rfl) fun x => .bind_id (follow_alike _) fun s =>
    .bind_id (close_alike s) fun _ => .bind_id (follow_alike _) fun s =>
    .bind_id (close_alike s) fun _ => .bind_id (follow_alike _) fun s =>
    .bind_id (signalAll_alike s _ _) fun _ => .bind_id (close_alike s) fun _ =>
    .bind_id ?_ fun _ => .bind_id (follow_alike _) fun s => .bind_id (close_alike s) fun _ =>
    getTcb_alike (fun _ => rfl) fun x => .bind_id ?_ fun _ => getTcb_alike (fun _ => rfl) fun x =>
    .bind_id (.ite (fun _ => .bind_id (sleepGet_alike _) fun _ => .pure rfl) fun _ => .pure rfl)
      fun _ => .bind_id (setTcb_alike fun _ => rfl) fun _ => yield_alike rfl _
  · cases x.parent with
    | none => exact .pure rfl
    | some p =>
      refine getTcb_alike (fun _ => rfl) fun y => .ite (fun _ => .pure rfl) fun _ =>
        .bind_id (countChildren_alike p dec64) fun _ => .ite (fun _ => ?_) fun _ => .pure rfl
      exact .bind_id (follow_alike _) fun s => .bind_id (signal_alike s 1) fun _ => .pure rfl
  · cases x.blockedAtSem with
    | none => exact .pure rfl
    | some s => exact .bind_id (semaphoreGet_alike s _) fun _ => .pure rfl

end Os1Kernel
