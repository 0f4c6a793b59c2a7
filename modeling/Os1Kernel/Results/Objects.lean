/-
# The objects of the kernel

Threads are numbered in the order of their creation and descend from `main`, each from one that is
older.  Every handle and every pointer to an object that the kernel holds, in a `TCB`, in a handler
that is suspended, or in a buffer, leads to an object on the list of all threads or of all
semaphores; and the four semaphores of a thread, which no other thread has, are alive exactly as
long as the thread is.

Most of it is part of the invariant of the abstract system (`Names`, `Pointers`, `Contexts` in
`Spec`), because the operations need it in order not to fail.  What is added here is the tree: a
thread other than `main` has a parent, the parent is on the list and older, and so whoever follows
the parents arrives at `main` (`Kernel.descends`, by induction on the number of the thread).
-/
import Os1Kernel.Results.CharBuffer

namespace Os1Kernel

variable {k : Kernel} {a b : Sys} {t : Tid} {s : SemPtr} (raw : Tid → Message)
  (rawBuffer : BufferId → Vector UInt8 bufferLength)

/-! ## 1. The statement -/

/-- `c` is a child of `p`. -/
def Kernel.ChildOf (k : Kernel) (p c : Tid) : Prop := c ∈ k.tcbList ∧ (k.tcb c).parent = some p

/-- The handles with which a suspended call was made. -/
def Kernel.HandlesOk (k : Kernel) : Context → Prop
  | .semWait s => s ∈ k.semList
  | .join u | .send u _ => u ∈ k.tcbList
  | _ => True

/-- What the kernel's pointers and handles lead to, object by object. -/
structure Kernel.ObjectsOk (k : Kernel) : Prop where
  /-- The list of all threads is in the order of their creation. -/
  numbered : k.tcbList.Pairwise (· < ·) ∧ ∀ t ∈ k.tcbList, t < k.IDCounter
  master : k.master = some 0 ∧ 0 ∈ k.tcbList
  running : ∃ r ∈ k.tcbList, k.running = some r
  idle : ∃ i ∈ k.tcbList, k.idle = some i
  parent : ∀ p t, k.ChildOf p t → p ∈ k.tcbList ∧ p < t
  /-- Every thread descends from `main`. -/
  tree : ∀ t ∈ k.tcbList, Relation.ReflTransGen k.ChildOf 0 t
  pointers : ∀ t ∈ k.tcbList, (k.tcb t).semJoin = some (.join t) ∧
    (k.tcb t).semJoinAll = some (.joinAll t) ∧ (k.tcb t).semSend = some (.send t) ∧
    (k.tcb t).semReceive = some (.receive t)
  own : ∀ t ∈ k.tcbList, ∀ s ∈ SemPtr.own t, s ∈ k.semList ∧
    ((k.sem s).active = true ↔ (k.tcb t).finished = false)
  blocked : ∀ t s, (k.tcb t).blockedAtSem = some s →
    t ∈ k.tcbList ∧ s ∈ k.semList ∧ (k.sem s).active = true
  handles : ∀ t ∈ k.tcbList, k.HandlesOk (k.tcb t).context
  buffers : ∀ i, (k.buffer i).semPut = some (.put i) ∧ (k.buffer i).semGet = some (.get i) ∧
    (k.buffer i).mutex = some (.mutex i) ∧ ∀ s ∈ Sys.consoleSems i, s ∈ k.semList ∧
    (k.sem s).active = true

/-! ## 2. The threads -/

/-- The list of all threads, and where they come from. -/
structure Sys.Rooted (a : Sys) : Prop where
  order : a.threads.Pairwise (· < ·)
  master : a.master = some 0 ∧ 0 ∈ a.threads
  parent : ∀ t ∈ a.threads, t = 0 ∨ (a.thread t).parent ≠ none

theorem Sys.Rooted.step (h : a.Rooted) (hs : a.Step b) : b.Rooted := by
  have hparent : ∀ t ∈ a.threads, t = 0 ∨ (b.thread t).parent ≠ none := fun t ht => by
    rw [show (b.thread t).parent = (a.thread t).parent from
      congrArg Prod.fst (hs.fixed (hs.threads t ht))]
    exact h.parent t ht
  cases hs with
  | @enlist hc t hnew hlt hroom hx =>
    refine ⟨?_, ⟨h.master.1, List.mem_append_left _ h.master.2⟩, fun u hu => ?_⟩
    · change (a.threads ++ [t]).Pairwise (· < ·)
      exact List.pairwise_append.mpr ⟨h.order, List.pairwise_singleton _ t, fun u hu v hv =>
        List.mem_singleton.mp hv ▸ hnew u hu⟩
    · rcases List.mem_append.mp hu with hu | hu
      · exact hparent u hu
      · obtain rfl := List.mem_singleton.mp hu
        right
        change (Function.update a.thread a.running _ u).parent ≠ none
        rw [Sys.update_field Thread.parent (by rfl) u, hx.2.2.1]
        exact Option.some_ne_none _
  | _ => exact ⟨h.order, h.master, hparent⟩

theorem consoleReady_rooted : (Sys.consoleReady raw rawBuffer).Rooted where
  order := by
    rw [consoleReady_threads]
    decide
  master := ⟨rfl, by rw [consoleReady_threads]; decide⟩
  parent t ht := by
    rw [consoleReady_threads] at ht
    simp only [List.mem_cons, List.not_mem_nil, or_false] at ht
    rcases ht with rfl | rfl
    · exact Or.inl rfl
    · right
      rw [consoleReady_idle]
      exact Option.some_ne_none _

/-- Whoever has an older parent descends from `main`. -/
theorem Kernel.descends (hparent : ∀ t ∈ k.tcbList, t = 0 ∨ ∃ p, k.ChildOf p t ∧
    p ∈ k.tcbList ∧ p < t) (ht : t ∈ k.tcbList) : Relation.ReflTransGen k.ChildOf 0 t := by
  induction t using Nat.strongRecOn with
  | ind t ih =>
    rcases hparent t ht with rfl | ⟨p, hc, hp, hlt⟩
    · exact .refl
    · exact (ih p hlt hp).tail hc

/-! ## 3. The result -/

theorem Shows.childOf (h : Shows k a) (p : Tid) :
    k.ChildOf p t ↔ t ∈ a.threads ∧ (a.thread t).parent = some p := by
  rw [Kernel.ChildOf, h.tcbList_eq, show (k.tcb t).parent = (a.thread t).parent from
    congrArg Thread.parent (h.rep.thread_apply t)]

theorem Shows.handlesOk (h : Shows k a) {ctx : Context} (ha : a.ArgsOk t ctx) :
    k.HandlesOk ctx := by
  cases ctx with
  | semWait s =>
    change s ∈ k.semList
    rw [h.semList_eq]
    exact ha.2
  | join u | send u =>
    change u ∈ k.tcbList
    rw [h.tcbList_eq]
    exact ha.1
  | _ => trivial

/-- The semaphores of a thread, when the kernel is not at work. -/
theorem Shows.own (h : Shows k a) (ht : t ∈ a.threads) (hs : s ∈ SemPtr.own t) :
    s ∈ k.semList ∧ ((k.sem s).active = true ↔ (k.tcb t).finished = false) := by
  rw [h.semList_eq, show (k.sem s).active = (a.sem s).active from
    congrArg Sem.active (h.rep.sem_apply s), show (k.tcb t).finished = (a.thread t).finished from
    congrArg Thread.finished (h.rep.thread_apply t)]
  refine ⟨h.inv.names.own_mem t ht s hs, fun hactive => ?_, fun hf => ?_⟩
  · refine Bool.eq_false_iff.mpr fun hf => ?_
    rw [h.inv.alive.own_dead t ht hf s hs] at hactive
    cases hactive
  · refine h.inv.alive.own_active t ht hf (fun _ => ?_) s hs
    rw [h.idle.stage]
    rfl

/-- **Every object that the kernel refers to is there.**  In every reachable state the pointers and
handles in the objects of the kernel, and in the handlers that are suspended, lead to threads and
semaphores on its lists, and no thread waits at a semaphore that is closed. -/
theorem objects_ok (h : Reachable k) : k.ObjectsOk := by
  obtain ⟨raw, rawBuffer, a, hsteps, hshow⟩ := h.shows
  have hr := hsteps.invariant (fun _ hr hs => Sys.Rooted.step hr hs) (consoleReady_inv raw rawBuffer)
    (consoleReady_rooted raw rawBuffer)
  have hi := hshow.inv
  have hthread : ∀ t, (k.tcb t).toThread = a.thread t := hshow.rep.thread_apply
  have hcore := hshow.rep.core
  have hparent : ∀ p t, k.ChildOf p t → p ∈ k.tcbList ∧ p < t := fun p t hc => by
    rw [hshow.childOf] at hc
    rw [hshow.tcbList_eq]
    exact hi.names.parent t hc.1 p hc.2
  constructor
  · rw [hshow.tcbList_eq]
    exact ⟨hr.order, congrArg Core.IDCounter hcore ▸ hi.names.threads_lt⟩
  · rw [hshow.tcbList_eq]
    exact ⟨(congrArg Core.master hcore).trans hr.master.1, hr.master.2⟩
  · exact ⟨a.running, hshow.tcbList_eq ▸ hi.alive.running_mem, hshow.rep.running⟩
  · exact ⟨a.idle, hshow.tcbList_eq ▸ hi.names.idle_mem, hshow.rep.idle⟩
  · exact hparent
  · intro t ht
    refine Kernel.descends (fun t ht => ?_) ht
    rw [hshow.tcbList_eq] at ht
    refine (hr.parent t ht).imp id fun hne => ?_
    obtain ⟨p, hp⟩ := Option.ne_none_iff_exists'.mp hne
    have hc : k.ChildOf p t := (hshow.childOf p).mpr ⟨ht, hp⟩
    exact ⟨p, hc, hparent p t hc⟩
  · intro t ht
    have hp := hi.names.pointers t (hshow.tcbList_eq ▸ ht)
    rwa [← hthread] at hp
  · exact fun t ht s hs => hshow.own (hshow.tcbList_eq ▸ ht) hs
  · intro t s hb
    have hb' : (a.thread t).blockedAtSem = some s := by rwa [← hthread]
    have hw := hi.waits.waitsAt t s hb'
    rw [hshow.tcbList_eq, hshow.semList_eq, show (k.sem s).active = (a.sem s).active from
      congrArg Sem.active (hshow.rep.sem_apply s)]
    refine ⟨(hi.places.live t (Or.inr (Or.inl ?_))).1, hi.alive.active_mem s hw.active, hw.active⟩
    rw [hb']
    exact Option.some_ne_none s
  · intro t ht
    rw [show (k.tcb t).context = (a.thread t).context from congrArg Thread.context (hthread t)]
    exact hshow.handlesOk (hi.contexts.args t (hshow.tcbList_eq ▸ ht))
  · intro i
    obtain ⟨hput, hget, hmutex⟩ := hi.console.pointers i
    rw [show k.buffer = a.buffer from congrArg Core.buffer hcore]
    refine ⟨hput, hget, hmutex, fun s hs => ?_⟩
    have hactive := hi.console.active i s hs
    rw [hshow.semList_eq, show (k.sem s).active = (a.sem s).active from
      congrArg Sem.active (hshow.rep.sem_apply s)]
    exact ⟨hi.alive.active_mem s hactive, hactive⟩

/-- `main` creates two threads; the first of them creates a third one and finishes. -/
def grandchild : List Act :=
  [.ecall (.threadCreate true false (.ok (zeroMessage 4))),
    .ecall (.threadCreate true false (.ok (zeroMessage 5))), .ecall .threadDispatch, .resume,
    .ecall .threadDispatch, .resume, .ecall .threadDispatch, .resume,
    .ecall (.threadCreate true false (.ok (zeroMessage 6))), .ecall .threadExit]

theorem objects_ok_run : ∃ k, runFromZero grandchild = some k ∧
    Relation.ReflTransGen k.ChildOf 0 6 ∧ k.ObjectsOk := by
  obtain ⟨k₀, k, hboot, hrun, hk⟩ := exists_run grandchild (by decide +kernel)
  have he : (runFromZero grandchild).any (fun k => 6 ∈ k.tcbList) = true := by decide +kernel
  rw [hk] at he
  have h := objects_ok ⟨_, _, k₀, _, hboot, hrun⟩
  exact ⟨k, hk, h.tree 6 (of_decide_eq_true he), h⟩

end Os1Kernel
