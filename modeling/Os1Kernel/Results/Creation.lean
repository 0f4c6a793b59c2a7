/-
# Thread creation is nearly all or nothing

`SYSCALL_THREAD_CREATE` on every reachable kernel and every heap that a run leaves.  If there is
memory for everything, the thread is there; if something is missing behind the `TCB` itself, the
`TCB` and its stacks are given back, and the semaphores that could be created stay, closed: the
list of all semaphores has them until the shutdown, and so has the system's list of segments.

The call runs on two states at once, the kernel's and the heap's, and each has a half of the proof:

* the heap's half follows the `new`s and `delete`s of the constructor and the destructor.  Each is
  one allowed call of the memory manager, so the heap stays sound, and what is live afterwards is a
  list of allocations that grows and shrinks (section 2);
* the kernel's half is `Refine.Attempt`, which takes the answers of the allocator as arguments.

`thread_create_outcomes` puts them together: the answers are those that the heap gives.  That the
failing call is not all or nothing is `thread_create_not_atomic`, on a heap with room for a part of
what the constructor asks for.
-/
import Os1Kernel.Memory.Creation
import Os1Kernel.Refine.Attempt
import Os1Kernel.Refine.Machine
import Os1Kernel.Results.FreeList

namespace Os1Kernel

open DoublyLinked Simulation Run MemoryManager

variable {r : HeapRange} {l : Layout} {s : HeapState} {z : Sizes} {n p : Nat} {c : Heap}
  {kept live : List Allocation} {k k₁ : Kernel} {a d : Sys} {t : Tid} {body space : Bool}
  {raw : Message}

/-! ## 1. One `new`, one `delete` -/

theorem roundup_lt (n : Nat) : ROUNDUP n MEM_BLOCK_SIZE + 1 < 2 ^ 64 := by
  simp only [ROUNDUP, MEM_BLOCK_SIZE, u64]
  omega

/-- What a `new` of `n` bytes that yields `p` adds to what is live. -/
def allocated (n p : Nat) : List Allocation :=
  if p = 0 then [] else [⟨.system, p, ROUNDUP n MEM_BLOCK_SIZE⟩]

theorem HeapState.Sound.new (h : HeapState.Sound r l ⟨c, live⟩) (n : Nat) : ∃ p c' l',
    kMemAlloc_byte n c = some (p, c') ∧ HeapState.Sound r l' ⟨c', allocated n p ++ live⟩ := by
  obtain ⟨c', hc, hs⟩ := h.alloc (o := .system) (roundup_lt n)
  refine ⟨_, c', (l.alloc Owner.system.head (ROUNDUP n MEM_BLOCK_SIZE)).2, hc, ?_⟩
  unfold allocated
  split at hs
  · next h0 =>
    rw [if_pos h0]
    exact hs
  · next h0 =>
    rw [if_neg h0]
    exact hs

/-- A `new` under a condition. -/
theorem HeapState.Sound.newIf (h : HeapState.Sound r l ⟨c, live⟩) (b : Bool) (n : Nat) :
    ∃ p c' l', newIf b n c = some (p, c') ∧
      HeapState.Sound r l' ⟨c', allocated n p ++ live⟩ := by
  cases b with
  | true => exact h.new n
  | false => exact ⟨0, c, l, rfl, h⟩

/-- The `delete` of what a `new` yielded takes away what it added. -/
theorem HeapState.Sound.delete (h : HeapState.Sound r l ⟨c, kept ++ (allocated n p ++ live)⟩) :
    ∃ x c' l', kMemFree p c = some (x, c') ∧ HeapState.Sound r l' ⟨c', kept ++ live⟩ := by
  by_cases hp : p = 0
  · subst hp
    exact ⟨0, c, l, rfl, h⟩
  have hmem : ⟨.system, p, ROUNDUP n MEM_BLOCK_SIZE⟩ ∈ kept ++ (allocated n p ++ live) := by
    simp [allocated, hp]
  have hq : p < 2 ^ 64 ∧ p ≠ MEM_BLOCK_SIZE := h.freeable hmem
  obtain ⟨c', hc, hs⟩ := h.free (o := .system) hq
  rw [if_pos (h.free_live hmem rfl rfl)] at hs
  refine ⟨_, c', (l.free Owner.system.head p).2, hc, ?_⟩
  have hdistinct := h.distinct
  simp only [allocated, if_neg hp, List.singleton_append] at hs hdistinct
  obtain ⟨-, hlive, hkept⟩ := List.pairwise_append.mp hdistinct
  have hne : ∀ a ∈ kept ++ live, ¬ (a.owner = .system ∧ a.pointer = p) := fun a ha he => by
    rcases List.mem_append.mp ha with ha | ha
    · exact hkept a ha _ List.mem_cons_self he.2
    · exact (List.pairwise_cons.mp hlive).1 a ha he.2.symm
  have hfilter : (kept ++ ⟨.system, p, ROUNDUP n MEM_BLOCK_SIZE⟩ :: live).filter
      (fun a => ¬ (a.owner = .system ∧ a.pointer = p)) = kept ++ live := by
    rw [List.filter_append, List.filter_cons_of_neg (by simp), ← List.filter_append]
    exact List.filter_eq_self.mpr fun a ha => decide_eq_true (hne a ha)
  rwa [hfilter] at hs

/-! ## 2. The `new`s of the constructor

What is live after the constructor and after the destructor, as lists of blocks. -/

/-- The blocks of the stacks. -/
def Allocated.stackBlocks (z : Sizes) (m : Allocated) : List Allocation :=
  allocated z.stack m.systemStack ++ allocated z.stack m.userStack

/-- The blocks of the semaphores. -/
def Allocated.semaphoreBlocks (z : Sizes) (m : Allocated) : List Allocation :=
  allocated z.semaphore m.semReceive ++ (allocated z.semaphore m.semSend ++
    (allocated z.semaphore m.semJoinAll ++ allocated z.semaphore m.semJoin))

theorem HeapState.Sound.allocate (h : HeapState.Sound r l ⟨c, live⟩) (z : Sizes)
    (body space : Bool) : ∃ m c' l', TCB.allocate z body space c = some (m, c') ∧
      HeapState.Sound r l' ⟨c', m.semaphoreBlocks z ++ (m.stackBlocks z ++ live)⟩ := by
  obtain ⟨p₁, c₁, _, e₁, h₁⟩ := h.newIf (body && !space) z.stack
  obtain ⟨p₂, c₂, _, e₂, h₂⟩ := h₁.newIf body z.stack
  obtain ⟨p₃, c₃, _, e₃, h₃⟩ := h₂.new z.semaphore
  obtain ⟨p₄, c₄, _, e₄, h₄⟩ := h₃.new z.semaphore
  obtain ⟨p₅, c₅, _, e₅, h₅⟩ := h₄.new z.semaphore
  obtain ⟨p₆, c₆, l', e₆, h₆⟩ := h₅.new z.semaphore
  refine ⟨⟨p₁, p₂, p₃, p₄, p₅, p₆⟩, c₆, l', ?_, ?_⟩
  · unfold TCB.allocate
    simp only [bind_apply, e₁, e₂, e₃, e₄, e₅, e₆, Option.bind_some, pure_apply]
  · simpa only [Allocated.semaphoreBlocks, Allocated.stackBlocks, List.append_assoc] using h₆

theorem HeapState.Sound.discard {m : Allocated}
    (h : HeapState.Sound r l ⟨c, kept ++ (m.stackBlocks z ++ (allocated n p ++ live))⟩) :
    ∃ c' l', TCB.discard p m c = some ((), c') ∧ HeapState.Sound r l' ⟨c', kept ++ live⟩ := by
  rw [Allocated.stackBlocks, List.append_assoc, ← List.append_assoc kept] at h
  obtain ⟨_, c₁, _, e₁, h₁⟩ := h.delete
  rw [List.append_assoc] at h₁
  obtain ⟨_, c₂, _, e₂, h₂⟩ := h₁.delete
  obtain ⟨_, c₃, l', e₃, h₃⟩ := h₂.delete
  refine ⟨c₃, l', ?_, h₃⟩
  unfold TCB.discard
  simp only [bind_apply, e₁, e₂, e₃, Option.bind_some, pure_apply]

/-- The constructor's semaphores, and their blocks. -/
theorem length_created (m : Allocated) (raw : Message) (t : Tid) :
    ((m.answers raw).created t).length = (m.semaphoreBlocks z).length := by
  have hone : ∀ (s : SemPtr) (p : Nat),
      (SemPtr.ifMem s (p ≠ 0)).toList.length = (allocated z.semaphore p).length := fun s p => by
    unfold SemPtr.ifMem allocated
    by_cases hp : p = 0 <;> simp [hp]
  simp only [CreateMem.created, Allocated.semaphoreBlocks, Allocated.answers, List.length_append, hone]
  omega

theorem mem_semaphoreBlocks {m : Allocated} {a : Allocation} (h : a ∈ m.semaphoreBlocks z) :
    a.owner = .system ∧ a.nBlocks = ROUNDUP z.semaphore MEM_BLOCK_SIZE := by
  have hone : ∀ {p : Nat}, a ∈ allocated z.semaphore p →
      a.owner = .system ∧ a.nBlocks = ROUNDUP z.semaphore MEM_BLOCK_SIZE := fun {p} ha => by
    unfold allocated at ha
    split at ha
    · cases ha
    · rw [List.mem_singleton.mp ha]
      exact ⟨rfl, rfl⟩
  simp only [Allocated.semaphoreBlocks, List.mem_append] at h
  rcases h with h | h | h | h <;> exact hone h

/-! ## 3. The kernel's part

The two outcomes, by the lists of the machine. -/

/-- The thread `t` is there. -/
structure ThreadAdded (body : Bool) (k k' : Kernel) (running t : Tid) : Prop where
  fresh : t ∉ k.tcbList
  tcbList : k'.tcbList = k.tcbList ++ [t]
  readyList : k'.readyList = if body then k.readyList ++ [t] else k.readyList
  semList : k'.semList = k.semList ++ SemPtr.own t
  children : (k'.tcb running).numOfActiveChildren =
    u64 ((k.tcb running).numOfActiveChildren + 1)
  handle : (k'.tcb running).handle = .tcb (some t)

/-- No thread is there; the semaphores `left` stay, closed. -/
structure NothingAdded (k k' : Kernel) (running : Tid) (left : List SemPtr) : Prop where
  tcbList : k'.tcbList = k.tcbList
  readyList : k'.readyList = k.readyList
  semList : k'.semList = k.semList ++ left
  closed : ∀ s ∈ left, (k'.sem s).active = false
  children : (k'.tcb running).numOfActiveChildren = (k.tcb running).numOfActiveChildren
  handle : (k'.tcb running).handle = .tcb none

/-- `*((TCB**)a1_pHandle) = tcb` -/
def Kernel.setHandle (k : Kernel) (running : Tid) (tcb : Option Tid) : Kernel :=
  k.setTcb running fun x => { x with handle := .tcb tcb }

theorem setHandle_self (k : Kernel) (running : Tid) (tcb : Option Tid) :
    (k.setHandle running tcb).tcb running = { k.tcb running with handle := .tcb tcb } :=
  Function.update_self ..

theorem Rep.setHandle (h : Rep k a) (running : Tid) (tcb : Option Tid) :
    Rep (k.setHandle running tcb) (a.setThread running fun x => { x with handle := .tcb tcb }) :=
  h.setThread running fun x => { x with handle := .tcb tcb }

theorem Sim.threadAdded (h : Sim k a) (mem : CreateMem) (hen : mem.enough body space = true) :
    ∃ k₁, TCB.threadCreate body .user space DEFAULT_TIME_SLICE true mem k =
        some (some a.IDCounter, k₁) ∧ k₁.running = some a.running ∧
      ThreadAdded body k (k₁.setHandle a.running (some a.IDCounter)) a.running a.IDCounter := by
  obtain ⟨d, ⟨k₁, hcode, hrep⟩, hrun, hthreads, hready, hsems, hid, hsid, hchildren⟩ :=
    threadCreate_succeeds h.rep h.inv rfl .user DEFAULT_TIME_SLICE hen
  refine ⟨k₁, hcode, hrun ▸ hrep.running, ?_⟩
  have hset := hrep.setHandle a.running (some a.IDCounter)
  have hlen₁ := h.inv.ready_length
  have hlen₂ := h.inv.threads_length
  have hlen₃ := h.inv.names.sems_length
  constructor
  · rw [h.tcbList_eq]
    exact fun hm => lt_irrefl _ (h.inv.names.threads_lt _ hm)
  · rw [h.tcbList_eq, ← hthreads]
    refine hset.tcbList_eq ?_
    show d.threads.length ≤ d.IDCounter
    rw [hthreads, List.length_append, List.length_singleton]
    omega
  · rw [h.readyList_eq, ← hready]
    refine hset.readyList_eq ?_
    show d.ready.length ≤ d.IDCounter
    rw [hready]
    cases body with
    | true =>
      rw [if_pos rfl, List.length_append, List.length_singleton]
      omega
    | false =>
      rw [if_neg Bool.false_ne_true]
      omega
  · rw [h.semList_eq, ← hsems]
    refine hset.semList_eq ?_
    show d.sems.length ≤ d.semIDCounter
    rw [hsems, List.length_append, show (SemPtr.own a.IDCounter).length = 4 from rfl]
    omega
  · rw [setHandle_self]
    show (k₁.tcb a.running).toThread.numOfActiveChildren = _
    rw [hrep.thread_apply, hchildren, ← h.rep.thread_apply]
  · rw [setHandle_self]

theorem Sim.nothingAdded (h : Sim k a) (mem : CreateMem) (hen : mem.enough body space = false) :
    ∃ k₁, TCB.threadCreate body .user space DEFAULT_TIME_SLICE true mem k = some (none, k₁) ∧
      k₁.running = some a.running ∧
      NothingAdded k (k₁.setHandle a.running none) a.running (mem.created a.IDCounter) := by
  obtain ⟨d, ⟨k₁, hcode, hrep⟩, hd, hclosed⟩ :=
    threadCreate_fails h.rep h.inv rfl .user DEFAULT_TIME_SLICE hen
  refine ⟨k₁, hcode, hd.running ▸ hrep.running, ?_⟩
  have hset := hrep.setHandle a.running none
  have hid := hd.IDCounter
  constructor
  · rw [h.tcbList_eq, ← hd.threads]
    refine hset.tcbList_eq ?_
    show d.threads.length ≤ d.IDCounter
    rw [hd.threads]
    exact h.inv.threads_length.trans hid
  · rw [h.readyList_eq, ← hd.ready]
    refine hset.readyList_eq ?_
    show d.ready.length ≤ d.IDCounter
    rw [hd.ready]
    exact h.inv.ready_length.trans hid
  · rw [h.semList_eq, ← hd.sems]
    refine hset.semList_eq ?_
    show d.sems.length ≤ d.semIDCounter
    rw [hd.sems, hd.semIDCounter, List.length_append]
    exact Nat.add_le_add_right h.inv.names.sems_length _
  · intro s hs
    show (k₁.sem s).toSem.active = false
    rw [hrep.sem_apply]
    exact hclosed s hs
  · have hne : a.running ≠ a.IDCounter := fun e =>
      lt_irrefl _ (e ▸ h.inv.names.threads_lt _ h.inv.alive.running_mem)
    rw [setHandle_self]
    show (k₁.tcb a.running).toThread.numOfActiveChildren = _
    rw [hrep.thread_apply, hd.others _ hne, ← h.rep.thread_apply]
  · rw [setHandle_self]

/-! ## 4. The call -/

section Call

variable {c₁ c₂ c₃ : Heap} {m : Allocated} {running : Tid}

theorem handleThreadCreate_some (hp : p ≠ 0) (e₁ : kMemAlloc_byte z.tcb c = some (p, c₁))
    (e₂ : TCB.allocate z body space c₁ = some (m, c₂))
    (e₃ : TCB.threadCreate body .user space DEFAULT_TIME_SLICE true (m.answers raw) k =
      some (some t, k₁)) (hr : k₁.running = some running) :
    Machine.handleThreadCreate z body space raw ⟨k, c⟩ =
      some (.done (.int 0), ⟨k₁.setHandle running (some t), c₂⟩) := by
  have hget : getRunning k₁ = some (running, k₁) := by
    simp [getRunning, hr]
  unfold Machine.handleThreadCreate Machine.threadCreate
  simp only [bind_apply, onHeap, onKernel, e₁, e₂, e₃, toPtr, if_neg hp, followMSH, hget,
    setThread_apply, Option.map_some, Option.bind_some, pure_apply, Option.isNone_some,
    Bool.false_eq_true, if_false, Option.isSome_some, if_true]
  rfl

theorem handleThreadCreate_none (hp : p ≠ 0) (e₁ : kMemAlloc_byte z.tcb c = some (p, c₁))
    (e₂ : TCB.allocate z body space c₁ = some (m, c₂))
    (e₃ : TCB.threadCreate body .user space DEFAULT_TIME_SLICE true (m.answers raw) k =
      some (none, k₁)) (hr : k₁.running = some running)
    (e₄ : TCB.discard p m c₂ = some ((), c₃)) :
    Machine.handleThreadCreate z body space raw ⟨k, c⟩ =
      some (.done (.int ERR_THREAD_CREATE), ⟨k₁.setHandle running none, c₃⟩) := by
  have hget : getRunning k₁ = some (running, k₁) := by
    simp [getRunning, hr]
  unfold Machine.handleThreadCreate Machine.threadCreate
  simp only [bind_apply, onHeap, onKernel, e₁, e₂, e₃, e₄, toPtr, if_neg hp, followMSH, hget,
    setThread_apply, Option.map_some, Option.bind_some, pure_apply, Option.isNone_none,
    Bool.false_eq_true, if_false, Option.isSome_none, if_true]
  rfl

end Call

/-- What a failed call changes on the heap: the blocks `left` are live in addition. -/
structure OnlyBlocks (r : HeapRange) (s : HeapState) (c : Heap) (left : List Allocation) : Prop where
  sound : HeapState.Sound r c.segments ⟨c, left ++ s.live⟩
  system : ∀ g, g ∈ c.segments .systemMemoryHead ↔ g ∈ s.heap.segments .systemMemoryHead ∨
    1 ≤ g.size ∧ ⟨.system, g.addr + MEM_BLOCK_SIZE, g.size - 1⟩ ∈ left
  user : c.segments .userMemoryHead = s.heap.segments .userMemoryHead
  same : left = [] → c.segments = s.heap.segments

theorem HeapState.Sound.onlyBlocks (h : s.Sound r s.heap.segments)
    (h' : HeapState.Sound r l ⟨c, kept ++ s.live⟩) (hsys : ∀ a ∈ kept, a.owner = .system) :
    OnlyBlocks r s c kept := by
  rw [← h'.holds.segments_eq h'.partition] at h'
  refine ⟨h', fun g => ?_, ?_, ?_⟩
  · have h₁ : g ∈ s.heap.segments .systemMemoryHead ↔ _ := h.mem_iff (o := .system)
    have h₂ : g ∈ c.segments .systemMemoryHead ↔ _ := h'.mem_iff (o := .system)
    rw [h₂, h₁, List.mem_append]
    tauto
  · refine (h'.partition.ascending _).ext (h.partition.ascending _) fun g => ?_
    have h₁ := h.mem_iff (g := g) (o := .user)
    have h₂ := h'.mem_iff (g := g) (o := .user)
    rw [List.mem_append, or_iff_right fun hk => by cases hsys _ hk] at h₂
    exact h₂.trans h₁.symm
  · rintro rfl
    exact h'.ext h fun _ => Iff.rfl

variable {mem : Nat → MSH} {calls : List HeapCall}

/-- **A thread is created, or closed semaphores are all that is left of it.**  On any reachable
kernel and any heap that a run leaves, once there is memory for the `TCB`, the call returns, and
its result says which of the two has happened to the lists of the kernel and to those of the heap.
-/
theorem thread_create_outcomes (hk : Reachable k) (h : AllowedRun r mem calls)
    (hs : heapRun r mem calls = some s) (htcb : kMemAlloc_byte z.tcb s.heap = some (p, c))
    (hp : p ≠ 0) (body space : Bool) (raw : Message) :
    ∃ running x k' c', k.running = some running ∧
      Machine.handleThreadCreate z body space raw ⟨k, s.heap⟩ =
        some (.done (.int x), ⟨k', c'⟩) ∧
      (x = 0 ∧ (∃ t, ThreadAdded body k k' running t) ∨
        x = ERR_THREAD_CREATE ∧ ∃ (sems : List SemPtr) (left : List Allocation),
          NothingAdded k k' running sems ∧ OnlyBlocks r s c' left ∧ left.length = sems.length ∧
          ∀ b ∈ left, b.owner = .system ∧ b.nBlocks = ROUNDUP z.semaphore MEM_BLOCK_SIZE) := by
  obtain ⟨s', hs', hsound⟩ := heapRun_sound h
  obtain rfl : s' = s := Option.some.inj (hs'.symm.trans hs)
  obtain ⟨-, -, a, -, ha⟩ := hk.shows
  obtain ⟨p', c₁, l₁, e₁, h₁⟩ := hsound.new z.tcb
  obtain ⟨rfl, rfl⟩ := Prod.mk.inj (Option.some.inj (e₁.symm.trans htcb))
  obtain ⟨m, c₂, l₂, e₂, h₂⟩ := h₁.allocate z body space
  cases hen : (m.answers raw).enough body space with
  | true =>
    obtain ⟨k₁, e₃, hr, hadded⟩ := ha.toSim.threadAdded (m.answers raw) hen
    exact ⟨a.running, 0, _, _, ha.rep.running, handleThreadCreate_some hp e₁ e₂ e₃ hr,
      Or.inl ⟨rfl, _, hadded⟩⟩
  | false =>
    obtain ⟨k₁, e₃, hr, hnothing⟩ := ha.toSim.nothingAdded (m.answers raw) hen
    obtain ⟨c₃, l₃, e₄, h₃⟩ := h₂.discard
    exact ⟨a.running, ERR_THREAD_CREATE, _, _, ha.rep.running,
      handleThreadCreate_none hp e₁ e₂ e₃ hr e₄, Or.inr ⟨rfl, _, _, hnothing,
        hsound.onlyBlocks h₃ fun b hb => (mem_semaphoreBlocks hb).1, (length_created m raw _).symm,
        fun b hb => mem_semaphoreBlocks hb⟩⟩

theorem thread_create_outcomes_demo : ∃ k s running x t, Reachable k ∧
    heapRun demoRange demoMemory [] = some s ∧ k.running = some running ∧
    Machine.handleThreadCreate ⟨592, 32768, 56⟩ true false (zeroMessage 0) ⟨k, s.heap⟩ =
      some (.done (.int x), t) ∧ (x = 0 ∨ x = ERR_THREAD_CREATE) := by
  obtain ⟨k₀, k, hboot, hrun, -⟩ := exists_run [] (by decide +kernel)
  have hk : Reachable k := ⟨_, _, k₀, [], hboot, hrun⟩
  have hcalls : AllowedRun demoRange demoMemory [] := fun _ _ => trivial
  have hany : ((heapRun demoRange demoMemory []).bind fun s =>
      kMemAlloc_byte 592 s.heap).any (fun x => x.1 ≠ 0) = true := by decide +kernel
  obtain ⟨⟨p, c⟩, he, hp⟩ := (Option.any_eq_true ..).mp hany
  obtain ⟨s, hs, he⟩ := Option.bind_eq_some_iff.mp he
  obtain ⟨running, x, k', c', hr, hx, ht⟩ := thread_create_outcomes hk hcalls hs
    (z := ⟨592, 32768, 56⟩) he (of_decide_eq_true hp) true false (zeroMessage 0)
  exact ⟨k, s, running, x, _, hk, hs, hr, hx, ht.imp And.left And.left⟩

/-! ## 5. What is not all or nothing -/

def realSizes : Sizes := ⟨592, 32768, 56⟩

/-- Forty blocks. -/
def roomyRange : HeapRange where
  start := 64
  stop := 2624
  above := by decide
  room := by decide
  lt := by decide

/-- `main` calls `thread_create`; the heap has the blocks of `r`, less those of some calls. -/
def createAfter (r : HeapRange) (calls : List HeapCall) (start_routine : Bool) :
    Option (Kernel × HeapState × Option (Outcome Word × Machine)) :=
  (runFromZero []).bind fun k => (heapRun r demoMemory calls).map fun s =>
    (k, s, Machine.handleThreadCreate realSizes start_routine false (zeroMessage 0) ⟨k, s.heap⟩)

theorem exists_createAfter {r : HeapRange} {calls : List HeapCall} {start_routine : Bool}
    {P : Kernel × HeapState × Option (Outcome Word × Machine) → Bool}
    (h : (createAfter r calls start_routine).any P = true) :
    ∃ k s, Reachable k ∧ heapRun r demoMemory calls = some s ∧
      createAfter r calls start_routine = some (k, s,
        Machine.handleThreadCreate realSizes start_routine false (zeroMessage 0) ⟨k, s.heap⟩) := by
  obtain ⟨x, he, -⟩ := (Option.any_eq_true ..).mp h
  obtain ⟨k, hk, hx⟩ := Option.bind_eq_some_iff.mp he
  obtain ⟨s, hs, rfl⟩ := Option.map_eq_some_iff.mp hx
  obtain ⟨k₀, hboot, hrun⟩ := Option.bind_eq_some_iff.mp hk
  exact ⟨k, s, ⟨_, _, k₀, [], hboot, hrun⟩, hs, he⟩

/-- With room for the `TCB` and one semaphore the semaphore stays behind; a thread without
`start_routine` is not put in the ready queue; without room for the `TCB` a null pointer is
followed. -/
theorem thread_create_not_atomic :
    (∃ k s x, Reachable k ∧ heapRun demoRange demoMemory [] = some s ∧
      Machine.handleThreadCreate realSizes true false (zeroMessage 0) ⟨k, s.heap⟩ =
        some (.done (.int ERR_THREAD_CREATE), x) ∧ x.kernel.semList ≠ k.semList ∧
      ∀ i, i ≠ .userMemoryHead → x.heap.segments i ≠ s.heap.segments i) ∧
    (∃ k s x, Reachable k ∧ heapRun roomyRange demoMemory [] = some s ∧
      Machine.handleThreadCreate realSizes false false (zeroMessage 0) ⟨k, s.heap⟩ =
        some (.done (.int 0), x) ∧ x.kernel.readyList = k.readyList) ∧
    ∃ k s, Reachable k ∧ heapRun demoRange demoMemory [.alloc .user 12] = some s ∧
      Machine.handleThreadCreate realSizes true false (zeroMessage 0) ⟨k, s.heap⟩ = none := by
  have h₁ : (createAfter demoRange [] true).any (fun x => x.2.2.any fun y =>
      y.1 = .done (.int ERR_THREAD_CREATE) ∧ y.2.kernel.semList ≠ x.1.semList ∧
      y.2.heap.segments .freeMemoryHead ≠ x.2.1.heap.segments .freeMemoryHead ∧
      y.2.heap.segments .systemMemoryHead ≠ x.2.1.heap.segments .systemMemoryHead) = true := by
    decide +kernel
  have h₂ : (createAfter roomyRange [] false).any (fun x => x.2.2.any fun y =>
      y.1 = .done (.int 0) ∧ y.2.kernel.readyList = x.1.readyList) = true := by
    decide +kernel
  have h₃ : (createAfter demoRange [.alloc .user 12] true).any (fun x => x.2.2.isNone) = true := by
    decide +kernel
  obtain ⟨k₁, s₁, hk₁, hs₁, he₁⟩ := exists_createAfter h₁
  obtain ⟨k₂, s₂, hk₂, hs₂, he₂⟩ := exists_createAfter h₂
  obtain ⟨k₃, s₃, hk₃, hs₃, he₃⟩ := exists_createAfter h₃
  rw [he₁, Option.any_some] at h₁
  rw [he₂, Option.any_some] at h₂
  rw [he₃, Option.any_some] at h₃
  obtain ⟨⟨w₁, x₁⟩, hx₁, h₁⟩ := (Option.any_eq_true ..).mp h₁
  obtain ⟨⟨w₂, x₂⟩, hx₂, h₂⟩ := (Option.any_eq_true ..).mp h₂
  obtain ⟨rfl, hsem, hfree, hsys⟩ := of_decide_eq_true h₁
  obtain ⟨rfl, hready⟩ := of_decide_eq_true h₂
  refine ⟨⟨k₁, s₁, x₁, hk₁, hs₁, hx₁, hsem, fun i hi => ?_⟩, ⟨k₂, s₂, x₂, hk₂, hs₂, hx₂, hready⟩,
    k₃, s₃, hk₃, hs₃, Option.isNone_iff_eq_none.mp h₃⟩
  cases i with
  | freeMemoryHead => exact hfree
  | systemMemoryHead => exact hsys
  | userMemoryHead => exact absurd rfl hi

end Os1Kernel
