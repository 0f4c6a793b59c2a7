/-
# One step of the kernel on its heap

The invariant of the machine of `Os1Kernel.Memory.Placed`: the kernel's state is one that the
kernel's own machine reaches, the heap is sound, and the table of pointers fits both (`Good`).  One
lemma for each kind of step.  Where the kernel's machine takes the answers of the allocator as
arguments, and assumes room for one more `TCB` in the address space, both come from the heap here.

* A step that does not allocate is a step of the kernel alone (`Good.kernel_step`), or of the heap
  alone (`Good.memAlloc`, `Good.memFree`, `Good.write`).
* `sem_open` and `thread_create` are both at once.  The proof computes the kernel's half from the
  pointers that the heap's half yields, and shows that the pair is a step of the kernel's machine
  with these answers (`Good.semOpen`, `Good.threadCreate`).
* The table gives each object its address.  It fits if exactly the objects that exist have one, and
  if every address is that of a live allocation large enough for the object (`Tracks`, `Covers`).
-/
import Os1Kernel.Memory.Placement
import Os1Kernel.Results.Growth

namespace Os1Kernel

open Simulation MemoryManager Run

variable {k k' : Kernel} {a : Sys} {act : Act}

/-! ## 1. The two calls that allocate

Both end in the same way, with the handle in the caller's memory and the result in `a0`.  What is
in between is computed for the kernel's machine, given what the allocator answers, so that the two
machines can be compared. -/

/-- The handle is stored, and the call returns. -/
def Kernel.back (k : Kernel) (running : Tid) (handle : Word) (ret : Int) : Kernel :=
  (k.setTcb running fun x => { x with handle := handle }).setTcb running fun x =>
    { x with context := .body, a0 := .int ret }

def Placed.back (x : Placed) (running : Tid) (handle : Word) (ret : Int) : Placed :=
  { x with kernel := x.kernel.back running handle ret }

section Back

variable {r : Tid} {handle : Word} {ret : Int}

theorem tcbList_setTcb {f : TCB → TCB} (hf : ∀ x, (f x).nextTCB = x.nextTCB) :
    (k.setTcb r f).tcbList = k.tcbList :=
  congrArg (fun f => Linked.walk f k.IDCounter k.TCBsHead) (comp_setTcb_same TCB.nextTCB hf)

theorem back_tcbList : (k.back r handle ret).tcbList = k.tcbList := by
  rw [Kernel.back, tcbList_setTcb, tcbList_setTcb]
  · exact fun _ => rfl
  · exact fun _ => rfl

theorem back_semList : (k.back r handle ret).semList = k.semList := rfl

theorem back_handle : ((k.back r handle ret).tcb r).handle = handle := by
  simp [Kernel.back, Kernel.setTcb]

theorem back_setHandle (ret : Int) (tcb : Option Tid) :
    (k.back r (.tcb tcb) ret).tcbList = (k.setHandle r tcb).tcbList := by
  rw [back_tcbList, Kernel.setHandle, tcbList_setTcb]
  exact fun _ => rfl

theorem getRunning_of (hr : k.running = some r) : getRunning k = some (r, k) := by
  simp [getRunning, hr]

theorem leaveWith_apply (hr : k.running = some r) (handle : Word) (ret : Int) :
    leaveWith false (.done (.int ret)) (k.setTcb r fun x => { x with handle := handle }) =
      some ((), k.back r handle ret) := by
  have hget := getRunning_of (k := k.setTcb r fun x => { x with handle := handle }) hr
  change leave (some (.int ret)) _ = _
  unfold leave
  rw [bind_of_eq hget, setThread_apply]
  rfl

theorem exec_threadCreate {body space : Bool} {mem : CreateMem} {tcb : Option Tid}
    (e : TCB.threadCreate body .user space DEFAULT_TIME_SLICE true mem k = some (tcb, k'))
    (hr : k'.running = some r) : exec (.ecall (.threadCreate body space mem)) k =
      some ((), k'.back r (.tcb tcb) (if tcb.isSome then 0 else ERR_THREAD_CREATE)) := by
  have hhandle : handleThreadCreate body space mem k =
      some (.done (.int (if tcb.isSome then 0 else ERR_THREAD_CREATE)),
        k'.setTcb r fun x => { x with handle := .tcb tcb }) := by
    unfold handleThreadCreate
    rw [bind_of_eq e, bind_of_eq (getRunning_of hr), bind_of_eq (setThread_apply ..)]
    rfl
  change (handleThreadCreate body space mem >>= leaveWith false) k = _
  rw [bind_of_eq hhandle, leaveWith_apply hr]

theorem exec_semOpen {init : UInt64} {mem : Bool} {sem : Option SemPtr}
    (e : kSemaphore.kSemaphoreCreate (.opened k.semIDCounter) init.toNat mem k = some (sem, k'))
    (hr : k'.running = some r) : exec (.ecall (.semOpen init mem)) k =
      some ((), k'.back r (.sem sem) (if sem.isSome then 0 else ERR_SEM_CREATE)) := by
  have hhandle : handleSemOpen init.toNat mem k =
      some (.done (.int (if sem.isSome then 0 else ERR_SEM_CREATE)),
        k'.setTcb r fun x => { x with handle := .sem sem }) := by
    unfold handleSemOpen
    rw [bind_of_eq (getKernel_apply k), bind_of_eq e, bind_of_eq (getRunning_of hr),
      bind_of_eq (setThread_apply ..)]
    rfl
  change (handleSemOpen init.toNat mem >>= leaveWith false) k = _
  rw [bind_of_eq hhandle, leaveWith_apply hr]

variable {z : ObjectSizes} {x y : Placed} {body : Bool} {raw : Message} {tcb : Option Tid}
  {init : UInt64} {sem : Option SemPtr}

theorem placed_threadCreate
    (e : Placed.threadCreate z body .user false DEFAULT_TIME_SLICE true raw x = some (tcb, y))
    (hr : y.kernel.running = some r) :
    Placed.exec z (.threadCreate body raw) x =
      some ((), y.back r (.tcb tcb) (if tcb.isSome then 0 else ERR_THREAD_CREATE)) := by
  simp only [Placed.exec, Placed.handleThreadCreate, Placed.back, bind_apply, e, Option.bind_some,
    Placed.ofKernel, getRunning_of hr, Option.map_some, setThread_apply, pure_apply,
    leaveWith_apply hr]

theorem placed_semOpen
    (e : Placed.kSemaphoreCreate z (.opened x.kernel.semIDCounter) init.toNat x = some (sem, y))
    (hr : y.kernel.running = some r) :
    Placed.exec z (.semOpen init) x =
      some ((), y.back r (.sem sem) (if sem.isSome then 0 else ERR_SEM_CREATE)) := by
  simp only [Placed.exec, Placed.handleSemOpen, Placed.back, bind_apply, Option.bind_some,
    getKernel_apply, Placed.ofKernel, e, getRunning_of hr, Option.map_some, setThread_apply,
    pure_apply, leaveWith_apply hr]

end Back

/-! ## 2. The invariant -/

namespace Placed

variable {r : HeapRange} {z : ObjectSizes} {x y : Placed} {l : Layout} {c : Heap}
  {live : List Allocation} {f : Object → Nat}

/-- The invariant.  The kernel's own invariant is in `reachable`, and that of the heap in `backed`;
what is left to say is that they are about the same objects. -/
structure Good (r : HeapRange) (z : ObjectSizes) (x : Placed) : Prop where
  reachable : Reachable x.kernel
  backed : x.Backed r z
  tracks : Tracks x.pointer x.kernel.tcbList x.kernel.semList fun t => (x.kernel.tcb t).hasBody
  console : ∀ b, x.pointer (.charBuffer b) ≠ 0 ∧ ∀ s ∈ Sys.consoleSems b, x.pointer (.sem s) ≠ 0

/-- The kernel makes its step, no object moves, and a semaphore that is handed out is there. -/
structure Next (r : HeapRange) (z : ObjectSizes) (act : PlacedAct) (x y : Placed) : Prop where
  good : y.Good r z
  kernel : ∃ calls, act.Makes calls ∧ run Os1Kernel.step x.kernel calls = some y.kernel
  stays : ∀ o, x.pointer o ≠ 0 → y.pointer o = x.pointer o
  opened : ∀ init t s, act = .semOpen init → y.kernel.running = some t →
    (y.kernel.tcb t).handle = .sem (some s) → y.pointer (.sem s) ≠ 0

theorem run_one (h : Os1Kernel.step k act = some k') :
    run Os1Kernel.step k [act] = some k' := by
  rw [run_cons, h, Option.bind_some, run_nil]

/-- There are fewer threads than blocks. -/
theorem length_le (hs : HeapState.Sound r l ⟨c, live⟩) (hc : Covers z f live) {threads : List Tid}
    (hnodup : threads.Nodup) (hne : ∀ t ∈ threads, f (.tcb t) ≠ 0) :
    threads.length ≤ maxBlocks := by
  have hinj : (threads.map fun t => f (.tcb t)).Nodup := by
    refine (List.nodup_map_iff_inj_on hnodup).mpr fun t ht u _ he => ?_
    exact Object.tcb.inj (hc.injective _ _ (hne t ht) he)
  have hsub : (threads.map fun t => f (.tcb t)) ⊆
      (l .systemMemoryHead).map fun g => g.addr + MEM_BLOCK_SIZE := fun p hp => by
    obtain ⟨t, ht, rfl⟩ := List.mem_map.mp hp
    obtain ⟨g, hg, he, -⟩ := (hs.live _).mp (hc.block _ (hne t ht))
    exact List.mem_map.mpr ⟨g, hg, he.symm⟩
  have hle := (List.subperm_of_subset hinj hsub).length_le
  rw [List.length_map, List.length_map] at hle
  exact hle.trans (hs.partition.length_le _)

/-- The heap alone changes. -/
theorem Good.heap (h : x.Good r z) {act : PlacedAct} (hact : act.Makes [])
    (hb : (⟨⟨x.kernel, c⟩, x.pointer⟩ : Placed).Backed r z) :
    Next r z act x ⟨⟨x.kernel, c⟩, x.pointer⟩ := by
  refine ⟨⟨h.reachable, hb, h.tracks, h.console⟩, ⟨[], hact, rfl⟩, fun _ _ => rfl, ?_⟩
  rintro init t s rfl
  cases hact

theorem Good.memAlloc (h : x.Good r z) (size : UInt64) (he : x.enabled (.memAlloc size)) :
    ∃ y, step z x (.memAlloc size) = some y ∧ Next r z (.memAlloc size) x y := by
  obtain ⟨l, live, hs, hc⟩ := h.backed
  obtain ⟨c, e, hs'⟩ := hs.alloc (o := .user) (roundup_lt size.toNat)
  have e' : mem_alloc size.toNat x.heap = some (_, c) := e
  refine ⟨_, ?_, h.heap (c := c) (.memAlloc size) ⟨_, _, hs', hc.mono fun a ha ho => ?_⟩⟩
  · rw [step, if_pos he]
    simp only [exec, bind_apply, ofHeap, e', Option.map_some, Option.bind_some, pure_apply]
  · split
    · exact ha
    · exact List.mem_cons_of_mem _ ha

theorem Good.memFree (h : x.Good r z) (p : UInt64) (he : x.enabled (.memFree p)) :
    ∃ y, step z x (.memFree p) = some y ∧ Next r z (.memFree p) x y := by
  obtain ⟨l, live, hs, hc⟩ := h.backed
  obtain ⟨c, e, hs'⟩ := hs.free (o := .user) ⟨p.toNat_lt, he.2⟩
  have e' : handleMemFree p.toNat x.heap = some (_, c) := e
  refine ⟨_, ?_, h.heap (c := c) (.memFree p) ⟨_, _, hs', hc.mono fun a ha ho => ?_⟩⟩
  · rw [step, if_pos he]
    simp only [exec, bind_apply, ofHeap, e', Option.map_some, Option.bind_some, pure_apply]
  · split
    · exact List.mem_filter.mpr ⟨ha, by simp [ho]⟩
    · exact ha

theorem Good.write (h : x.Good r z) (p : Nat) (m : MSH) (he : x.enabled (.write p m)) :
    ∃ y, step z x (.write p m) = some y ∧ Next r z (.write p m) x y := by
  obtain ⟨l, live, hs, hc⟩ := h.backed
  have hp : ∀ i, p ∉ x.heap.headers i := fun i => by
    obtain ⟨hfree, hsystem, huser⟩ := he
    cases i
    · exact hfree
    · exact hsystem
    · exact huser
  refine ⟨_, ?_, h.heap (c := x.heap.setMSH p fun _ => m) (.write p m) ⟨_, _, hs.write hp, hc⟩⟩
  rw [step, if_pos he]
  rfl

theorem step_eq_some {u : Unit} {act : PlacedAct} (he : x.enabled act)
    (h : exec z act x = some (u, y)) : step z x act = some y := by
  rw [step, if_pos he, h]
  rfl

theorem Good.kernel_step (h : x.Good r z) (he : x.enabled (.kernel act)) :
    ∃ y, step z x (.kernel act) = some y ∧ Next r z (.kernel act) x y := by
  obtain ⟨-, -, a, -, ha⟩ := h.reachable.shows
  obtain ⟨k', -, hs, -⟩ := step_does ha he.2
  have hgrows := step_grows h.reachable hs
  obtain ⟨⟨u, k''⟩, hexec, rfl⟩ := Option.map_eq_some_iff.mp ((if_pos he.2).symm.trans hs)
  have hthreads : ∀ t, t ∈ k''.tcbList ↔ t ∈ x.kernel.tcbList := fun t => by
    refine ⟨fun ht => ?_, hgrows.threads t⟩
    by_contra hn
    obtain ⟨space, mem, rfl⟩ := step_new h.reachable hs ht hn
    cases he.1
  refine ⟨⟨⟨k'', x.heap⟩, x.pointer⟩, step_eq_some (u := u) he ?_, ⟨h.reachable.step hs, h.backed,
    h.tracks.mono hthreads hgrows.sems hgrows.body, h.console⟩, ⟨_, .kernel act, run_one hs⟩,
    fun _ _ => rfl, nofun⟩
  simp only [exec, ofKernel, hexec, Option.map_some]

/-- The calls that a thread may make. -/
theorem enabled_of_calls {call : Syscall} (he : x.calls = true)
    (hvalid : x.kernel.validCall call = true) : x.kernel.enabled (.ecall call) = true := by
  unfold calls Kernel.enabled at he
  unfold Kernel.enabled
  cases hr : x.kernel.running with
  | none =>
    rw [hr] at he
    cases he
  | some t =>
    rw [hr] at he
    simp only [Bool.and_eq_true, decide_eq_true_eq] at he
    cases call with
    | threadExit => exact decide_eq_true he.1.1
    | _ => simp only [Bool.and_eq_true, decide_eq_true_eq]; exact ⟨he.1, hvalid⟩

theorem Good.semOpen (h : x.Good r z) (init : UInt64) (he : x.enabled (.semOpen init)) :
    ∃ y, step z x (.semOpen init) = some y ∧ Next r z (.semOpen init) x y := by
  obtain ⟨l, live, hs, hc⟩ := h.backed
  obtain ⟨-, -, a, -, ha⟩ := h.reachable.shows
  obtain ⟨p, c, l', e₁, h₁⟩ := hs.new z.semaphore
  have hid : x.kernel.semIDCounter = a.semIDCounter := congrArg Core.semIDCounter ha.rep.core
  have hnew : .opened x.kernel.semIDCounter ∉ a.sems := fun hm => by
    rw [hid] at hm
    exact lt_irrefl _ (ha.inv.names.opened_lt _ hm)
  have hfresh : x.pointer (.sem (.opened x.kernel.semIDCounter)) = 0 := by
    by_contra hne
    exact hnew (ha.semList_eq ▸ h.tracks.sem _ hne)
  -- the kernel's part, with or without memory
  obtain ⟨ret, k₁, e₂, hr, hmem, hret⟩ : ∃ ret k₁, kSemaphore.kSemaphoreCreate
      (.opened x.kernel.semIDCounter) init.toNat (p ≠ 0) x.kernel = some (ret, k₁) ∧
      k₁.running = some a.running ∧ (p ≠ 0 → .opened x.kernel.semIDCounter ∈ k₁.semList) ∧
      ∀ s, ret = some s → s = .opened x.kernel.semIDCounter ∧ p ≠ 0 := by
    by_cases hp : p = 0
    · exact ⟨none, x.kernel, by simp [kSemaphore.kSemaphoreCreate, hp], ha.rep.running,
        fun hne => absurd hp hne, by simp⟩
    · rw [decide_eq_true hp]
      obtain ⟨k₁, e₂, hrep⟩ := semaphoreCreate_yields ha.rep hnew (ha.inv.queue_nil hnew) init.toNat
      refine ⟨_, k₁, e₂, hrep.running, fun _ => ?_, fun s he => ⟨(Option.some.inj he).symm, hp⟩⟩
      rw [hrep.semList_eq (by simpa using ha.inv.names.sems_length)]
      exact List.mem_append_right _ List.mem_cons_self
  have hs' : Os1Kernel.step x.kernel (.ecall (.semOpen init (p ≠ 0))) =
      some (k₁.back a.running (.sem ret) (if ret.isSome then 0 else ERR_SEM_CREATE)) := by
    rw [Os1Kernel.step, if_pos (enabled_of_calls he rfl), exec_semOpen e₂ hr]
    rfl
  have hgrows := step_grows h.reachable hs'
  have hown : ∀ t ∈ x.kernel.tcbList, .opened x.kernel.semIDCounter ∉ SemPtr.own t := by
    simp [SemPtr.own]
  refine ⟨_, step_eq_some he (placed_semOpen (kSemaphoreCreate_eq e₁ e₂) hr),
    ⟨h.reachable.step hs', ⟨l', _, h₁, hc.place hfresh h₁.distinct⟩,
      (h.tracks.other hown hmem fun s hm => ?_).mono (fun t => ?_) (fun s hm => hm) hgrows.body,
      fun b => ⟨?_, fun s hm => ?_⟩⟩, ⟨_, .semOpen .., run_one hs'⟩, fun o ho => ?_,
    fun _ t s _ ht hhandle => ?_⟩
  · exact back_semList (r := a.running) ▸ hgrows.sems s hm
  · refine ⟨fun ht => ?_, hgrows.threads t⟩
    by_contra hn
    obtain ⟨space, mem, he'⟩ := step_new h.reachable hs' ht hn
    cases he'
  · exact (h.console b).1
  · have hne : s ≠ .opened x.kernel.semIDCounter := by
      rintro rfl
      simp [Sys.consoleSems] at hm
    change Function.update x.pointer _ p (.sem s) ≠ 0
    rw [Function.update_of_ne (by simpa using hne)]
    exact (h.console b).2 s hm
  · refine Function.update_of_ne ?_ ..
    rintro rfl
    exact ho hfresh
  · obtain rfl : t = a.running := Option.some.inj (ht.symm.trans hr)
    obtain ⟨rfl, hp⟩ := hret s (Word.sem.inj (back_handle.symm.trans hhandle))
    change Function.update x.pointer _ p _ ≠ 0
    rwa [Function.update_self]

/-- A thread that has not been created. -/
theorem Good.absent (h : x.Good r z) (ha : Shows x.kernel a) : Absent x.pointer a.IDCounter := by
  have ht : a.IDCounter ∉ x.kernel.tcbList := fun hm => by
    rw [ha.tcbList_eq] at hm
    exact lt_irrefl _ (ha.inv.names.threads_lt _ hm)
  refine ⟨?_, ?_, ?_, fun s hs => ?_⟩
  · exact of_not_not fun hne => ht ((h.tracks.tcb _).mp hne)
  · exact of_not_not fun hne => ht (h.tracks.userStack _ hne)
  · exact of_not_not fun hne => ht (h.tracks.systemStack _ hne)
  · refine of_not_not fun hne => ?_
    have hm := h.tracks.sem s hne
    rw [ha.semList_eq] at hm
    exact lt_irrefl _ (ha.inv.names.own_lt s hm _ hs)

theorem Good.threadCreate (h : x.Good r z) (body : Bool) (raw : Message)
    (he : x.enabled (.threadCreate body raw)) :
    (∃ y, step z x (.threadCreate body raw) = some y ∧ Next r z (.threadCreate body raw) x y) ∨
      step z x (.threadCreate body raw) = none ∧
        ∃ c, kMemAlloc_byte z.tcb x.heap = some (0, c) := by
  obtain ⟨l, live, hs, hc⟩ := h.backed
  obtain ⟨-, -, a, -, ha⟩ := h.reachable.shows
  obtain ⟨p, c₁, m, c₂, l₂, e₁, e₂, h₂⟩ := exists_allocate hs z body false
  by_cases hp : p = 0
  · subst hp
    refine Or.inr ⟨?_, c₁, e₁⟩
    rw [step, if_pos he]
    simp only [exec, handleThreadCreate, bind_apply, threadCreate_null e₁, Option.bind_none,
      Option.map_none]
  have habsent := h.absent ha
  have hcovers := placeThread_covers hc habsent h₂.distinct
  have hid : x.kernel.IDCounter = a.IDCounter := congrArg Core.IDCounter ha.rep.core
  have ht : a.IDCounter ∉ x.kernel.tcbList := fun hm => (h.tracks.tcb _).mpr hm habsent.tcb
  -- there are no more threads than blocks, the new one included
  have hroom : x.kernel.tcbList.length < 2 ^ 58 := by
    have hnodup : (x.kernel.tcbList ++ [a.IDCounter]).Nodup := by
      rw [ha.tcbList_eq] at ht ⊢
      exact List.nodup_append.mpr ⟨ha.inv.names.threads_nodup, List.nodup_singleton _, by
        rintro u hu v hv rfl
        exact ht (List.mem_singleton.mp hv ▸ hu)⟩
    have hle := length_le h₂ hcovers hnodup fun u hu => by
      rw [placeThread_tcb]
      split
      · exact hp
      · next hne =>
        exact (h.tracks.tcb u).mpr ((List.mem_append.mp hu).resolve_right (by simpa using hne))
    rwa [List.length_append, List.length_singleton] at hle
  have henabled : x.kernel.enabled (.ecall (.threadCreate body false (m.answers raw))) = true :=
    enabled_of_calls he (decide_eq_true hroom)
  refine Or.inl ?_
  cases hen : (m.answers raw).enough body false with
  | true =>
    obtain ⟨k₁, e₃, hr, hadded⟩ := ha.toSim.threadAdded (m.answers raw) hen
    have hs' : Os1Kernel.step x.kernel (.ecall (.threadCreate body false (m.answers raw))) =
        some (k₁.back a.running (.tcb (some a.IDCounter))
          (if (some a.IDCounter).isSome then 0 else ERR_THREAD_CREATE)) := by
      rw [Os1Kernel.step, if_pos henabled, exec_threadCreate e₃ hr]
      rfl
    have hgrows := step_grows h.reachable hs'
    have hlist := (back_setHandle (k := k₁) (r := a.running)
      (if (some a.IDCounter).isSome then 0 else ERR_THREAD_CREATE) _).trans hadded.tcbList
    obtain ⟨space, mem, he'⟩ := step_new h.reachable hs'
      (hlist ▸ List.mem_append_right _ List.mem_cons_self) ht
    have hbody := (Syscall.threadCreate.inj (Act.ecall.inj he')).1.symm
    refine ⟨_, step_eq_some he (placed_threadCreate (threadCreate_some hp e₁ e₂ e₃) hr),
      ⟨h.reachable.step hs', ⟨l₂, _, h₂, hcovers⟩, ?_, fun b => ⟨(h.console b).1, fun s hm => ?_⟩⟩,
      ⟨_, .threadCreate .., run_one hs'⟩, fun o ho => habsent.placeThread ho, ?_⟩
    · have htracks : Tracks (Placed.placeThread a.IDCounter p m x.pointer)
          (x.kernel.tcbList ++ [a.IDCounter]) (x.kernel.semList ++ SemPtr.own a.IDCounter) _ :=
        h.tracks.placeThread ht hp hen hbody hgrows.body fun s hm => hm
      rw [← hlist] at htracks
      exact hadded.semList ▸ htracks
    · change Placed.placeThread a.IDCounter p m x.pointer (.sem s) ≠ 0
      rw [habsent.placeThread ((h.console b).2 s hm)]
      exact (h.console b).2 s hm
    · rintro _ _ _ ⟨⟩
  | false =>
    obtain ⟨k₁, e₃, hr, hnothing⟩ := ha.toSim.nothingAdded (m.answers raw) hen
    obtain ⟨c₃, l₃, e₄, h₃⟩ := h₂.discard
    have hs' : Os1Kernel.step x.kernel (.ecall (.threadCreate body false (m.answers raw))) =
        some (k₁.back a.running (.tcb none)
          (if (none : Option Tid).isSome then 0 else ERR_THREAD_CREATE)) := by
      rw [Os1Kernel.step, if_pos henabled, exec_threadCreate e₃ hr]
      rfl
    have hgrows := step_grows h.reachable hs'
    have hlist := (back_setHandle (k := k₁) (r := a.running)
      (if (none : Option Tid).isSome then 0 else ERR_THREAD_CREATE) _).trans hnothing.tcbList
    refine ⟨_, step_eq_some he (placed_threadCreate (threadCreate_none hp e₁ e₂ e₃ e₄) hr),
      ⟨h.reachable.step hs', ⟨l₃, _, h₃, ?_⟩, ?_, fun b => ⟨(h.console b).1, fun s hm => ?_⟩⟩,
      ⟨_, .threadCreate .., run_one hs'⟩, fun o ho => hid ▸ habsent.placeSems ho, ?_⟩
    · change Covers z (placeSems x.kernel.IDCounter m x.pointer) _
      rw [hid]
      exact placeSems_covers hc habsent.sem h₃.distinct
    · change Tracks (placeSems x.kernel.IDCounter m x.pointer) _ _ _
      rw [hid]
      have htracks := (h.tracks.placeSems (m := m) ht raw).mono (fun t => Iff.rfl)
        (fun s hm => hm) hgrows.body
      rw [← hlist] at htracks
      exact hnothing.semList ▸ htracks
    · change Placed.placeSems x.kernel.IDCounter m x.pointer (.sem s) ≠ 0
      rw [hid, habsent.placeSems ((h.console b).2 s hm)]
      exact (h.console b).2 s hm
    · rintro _ _ _ ⟨⟩

/-- **One step.**  It fails only where a null `TCB` is followed. -/
theorem Good.step (h : x.Good r z) {act : PlacedAct} (he : x.enabled act) :
    (∃ y, Placed.step z x act = some y ∧ Next r z act x y) ∨
      (∃ start_routine raw, act = .threadCreate start_routine raw) ∧
        Placed.step z x act = none ∧ ∃ c, kMemAlloc_byte z.tcb x.heap = some (0, c) := by
  cases act with
  | threadCreate body raw => exact (h.threadCreate body raw he).imp_right fun hnone =>
      ⟨⟨body, raw, rfl⟩, hnone⟩
  | semOpen init => exact Or.inl (h.semOpen init he)
  | memAlloc size => exact Or.inl (h.memAlloc size he)
  | memFree p => exact Or.inl (h.memFree p he)
  | write p m => exact Or.inl (h.write p m he)
  | kernel act => exact Or.inl (h.kernel_step he)

theorem Good.next (h : x.Good r z) {act : PlacedAct} (hs : Placed.step z x act = some y) :
    Next r z act x y := by
  have he : x.enabled act := by
    by_contra hn
    rw [Placed.step, if_neg hn] at hs
    cases hs
  obtain ⟨w, hw, hnext⟩ | ⟨-, hnone, -⟩ := h.step he
  · obtain rfl := Option.some.inj (hs.symm.trans hw)
    exact hnext
  · rw [hnone] at hs
    cases hs

end Placed

end Os1Kernel
