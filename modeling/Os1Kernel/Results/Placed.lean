/-
# The kernel on its heap is a run of the kernel, and its objects do not overlap

The machine of `Os1Kernel.Memory.Placed`, from `main` on, with clients that call, allocate and
free.  `main` gets everything that it allocates when the heap has room for it.  From then on the
kernel makes a run of the machine of `Os1Kernel.Kernel.Trap`, and in every state each object that
the kernel has allocated lies in a block of its own.

* `boot_good`: the boot sequence establishes the invariant `Good` of `Results.PlacedSteps`.  The
  room is counted down from allocation to allocation (`Stocked`), and first fit in a list of one
  long free segment always succeeds while there is room for one more.
* `Good.run`: every run keeps it.
* `placed_refines`: forgetting the heap, such a run is one of the kernel's own machine.  So all
  that is proved about the latter holds here, for a kernel whose allocator answers as this one
  does.
* `objects_apart`: an object lies within the payload of a live segment of the system, and the
  segments are disjoint.

What is assumed: `main` finds room for what it allocates (`bootCost`); clients ask for bytes, free
any address but that of the second block, and write where no header of the heap is
(`Placed.enabled`); and a semaphore without memory is not constructed.
-/
import Os1Kernel.Results.PlacedSteps

namespace Os1Kernel

open Simulation MemoryManager Run

variable {k' : Kernel} {a : Sys} {t : Tid}

namespace Placed

variable {r : HeapRange} {z : ObjectSizes} {x y : Placed} {l : Layout} {c : Heap}
  {live : List Allocation} {f : Object → Nat}

/-! ## 1. The start -/

/-- What `main` has allocated so far, with `n` blocks left. -/
structure Stocked (r : HeapRange) (z : ObjectSizes) (n : Nat) (threads : List Tid)
    (sems : List SemPtr) (buffers : List BufferId) (x : Placed) : Prop where
  room : ∃ live, Roomy r n x.heap live ∧ Covers z x.pointer live
  tracks : Tracks x.pointer threads sems fun t => t ≠ 0
  buffer : ∀ b, x.pointer (.charBuffer b) ≠ 0 ↔ b ∈ buffers
  sem : ∀ s ∈ sems, x.pointer (.sem s) ≠ 0

variable {n : Nat} {threads : List Tid} {sems : List SemPtr} {buffers : List BufferId}
  {body schPut : Bool} {raw : Message} {mode : Mode} {timeSlice : Nat} {i : BufferId}
  {rawBuffer : Vector UInt8 bufferLength}

theorem Roomy.distinct (h : Roomy r n c live) : Distinct live := by
  obtain ⟨l, a, hs, -⟩ := h
  exact hs.distinct

/-- The constructor does not look at stacks that it does not allocate. -/
theorem threadCreate_answers : TCB.threadCreate body mode false timeSlice schPut
      { CreateMem.ok raw with userStack := body, systemStack := body } =
    TCB.threadCreate body mode false timeSlice schPut (.ok raw) := by
  cases body <;> rfl

/-- A thread, with room for it. -/
theorem Stocked.thread (h : Stocked r z n threads sems buffers x) (hn : threadCost z body < n)
    (ht : t ∉ threads) (hown : ∀ s ∈ SemPtr.own t, s ∉ sems) (hbody : decide (t ≠ 0) = body)
    (hk : TCB.threadCreate body mode false timeSlice schPut (.ok raw) x.kernel =
      some (some t, k')) :
    ∃ c f, threadCreate z body mode false timeSlice schPut raw x = some (some t, ⟨⟨k', c⟩, f⟩) ∧
      ∀ k'', Stocked r z (n - threadCost z body) (threads ++ [t]) (sems ++ SemPtr.own t) buffers
        ⟨⟨k'', c⟩, f⟩ := by
  obtain ⟨live, hroom, hc⟩ := h.room
  obtain ⟨p, c₁, m, c₂, e₁, hp, e₂, hm, h₂⟩ := hroom.thread hn
  have habsent := h.tracks.absent ht hown
  have hen : (m.answers raw).enough body false = true := by
    rw [hm raw]
    cases body <;> rfl
  rw [← threadCreate_answers, ← hm raw] at hk
  have htracks := h.tracks.placeThread (m := m) ht hp hen hbody (fun _ _ hb => hb) fun s hs => hs
  refine ⟨c₂, placeThread t p m x.pointer, threadCreate_some hp e₁ e₂ hk, fun k'' =>
    ⟨⟨_, h₂, placeThread_covers hc habsent h₂.distinct⟩, htracks, fun b => ?_, fun s hs => ?_⟩⟩
  · have hsame : placeThread t p m x.pointer (.charBuffer b) = x.pointer (.charBuffer b) := by
      simp [Placed.placeThread, placeSems_other]
    change placeThread t p m x.pointer (.charBuffer b) ≠ 0 ↔ _
    rw [hsame]
    exact h.buffer b
  · rcases List.mem_append.mp hs with hs | hs
    · change placeThread t p m x.pointer (.sem s) ≠ 0
      rw [habsent.placeThread (h.sem s hs)]
      exact h.sem s hs
    · exact htracks.own t (List.mem_append_right _ List.mem_cons_self) s hs

/-- A semaphore of the console. -/
theorem Stocked.semaphore (h : Stocked r z n threads sems buffers x) {s : SemPtr} {v : Nat}
    {ret : Option SemPtr} (hn : cost z.semaphore < n) (hs : s ∉ sems) (hown : s.owner = none)
    (hk : kSemaphore.kSemaphoreCreate s v true x.kernel = some (ret, k')) :
    ∃ c f, kSemaphoreCreate z s v x = some (ret, ⟨⟨k', c⟩, f⟩) ∧
      ∀ k'', Stocked r z (n - cost z.semaphore) threads (sems ++ [s]) buffers ⟨⟨k'', c⟩, f⟩ := by
  obtain ⟨live, hroom, hc⟩ := h.room
  obtain ⟨p, c, e, hp, h'⟩ := hroom.new hn
  have hfresh : x.pointer (.sem s) = 0 := of_not_not fun hne => hs (h.tracks.sem s hne)
  rw [← decide_eq_true hp] at hk
  refine ⟨c, _, kSemaphoreCreate_eq e hk, fun k'' =>
    ⟨⟨_, h', hc.place hfresh h'.distinct⟩, ?_, fun b => ?_, fun u hu => ?_⟩⟩
  · refine h.tracks.other (fun t _ hm => ?_) (fun _ => List.mem_append_right _ List.mem_cons_self)
      fun s hm => List.mem_append_left _ hm
    rw [SemPtr.mem_own, hown] at hm
    cases hm
  · change Function.update x.pointer (.sem s) p (.charBuffer b) ≠ 0 ↔ _
    rw [Function.update_of_ne (by simp)]
    exact h.buffer b
  · change Function.update x.pointer (.sem s) p (.sem u) ≠ 0
    by_cases he : u = s
    · rw [he, Function.update_self]
      exact hp
    · rw [Function.update_of_ne (by simpa using he)]
      exact h.sem u ((List.mem_append.mp hu).resolve_right (by simpa using he))

/-- A buffer of the console. -/
theorem Stocked.charBuffer (h : Stocked r z n threads sems buffers x)
    (hn : cost z.charBuffer + 3 * cost z.semaphore < n) (hi : i ∉ buffers)
    (hnew : ∀ s ∈ Sys.consoleSems i, s ∉ sems)
    (hk : CharBuffer.construct i rawBuffer x.kernel = some ((), k')) :
    ∃ c f, construct z i rawBuffer x = some ((), ⟨⟨k', c⟩, f⟩) ∧
      ∀ k'', Stocked r z (n - (cost z.charBuffer + 3 * cost z.semaphore)) threads
        (sems ++ [.put i] ++ [.get i] ++ [.mutex i]) (buffers ++ [i]) ⟨⟨k'', c⟩, f⟩ := by
  obtain ⟨live, hroom, hc⟩ := h.room
  obtain ⟨p, c, e, hp, h'⟩ := hroom.new (b := z.charBuffer) (by omega)
  have hfresh : x.pointer (.charBuffer i) = 0 := of_not_not fun hne => hi ((h.buffer i).mp hne)
  have h₀ : Stocked r z (n - cost z.charBuffer) threads sems (buffers ++ [i])
      ⟨⟨x.kernel, c⟩, Function.update x.pointer (.charBuffer i) p⟩ := by
    refine ⟨⟨_, h', hc.place hfresh h'.distinct⟩, h.tracks.charBuffer i, fun b => ?_,
      fun s hs => ?_⟩
    · by_cases hb : b = i
      · simp [hb, hp]
      · simpa [hb] using h.buffer b
    · change Function.update x.pointer (.charBuffer i) p (.sem s) ≠ 0
      rw [Function.update_of_ne (by simp)]
      exact h.sem s hs
  simp only [Sys.consoleSems, List.forall_mem_cons] at hnew
  obtain ⟨hput, hget, hmutex, -⟩ := hnew
  unfold CharBuffer.construct at hk
  rw [bind_apply, Option.bind_eq_some_iff] at hk
  obtain ⟨⟨ret₁, k₁⟩, hk₁, hk⟩ := hk
  rw [bind_apply, Option.bind_eq_some_iff] at hk
  obtain ⟨⟨ret₂, k₂⟩, hk₂, hk⟩ := hk
  rw [bind_apply, Option.bind_eq_some_iff] at hk
  obtain ⟨⟨ret₃, k₃⟩, hk₃, hk⟩ := hk
  cases hk
  obtain ⟨c₁, f₁, e₁, h₁⟩ := h₀.semaphore (by omega) hput rfl hk₁
  obtain ⟨c₂, f₂, e₂, h₂⟩ := (h₁ k₁).semaphore (by omega) (by simpa using hget) rfl hk₂
  obtain ⟨c₃, f₃, e₃, h₃⟩ := (h₂ k₂).semaphore (by omega) (by simpa using hmutex) rfl hk₃
  refine ⟨c₃, f₃, ?_, fun k'' => ?_⟩
  · unfold construct
    simp only [bind_apply, ofHeap, e, toPtr, if_neg hp, followMSH, store, Option.map_some,
      Option.bind_some, pure_apply, e₁, e₂, e₃, ofKernel, modify_apply]
  · have hcost : n - (cost z.charBuffer + 3 * cost z.semaphore) =
        n - cost z.charBuffer - cost z.semaphore - cost z.semaphore - cost z.semaphore := by
      omega
    rw [hcost]
    exact h₃ k''

theorem bind_placed {α β : Type} {m : PlacedM α} {k : α → PlacedM β} {v : α}
    (h : m x = some (v, y)) : (m >>= k) x = k v y := by
  rw [bind_apply, h, Option.bind_some]

theorem stocked_nothing (mem : Nat → MSH) (k : Kernel) : ∃ c,
    MemoryManager.init r.start r.stop ⟨mem, fun _ => none⟩ = some ((), c) ∧
      Stocked r z r.blocks [] [] [] ⟨⟨k, c⟩, fun _ => 0⟩ := by
  obtain ⟨s, hs, hsound⟩ := HeapState.Sound.boot r mem
  obtain ⟨⟨u, c⟩, hc, rfl⟩ := Option.map_eq_some_iff.mp hs
  exact ⟨c, hc, ⟨[], ⟨_, _, hsound, rfl⟩, covers_nothing⟩, tracks_nothing, by simp, by simp⟩

variable (raw : Tid → Message) (rawBuffer : BufferId → Vector UInt8 bufferLength)

/-- What `main` has allocated for before the threads of the console. -/
def consoleRest (r : HeapRange) (z : ObjectSizes) : Nat :=
  r.blocks - threadCost z false - threadCost z true - (cost z.charBuffer + 3 * cost z.semaphore) -
    (cost z.charBuffer + 3 * cost z.semaphore)

theorem rest_of_bootCost (h : bootCost z < r.blocks) :
    2 * threadCost z true < consoleRest r z ∧ threadCost z false < r.blocks ∧
      threadCost z true < r.blocks - threadCost z false ∧
      cost z.charBuffer + 3 * cost z.semaphore <
        r.blocks - threadCost z false - threadCost z true ∧
      cost z.charBuffer + 3 * cost z.semaphore < r.blocks - threadCost z false -
        threadCost z true - (cost z.charBuffer + 3 * cost z.semaphore) := by
  have hfalse : threadCost z false = cost z.tcb + 4 * cost z.semaphore := by simp [threadCost]
  have htrue : threadCost z true = cost z.tcb + 2 * cost z.stack + 4 * cost z.semaphore := by
    simp [threadCost]
  unfold bootCost at h
  unfold consoleRest
  rw [hfalse, htrue]
  omega

/-- What `main` does before the threads of the console. -/
theorem prepares (mem : Nat → MSH) (hroom : bootCost z < r.blocks) : ∃ k c f,
    Rep k (Sys.consoleReady raw rawBuffer) ∧
    Os1Kernel.bootstrap raw rawBuffer Kernel.zero = startConsole raw k ∧
    bootstrap r z raw rawBuffer ⟨⟨Kernel.zero, ⟨mem, fun _ => none⟩⟩, fun _ => 0⟩ = (do
      let _ ← threadCreate z true .system false DEFAULT_TIME_SLICE true (raw 2)
      let _ ← threadCreate z true .system false DEFAULT_TIME_SLICE true (raw 3)) ⟨⟨k, c⟩, f⟩ ∧
    Stocked r z (consoleRest r z) [0, 1] (Sys.consoleReady raw rawBuffer).sems [.input, .output]
      ⟨⟨k, c⟩, f⟩ := by
  obtain ⟨-, hn₁, hn₃, hn₅, hn₆⟩ := rest_of_bootCost hroom
  obtain ⟨c₁, c₃, c₅, c₆, hrep, he₁, he₃, he₅, he₆, he⟩ := bootstrap_steps raw rawBuffer
  obtain ⟨h₀, hinit, hs₀⟩ := stocked_nothing (r := r) (z := z) mem Kernel.zero
  obtain ⟨h₁, f₁, hp₁, hs₁⟩ := hs₀.thread hn₁ (by simp) (by simp) rfl he₁
  obtain ⟨h₃, f₃, hp₃, hs₃⟩ := (hs₁ (Kernel.setTcb { c₁ with master := some 0, running := some 0 } 0
    fun x => { x with context := .body })).thread hn₃ (by decide) (by decide) rfl he₃
  obtain ⟨h₅, f₅, hp₅, hs₅⟩ := (hs₃ { c₃ with idle := some 1 }).charBuffer hn₅ (by simp)
    (by decide) he₅
  obtain ⟨h₆, f₆, hp₆, hs₆⟩ := (hs₅ c₅).charBuffer hn₆ (by simp) (by decide) he₆
  refine ⟨c₆, h₆, f₆, hrep, he, ?_, ?_⟩
  · have hinit' : ofHeap (MemoryManager.init r.start r.stop)
        ⟨⟨Kernel.zero, ⟨mem, fun _ => none⟩⟩, fun _ => 0⟩ =
        some ((), ⟨⟨Kernel.zero, h₀⟩, fun _ => 0⟩) := by
      rw [ofHeap, hinit]
      rfl
    unfold bootstrap
    rw [bind_placed hinit', bind_placed hp₁, bind_placed (v := ()) rfl, bind_placed (v := ()) rfl,
      bind_placed (v := (0 : Tid)) rfl, bind_placed (v := ()) rfl, bind_placed hp₃,
      bind_placed (v := ()) rfl, bind_placed hp₅, bind_placed hp₆]
  · rw [consoleReady_sems]
    exact hs₆ c₆

/-- What the kernel does when there is memory for a thread of its own. -/
theorem systemThread_yields {k : Kernel} (h : Sim k a) (hc : a.Calls)
    (hroom : a.threads.length < 2 ^ 58) (raw : Message) : ∃ k' b,
    TCB.threadCreate true .system false DEFAULT_TIME_SLICE true (.ok raw) k =
      some (some a.IDCounter, k') ∧ Sim k' b ∧ a.Steps b ∧ b.Calls ∧
    b.threads = a.threads ++ [a.IDCounter] ∧ b.sems = a.sems ++ SemPtr.own a.IDCounter := by
  have hen : (CreateMem.ok raw).enough true false = true := rfl
  obtain ⟨d, ⟨k', hcode, hrep⟩, -, hthreads, -, hsems, hid, hsid, -⟩ :=
    threadCreate_succeeds h.rep h.inv rfl .system DEFAULT_TIME_SLICE hen
  obtain ⟨v, k₁, b, hcode', hsteps, hsim, hcalls, -⟩ :=
    threadCreate_does h hc true .system false DEFAULT_TIME_SLICE (.ok raw) hroom
  obtain ⟨rfl, rfl⟩ := Prod.mk.inj (Option.some.inj (hcode'.symm.trans hcode))
  refine ⟨k₁, b, hcode, hsim, hsteps, hcalls, ?_, ?_⟩
  · have hlen : d.threads.length ≤ d.IDCounter := by
      rw [hthreads, List.length_append, List.length_singleton]
      exact (Nat.add_le_add_right h.inv.threads_length 1).trans hid
    rw [← hsim.tcbList_eq, hrep.tcbList_eq hlen, hthreads]
  · have hlen : d.sems.length ≤ d.semIDCounter := by
      rw [hsems, List.length_append, ← hsid]
      exact Nat.add_le_add_right h.inv.names.sems_length _
    rw [← hsim.semList_eq, hrep.semList_eq hlen, hsems]

/-- A thread of the console, with room for it. -/
theorem Stocked.systemThread {k : Kernel} (hs : Stocked r z n a.threads a.sems buffers ⟨⟨k, c⟩, f⟩)
    (h : Sim k a) (hc : a.Calls) (hroom : a.threads.length < 2 ^ 58) (hn : threadCost z true < n)
    (raw : Message) : ∃ k' b c' f',
    TCB.threadCreate true .system false DEFAULT_TIME_SLICE true (.ok raw) k =
      some (some a.IDCounter, k') ∧
    threadCreate z true .system false DEFAULT_TIME_SLICE true raw ⟨⟨k, c⟩, f⟩ =
      some (some a.IDCounter, ⟨⟨k', c'⟩, f'⟩) ∧ Sim k' b ∧ a.Steps b ∧ b.Calls ∧
    b.threads.length = a.threads.length + 1 ∧
    Stocked r z (n - threadCost z true) b.threads b.sems buffers ⟨⟨k', c'⟩, f'⟩ := by
  obtain ⟨k', b, hcode, hsim, hsteps, hcalls, hthreads, hsems⟩ := systemThread_yields h hc hroom raw
  have hnew : a.IDCounter ∉ a.threads := fun hm => lt_irrefl _ (h.inv.names.threads_lt _ hm)
  have hpos : a.IDCounter ≠ 0 :=
    Nat.ne_of_gt (Nat.zero_lt_of_lt (h.inv.names.threads_lt _ h.inv.alive.running_mem))
  have hown : ∀ s ∈ SemPtr.own a.IDCounter, s ∉ a.sems := fun s hm hs' =>
    lt_irrefl _ (h.inv.names.own_lt s hs' _ hm)
  obtain ⟨c', f', hplaced, hs'⟩ := hs.thread hn hnew hown (decide_eq_true hpos) hcode
  refine ⟨k', b, c', f', hcode, hplaced, hsim, hsteps, hcalls, ?_, ?_⟩
  · rw [hthreads, List.length_append, List.length_singleton]
  · rw [hthreads, hsems]
    exact hs' k'

/-- **`main` gets everything that it allocates.** -/
theorem boot_good (mem : Nat → MSH) (hroom : bootCost z < r.blocks) : ∃ x,
    boot r z mem raw rawBuffer = some x ∧ Os1Kernel.boot raw rawBuffer = some x.kernel ∧
      x.Good r z := by
  obtain ⟨hn, -⟩ := rest_of_bootCost hroom
  obtain ⟨k₁, c₁, f₁, hrep, hkernel, hplaced, hs₁⟩ := prepares raw rawBuffer mem hroom
  obtain ⟨k₂, b₁, c₂, f₂, hcode₂, hplaced₂, hsim₂, hsteps₂, hcalls₂, hlen, hs₂⟩ :=
    hs₁.systemThread ⟨hrep, consoleReady_inv raw rawBuffer⟩ (consoleReady_calls raw rawBuffer)
      (show 2 < 2 ^ 58 by decide) (by omega) (raw 2)
  obtain ⟨k₃, b₂, c₃, f₃, hcode₃, hplaced₃, hsim₃, hsteps₃, -, -, hs₃⟩ :=
    hs₂.systemThread hsim₂ hcalls₂ (hlen.trans_lt (show 2 + 1 < 2 ^ 58 by decide)) (by omega)
      (raw 3)
  have hboot : Os1Kernel.boot raw rawBuffer = some k₃ := by
    rw [Os1Kernel.boot, hkernel, startConsole, bind_of_eq hcode₂, bind_of_eq hcode₃]
    rfl
  obtain ⟨-, hsems, hbody⟩ := Sys.Steps.grows (hsteps₂.trans hsteps₃)
  have hmaster : (k₃.tcb 0).hasBody = false := by
    rw [show (k₃.tcb 0).hasBody = (b₂.thread 0).hasBody from
      congrArg Thread.hasBody (hsim₃.rep.thread_apply 0), hbody 0 List.mem_cons_self]
    rfl
  have htracks : Tracks f₃ k₃.tcbList k₃.semList fun t => (k₃.tcb t).hasBody := by
    rw [hsim₃.tcbList_eq, hsim₃.semList_eq]
    refine hs₃.tracks.mono (fun t => Iff.rfl) (fun s hs => hs) fun t _ hb => ?_
    refine decide_eq_true fun he => ?_
    rw [he, hmaster] at hb
    cases hb
  obtain ⟨live, ⟨l, -, hsound, -⟩, hc⟩ := hs₃.room
  refine ⟨⟨⟨k₃, c₃⟩, f₃⟩, ?_, hboot, ⟨raw, rawBuffer, k₃, [], hboot, rfl⟩, ⟨l, live, hsound, hc⟩,
    htracks, fun b => ⟨(hs₃.buffer b).mpr ?_, fun s hs => hs₃.sem s ?_⟩⟩
  · rw [boot, hplaced, bind_placed hplaced₂, bind_placed hplaced₃]
    rfl
  · cases b <;> decide
  · refine hsems s ?_
    rw [consoleReady_sems]
    revert s hs
    cases b <;> decide

/-- **Runs.** -/
theorem Good.run (h : x.Good r z) {acts : List PlacedAct}
    (hrun : Run.run (Placed.step z) x acts = some y) : y.Good r z ∧
    (∃ calls, List.Forall₂ PlacedAct.Makes acts calls ∧
      Run.run Os1Kernel.step x.kernel calls.flatten = some y.kernel) ∧
    ∀ o, x.pointer o ≠ 0 → y.pointer o = x.pointer o := by
  induction acts generalizing x with
  | nil =>
    obtain rfl := Option.some.inj hrun
    exact ⟨h, ⟨[], .nil, rfl⟩, fun _ _ => rfl⟩
  | cons act acts ih =>
    obtain ⟨w, hw, hrest⟩ := Option.bind_eq_some_iff.mp ((run_cons ..).symm.trans hrun)
    have hnext := h.next hw
    obtain ⟨hy, ⟨calls, hmakes, hcalls⟩, hstays⟩ := ih hnext.good hrest
    obtain ⟨first, hmakes', hfirst⟩ := hnext.kernel
    refine ⟨hy, ⟨first :: calls, .cons hmakes' hmakes, ?_⟩, fun o ho => ?_⟩
    · rw [List.flatten_cons, run_append, hfirst, Option.bind_some, hcalls]
    · have hsame := hnext.stays o ho
      rw [hstays o (hsame ▸ ho), hsame]

/-! ## 2. The objects in memory -/

/-- Two stretches of memory have no byte in common. -/
def Clear (a m b n : Nat) : Prop := a + m ≤ b ∨ b + n ≤ a

/-- No byte of an object belongs to another object, to a header, to the user or to nobody. -/
structure Apart (r : HeapRange) (z : ObjectSizes) (x : Placed) : Prop where
  inside : ∀ o, x.pointer o ≠ 0 → r.start ≤ x.pointer o ∧ x.pointer o + z.bytes o ≤ r.stop
  objects : ∀ o o', x.pointer o ≠ 0 → x.pointer o' ≠ 0 → o ≠ o' →
    Clear (x.pointer o) (z.bytes o) (x.pointer o') (z.bytes o')
  headers : ∀ i, ∀ g ∈ x.heap.segments i, ∀ o, x.pointer o ≠ 0 →
    Clear g.addr MEM_BLOCK_SIZE (x.pointer o) (z.bytes o)
  others : ∀ i, i ≠ .systemMemoryHead → ∀ g ∈ x.heap.segments i, ∀ o, x.pointer o ≠ 0 →
    Clear g.addr (MEM_BLOCK_SIZE * g.size) (x.pointer o) (z.bytes o)

/-- Two segments that are not the same one. -/
theorem segments_clear {i j : HeadPtr} {g u : Segment} (h : Partition r l) (hg : g ∈ l i)
    (hu : u ∈ l j) (hne : i = j → g ≠ u) :
    Clear g.addr (MEM_BLOCK_SIZE * g.size) u.addr (MEM_BLOCK_SIZE * u.size) := by
  by_contra hc
  simp only [Clear, not_or, not_le] at hc
  have hboth : g.has (max g.addr u.addr) = true ∧ u.has (max g.addr u.addr) = true := by
    have hgpos := h.pos i g hg
    have hupos := h.pos j u hu
    simp only [has_iff, Segment.stop, MEM_BLOCK_SIZE] at hc ⊢
    omega
  obtain ⟨hij, hgu⟩ := h.eq_of_has hg hu hboth.1 hboth.2
  exact hne hij hgu

theorem le_roundup {m : Nat} (hm : m + 63 < 2 ^ 64) :
    m ≤ MEM_BLOCK_SIZE * ROUNDUP m MEM_BLOCK_SIZE := by
  have hu : u64 (m + MEM_BLOCK_SIZE - 1) = m + 63 := Nat.mod_eq_of_lt hm
  rw [ROUNDUP, hu]
  simp only [MEM_BLOCK_SIZE]
  omega

/-- The segment that an object is in. -/
theorem covers_segment (hs : HeapState.Sound r l ⟨c, live⟩) (hc : Covers z f live) {o : Object}
    (hz : z.bytes o + 63 < 2 ^ 64) (ho : f o ≠ 0) : ∃ g ∈ l .systemMemoryHead,
      f o = g.addr + MEM_BLOCK_SIZE ∧ f o + z.bytes o ≤ g.addr + MEM_BLOCK_SIZE * g.size := by
  obtain ⟨g, hg, he, hsize⟩ := (hs.live _).mp (hc.block o ho)
  have hle := le_roundup hz
  change f o = _ at he
  refine ⟨g, hg, he, ?_⟩
  rw [he, hsize]
  simp only [MEM_BLOCK_SIZE] at hle ⊢
  omega

theorem Backed.apart (h : x.Backed r z) (hz : ∀ o, z.bytes o + 63 < 2 ^ 64) : x.Apart r z := by
  obtain ⟨l, live, hs, hc⟩ := h
  have hl : x.heap.segments = l := hs.holds.segments_eq hs.partition
  constructor
  · intro o ho
    obtain ⟨g, hg, he, hle⟩ := covers_segment hs hc (hz o) ho
    have hpos := hs.partition.pos _ g hg
    -- its first and its last byte are inside the heap
    have hfirst := has_iff.mp (hs.partition.inside hg (has_addr hpos))
    have hlast := has_iff.mp (hs.partition.inside hg (x := g.stop - 1) (has_iff.mpr (by
      simp only [Segment.stop, MEM_BLOCK_SIZE]
      omega)))
    simp only [HeapRange.whole, HeapRange.base, HeapRange.blocks, Segment.stop, MEM_BLOCK_SIZE]
      at he hle hfirst hlast
    have hroom := r.room
    simp only [MEM_BLOCK_SIZE] at hroom
    omega
  · intro o o' ho ho' hne
    obtain ⟨g, hg, he, hle⟩ := covers_segment hs hc (hz o) ho
    obtain ⟨u, hu, he', hle'⟩ := covers_segment hs hc (hz o') ho'
    have hclear := segments_clear hs.partition hg hu fun _ hgu => hne <| hc.injective o o' ho <| by
      rw [he, he', hgu]
    simp only [Clear] at hclear ⊢
    omega
  · intro i g hg o ho
    rw [hl] at hg
    obtain ⟨u, hu, he, hle⟩ := covers_segment hs hc (hz o) ho
    have hpos := hs.partition.pos i g hg
    by_cases hgu : i = .systemMemoryHead ∧ g = u
    · exact Or.inl (hgu.2 ▸ he.ge)
    · have hclear := segments_clear hs.partition hg hu fun hi e => hgu ⟨hi, e⟩
      simp only [Clear, MEM_BLOCK_SIZE] at hclear he hle ⊢
      omega
  · intro i hi g hg o ho
    rw [hl] at hg
    obtain ⟨u, hu, he, hle⟩ := covers_segment hs hc (hz o) ho
    have hclear := segments_clear hs.partition hg hu fun h => absurd h hi
    simp only [Clear] at hclear ⊢
    omega

end Placed

variable {r : HeapRange} {z : ObjectSizes} (mem : Nat → MSH) (raw : Tid → Message)
  (rawBuffer : BufferId → Vector UInt8 bufferLength)

/-- **The kernel on its heap is the kernel.**  `main` gets what it allocates, a run on the heap is a
run of the machine whose allocator answers at will, and no step fails but `new TCB` without
memory. -/
theorem placed_refines (hroom : Placed.bootCost z < r.blocks) : ∃ x₀,
    Placed.boot r z mem raw rawBuffer = some x₀ ∧ boot raw rawBuffer = some x₀.kernel ∧
    ∀ acts x, Run.run (Placed.step z) x₀ acts = some x →
      (∃ calls, List.Forall₂ PlacedAct.Makes acts calls ∧
        Run.run step x₀.kernel calls.flatten = some x.kernel) ∧
      ∀ act, x.enabled act → (∃ y, Placed.step z x act = some y) ∨
        (∃ start_routine raw, act = .threadCreate start_routine raw) ∧
          Placed.step z x act = none ∧ ∃ c, kMemAlloc_byte z.tcb x.heap = some (0, c) := by
  obtain ⟨x₀, hboot, hkernel, hgood⟩ := Placed.boot_good raw rawBuffer mem hroom
  refine ⟨x₀, hboot, hkernel, fun acts x hrun => ?_⟩
  obtain ⟨hx, hcalls, -⟩ := hgood.run hrun
  exact ⟨hcalls, fun act he => (hx.step he).imp_left fun ⟨y, hy, _⟩ => ⟨y, hy⟩⟩

/-- Room for `main`, for a thread with both stacks and for more. -/
def placedRange : HeapRange where
  start := 128
  stop := 384000
  above := by decide
  room := by decide
  lt := by decide

def placedSizes : ObjectSizes := { realSizes with charBuffer := 296 }

/-- A user allocates, opens a semaphore, creates a thread, writes and frees, and sleeps. -/
def placedActs : List PlacedAct :=
  [.memAlloc 100, .semOpen 3, .threadCreate true (zeroMessage 4), .write 1 ⟨none, none, 7⟩,
    .memFree 203584, .kernel (.ecall (.timeSleep 1)), .kernel .resume, .kernel .timer]

/-- From memory full of zeros. -/
def placedRun (acts : List PlacedAct) : Option Placed :=
  (Placed.boot placedRange placedSizes (fun _ => ⟨none, none, 0⟩) zeroMessage zeroBuffer).bind
    fun x => Run.run (Placed.step placedSizes) x acts

theorem placed_refines_run : ∃ x, placedRun placedActs = some x ∧ (∃ k₀ calls,
    boot zeroMessage zeroBuffer = some k₀ ∧ List.Forall₂ PlacedAct.Makes placedActs calls ∧
      Run.run step k₀ calls.flatten = some x.kernel) ∧
    ∃ y, Placed.step placedSizes x (.semOpen 0) = some y := by
  obtain ⟨x₀, hboot, hkernel, hruns⟩ := placed_refines (fun _ => ⟨none, none, 0⟩) zeroMessage
    zeroBuffer (show Placed.bootCost placedSizes < placedRange.blocks by decide)
  obtain ⟨x, hx⟩ := Option.isSome_iff_exists.mp
    (show (placedRun placedActs).isSome = true by decide +kernel)
  have hrun := hx
  rw [placedRun, hboot, Option.bind_some] at hrun
  obtain ⟨⟨calls, hmakes, hcalls⟩, hsteps⟩ := hruns placedActs x hrun
  have he : (placedRun placedActs).any (fun x => x.calls) = true := by decide +kernel
  rw [hx] at he
  obtain ⟨y, hy⟩ | ⟨⟨_, _, hne⟩, -⟩ := hsteps (.semOpen 0) he
  · exact ⟨x, hx, ⟨x₀.kernel, calls, hkernel, hmakes, hcalls⟩, y, hy⟩
  · cases hne

/-- **Every object of the kernel has memory of its own, for ever.**  In every state of every run,
the objects that exist lie within the heap, apart from each other, from all headers and from what
the users hold; and an object that is there once stays where it is. -/
theorem objects_apart (hroom : Placed.bootCost z < r.blocks) (hz : ∀ o, z.bytes o + 63 < 2 ^ 64) :
    ∃ x₀, Placed.boot r z mem raw rawBuffer = some x₀ ∧
    ∀ acts x, Run.run (Placed.step z) x₀ acts = some x → x.Apart r z ∧
      Tracks x.pointer x.kernel.tcbList x.kernel.semList (fun t => (x.kernel.tcb t).hasBody) ∧
      (∀ b, x.pointer (.charBuffer b) ≠ 0 ∧ ∀ s ∈ Sys.consoleSems b, x.pointer (.sem s) ≠ 0) ∧
      (∀ later y, Run.run (Placed.step z) x later = some y →
        ∀ o, x.pointer o ≠ 0 → y.pointer o = x.pointer o) ∧
      ∀ init y t s, Placed.step z x (.semOpen init) = some y → y.kernel.running = some t →
        (y.kernel.tcb t).handle = .sem (some s) → y.pointer (.sem s) ≠ 0 := by
  obtain ⟨x₀, hboot, -, hgood⟩ := Placed.boot_good raw rawBuffer mem hroom
  refine ⟨x₀, hboot, fun acts x hrun => ?_⟩
  obtain ⟨hx, -, -⟩ := hgood.run hrun
  exact ⟨hx.backed.apart hz, hx.tracks, hx.console, fun later y hlater => (hx.run hlater).2.2,
    fun init y t s hy => (hx.next hy).opened init t s rfl⟩

theorem objects_apart_run : ∃ x, placedRun placedActs = some x ∧
    x.pointer (.sem (.opened 22)) ≠ 0 ∧ x.pointer (.systemStack 4) ≠ 0 ∧
    Placed.Clear (x.pointer (.sem (.opened 22))) 56 (x.pointer (.systemStack 4)) 32768 := by
  obtain ⟨x₀, hboot, hruns⟩ := objects_apart (fun _ => ⟨none, none, 0⟩) zeroMessage zeroBuffer
    (show Placed.bootCost placedSizes < placedRange.blocks by decide)
    (fun o => by cases o <;> simp [ObjectSizes.bytes, placedSizes, realSizes])
  obtain ⟨x, hx⟩ := Option.isSome_iff_exists.mp
    (show (placedRun placedActs).isSome = true by decide +kernel)
  have hrun := hx
  rw [placedRun, hboot, Option.bind_some] at hrun
  have hthere : (placedRun placedActs).any (fun x => x.pointer (.sem (.opened 22)) ≠ 0 ∧
      x.pointer (.systemStack 4) ≠ 0) = true := by decide +kernel
  rw [hx] at hthere
  obtain ⟨hsem, hstack⟩ := of_decide_eq_true hthere
  exact ⟨x, hx, hsem, hstack, (hruns placedActs x hrun).1.objects _ _ hsem hstack (by simp)⟩

end Os1Kernel
