/-
# Every object has a block of its own

The table of pointers against the heap: a pointer that is not null leads to a block that the system
has, and no two objects share one (`Covers`).  And against the kernel's lists: the threads on the
list of all threads, and no others, have a `TCB`, their semaphores and, with a body, their stacks
(`Tracks`).  One lemma for each place where pointers are stored.

* Blocks are told apart by their addresses, since no two live allocations have the same one
  (`Distinct`).  So a new object shares no block with an old one, and a block that is given back
  was nobody else's.
* A creation that fails gives back what belongs to the thread and keeps the semaphores that were
  created, which stay on the list of all semaphores and in the table.
* `Roomy` is for the start, where the heap has one free segment.  An allocation from it takes its
  front and leaves one free segment again, so room is a number that is counted down.
-/
import Os1Kernel.Memory.Placed
import Os1Kernel.Results.Creation

namespace Os1Kernel

open Simulation MemoryManager

variable {z : ObjectSizes} {f : Object → Nat} {live live' : List Allocation} {o : Object}
  {p n : Nat} {t u : Tid} {m : Allocated} {s : SemPtr} {body : Bool} {raw : Message}

/-! ## 1. Blocks -/

/-- No two of the blocks are at one address. -/
def Distinct (l : List Allocation) : Prop := l.Pairwise fun a b => a.pointer ≠ b.pointer

/-- Each object that is there has its block among those that are live. -/
structure Covers (z : ObjectSizes) (f : Object → Nat) (live : List Allocation) : Prop where
  block : ∀ o, f o ≠ 0 → ⟨.system, f o, ROUNDUP (z.bytes o) MEM_BLOCK_SIZE⟩ ∈ live
  injective : ∀ o o', f o ≠ 0 → f o = f o' → o = o'

theorem covers_nothing : Covers z (fun _ => 0) live :=
  ⟨fun _ h => absurd rfl h, fun _ _ h => absurd rfl h⟩

/-- The blocks of the users come and go. -/
theorem Covers.mono (h : Covers z f live)
    (hsub : ∀ a ∈ live, a.owner = .system → a ∈ live') : Covers z f live' :=
  ⟨fun o ho => hsub _ (h.block o ho) rfl, h.injective⟩

/-- A new object, in what its `new` returned. -/
theorem Covers.place (h : Covers z f live) (ho : f o = 0)
    (hd : Distinct (allocated (z.bytes o) p ++ live)) :
    Covers z (Function.update f o p) (allocated (z.bytes o) p ++ live) := by
  by_cases hp : p = 0
  · subst hp
    rw [← ho, Function.update_eq_self, ho]
    exact h
  rw [allocated, if_neg hp] at hd ⊢
  have hnew : ∀ x, f x ≠ 0 → f x ≠ p := fun x hx he =>
    (List.pairwise_cons.mp hd).1 _ (h.block x hx) he.symm
  have hold : ∀ {x}, x ≠ o → Function.update f o p x = f x := fun hx => Function.update_of_ne hx ..
  have hself : Function.update f o p o = p := Function.update_self ..
  refine ⟨fun x hx => ?_, fun x x' hx he => ?_⟩
  · by_cases hxo : x = o
    · rw [hxo, hself]
      exact List.mem_cons_self
    · rw [hold hxo] at hx ⊢
      exact List.mem_cons_of_mem _ (h.block x hx)
  · by_cases hxo : x = o
    · by_cases hxo' : x' = o
      · exact hxo.trans hxo'.symm
      · rw [hxo, hself, hold hxo'] at he
        exact absurd he.symm (hnew x' (he ▸ hp))
    · rw [hold hxo] at hx he
      by_cases hxo' : x' = o
      · rw [hxo', hself] at he
        exact absurd he (hnew x hx)
      · rw [hold hxo'] at he
        exact h.injective x x' hx he

namespace Placed

/-! ## 2. The pointers of a thread

A thread's pointers are stored all at once, behind its construction.  Nothing of the thread has
been there before, since its number is new. -/

@[simp] theorem placeSems_sem : placeSems t m f (.sem s) =
    if s = .receive t then m.semReceive else if s = .send t then m.semSend
      else if s = .joinAll t then m.semJoinAll else if s = .join t then m.semJoin
      else f (.sem s) := by
  simp only [placeSems, Function.update_apply, Object.sem.injEq]

/-- What is not a semaphore stays. -/
theorem placeSems_other (ho : ∀ s, o ≠ .sem s) : placeSems t m f o = f o := by
  simp only [placeSems, Function.update_of_ne (ho _)]

theorem placeSems_of_not_mem (hs : s ∉ SemPtr.own t) : placeSems t m f (.sem s) = f (.sem s) := by
  simp only [SemPtr.own, List.mem_cons, List.not_mem_nil, or_false, not_or] at hs
  rw [placeSems_sem, if_neg hs.2.2.2, if_neg hs.2.2.1, if_neg hs.2.1, if_neg hs.1]

@[simp] theorem placeThread_tcb :
    placeThread t p m f (.tcb u) = if u = t then p else f (.tcb u) := by
  rw [placeThread, placeSems_other (by simp)]
  simp [Function.update_apply]

@[simp] theorem placeThread_userStack : placeThread t p m f (.userStack u) =
    if u = t then m.userStack else f (.userStack u) := by
  rw [placeThread, placeSems_other (by simp)]
  simp [Function.update_apply]

@[simp] theorem placeThread_systemStack : placeThread t p m f (.systemStack u) =
    if u = t then m.systemStack else f (.systemStack u) := by
  rw [placeThread, placeSems_other (by simp)]
  simp [Function.update_apply]

@[simp] theorem placeThread_sem :
    placeThread t p m f (.sem s) = placeSems t m f (.sem s) := by
  simp [placeThread]

/-- Nothing of the thread is there. -/
structure Absent (f : Object → Nat) (t : Tid) : Prop where
  tcb : f (.tcb t) = 0
  userStack : f (.userStack t) = 0
  systemStack : f (.systemStack t) = 0
  sem : ∀ s ∈ SemPtr.own t, f (.sem s) = 0

/-- What is there stays where it is. -/
theorem Absent.placeSems (h : Absent f t) (ho : f o ≠ 0) : placeSems t m f o = f o := by
  cases o with
  | sem s =>
    by_cases hs : s ∈ SemPtr.own t
    · exact absurd (h.sem s hs) ho
    · exact placeSems_of_not_mem hs
  | _ => exact placeSems_other (by simp)

theorem Absent.placeThread (h : Absent f t) (ho : f o ≠ 0) : placeThread t p m f o = f o := by
  cases o with
  | tcb u =>
    rw [placeThread_tcb, if_neg]
    rintro rfl
    exact ho h.tcb
  | userStack u =>
    rw [placeThread_userStack, if_neg]
    rintro rfl
    exact ho h.userStack
  | systemStack u =>
    rw [placeThread_systemStack, if_neg]
    rintro rfl
    exact ho h.systemStack
  | sem s =>
    rw [placeThread_sem]
    exact h.placeSems ho
  | charBuffer b => simp [Placed.placeThread, placeSems_other]

/-- The semaphores of a thread, in what its constructor got. -/
theorem placeSems_covers (h : Covers z f live) (hf : ∀ s ∈ SemPtr.own t, f (.sem s) = 0)
    (hd : Distinct (m.semaphoreBlocks z.toSizes ++ live)) :
    Covers z (placeSems t m f) (m.semaphoreBlocks z.toSizes ++ live) := by
  simp only [SemPtr.own, List.forall_mem_cons] at hf
  obtain ⟨hjoin, hjoinAll, hsend, hreceive, -⟩ := hf
  simp only [Allocated.semaphoreBlocks, List.append_assoc] at hd ⊢
  have hd₁ := (List.pairwise_append.mp hd).2.1
  have hd₂ := (List.pairwise_append.mp hd₁).2.1
  have hd₃ := (List.pairwise_append.mp hd₂).2.1
  refine Covers.place (o := .sem (.receive t)) (Covers.place (o := .sem (.send t)) (Covers.place
    (o := .sem (.joinAll t)) (Covers.place (o := .sem (.join t)) h hjoin hd₃) ?_ hd₂) ?_ hd₁) ?_ hd
  · simp [hjoinAll]
  · simp [hsend]
  · simp [hreceive]

/-- A thread with all of it. -/
theorem placeThread_covers (h : Covers z f live) (hf : Absent f t)
    (hd : Distinct (m.semaphoreBlocks z.toSizes ++
      (m.stackBlocks z.toSizes ++ (allocated z.tcb p ++ live)))) :
    Covers z (placeThread t p m f) (m.semaphoreBlocks z.toSizes ++
      (m.stackBlocks z.toSizes ++ (allocated z.tcb p ++ live))) := by
  have hd₁ := (List.pairwise_append.mp hd).2.1
  simp only [Allocated.stackBlocks, List.append_assoc] at hd₁
  have hd₂ := (List.pairwise_append.mp hd₁).2.1
  have hd₃ := (List.pairwise_append.mp hd₂).2.1
  refine placeSems_covers ?_ (fun s hs => ?_) hd
  · rw [Allocated.stackBlocks, List.append_assoc]
    refine Covers.place (o := .systemStack t) (Covers.place (o := .userStack t)
      (Covers.place (o := .tcb t) h hf.tcb hd₃) ?_ hd₂) ?_ hd₁
    · simp [hf.userStack]
    · simp [hf.systemStack]
  · simp [hf.sem s hs]

end Placed

/-! ## 3. The kernel's lists -/

/-- What is there, and what the lists of all threads and of all semaphores have. -/
structure Tracks (f : Object → Nat) (threads : List Tid) (sems : List SemPtr)
    (hasBody : Tid → Bool) : Prop where
  tcb : ∀ t, f (.tcb t) ≠ 0 ↔ t ∈ threads
  userStack : ∀ t, f (.userStack t) ≠ 0 → t ∈ threads
  systemStack : ∀ t, f (.systemStack t) ≠ 0 → t ∈ threads
  bothStacks : ∀ t ∈ threads, hasBody t = true → f (.userStack t) ≠ 0 ∧ f (.systemStack t) ≠ 0
  sem : ∀ s, f (.sem s) ≠ 0 → s ∈ sems
  own : ∀ t ∈ threads, ∀ s ∈ SemPtr.own t, f (.sem s) ≠ 0

variable {threads threads' : List Tid} {sems sems' : List SemPtr} {hasBody hasBody' : Tid → Bool}

theorem tracks_nothing : Tracks (fun _ => 0) [] [] hasBody := by
  constructor <;> simp

/-- Semaphores that are not known here may be there. -/
theorem Tracks.mono (h : Tracks f threads sems hasBody) (hthreads : ∀ t, t ∈ threads' ↔ t ∈ threads)
    (hsems : ∀ s ∈ sems, s ∈ sems')
    (hbody : ∀ t ∈ threads, hasBody' t = true → hasBody t = true) :
    Tracks f threads' sems' hasBody' where
  tcb t := (h.tcb t).trans (hthreads t).symm
  userStack t ht := (hthreads t).mpr (h.userStack t ht)
  systemStack t ht := (hthreads t).mpr (h.systemStack t ht)
  bothStacks t ht hb := h.bothStacks t ((hthreads t).mp ht) (hbody t ((hthreads t).mp ht) hb)
  sem s hs := hsems s (h.sem s hs)
  own t ht := h.own t ((hthreads t).mp ht)

/-- What is not a semaphore of a thread. -/
theorem Tracks.other (h : Tracks f threads sems hasBody) (hs : ∀ t ∈ threads, s ∉ SemPtr.own t)
    (hmem : p ≠ 0 → s ∈ sems') (hsems : ∀ s ∈ sems, s ∈ sems') :
    Tracks (Function.update f (.sem s) p) threads sems' hasBody where
  tcb t := by
    rw [Function.update_of_ne (by simp)]
    exact h.tcb t
  userStack t := by
    rw [Function.update_of_ne (by simp)]
    exact h.userStack t
  systemStack t := by
    rw [Function.update_of_ne (by simp)]
    exact h.systemStack t
  bothStacks t := by
    rw [Function.update_of_ne (by simp), Function.update_of_ne (by simp)]
    exact h.bothStacks t
  sem x hx := by
    by_cases he : x = s
    · subst he
      exact hmem (by simpa using hx)
    · rw [Function.update_of_ne (by simpa using he)] at hx
      exact hsems x (h.sem x hx)
  own t ht x hx := by
    rw [Function.update_of_ne (by simpa using fun e : x = s => hs t ht (e ▸ hx))]
    exact h.own t ht x hx

theorem Tracks.charBuffer (h : Tracks f threads sems hasBody) (b : BufferId) :
    Tracks (Function.update f (.charBuffer b) p) threads sems hasBody where
  tcb t := h.tcb t
  userStack t := h.userStack t
  systemStack t := h.systemStack t
  bothStacks t := h.bothStacks t
  sem s := h.sem s
  own t := h.own t

/-- Nothing is there of a thread that is not on the list and has no semaphores. -/
theorem Tracks.absent (h : Tracks f threads sems hasBody) (ht : t ∉ threads)
    (hs : ∀ s ∈ SemPtr.own t, s ∉ sems) : Placed.Absent f t where
  tcb := of_not_not fun hne => ht ((h.tcb t).mp hne)
  userStack := of_not_not fun hne => ht (h.userStack t hne)
  systemStack := of_not_not fun hne => ht (h.systemStack t hne)
  sem s hm := of_not_not fun hne => hs s hm (h.sem s hne)

/-- Which semaphores of a thread that was attempted are there. -/
theorem mem_created : s ∈ (m.answers raw).created t ↔ s ∈ SemPtr.own t ∧
    Placed.placeSems t m f (.sem s) ≠ 0 := by
  have hmem : ∀ (s' : SemPtr) (q : Nat), s ∈ (SemPtr.ifMem s' (decide (q ≠ 0))).toList ↔
      s = s' ∧ q ≠ 0 := fun s' q => by
    by_cases hq : q = 0 <;> simp [SemPtr.ifMem, hq]
  rw [Placed.placeSems_sem]
  simp only [CreateMem.created, Allocated.answers, List.mem_append, hmem, SemPtr.own,
    List.mem_cons, List.not_mem_nil, or_false]
  constructor
  · rintro (⟨rfl, hq⟩ | ⟨rfl, hq⟩ | ⟨rfl, hq⟩ | ⟨rfl, hq⟩) <;> simp [hq]
  · rintro ⟨rfl | rfl | rfl | rfl, hq⟩ <;> simpa using hq

/-- The semaphores of a thread that is not on the list. -/
theorem Tracks.placeSems (h : Tracks f threads sems hasBody) (ht : t ∉ threads) (raw : Message) :
    Tracks (Placed.placeSems t m f) threads (sems ++ (m.answers raw).created t) hasBody where
  tcb u := by
    rw [Placed.placeSems_other (by simp)]
    exact h.tcb u
  userStack u := by
    rw [Placed.placeSems_other (by simp)]
    exact h.userStack u
  systemStack u := by
    rw [Placed.placeSems_other (by simp)]
    exact h.systemStack u
  bothStacks u := by
    rw [Placed.placeSems_other (by simp), Placed.placeSems_other (by simp)]
    exact h.bothStacks u
  sem s hs := by
    by_cases hown : s ∈ SemPtr.own t
    · exact List.mem_append_right _ (mem_created.mpr ⟨hown, hs⟩)
    · rw [Placed.placeSems_of_not_mem hown] at hs
      exact List.mem_append_left _ (h.sem s hs)
  own u hu s hs := by
    have hne : s ∉ SemPtr.own t := fun hst => by
      rw [SemPtr.mem_own] at hs hst
      exact ht (Option.some.inj (hst.symm.trans hs) ▸ hu)
    rw [Placed.placeSems_of_not_mem hne]
    exact h.own u hu s hs

/-- What has to be there for a thread. -/
theorem Allocated.enough_iff : (m.answers raw).enough body false = true ↔
    (body = true → m.userStack ≠ 0 ∧ m.systemStack ≠ 0) ∧
      ∀ s ∈ SemPtr.own t, Placed.placeSems t m f (.sem s) ≠ 0 := by
  simp only [SemPtr.own, List.forall_mem_cons, Placed.placeSems_sem, CreateMem.enough,
    CreateMem.stacks, CreateMem.sems, Allocated.answers]
  cases body <;> simp <;> tauto

/-- A thread that is appended to the list. -/
theorem Tracks.placeThread (h : Tracks f threads sems hasBody) (ht : t ∉ threads) (hp : p ≠ 0)
    (hen : (m.answers raw).enough body false = true) (hbody : hasBody' t = body)
    (hsame : ∀ u ∈ threads, hasBody' u = true → hasBody u = true)
    (hsems : ∀ s ∈ sems ++ SemPtr.own t, s ∈ sems') :
    Tracks (Placed.placeThread t p m f) (threads ++ [t]) sems' hasBody' := by
  obtain ⟨hstacks, hown⟩ := (Allocated.enough_iff (t := t) (f := f)).mp hen
  have hold : ∀ {u}, u ∈ threads → u ≠ t := fun hu e => ht (e ▸ hu)
  constructor
  · intro u
    by_cases hu : u = t
    · simp [hu, hp]
    · simpa [hu] using h.tcb u
  · intro u hne
    by_cases hu : u = t
    · simp [hu]
    · rw [Placed.placeThread_userStack, if_neg hu] at hne
      exact List.mem_append_left _ (h.userStack u hne)
  · intro u hne
    by_cases hu : u = t
    · simp [hu]
    · rw [Placed.placeThread_systemStack, if_neg hu] at hne
      exact List.mem_append_left _ (h.systemStack u hne)
  · intro u hu hb
    rcases List.mem_append.mp hu with hu | hu
    · simpa [hold hu] using h.bothStacks u hu (hsame u hu hb)
    · obtain rfl := List.mem_singleton.mp hu
      simpa using hstacks (hbody.symm.trans hb)
  · intro s hs
    rw [Placed.placeThread_sem] at hs
    by_cases hst : s ∈ SemPtr.own t
    · exact hsems s (List.mem_append_right _ hst)
    · rw [Placed.placeSems_of_not_mem hst] at hs
      exact hsems s (List.mem_append_left _ (h.sem s hs))
  · intro u hu s hs
    rw [Placed.placeThread_sem]
    rcases List.mem_append.mp hu with hu | hu
    · exact (h.placeSems ht raw).own u hu s hs
    · obtain rfl := List.mem_singleton.mp hu
      exact hown s hs

/-! ## 4. What the heap answers

What the kernel is told by its allocator, computed from the heap, and what becomes of the table. -/

/-- The heap is sound, and every object has its block. -/
def Placed.Backed (r : HeapRange) (z : ObjectSizes) (s : Placed) : Prop :=
  ∃ l live, HeapState.Sound r l ⟨s.heap, live⟩ ∧ Covers z s.pointer live

namespace Placed

variable {r : HeapRange} {l : Layout} {c c₁ c₂ c₃ : Heap} {k₁ : Kernel} {mode : Mode}
  {space schPut : Bool} {x : Placed} {tcb : Option Tid}

/-- The `new`s of `threadCreate`. -/
theorem exists_allocate (h : HeapState.Sound r l ⟨c, live⟩) (z : ObjectSizes) (body space : Bool) :
    ∃ p c₁ m c₂ l', kMemAlloc_byte z.tcb c = some (p, c₁) ∧
      TCB.allocate z.toSizes body space c₁ = some (m, c₂) ∧
      HeapState.Sound r l' ⟨c₂, m.semaphoreBlocks z.toSizes ++
        (m.stackBlocks z.toSizes ++ (allocated z.tcb p ++ live))⟩ := by
  obtain ⟨p, c₁, _, e₁, h₁⟩ := h.new z.tcb
  obtain ⟨m, c₂, l', e₂, h₂⟩ := h₁.allocate z.toSizes body space
  exact ⟨p, c₁, m, c₂, l', e₁, e₂, h₂⟩

theorem threadCreate_null (e₁ : kMemAlloc_byte z.tcb x.heap = some (0, c₁)) :
    threadCreate z body mode space n schPut raw x = none := by
  unfold threadCreate
  simp only [bind_apply, ofHeap, e₁, toPtr, followMSH, failure_apply, Option.map_some,
    Option.bind_some, if_true, Option.map_none, Option.bind_none]

theorem threadCreate_some (hp : p ≠ 0) (e₁ : kMemAlloc_byte z.tcb x.heap = some (p, c₁))
    (e₂ : TCB.allocate z.toSizes body space c₁ = some (m, c₂))
    (e₃ : TCB.threadCreate body mode space n schPut (m.answers raw) x.kernel =
      some (some t, k₁)) :
    threadCreate z body mode space n schPut raw x =
      some (some t, ⟨⟨k₁, c₂⟩, placeThread t p m x.pointer⟩) := by
  unfold threadCreate
  simp only [bind_apply, ofHeap, ofKernel, store, e₁, e₂, e₃, toPtr, if_neg hp, followMSH,
    getKernel_apply, Option.map_some, Option.bind_some, pure_apply]

theorem threadCreate_none (hp : p ≠ 0) (e₁ : kMemAlloc_byte z.tcb x.heap = some (p, c₁))
    (e₂ : TCB.allocate z.toSizes body space c₁ = some (m, c₂))
    (e₃ : TCB.threadCreate body mode space n schPut (m.answers raw) x.kernel = some (none, k₁))
    (e₄ : TCB.discard p m c₂ = some ((), c₃)) :
    threadCreate z body mode space n schPut raw x =
      some (none, ⟨⟨k₁, c₃⟩, placeSems x.kernel.IDCounter m x.pointer⟩) := by
  unfold threadCreate
  simp only [bind_apply, ofHeap, ofKernel, store, e₁, e₂, e₃, e₄, toPtr, if_neg hp, followMSH,
    getKernel_apply, Option.map_some, Option.bind_some, pure_apply]

/-- `kSemaphoreCreate`, with whatever the heap answers. -/
theorem kSemaphoreCreate_eq {v : Nat} {ret : Option SemPtr}
    (e₁ : kMemAlloc_byte z.semaphore x.heap = some (p, c₁))
    (e₂ : kSemaphore.kSemaphoreCreate s v (p ≠ 0) x.kernel = some (ret, k₁)) :
    kSemaphoreCreate z s v x =
      some (ret, ⟨⟨k₁, c₁⟩, Function.update x.pointer (.sem s) p⟩) := by
  unfold kSemaphoreCreate
  simp only [bind_apply, ofHeap, ofKernel, store, e₁, e₂, Option.map_some, Option.bind_some]

/-! ## 5. A heap with room -/

/-- All that is free is one segment of `n` blocks. -/
def Roomy (r : HeapRange) (n : Nat) (c : Heap) (live : List Allocation) : Prop :=
  ∃ l a, HeapState.Sound r l ⟨c, live⟩ ∧ l .freeMemoryHead = [⟨a, n⟩]

theorem Roomy.new {b : Nat} (h : Roomy r n c live) (hb : cost b < n) : ∃ p c',
    kMemAlloc_byte b c = some (p, c') ∧ p ≠ 0 ∧
      Roomy r (n - cost b) c' (allocated b p ++ live) := by
  obtain ⟨l, a, hs, hl⟩ := h
  obtain ⟨c', e, hs'⟩ := hs.alloc (o := .system) (roundup_lt b)
  have htake : take (ROUNDUP b MEM_BLOCK_SIZE + 1) (l .freeMemoryHead) =
      some (⟨a, cost b⟩, [⟨a + MEM_BLOCK_SIZE * cost b, n - cost b⟩]) := by
    have hlt : ¬ n < ROUNDUP b MEM_BLOCK_SIZE + 1 := by
      unfold cost at hb
      omega
    have hne : n ≠ ROUNDUP b MEM_BLOCK_SIZE + 1 := by
      unfold cost at hb
      omega
    rw [hl, take, if_neg hlt, if_neg hne]
    rfl
  have hp : a + MEM_BLOCK_SIZE ≠ 0 := by
    simp only [MEM_BLOCK_SIZE]
    omega
  unfold Layout.alloc at e hs'
  rw [htake] at e hs'
  simp only [if_neg hp] at hs'
  have hlive : allocated b (a + MEM_BLOCK_SIZE) ++ live =
      ⟨.system, a + MEM_BLOCK_SIZE, ROUNDUP b MEM_BLOCK_SIZE⟩ :: live := by
    rw [allocated, if_neg hp]
    rfl
  rw [← hlive] at hs'
  refine ⟨_, c', e, hp, _, a + MEM_BLOCK_SIZE * cost b, hs', ?_⟩
  rw [Function.update_of_ne (Owner.head_ne _).symm, Function.update_self]

theorem Roomy.newIf {b : Nat} {w : Bool} (h : Roomy r n c live)
    (hb : (if w then cost b else 0) < n) : ∃ p c', newIf w b c = some (p, c') ∧
      (p ≠ 0 ↔ w = true) ∧ Roomy r (n - if w then cost b else 0) c' (allocated b p ++ live) := by
  cases w with
  | true =>
    obtain ⟨p, c', e, hp, h'⟩ := h.new hb
    exact ⟨p, c', e, by simp [hp], h'⟩
  | false => exact ⟨0, c, rfl, by simp, h⟩

/-- How many blocks a thread takes. -/
def threadCost (z : ObjectSizes) (body : Bool) : Nat :=
  cost z.tcb + 2 * (if body then cost z.stack else 0) + 4 * cost z.semaphore

/-- There is room for a thread. -/
theorem Roomy.thread (h : Roomy r n c live) (hn : threadCost z body < n) : ∃ p c₁ m c₂,
    kMemAlloc_byte z.tcb c = some (p, c₁) ∧ p ≠ 0 ∧
      TCB.allocate z.toSizes body false c₁ = some (m, c₂) ∧
      (∀ raw, m.answers raw =
        { CreateMem.ok raw with userStack := body, systemStack := body }) ∧
      Roomy r (n - threadCost z body) c₂ (m.semaphoreBlocks z.toSizes ++
        (m.stackBlocks z.toSizes ++ (allocated z.tcb p ++ live))) := by
  unfold threadCost at hn ⊢
  obtain ⟨p, c₁, e, hp, h₀⟩ := h.new (b := z.tcb) (by omega)
  obtain ⟨p₁, d₁, e₁, hp₁, h₁⟩ := h₀.newIf (b := z.stack) (w := body) (by omega)
  obtain ⟨p₂, d₂, e₂, hp₂, h₂⟩ := h₁.newIf (b := z.stack) (w := body) (by omega)
  obtain ⟨p₃, d₃, e₃, hp₃, h₃⟩ := h₂.new (b := z.semaphore) (by omega)
  obtain ⟨p₄, d₄, e₄, hp₄, h₄⟩ := h₃.new (b := z.semaphore) (by omega)
  obtain ⟨p₅, d₅, e₅, hp₅, h₅⟩ := h₄.new (b := z.semaphore) (by omega)
  obtain ⟨p₆, d₆, e₆, hp₆, h₆⟩ := h₅.new (b := z.semaphore) (by omega)
  refine ⟨p, c₁, ⟨p₁, p₂, p₃, p₄, p₅, p₆⟩, d₆, e, hp, ?_, fun raw => ?_, ?_⟩
  · unfold TCB.allocate
    simp only [Bool.not_false, Bool.and_true, bind_apply, e₁, e₂, e₃, e₄, e₅, e₆,
      Option.bind_some, pure_apply]
  · simp only [Allocated.answers, CreateMem.ok, hp₁, hp₂, hp₃, hp₄, hp₅, hp₆, Bool.decide_eq_true,
      ne_eq, not_false_eq_true, decide_true]
  · have hcost : n - (cost z.tcb + 2 * (if body then cost z.stack else 0) + 4 * cost z.semaphore) =
        n - cost z.tcb - (if body then cost z.stack else 0) - (if body then cost z.stack else 0) -
          cost z.semaphore - cost z.semaphore - cost z.semaphore - cost z.semaphore := by
      omega
    rw [hcost]
    simpa only [Allocated.semaphoreBlocks, Allocated.stackBlocks, List.append_assoc] using h₆

end Placed

end Os1Kernel
