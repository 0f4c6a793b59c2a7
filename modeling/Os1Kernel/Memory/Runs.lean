/-
# Runs of the memory manager

The manager from `init` on, under any sequence of calls: each allocation is of the system or of the
user, each free is of an address that the caller likes, and in between the clients write memory,
but no header of a list.  A ghost list records what was returned and is not yet freed.

`HeapState.Sound` is the invariant.  It is stated about the lists as they are read from memory:

* they are the sequences of a partition;
* the ghost list has exactly the segments that are allocated, each as the pointer behind its header
  and the number of blocks that were asked for;
* no two pointers on it are the same.

A call returns and keeps the invariant (`Sound.step`), by the lemmas of `Memory.Operations`, so all
allowed runs do (`heapRun_sound`).  A call is not allowed if it asks for 2^64 - 1 blocks, whose
header's block is one too many, or frees the address of the second block of memory, whose header
would be at the null pointer.
-/
import Os1Kernel.Lib.Run
import Os1Kernel.Memory.Operations

namespace Os1Kernel

open DoublyLinked Simulation Run

/-! ## 1. The system -/

/-- The addresses on a list, read from memory. -/
def Heap.headers (c : Heap) (i : HeadPtr) : List Nat :=
  Linked.walk (fun p => (c.mem p).next) maxBlocks (c.head i)

/-- A list, read from memory. -/
def Heap.segments (c : Heap) : Layout := fun i =>
  (c.headers i).map fun p => ⟨p, (c.mem p).size⟩

inductive Owner
  | user
  | system
  deriving DecidableEq, Repr

namespace Owner

def head : Owner → HeadPtr
  | user => .userMemoryHead
  | system => .systemMemoryHead

def alloc : Owner → Nat → HeapM Nat
  | user => MemoryManager.memAlloc
  | system => MemoryManager.kMemAlloc

def free : Owner → Nat → HeapM Nat
  | user => MemoryManager.memFree
  | system => MemoryManager.kMemFree

theorem head_ne (o : Owner) : o.head ≠ .freeMemoryHead := by
  cases o <;> decide

theorem head_injective {o o' : Owner} (h : o.head = o'.head) : o = o' := by
  cases o <;> cases o' <;> first | rfl | cases h

theorem alloc_eq (o : Owner) (n : Nat) : o.alloc n = MemoryManager.memAlloc_ n o.head := by
  cases o <;> rfl

theorem free_eq (o : Owner) (p : Nat) : o.free p = MemoryManager.memFree_ p o.head := by
  cases o <;> rfl

end Owner

/-- A pointer that was returned, and how many blocks were asked for. -/
structure Allocation where
  owner : Owner
  pointer : Nat
  nBlocks : Nat
  deriving DecidableEq, Repr

structure HeapState where
  heap : Heap
  /-- Returned and not yet freed. -/
  live : List Allocation

inductive HeapCall
  | alloc (o : Owner) (nBlocks : Nat)
  | free (o : Owner) (p : Nat)
  /-- A client writes. -/
  | write (p : Nat) (x : MSH)

/-- What clients may do. -/
def HeapCall.Allowed (s : HeapState) : HeapCall → Prop
  | .alloc _ nBlocks => nBlocks + 1 < 2 ^ 64
  | .free _ p => p < 2 ^ 64 ∧ p ≠ MEM_BLOCK_SIZE
  | .write p _ => ∀ i, p ∉ s.heap.headers i

/-- `none` if the code does not return. -/
def HeapState.step (s : HeapState) : HeapCall → Option HeapState
  | .alloc o nBlocks => (o.alloc nBlocks s.heap).map fun r =>
    ⟨r.2, if r.1 = 0 then s.live else ⟨o, r.1, nBlocks⟩ :: s.live⟩
  | .free o p => (o.free p s.heap).map fun r =>
    ⟨r.2, if r.1 = 0 then s.live.filter fun a => ¬ (a.owner = o ∧ a.pointer = p) else s.live⟩
  | .write p x => some { s with heap := s.heap.setMSH p fun _ => x }

/-- `init`, on memory with any contents. -/
def HeapState.boot (r : HeapRange) (mem : Nat → MSH) : Option HeapState :=
  (MemoryManager.init r.start r.stop ⟨mem, fun _ => none⟩).map fun x => ⟨x.2, []⟩

/-- The state after `init` and some calls. -/
def heapRun (r : HeapRange) (mem : Nat → MSH) (calls : List HeapCall) : Option HeapState :=
  (HeapState.boot r mem).bind fun s => run HeapState.step s calls

/-- The calls of the run are all allowed when they come. -/
def AllowedRun (r : HeapRange) (mem : Nat → MSH) (calls : List HeapCall) : Prop :=
  ∀ s, HeapState.boot r mem = some s → AllSteps HeapState.step HeapCall.Allowed s calls


/-! ## 2. The invariant -/

structure HeapState.Sound (r : HeapRange) (l : Layout) (s : HeapState) : Prop where
  holds : Holds s.heap l
  partition : Partition r l
  live : ∀ a, a ∈ s.live ↔
    ∃ g ∈ l a.owner.head, a.pointer = g.addr + MEM_BLOCK_SIZE ∧ g.size = a.nBlocks + 1
  distinct : s.live.Pairwise fun a b => a.pointer ≠ b.pointer

variable {r : HeapRange} {l : Layout} {s t : HeapState} {i : HeadPtr} {o : Owner} {g : Segment}

theorem Holds.headers_eq {c : Heap} (h : Holds c l) (hp : Partition r l) (i : HeadPtr) :
    c.headers i = (l i).map Segment.addr :=
  Linked.Chain.walk_eq (h.lists i).chain (by
    rw [List.length_map]
    exact hp.length_le i)

/-- What is read from memory is what the headers represent. -/
theorem Holds.segments_eq {c : Heap} (h : Holds c l) (hp : Partition r l) : c.segments = l := by
  funext i
  rw [Heap.segments, h.headers_eq hp, List.map_map]
  refine (List.map_congr_left fun g hg => ?_).trans (List.map_id _)
  simp only [Function.comp_apply, h.sizes i g hg, id]

theorem mem_allocated {u : Segment} {o' : Owner} {free : List Segment} :
    u ∈ Function.update (Function.update l .freeMemoryHead free) o.head
      (insertSegment g (l o.head)) o'.head ↔ o' = o ∧ u = g ∨ u ∈ l o'.head := by
  by_cases ho : o' = o
  · subst ho
    rw [Function.update_self, mem_insertSegment]
    simp
  · have hne : o'.head ≠ o.head := fun he => ho (Owner.head_injective he)
    rw [Function.update_of_ne hne, Function.update_of_ne o'.head_ne]
    simp [ho]

/-- Every address is in one segment of one list. -/
theorem Partition.eq_of_has {j : HeadPtr} {u : Segment} {x : Nat} (h : Partition r l)
    (hg : g ∈ l i) (hu : u ∈ l j) (hgx : g.has x = true) (hux : u.has x = true) :
    i = j ∧ g = u := by
  obtain ⟨pre, post, hl⟩ := List.append_of_mem hg
  have hout : ¬ (u ∈ pre ++ post ∨ j ≠ i ∧ u ∈ l j) := fun hc => by
    have := h.disjoint hl hgx hc
    rw [hux] at this
    cases this
  rw [not_or, not_and, not_imp_not] at hout
  obtain rfl : j = i := hout.2 hu
  rw [hl] at hu
  simp only [List.mem_append, List.mem_cons] at hu hout
  exact ⟨rfl, by tauto⟩

theorem Partition.eq_of_addr {u : Segment} (h : Partition r l) (hg : g ∈ l i) (hu : u ∈ l i)
    (he : g.addr = u.addr) : g = u :=
  (h.eq_of_has hg hu (he ▸ has_addr (h.pos i g hg)) (has_addr (h.pos i u hu))).2

theorem mem_freed {u : Segment} {o' : Owner} {free : List Segment} (h : Partition r l)
    (hg : g ∈ l o.head) :
    u ∈ Function.update (Function.update l o.head ((l o.head).erase g)) .freeMemoryHead free o'.head ↔
      u ∈ l o'.head ∧ ¬ (o' = o ∧ u.addr = g.addr) := by
  rw [Function.update_of_ne o'.head_ne]
  by_cases ho : o' = o
  · subst ho
    obtain ⟨pre, post, hl⟩ := List.append_of_mem hg
    have herase := erase_eq h hl
    rw [Function.update_self, List.Nodup.mem_erase_iff ?_]
    · constructor
      · rintro ⟨hne, hu⟩
        exact ⟨hu, fun he => hne (h.eq_of_addr hu hg he.2)⟩
      · rintro ⟨hu, hne⟩
        exact ⟨fun he => hne ⟨rfl, congrArg Segment.addr he⟩, hu⟩
    · exact (h.ascending o'.head).imp fun hlt he => Nat.ne_of_lt hlt (congrArg Segment.addr he)
  · have hne : o'.head ≠ o.head := fun he => ho (Owner.head_injective he)
    rw [Function.update_of_ne hne]
    simp [ho]

namespace HeapState.Sound

theorem pointer_ne_zero (h : s.Sound r l) {a : Allocation} (ha : a ∈ s.live) : a.pointer ≠ 0 := by
  obtain ⟨g, -, he, -⟩ := (h.live a).mp ha
  simp only [MEM_BLOCK_SIZE] at he
  omega

theorem boot (r : HeapRange) (mem : Nat → MSH) :
    ∃ s, HeapState.boot r mem = some s ∧ s.Sound r (Layout.initial r) := by
  obtain ⟨c, hc, hh⟩ := init_does r mem
  refine ⟨⟨c, []⟩, by rw [HeapState.boot, hc]; rfl, hh, partition_initial r, fun a => ?_, List.Pairwise.nil⟩
  constructor
  · nofun
  · rintro ⟨g, hg, -⟩
    cases a with
    | mk o => cases o <;> cases hg

theorem alloc (h : s.Sound r l) {n : Nat} (hn : n + 1 < 2 ^ 64) :
    ∃ c, o.alloc n s.heap = some ((l.alloc o.head n).1, c) ∧
      HeapState.Sound r (l.alloc o.head n).2 ⟨c, if (l.alloc o.head n).1 = 0 then s.live
        else ⟨o, (l.alloc o.head n).1, n⟩ :: s.live⟩ := by
  obtain ⟨c, hc, hh⟩ := memAlloc_does h.partition h.holds o.head_ne hn
  refine ⟨c, o.alloc_eq n ▸ hc, ?_⟩
  revert hh
  unfold Layout.alloc
  cases ht : take (n + 1) (l .freeMemoryHead) with
  | none => exact fun hh => ⟨hh, h.partition, h.live, h.distinct⟩
  | some found =>
    obtain ⟨g, free⟩ := found
    intro hh
    obtain ⟨-, hfresh⟩ := h.partition.taken o.head_ne (Nat.le_add_left 1 n) ht
    have hne : g.addr + MEM_BLOCK_SIZE ≠ 0 := by
      simp only [MEM_BLOCK_SIZE]
      omega
    rw [if_neg hne]
    refine ⟨hh, h.partition.alloc (Nat.le_add_left 1 n) o.head_ne ht, fun a => ?_,
      List.pairwise_cons.mpr ⟨fun a ha => ?_, h.distinct⟩⟩
    · rw [List.mem_cons, h.live]
      simp only [mem_allocated]
      constructor
      · rintro (rfl | ⟨u, hu, he⟩)
        · exact ⟨g, Or.inl ⟨rfl, rfl⟩, rfl, take_size ht⟩
        · exact ⟨u, Or.inr hu, he⟩
      · rintro ⟨u, ⟨ho, rfl⟩ | hu, he⟩
        · obtain ⟨o', p, m⟩ := a
          have hm : m = n := Nat.succ.inj (he.2.symm.trans (take_size ht))
          exact Or.inl (by rw [show o' = o from ho, show p = _ from he.1, hm])
        · exact Or.inr ⟨u, hu, he⟩
    · obtain ⟨u, hu, he, -⟩ := (h.live a).mp ha
      have := hfresh a.owner.head u (by rwa [Function.update_of_ne a.owner.head_ne])
      show g.addr + MEM_BLOCK_SIZE ≠ a.pointer
      omega

theorem free (h : s.Sound r l) {p : Nat} (hp : p < 2 ^ 64 ∧ p ≠ MEM_BLOCK_SIZE) :
    ∃ c, o.free p s.heap = some ((l.free o.head p).1, c) ∧
      HeapState.Sound r (l.free o.head p).2 ⟨c, if (l.free o.head p).1 = 0
        then s.live.filter fun a => ¬ (a.owner = o ∧ a.pointer = p) else s.live⟩ := by
  obtain ⟨c, hc, hh, -⟩ := memFree_does h.partition h.holds o.head_ne hp.1 hp.2
  refine ⟨c, o.free_eq p ▸ hc, ?_⟩
  revert hh
  unfold Layout.free
  by_cases hp0 : p = 0
  · rw [if_pos hp0]
    intro hh
    refine ⟨hh, h.partition, fun a => ?_, h.distinct.filter _⟩
    rw [if_pos rfl, List.mem_filter, ← h.live a]
    have hne : a ∈ s.live → a.pointer ≠ p := fun ha he => h.pointer_ne_zero ha (he.trans hp0)
    simp only [decide_eq_true_eq, and_iff_left_iff_imp]
    exact fun ha he => hne ha he.2
  rw [if_neg hp0]
  cases hf : (l o.head).find? fun g => decide (g.addr + MEM_BLOCK_SIZE = p) with
  | none => exact fun hh => ⟨hh, h.partition, h.live, h.distinct⟩
  | some g =>
    intro hh
    have hg : g ∈ l o.head := List.mem_of_find?_eq_some hf
    have hgp : g.addr + MEM_BLOCK_SIZE = p := by simpa using List.find?_some hf
    obtain ⟨pre, post, hl⟩ := List.append_of_mem hg
    have hpart := h.partition.free o.head_ne hl
    rw [← erase_eq h.partition hl] at hpart
    refine ⟨hh, hpart, fun a => ?_, ?_⟩
    · rw [if_pos rfl, List.mem_filter, h.live a]
      simp only [mem_freed h.partition hg, decide_eq_true_eq]
      constructor
      · rintro ⟨⟨u, hu, he⟩, hne⟩
        exact ⟨u, ⟨hu, fun hc => hne ⟨hc.1, by rw [he.1, hc.2, hgp]⟩⟩, he⟩
      · rintro ⟨u, ⟨hu, hne⟩, he⟩
        refine ⟨⟨u, hu, he⟩, fun hc => hne ⟨hc.1, ?_⟩⟩
        have := hc.2
        omega
    · rw [if_pos rfl]
      exact h.distinct.filter _

theorem write (h : s.Sound r l) {p : Nat} {x : MSH} (hp : ∀ i, p ∉ s.heap.headers i) :
    HeapState.Sound r l { s with heap := s.heap.setMSH p fun _ => x } := by
  have hmem : ∀ i, ∀ g ∈ l i, (s.heap.setMSH p fun _ => x).mem g.addr = s.heap.mem g.addr :=
    fun i g hg => mem_setMSH_of_ne fun he => hp i (by
      rw [h.holds.headers_eq h.partition, ← he]
      exact List.mem_map_of_mem hg)
  refine ⟨⟨fun i => (h.holds.lists i).congr fun a ha => ?_, fun i g hg => ?_⟩, h.partition, h.live,
    h.distinct⟩
  · obtain ⟨g, hg, rfl⟩ := List.mem_map.mp ha
    simp only [Function.comp_apply, hmem i g hg, and_self]
  · rw [hmem i g hg]
    exact h.holds.sizes i g hg

/-- **Every call returns, and keeps the invariant.** -/
theorem step (h : s.Sound r l) {call : HeapCall} (hc : call.Allowed s) :
    ∃ t l', s.step call = some t ∧ t.Sound r l' := by
  cases call with
  | alloc o nBlocks =>
    obtain ⟨c, he, ht⟩ := h.alloc (o := o) hc
    exact ⟨_, _, by rw [HeapState.step, he]; rfl, ht⟩
  | free o p =>
    obtain ⟨c, he, ht⟩ := h.free (o := o) hc
    exact ⟨_, _, by rw [HeapState.step, he]; rfl, ht⟩
  | write p x => exact ⟨_, _, rfl, h.write hc⟩

theorem run (h : s.Sound r l) {calls : List HeapCall}
    (hc : AllSteps HeapState.step HeapCall.Allowed s calls) :
    ∃ t l', Run.run HeapState.step s calls = some t ∧ t.Sound r l' := by
  induction calls generalizing s l with
  | nil => exact ⟨s, l, rfl, h⟩
  | cons call calls ih =>
    obtain ⟨t, l', ht, hl'⟩ := h.step hc.1
    obtain ⟨u, m, hu, hm⟩ := ih hl' (hc.2 t ht)
    exact ⟨u, m, by rw [run_cons, ht, Option.bind_some, hu], hm⟩

end HeapState.Sound

/-- **The invariant of all runs.** -/
theorem heapRun_sound {mem : Nat → MSH} {calls : List HeapCall} (h : AllowedRun r mem calls) :
    ∃ s, heapRun r mem calls = some s ∧ s.Sound r s.heap.segments := by
  obtain ⟨s, hs, hl⟩ := HeapState.Sound.boot r mem
  obtain ⟨t, l, ht, hl'⟩ := hl.run (h s hs)
  refine ⟨t, by rw [heapRun, hs, Option.bind_some, ht], ?_⟩
  rw [hl'.holds.segments_eq hl'.partition]
  exact hl'

end Os1Kernel
