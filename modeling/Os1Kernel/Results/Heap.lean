/-
# The heap is partitioned, and what is not a pointer is not freed

Over all runs of the memory manager whose calls are allowed: the three lists partition the heap,
and what a client got is its own.  A free of an address that was not given out changes nothing,
except for one address: under a null header pointer, `findByPointer` finds "nothing", and the
comparison in `memFree_` takes that for the segment.

* What is allowed is a request whose blocks can still be given a header's block, a free of any
  address but that one, and a write that spares the headers.  `Memory.Runs` has the invariant of
  such runs, `HeapState.Sound`, of which the partition is a part.
* `invalid_free_refused` is about one further free, of any address.  It asks for more than that the
  lists stay: what stands in memory outside the headers must not matter either, since `memFree_`
  reads a header before it knows that there is one (`HeapState.Refuses`).
-/
import Os1Kernel.Memory.Runs

namespace Os1Kernel

open DoublyLinked Simulation Run

variable {r : HeapRange} {l : Layout} {s : HeapState} {mem : Nat → MSH} {calls : List HeapCall}
  {a b : Allocation} {g : Segment} {i : HeadPtr} {o : Owner} {p x : Nat}

/-! ## 1. The partition -/

/-- The addresses that a client may write. -/
def Allocation.Payload (a : Allocation) (x : Nat) : Prop :=
  a.pointer ≤ x ∧ x < a.pointer + MEM_BLOCK_SIZE * a.nBlocks

/-- What a client got is aligned, inside the heap, and nobody else's. -/
structure HeapState.Owns (r : HeapRange) (s : HeapState) (a : Allocation) : Prop where
  aligned : MEM_BLOCK_SIZE ∣ a.pointer
  inside : r.base ≤ a.pointer ∧
    a.pointer + MEM_BLOCK_SIZE * a.nBlocks ≤ r.base + MEM_BLOCK_SIZE * r.blocks
  notFree : ∀ x, a.Payload x → coverage (s.heap.segments .freeMemoryHead) x = 0
  noHeader : ∀ x, a.Payload x → ∀ i, ∀ g ∈ s.heap.segments i,
    ¬ (g.addr ≤ x ∧ x < g.addr + MEM_BLOCK_SIZE)
  alone : ∀ x, a.Payload x → ∀ b ∈ s.live, b ≠ a → ¬ b.Payload x

/-- The addresses of a segment are those of its header and those of the payload. -/
theorem Allocation.Payload.has (hx : a.Payload x) (hp : a.pointer = g.addr + MEM_BLOCK_SIZE)
    (hs : g.size = a.nBlocks + 1) : g.has x = true := by
  obtain ⟨h₁, h₂⟩ := hx
  refine has_iff.mpr ?_
  simp only [Segment.stop, MEM_BLOCK_SIZE] at *
  omega

theorem HeapState.Sound.owns (h : s.Sound r s.heap.segments) (ha : a ∈ s.live) : s.Owns r a := by
  obtain ⟨g, hg, hp, hs⟩ := (h.live a).mp ha
  have hpart := h.partition
  obtain ⟨pre, post, hl⟩ := List.append_of_mem hg
  constructor
  · rw [hp]
    exact Nat.dvd_add (hpart.aligned _ g hg) (Nat.dvd_refl _)
  · have h₁ := has_iff.mp (hpart.inside hg (has_addr (hpart.pos _ g hg)))
    have h₂ := has_iff.mp (hpart.inside hg (x := g.stop - 1) (has_iff.mpr (by
      simp only [Segment.stop, MEM_BLOCK_SIZE]
      omega)))
    simp only [HeapRange.whole, Segment.stop, MEM_BLOCK_SIZE] at h₁ h₂ hp ⊢
    omega
  · intro x hx
    refine List.countP_eq_zero.mpr fun u hu => ?_
    rw [hpart.disjoint hl (hx.has hp hs) (Or.inr ⟨a.owner.head_ne.symm, hu⟩)]
    exact Bool.false_ne_true
  · intro x hx i u hu hux
    have hu' : u.has x = true := by
      have := hpart.pos i u hu
      refine has_iff.mpr ⟨hux.1, hux.2.trans_le ?_⟩
      simp only [Segment.stop, MEM_BLOCK_SIZE]
      omega
    obtain ⟨-, rfl⟩ := hpart.eq_of_has hg hu (hx.has hp hs) hu'
    exact absurd hx.1 (by omega)
  · intro x hx b hb hne hbx
    obtain ⟨u, hu, hbp, hbs⟩ := (h.live b).mp hb
    obtain ⟨ho, rfl⟩ := hpart.eq_of_has hg hu (hx.has hp hs) (hbx.has hbp hbs)
    obtain ⟨o, p, n⟩ := a
    obtain ⟨o', p', n'⟩ := b
    obtain rfl : o = o' := Owner.head_injective ho
    obtain rfl : p' = p := hbp.trans hp.symm
    obtain rfl : n' = n := Nat.succ.inj (hbs.symm.trans hs)
    exact hne rfl

/-- **The heap partition.**  After any allowed calls, all of which return, the three lists are
well formed and partition the heap, and every client owns what it was given. -/
theorem heap_partition (h : AllowedRun r mem calls) :
    ∃ s, heapRun r mem calls = some s ∧ Holds s.heap s.heap.segments ∧
      Partition r s.heap.segments ∧ (s.live.Pairwise fun a b => a.pointer ≠ b.pointer) ∧
      ∀ a ∈ s.live, s.Owns r a := by
  obtain ⟨s, hs, hsound⟩ := heapRun_sound h
  exact ⟨s, hs, hsound.holds, hsound.partition, hsound.distinct, fun a ha => hsound.owns ha⟩

/-- Thirteen blocks, not aligned at either end. -/
def demoRange : HeapRange where
  start := 100
  stop := 1000
  above := by decide
  room := by decide
  lt := by decide

def demoMemory : Nat → MSH := fun _ => ⟨none, none, 0⟩

/-- The user allocates, the system allocates, and the user frees. -/
def demoCalls : List HeapCall := [.alloc .user 1, .alloc .system 2, .free .user 192]

theorem demoCalls_allowed : AllowedRun demoRange demoMemory demoCalls := fun _ _ => by
  simp [demoCalls, AllSteps, HeapCall.Allowed, MEM_BLOCK_SIZE]

theorem heap_partition_demo : ∃ s, heapRun demoRange demoMemory demoCalls = some s ∧
    Holds s.heap s.heap.segments ∧ Partition demoRange s.heap.segments ∧
      (s.live.Pairwise fun a b => a.pointer ≠ b.pointer) ∧ ∀ a ∈ s.live, s.Owns demoRange a :=
  heap_partition demoCalls_allowed

example : (heapRun demoRange demoMemory demoCalls).map (fun s => s.heap.segments .freeMemoryHead) =
    some [⟨128, 2⟩, ⟨448, 8⟩] := by decide +kernel

/-! ## 2. Invalid frees -/

/-- The free is refused: nothing changes, and what stands in memory outside the headers of the
lists makes no difference. -/
def HeapState.Refuses (s : HeapState) (o : Owner) (p : Nat) : Prop :=
  ∀ mem, (∀ i, ∀ q ∈ s.heap.headers i, mem q = s.heap.mem q) →
    o.free p { s.heap with mem := mem } = some (ERR_MEM_FREE, { s.heap with mem := mem })

theorem HeapState.Sound.refuses (h : s.Sound r l) (hlt : p < 2 ^ 64) (hp0 : p ≠ 0)
    (hnone : ∀ g ∈ l o.head, g.addr + MEM_BLOCK_SIZE ≠ p) (hne : p ≠ MEM_BLOCK_SIZE) :
    s.Refuses o p := by
  intro mem hmem
  have hmem' : ∀ i, ∀ g ∈ l i, mem g.addr = s.heap.mem g.addr := fun i g hg => hmem i _ (by
    rw [h.holds.headers_eq h.partition]
    exact List.mem_map_of_mem hg)
  have hholds : Holds { s.heap with mem := mem } l := by
    constructor
    · intro i
      refine (h.holds.lists i).congr fun a ha => ?_
      obtain ⟨g, hg, rfl⟩ := List.mem_map.mp ha
      simp only [Function.comp_apply, hmem' i g hg, and_self]
    · intro i g hg
      show (mem g.addr).size = g.size
      rw [hmem' i g hg]
      exact h.holds.sizes i g hg
  rw [o.free_eq]
  exact memFree_invalid h.partition hholds hlt hne hp0 hnone

/-- The free of the address of the second block follows a null pointer. -/
theorem HeapState.Sound.free_block (h : s.Sound r l) : o.free MEM_BLOCK_SIZE s.heap = none := by
  have hpart := h.partition
  have hnone : (((l o.head).map Segment.addr).takeWhile (· ≤ 0)).getLast? = none := by
    rw [List.getLast?_eq_none_iff]
    cases hl : l o.head with
    | nil => rfl
    | cons g l' =>
      have := hpart.addr_pos (i := o.head) (s := g) (hl ▸ List.mem_cons_self)
      rw [List.map_cons, List.takeWhile_cons_of_neg]
      simp only [MEM_BLOCK_SIZE] at this
      simp only [decide_eq_true_eq]
      omega
  have hfind := findByPointer_apply 0 (h.holds.lists o.head).chain (by
    rw [List.length_map]
    exact hpart.length_le _)
  rw [hnone] at hfind
  have hseg : sub64 MEM_BLOCK_SIZE MEM_BLOCK_SIZE = 0 := by decide
  rw [o.free_eq]
  unfold MemoryManager.memFree_
  rw [if_neg (by decide), hseg, bind_apply, getHead_apply, Option.bind_some, bind_apply, hfind,
    Option.bind_some, if_neg (show ¬ toPtr 0 ≠ none by decide)]
  rfl

/-- **Exactly one invalid free is not refused.**  After any allowed calls, freeing an address that
its caller does not hold, and that is not null, returns the error and changes nothing, whatever
stands in memory outside the headers; unless it is the address of the second block. -/
theorem invalid_free_refused (h : AllowedRun r mem calls) (hs : heapRun r mem calls = some s)
    (hlt : p < 2 ^ 64) (hp0 : p ≠ 0)
    (hnone : ∀ g ∈ s.heap.segments o.head, g.addr + MEM_BLOCK_SIZE ≠ p) :
    s.Refuses o p ↔ p ≠ MEM_BLOCK_SIZE := by
  obtain ⟨t, ht, hsound⟩ := heapRun_sound h
  obtain rfl : t = s := Option.some.inj (ht.symm.trans hs)
  refine ⟨fun href hp => ?_, hsound.refuses hlt hp0 hnone⟩
  have := href t.heap.mem fun _ _ _ => rfl
  rw [hp] at this
  rw [show o.free MEM_BLOCK_SIZE { t.heap with mem := t.heap.mem } = none from
    hsound.free_block] at this
  cases this

theorem invalid_free_refused_demo : ∃ s, heapRun demoRange demoMemory demoCalls = some s ∧
    (s.Refuses .user 200 ↔ 200 ≠ MEM_BLOCK_SIZE) := by
  obtain ⟨s, hs, hsound⟩ := heapRun_sound demoCalls_allowed
  refine ⟨s, hs, invalid_free_refused demoCalls_allowed hs (by decide) (by decide) fun g hg he => ?_⟩
  have := hsound.partition.aligned _ g hg
  simp only [MEM_BLOCK_SIZE] at he
  omega

/-- Right after `init` the address 64 was not given out, and its free does not return. -/
theorem free_block_not_refused : ∃ s, heapRun demoRange demoMemory [] = some s ∧
    (∀ g ∈ s.heap.segments .userMemoryHead, g.addr + MEM_BLOCK_SIZE ≠ 64) ∧
    MemoryManager.memFree 64 s.heap = none ∧ ¬ s.Refuses .user 64 := by
  obtain ⟨s, hs, hsound⟩ := heapRun_sound (show AllowedRun demoRange demoMemory []
    from fun _ _ => trivial)
  have hnone : MemoryManager.memFree 64 s.heap = none := hsound.free_block (o := .user)
  refine ⟨s, hs, fun g hg he => ?_, hnone, fun href => ?_⟩
  · have := hsound.partition.addr_pos hg
    simp only [MEM_BLOCK_SIZE] at this he
    omega
  · have := href s.heap.mem fun _ _ _ => rfl
    rw [show Owner.user.free 64 { s.heap with mem := s.heap.mem } = none from hnone] at this
    cases this

end Os1Kernel
