/-
# Counting what is allocated

`util/memoryManagerUtils.hpp`: `countSegments` and `totalSize`, each a loop along a list of
headers, and `getBlocksCount`.  Over all runs of the memory manager the numbers of the three lists
add up to the whole heap, those of the system and of the user are what their clients hold, and the
free list is in no more pieces than the allocated segments can cut it into.

* The sum: each address of the heap is in one segment, so summing over the addresses counts the
  bytes of the segments (`Partition.bytes_eq`).
* The pieces: where a free segment ends, and it is not the last one, an allocated segment is, since
  two free ones never meet.  Different free segments have different ones (`used_injective`), so
  there is at most one free segment more than there are allocated ones.
-/
import Mathlib.Algebra.BigOperators.Group.List.Basic
import Mathlib.Algebra.BigOperators.Ring.Finset
import Mathlib.Order.Interval.Finset.Nat
import Os1Kernel.Results.FreeList

namespace Os1Kernel

open DoublyLinked Simulation Run

/-! ## 1. The code -/

namespace MemoryManager

/-- `while (head) b += ..., head = head->next;` -/
def sumLoop (f : MSH → Nat) : Nat → Option Nat → Nat → HeapM Nat
  | 0, _, _ => failure
  | _ + 1, none, b => pure b
  | n + 1, some head, b => do
    let x ← getMSH head
    sumLoop f n x.next (u64 (b + f x))

/-- `countSegments` -/
def countSegments (head : Option Nat) : HeapM Nat := sumLoop (fun _ => 1) (maxBlocks + 1) head 0

/-- `totalSize` -/
def totalSize (head : Option Nat) : HeapM Nat :=
  sumLoop (fun x => u64 (x.size * MEM_BLOCK_SIZE)) (maxBlocks + 1) head 0

/-- `getBlocksCount`, with `PTR_GOTTEN_TO_ACT` -/
def getBlocksCount (p : Nat) : HeapM Nat := return (← getMSH (sub64 p MEM_BLOCK_SIZE)).size

end MemoryManager

variable {r : HeapRange} {l : Layout} {s : HeapState} {mem : Nat → MSH} {calls : List HeapCall}
  {c : Heap} {o : Owner}

/-! ## 2. The loops -/

theorem sumLoop_apply {f : MSH → Nat} {φ : Segment → Nat} {n b : Nat} {p : Option Nat}
    {l : List Segment} (h : Linked.Chain (MSH.next ∘ c.mem) p (l.map Segment.addr))
    (hf : ∀ g ∈ l, f (c.mem g.addr) = φ g) (hn : l.length < n) (hb : b + (l.map φ).sum < 2 ^ 64) :
    MemoryManager.sumLoop f n p b c = some (b + (l.map φ).sum, c) := by
  induction l generalizing p n b with
  | nil =>
    obtain ⟨n, rfl⟩ := Nat.exists_eq_succ_of_ne_zero (Nat.ne_of_gt hn)
    obtain rfl : p = none := h
    rfl
  | cons g l ih =>
    obtain ⟨n, rfl⟩ := Nat.exists_eq_succ_of_ne_zero (Nat.ne_of_gt (Nat.zero_lt_of_lt hn))
    rw [List.forall_mem_cons] at hf
    rw [List.map_cons, List.sum_cons] at hb
    obtain rfl : p = some g.addr := h.1
    have hu : u64 (b + φ g) = b + φ g := Nat.mod_eq_of_lt (by omega)
    rw [MemoryManager.sumLoop]
    simp only [bind_apply, getMSH_apply, Option.bind_some, hf.1, hu]
    refine (ih h.2 hf.2 (Nat.lt_of_succ_lt_succ hn) (by omega)).trans ?_
    rw [List.map_cons, List.sum_cons, Nat.add_assoc]

/-! ## 3. Counting addresses -/

/-- The bytes of some segments. -/
def bytes (l : List Segment) : Nat := (l.map fun g => MEM_BLOCK_SIZE * g.size).sum

/-- A segment covers as many addresses as it has bytes. -/
theorem sum_has {g : Segment} {stop : Nat} (hg : g.stop ≤ stop) :
    ∑ x ∈ Finset.range stop, (g.has x).toNat = MEM_BLOCK_SIZE * g.size := by
  have hIco : (Finset.range stop).filter (fun x => g.addr ≤ x ∧ x < g.stop) =
      Finset.Ico g.addr g.stop := by
    ext x
    simp only [Finset.mem_filter, Finset.mem_range, Finset.mem_Ico]
    omega
  have hif : ∀ x, (g.has x).toNat = if g.addr ≤ x ∧ x < g.stop then 1 else 0 := fun x =>
    has_toNat
  simp only [hif]
  rw [Finset.sum_boole, hIco, Nat.card_Ico, Nat.cast_id, Segment.stop, Nat.add_sub_cancel_left]

theorem sum_coverage {l : List Segment} {stop : Nat} (hl : ∀ g ∈ l, g.stop ≤ stop) :
    ∑ x ∈ Finset.range stop, coverage l x = bytes l := by
  induction l with
  | nil => simp [bytes]
  | cons g l ih =>
    rw [List.forall_mem_cons] at hl
    simp only [coverage_cons, Finset.sum_add_distrib, ih hl.2, sum_has hl.1, bytes, List.map_cons,
      List.sum_cons]
    omega

/-- The three lists have together the bytes of the heap. -/
theorem Partition.bytes_eq (h : Partition r l) :
    bytes (l .freeMemoryHead) + bytes (l .systemMemoryHead) + bytes (l .userMemoryHead) =
      MEM_BLOCK_SIZE * r.blocks := by
  have hstop : ∀ i, ∀ g ∈ l i, g.stop ≤ r.stop := fun i g hg => (h.bounds hg).2
  have hwhole : r.whole.stop ≤ r.stop := by
    have hroom := r.room
    simp only [HeapRange.whole, HeapRange.blocks, HeapRange.base, Segment.stop, MEM_BLOCK_SIZE]
      at hroom ⊢
    omega
  have htotal : ∀ x, coverage (l .freeMemoryHead) x + coverage (l .systemMemoryHead) x +
      coverage (l .userMemoryHead) x = (r.whole.has x).toNat := h.total
  rw [← sum_coverage (hstop _), ← sum_coverage (hstop _), ← sum_coverage (hstop _),
    ← Finset.sum_add_distrib, ← Finset.sum_add_distrib]
  simp only [htotal]
  exact sum_has hwhole

/-! ## 4. How many pieces -/

/-- What is allocated. -/
def Layout.used (l : Layout) : List Segment := l .systemMemoryHead ++ l .userMemoryHead

/-- Behind a free segment that is not the last one, something is allocated. -/
theorem Partition.exists_used (h : Partition r l) {g g' : Segment} (hg : g ∈ l .freeMemoryHead)
    (hg' : g' ∈ l .freeMemoryHead) (hlt : g.stop < g'.addr) :
    ∃ u ∈ l.used, u.has g.stop = true := by
  have hwhole : r.whole.has g.stop = true := by
    have h₁ := has_iff.mp (h.inside hg (has_addr (h.pos _ g hg)))
    have h₂ := has_iff.mp (h.inside hg' (has_addr (h.pos _ g' hg')))
    refine has_iff.mpr ⟨?_, hlt.trans h₂.2⟩
    exact h₁.1.trans (Nat.le_add_right _ _)
  have hfree : coverage (l .freeMemoryHead) g.stop = 0 := by
    refine List.countP_eq_zero.mpr fun u hu hux => ?_
    obtain ⟨hlow, hhigh⟩ := has_iff.mp hux
    by_cases hne : g = u
    · subst hne
      exact Nat.lt_irrefl _ hhigh
    · rcases h.gaps.cases hg hu hne with hbefore | hbehind
      · omega
      · have := Nat.le_add_right g.addr (MEM_BLOCK_SIZE * g.size)
        simp only [Segment.stop] at hbehind hhigh this
        omega
  have htotal := h.total g.stop
  rw [Layout.total, hfree, hwhole, Bool.toNat_true] at htotal
  have hpos : 0 < coverage l.used g.stop := by
    rw [Layout.used, coverage_append]
    omega
  exact List.countP_pos_iff.mp hpos

/-- Two free segments are not cut by the same allocated one. -/
theorem Partition.used_injective (h : Partition r l) {g g' u : Segment}
    (hg : g ∈ l .freeMemoryHead) (hg' : g' ∈ l .freeMemoryHead) (hu : u ∈ l.used)
    (hug : u.has g.stop = true) (hug' : u.has g'.stop = true) : g = g' := by
  have hcut : ∀ {g g' : Segment}, g ∈ l .freeMemoryHead → g' ∈ l .freeMemoryHead →
      u.has g.stop = true → u.has g'.stop = true → ¬ g.stop < g'.addr := by
    intro g g' hg hg' hug hug' hlt
    have hhas : u.has g'.addr = true := by
      have h₁ := (has_iff.mp hug).1
      have h₂ := (has_iff.mp hug').2
      refine has_iff.mpr ⟨by omega, Nat.lt_of_le_of_lt (Nat.le_add_right _ _) h₂⟩
    have hne : ∀ i, u ∈ l i → i = .freeMemoryHead := fun i hi =>
      (h.eq_of_has hi hg' hhas (has_addr (h.pos _ g' hg'))).1
    rcases List.mem_append.mp hu with hu | hu
    · cases hne _ hu
    · cases hne _ hu
  by_contra hne
  rcases h.gaps.cases hg hg' hne with hlt | hlt
  · exact hcut hg hg' hug hug' hlt
  · exact hcut hg' hg hug' hug hlt

/-- The free list is cut by what is allocated only. -/
theorem Partition.free_length (h : Partition r l) :
    (l .freeMemoryHead).length ≤ l.used.length + 1 := by
  rcases List.eq_nil_or_concat' (l .freeMemoryHead) with hnil | ⟨pre, last, hfree⟩
  · rw [hnil]
    exact Nat.zero_le _
  have hgaps := h.gaps
  rw [hfree] at hgaps
  obtain ⟨hpre, -, hlast⟩ := List.pairwise_append.mp hgaps
  have hmem : ∀ g ∈ pre, g ∈ l .freeMemoryHead := fun g hg => hfree ▸ List.mem_append_left _ hg
  have hex : ∀ g ∈ pre, ∃ u ∈ l.used, u.has g.stop = true := fun g hg =>
    h.exists_used (hmem g hg) (hfree ▸ List.mem_append_right _ List.mem_cons_self)
      (hlast g hg last List.mem_cons_self)
  have : Nonempty Segment := ⟨last⟩
  choose! cut hused hcut using hex
  have hcard : pre.toFinset.card ≤ l.used.toFinset.card := by
    refine Finset.card_le_card_of_injOn cut (fun g hg => ?_) fun g hg g' hg' he => ?_
    · have hg := List.mem_toFinset.mp hg
      exact List.mem_toFinset.mpr (hused g hg)
    · have hg := List.mem_toFinset.mp hg
      have hg' := List.mem_toFinset.mp hg'
      exact h.used_injective (hmem g hg) (hmem g' hg') (hused g hg) (hcut g hg)
        (he ▸ hcut g' hg')
  have hnodup : pre.Nodup := hpre.imp fun {g g'} hlt he => by
    subst he
    exact Nat.not_lt.mpr (Nat.le_add_right _ _) hlt
  rw [List.toFinset_card_of_nodup hnodup] at hcard
  rw [hfree, List.length_append, List.length_singleton]
  exact Nat.succ_le_succ (hcard.trans (List.toFinset_card_le _))

/-! ## 5. What the clients hold -/

/-- What a client holds of its list. -/
def HeapState.holding (s : HeapState) (o : Owner) : List Allocation :=
  s.live.filter fun a => a.owner = o

/-- The segments of a list are what its clients hold. -/
theorem HeapState.Sound.holding_perm (h : s.Sound r l) (o : Owner) :
    ((s.holding o).map fun a => (a.pointer, a.nBlocks + 1)).Perm
      ((l o.head).map fun g => (g.addr + MEM_BLOCK_SIZE, g.size)) := by
  refine (List.perm_ext_iff_of_nodup ?_ ?_).mpr fun q => ?_
  · refine List.pairwise_map.mpr ((h.distinct.sublist List.filter_sublist).imp fun hne he => ?_)
    exact hne (congrArg Prod.fst he)
  · refine List.pairwise_map.mpr ((h.partition.ascending o.head).imp fun hlt he => ?_)
    exact Nat.ne_of_lt hlt (Nat.add_right_cancel (congrArg Prod.fst he))
  · constructor
    · intro hq
      obtain ⟨a, ha, rfl⟩ := List.mem_map.mp hq
      obtain ⟨ha, ho⟩ := List.mem_filter.mp ha
      obtain ⟨g, hg, hp, hsize⟩ := (h.live a).mp ha
      have ho : a.owner = o := of_decide_eq_true ho
      rw [ho] at hg
      exact List.mem_map.mpr ⟨g, hg, by rw [hp, hsize]⟩
    · intro hq
      obtain ⟨g, hg, rfl⟩ := List.mem_map.mp hq
      have hpos := h.partition.pos _ g hg
      refine List.mem_map.mpr ⟨⟨o, g.addr + MEM_BLOCK_SIZE, g.size - 1⟩,
        List.mem_filter.mpr ⟨?_, decide_eq_true rfl⟩, ?_⟩
      · exact (h.live _).mpr ⟨g, hg, rfl, (Nat.sub_add_cancel hpos).symm⟩
      · exact congrArg (Prod.mk _) (Nat.sub_add_cancel hpos)

theorem HeapState.Sound.holding_length (h : s.Sound r l) (o : Owner) :
    (s.holding o).length = (l o.head).length := by
  have hlen := (h.holding_perm o).length_eq
  rwa [List.length_map, List.length_map] at hlen

theorem HeapState.Sound.holding_bytes (h : s.Sound r l) (o : Owner) :
    ((s.holding o).map fun a => MEM_BLOCK_SIZE * (a.nBlocks + 1)).sum = bytes (l o.head) := by
  have hsum := ((h.holding_perm o).map fun q => MEM_BLOCK_SIZE * q.2).sum_eq
  rwa [List.map_map, List.map_map] at hsum

theorem HeapState.live_length (s : HeapState) :
    (s.holding .system).length + (s.holding .user).length = s.live.length := by
  have huser : s.holding .user = s.live.filter fun a => !decide (a.owner = .system) := by
    refine List.filter_congr fun a _ => ?_
    cases a.owner <;> rfl
  rw [huser, s.live.length_eq_length_filter_add fun a => decide (a.owner = .system)]
  rfl

theorem HeapState.Sound.used_length (h : s.Sound r l) : l.used.length = s.live.length := by
  rw [Layout.used, List.length_append, ← s.live_length, h.holding_length, h.holding_length]
  rfl

/-! ## 6. The numbers -/

/-- `countSegments` and `totalSize` come back with exact numbers. -/
theorem HeapState.Sound.counts (h : s.Sound r l) (i : HeadPtr) :
    MemoryManager.countSegments (s.heap.head i) s.heap = some ((l i).length, s.heap) ∧
      MemoryManager.totalSize (s.heap.head i) s.heap = some (bytes (l i), s.heap) := by
  have hpart := h.partition
  have hchain := (h.holds.lists i).chain
  have hlen := hpart.length_le i
  have hbytes : bytes (l i) < 2 ^ 64 := by
    have hsum := hpart.bytes_eq
    have hroom := r.room
    have hlt := r.lt
    simp only [HeapRange.blocks, HeapRange.base, MEM_BLOCK_SIZE] at hsum hroom
    cases i <;> omega
  have hones : ((l i).map fun _ => 1).sum = (l i).length := by simp
  have hmax : maxBlocks < 2 ^ 64 := by decide
  constructor
  · refine (sumLoop_apply (φ := fun _ => 1) hchain (fun _ _ => rfl) (Nat.lt_succ_of_le hlen)
      ?_).trans ?_
    · rw [hones]
      omega
    · rw [hones, Nat.zero_add]
  · refine (sumLoop_apply (φ := fun g => MEM_BLOCK_SIZE * g.size) hchain (fun g hg => ?_)
      (Nat.lt_succ_of_le hlen) ?_).trans ?_
    · have hstop := hpart.stop_lt hg
      rw [Segment.stop] at hstop
      rw [h.holds.sizes i g hg, Nat.mul_comm]
      exact Nat.mod_eq_of_lt (Nat.lt_of_le_of_lt (Nat.le_add_left _ _) hstop)
    · rw [Nat.zero_add]
      exact hbytes
    · rw [Nat.zero_add]
      rfl

theorem HeapState.Sound.getBlocksCount (h : s.Sound r l) {a : Allocation} (ha : a ∈ s.live) :
    MemoryManager.getBlocksCount a.pointer s.heap = some (a.nBlocks + 1, s.heap) := by
  obtain ⟨g, hg, hp, hsize⟩ := (h.live a).mp ha
  have hlt : a.pointer < 2 ^ 64 := by
    have hstop := h.partition.stop_lt hg
    have hpos := h.partition.pos _ g hg
    simp only [Segment.stop, MEM_BLOCK_SIZE] at hstop hp
    omega
  unfold MemoryManager.getBlocksCount
  rw [bind_apply, sub64_addr hp.symm hlt, getMSH_apply, Option.bind_some, h.holds.sizes _ g hg,
    hsize]
  rfl

/-- **Nothing is lost.**  After any allowed calls the counting functions come back with numbers
`count` and `size` for the three lists.  The sizes add up to the whole heap.  The lists of the
system and of the user count what their clients hold, with a header for each; the free list has at
most one piece more than there are pointers in use; and the header of a pointer tells how many
blocks it came with. -/
theorem heap_statistics (h : AllowedRun r mem calls) (hs : heapRun r mem calls = some s) :
    ∃ count size : HeadPtr → Nat,
      (∀ i, MemoryManager.countSegments (s.heap.head i) s.heap = some (count i, s.heap) ∧
        MemoryManager.totalSize (s.heap.head i) s.heap = some (size i, s.heap)) ∧
      size .freeMemoryHead + size .systemMemoryHead + size .userMemoryHead =
        MEM_BLOCK_SIZE * r.blocks ∧
      (∀ o : Owner, count o.head = (s.holding o).length ∧
        size o.head = ((s.holding o).map fun a => MEM_BLOCK_SIZE * (a.nBlocks + 1)).sum) ∧
      count .freeMemoryHead ≤ s.live.length + 1 ∧
      ∀ a ∈ s.live,
        MemoryManager.getBlocksCount a.pointer s.heap = some (a.nBlocks + 1, s.heap) := by
  obtain ⟨t, ht, hsound⟩ := heapRun_sound h
  obtain rfl : t = s := Option.some.inj (ht.symm.trans hs)
  refine ⟨fun i => (t.heap.segments i).length, fun i => bytes (t.heap.segments i),
    hsound.counts, hsound.partition.bytes_eq, fun o => ?_, ?_, fun a => hsound.getBlocksCount⟩
  · exact ⟨(hsound.holding_length o).symm, (hsound.holding_bytes o).symm⟩
  · rw [← hsound.used_length]
    exact hsound.partition.free_length

theorem heap_statistics_demo : ∃ s, heapRun demoRange demoMemory demoCalls = some s ∧
    ∃ count size : HeadPtr → Nat,
      (∀ i, MemoryManager.countSegments (s.heap.head i) s.heap = some (count i, s.heap) ∧
        MemoryManager.totalSize (s.heap.head i) s.heap = some (size i, s.heap)) ∧
      size .freeMemoryHead + size .systemMemoryHead + size .userMemoryHead =
        MEM_BLOCK_SIZE * demoRange.blocks := by
  obtain ⟨s, hs, -⟩ := heapRun_sound demoCalls_allowed
  obtain ⟨count, size, hloops, htotal, -⟩ := heap_statistics demoCalls_allowed hs
  exact ⟨s, hs, count, size, hloops, htotal⟩

end Os1Kernel
