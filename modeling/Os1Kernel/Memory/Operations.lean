/-
# Allocations and frees act on the segments

`Layout.alloc` and `Layout.free` say what `memAlloc_` and `memFree_` are for; on a heap that is
partitioned, the code returns, with the result and the sequences they give.  The partition is what
the code relies on: it bounds the lists, keeps the headers apart and the addresses below 2^64.

* An allocation is the search, the cut and the insertion, each a lemma of `Memory.Refine`; between
  the cut and the insertion the new header is on no list, and the partition does not hold.
* A free is a search by address, a removal, an insertion, and two merges, one that starts at the
  segment and one that starts at the free segment before it (`coalesce_does`).  The abstract
  `release` is what comes of both.
* `memFree_` compares what the search returns with a pointer that its caller made up.  For an
  address that is not a segment's, the search ends at a segment with a lower address or at none,
  and only for the second block of memory do "none" and the address agree (`memFree_invalid`).
-/
import Os1Kernel.Memory.Refine

namespace Os1Kernel

open DoublyLinked Simulation

/-! ## 1. What the operations are for -/

namespace Layout

variable (l : Layout) (i : HeadPtr)

/-- The pointer, null if no free segment is large enough, and the sequences afterwards. -/
def alloc (n : Nat) : Nat × Layout :=
  match take (n + 1) (l .freeMemoryHead) with
  | none => (0, l)
  | some (s, free) => (s.addr + MEM_BLOCK_SIZE,
      Function.update (Function.update l .freeMemoryHead free) i (insertSegment s (l i)))

/-- The result of the free, and the sequences afterwards. -/
def free (p : Nat) : Nat × Layout :=
  if p = 0 then (0, l)
  else match (l i).find? fun s => s.addr + MEM_BLOCK_SIZE = p with
    | none => (ERR_MEM_FREE, l)
    | some s => (0, Function.update (Function.update l i ((l i).erase s)) .freeMemoryHead
        (release s (l .freeMemoryHead)))

end Layout

/-! ## 2. What the partition gives

These are the facts about addresses that the code takes for granted. -/

variable {r : HeapRange} {c : Heap} {l : Layout} {i j : HeadPtr} {s t : Segment}
  {pre post : List Segment} {a b n p : Nat}

theorem Ascending.length_le {l : List Segment} (h : Ascending l) (ha : ∀ s ∈ l, 64 ∣ s.addr)
    (hlo : ∀ s ∈ l, 64 * a ≤ s.addr) (hhi : ∀ s ∈ l, s.addr < 64 * b) : l.length ≤ b - a := by
  induction l generalizing a with
  | nil => exact Nat.zero_le _
  | cons s l ih =>
    obtain ⟨hs, hl⟩ := List.pairwise_cons.mp h
    rw [List.forall_mem_cons] at ha hlo hhi
    obtain ⟨k, hk⟩ := ha.1
    have := ih hl ha.2 (a := k + 1) (fun t ht => by
      have h₁ := hs t ht
      obtain ⟨m, hm⟩ := ha.2 t ht
      omega) hhi.2
    rw [List.length_cons]
    omega

namespace Partition

theorem apart (h : Partition r l) : Apart l := fun i j hij s hs t ht he => by
  obtain ⟨pre, post, hi⟩ := List.append_of_mem hs
  exact h.addr_ne hi (has_addr (h.pos i s hs)) (Or.inr ⟨Ne.symm hij, ht⟩) he.symm

/-- A segment ends inside the heap. -/
theorem bounds (h : Partition r l) (hs : s ∈ l i) : r.base ≤ s.addr ∧ s.stop ≤ r.stop := by
  have hpos := h.pos i s hs
  have h₁ := has_iff.mp (h.inside hs (has_addr hpos))
  have h₂ := has_iff.mp (h.inside hs (x := s.stop - 1) (has_iff.mpr (by
    simp only [Segment.stop, MEM_BLOCK_SIZE]
    omega)))
  have h₃ := r.room
  simp only [HeapRange.whole, HeapRange.blocks, HeapRange.base, Segment.stop, MEM_BLOCK_SIZE]
    at h₁ h₂ h₃ ⊢
  omega

theorem stop_lt (h : Partition r l) (hs : s ∈ l i) : s.stop < 2 ^ 64 :=
  Nat.lt_of_le_of_lt (h.bounds hs).2 r.lt

theorem addr_pos (h : Partition r l) (hs : s ∈ l i) : MEM_BLOCK_SIZE ≤ s.addr := by
  have h₁ := (h.bounds hs).1
  have h₂ := r.above
  simp only [HeapRange.base, MEM_BLOCK_SIZE] at h₁ h₂ ⊢
  omega

theorem length_le (h : Partition r l) (i : HeadPtr) : (l i).length ≤ maxBlocks := by
  refine (h.ascending i).length_le (a := 0) (b := maxBlocks) (h.aligned i)
    (fun s _ => Nat.zero_le _) fun s hs => ?_
  have h₁ := h.stop_lt hs
  have h₂ : s.addr ≤ s.stop := Nat.le_add_right _ _
  simp only [maxBlocks]
  omega

/-- Inside a free segment that is cut, there is no header. -/
theorem fresh (h : Partition r l) (hi : l i = pre ++ t :: post) {m : Nat} (hm : 1 ≤ m)
    (hlt : m < t.size) : ∀ j, ∀ u ∈ l j, u.addr ≠ t.addr + MEM_BLOCK_SIZE * m := by
  have hb : t.has (t.addr + MEM_BLOCK_SIZE * m) = true := has_iff.mpr (by
    simp only [Segment.stop, MEM_BLOCK_SIZE]
    omega)
  intro j u hu
  by_cases hj : j = i
  · subst hj
    rw [hi, List.mem_append, List.mem_cons] at hu
    rcases hu with hu | rfl | hu
    · exact h.addr_ne (j := j) hi hb (Or.inl (List.mem_append_left _ hu))
    · simp only [MEM_BLOCK_SIZE]
      omega
    · exact h.addr_ne (j := j) hi hb (Or.inl (List.mem_append_right _ hu))
  · exact h.addr_ne hi hb (Or.inr ⟨hj, hu⟩)

/-- The header of a segment that has left its list is on no list. -/
theorem removed (h : Partition r l) (hi : l i = pre ++ s :: post) :
    ∀ j, ∀ u ∈ Function.update l i (pre ++ post) j, u.addr ≠ s.addr := by
  have hs : s.has s.addr = true :=
    has_addr (h.pos i s (hi ▸ List.mem_append_right _ List.mem_cons_self))
  intro j u hu
  by_cases hj : j = i
  · subst hj
    rw [Function.update_self] at hu
    exact h.addr_ne (j := j) hi hs (Or.inl hu)
  · rw [Function.update_of_ne hj] at hu
    exact h.addr_ne hi hs (Or.inr ⟨hj, hu⟩)

/-- What is taken from the free segments has left them: an allocation puts it on another list,
and every header is on one list only. -/
theorem taken (h : Partition r l) (hi : i ≠ .freeMemoryHead) {m : Nat} (hm : 1 ≤ m)
    {free : List Segment} (ht : take m (l .freeMemoryHead) = some (s, free)) :
    Apart (Function.update l .freeMemoryHead free) ∧
      ∀ j, ∀ u ∈ Function.update l .freeMemoryHead free j, u.addr ≠ s.addr := by
  have hp := h.alloc hm hi ht
  have hback : Function.update (Function.update (Function.update l .freeMemoryHead free) i
      (insertSegment s (l i))) i (l i) = Function.update l .freeMemoryHead free := by
    rw [Function.update_idem]
    exact (congrArg (Function.update (Function.update l .freeMemoryHead free) i)
      (Function.update_of_ne hi free l).symm).trans (Function.update_eq_self i _)
  constructor
  · refine hback ▸ hp.apart.update fun u hu => Or.inl ⟨u, ?_, rfl⟩
    rw [Function.update_self]
    exact mem_insertSegment.mpr (Or.inr hu)
  · have hremoved := hp.removed (i := i) (s := s) (Function.update_self ..)
    rw [List.takeWhile_append_dropWhile, hback] at hremoved
    exact hremoved

end Partition

/-! ## 3. `memAlloc_` -/

/-- A free segment is taken whole, or cut. -/
theorem take_does (hp : Partition r l) (h : Holds c l) {m : Nat} (hm : 1 ≤ m) {free : List Segment}
    (ht : take m (l .freeMemoryHead) = some (s, free)) :
    ∃ d, (if (c.mem s.addr).size = m then MSH.remove s.addr .freeMemoryHead
        else do let _ ← MSH.reduce s.addr m .freeMemoryHead) c = some ((), d) ∧
      Holds d (Function.update l .freeMemoryHead free) ∧ (d.mem s.addr).size = m := by
  obtain ⟨pre, t, post, hl, -, rfl, hend⟩ := take_eq_some ht
  have htl : t ∈ l .freeMemoryHead := hl ▸ List.mem_append_right _ List.mem_cons_self
  have hsize : (c.mem t.addr).size = t.size := h.sizes .freeMemoryHead t htl
  rcases hend with ⟨hsz, rfl⟩ | ⟨hlt, rfl⟩
  · obtain ⟨d, hd, hdh, hds⟩ := remove_holds h hp.apart hl
    refine ⟨d, by rw [if_pos (hsize.trans hsz), hd], hdh, ?_⟩
    rw [← hsz, ← hsize]
    exact congrFun hds t.addr
  · obtain ⟨d, hd, hdh, hds⟩ := reduce_holds h hp.apart hl hm hlt (hp.stop_lt htl)
      (hp.fresh hl hm hlt)
    refine ⟨d, ?_, hdh, hds⟩
    rw [if_neg (hsize ▸ hlt.ne'), bind_apply, hd]
    rfl

theorem memAlloc_does (hp : Partition r l) (h : Holds c l) (hi : i ≠ .freeMemoryHead)
    (hn : n + 1 < 2 ^ 64) : ∃ c', MemoryManager.memAlloc_ n i c = some ((l.alloc i n).1, c') ∧
      Holds c' (l.alloc i n).2 := by
  have hact : u64 (n + 1) = n + 1 := Nat.mod_eq_of_lt hn
  have hfind := findBySizeLoop_apply (h.lists .freeMemoryHead).chain (h.sizes .freeMemoryHead)
    (Nat.lt_succ_of_le (hp.length_le _)) (m := n + 1)
  unfold MemoryManager.memAlloc_ MSH.findBySize Layout.alloc
  simp only [bind_apply, getHead_apply, Option.bind_some, hact]
  rw [hfind]
  cases ht : take (n + 1) (l .freeMemoryHead) with
  | none => exact ⟨c, rfl, h⟩
  | some found =>
    obtain ⟨s, free⟩ := found
    obtain ⟨d, hd, hdh, hds⟩ := take_does hp h (Nat.le_add_left 1 n) ht
    obtain ⟨hda, hdf⟩ := hp.taken hi (Nat.le_add_left 1 n) ht
    have hi' := Function.update_of_ne hi free l
    obtain ⟨c', hc, hc', -⟩ := insertSorted_holds (s := s) (i := i) hdh hda hdf
      (by rw [hds, take_size ht]) (hi' ▸ hp.length_le i)
    rw [hi'] at hc'
    have hret : u64 (s.addr + MEM_BLOCK_SIZE) = s.addr + MEM_BLOCK_SIZE := by
      have h₁ := (hp.alloc (Nat.le_add_left 1 n) hi ht).stop_lt (i := i) (s := s) (by
        rw [Function.update_self]
        exact mem_insertSegment.mpr (Or.inl rfl))
      have h₂ := take_size ht
      simp only [Segment.stop, MEM_BLOCK_SIZE, u64] at h₁ ⊢
      omega
    refine ⟨c', ?_, hc'⟩
    simp only [Option.map_some, Option.bind_some, bind_apply, getMSH_apply, hd, hc, hret]
    rfl

/-! ## 4. `memFree_`

The search goes by address, and so the list being ascending is needed here and nowhere else. -/

/-- Following an ascending list to an address finds that address, if it is there. -/
theorem lookup_eq {l : List Segment} (hl : Ascending l) (hs : s ∈ l) :
    ((l.map Segment.addr).takeWhile (· ≤ s.addr)).getLast? = some s.addr := by
  obtain ⟨pre, post, rfl⟩ := List.append_of_mem hs
  obtain ⟨-, hpost, hpre⟩ := List.pairwise_append.mp hl
  have h₁ : ∀ a ∈ pre.map Segment.addr, decide (a ≤ s.addr) = true := fun a ha => by
    obtain ⟨t, ht, rfl⟩ := List.mem_map.mp ha
    exact decide_eq_true (hpre t ht s List.mem_cons_self).le
  have h₂ : (post.map Segment.addr).takeWhile (fun a => decide (a ≤ s.addr)) = [] := by
    cases post with
    | nil => rfl
    | cons t post =>
      have := (List.pairwise_cons.mp hpost).1 t List.mem_cons_self
      rw [List.map_cons, List.takeWhile_cons_of_neg (by simpa using this)]
  rw [List.map_append, List.map_cons, List.takeWhile_append_of_pos h₁,
    List.takeWhile_cons_of_pos (by simp), h₂]
  simp

theorem lookup_mem {l : List Segment}
    (h : ((l.map Segment.addr).takeWhile (· ≤ b)).getLast? = some a) : ∃ s ∈ l, s.addr = a :=
  List.mem_map.mp ((List.takeWhile_sublist _).mem (List.mem_of_getLast? h))

theorem absorb_head (s : Segment) (l : List Segment) :
    ∃ n l', absorb s l = ⟨s.addr, n⟩ :: l' ∧ l'.length ≤ l.length := by
  induction l generalizing s with
  | nil => exact ⟨s.size, [], rfl, Nat.le_refl _⟩
  | cons t l ih =>
    rw [absorb]
    split
    · obtain ⟨n, l', he, hl⟩ := ih ⟨s.addr, s.size + t.size⟩
      exact ⟨n, l', he, hl.trans (Nat.le_succ _)⟩
    · exact ⟨s.size, t :: l, rfl, Nat.le_refl _⟩

theorem absorb_stop (hs : s.stop < b) (hl : ∀ t ∈ post, t.stop < b) :
    ∀ t ∈ absorb s post, t.stop < b := by
  induction post generalizing s with
  | nil => simpa [absorb] using hs
  | cons t post ih =>
    rw [List.forall_mem_cons] at hl
    rw [absorb]
    split
    · next h =>
      refine ih ?_ hl.2
      have ht := hl.1
      simp only [Segment.stop, MEM_BLOCK_SIZE] at h ht ⊢
      omega
    · exact List.forall_mem_cons.mpr ⟨hs, List.forall_mem_cons.mpr hl⟩

/-- A free segment is joined with those behind it, and then the one before it with both. -/
theorem coalesce_does (h : Holds c l) (ha : Apart l) (hl : l i = pre ++ s :: post)
    (hstop : ∀ t ∈ l i, t.stop < 2 ^ 64) (hlen : (l i).length ≤ maxBlocks + 1) :
    ∃ c', (do
        let _ ← MSH.merge s.addr
        let x ← getMSH s.addr
        (match x.prev with
          | some prev => do
            let _ ← MSH.merge prev
          | none => pure ())
        pure 0 : HeapM Nat) c = some (0, c') ∧
      Holds c' (Function.update l i (absorbBack pre (absorb s post))) := by
  rw [hl, List.forall_mem_append, List.forall_mem_cons] at hstop
  obtain ⟨hpre, hs, hpost⟩ := hstop
  have hlen' : pre.length + (post.length + 1) ≤ maxBlocks + 1 := by
    rwa [hl, List.length_append, List.length_cons] at hlen
  obtain ⟨k, d, hd, hdh⟩ := mergeLoop_holds (k := 0) h ha hl
    (List.forall_mem_cons.mpr ⟨hs, hpost⟩) (n := maxBlocks + 1) (by omega)
  obtain ⟨m, rest, habsorb, hrest⟩ := absorb_head s post
  have hprev : (d.mem s.addr).prev = (pre.map Segment.addr).getLast? := by
    have hl' : Function.update l i (pre ++ absorb s post) i = pre ++ ⟨s.addr, m⟩ :: rest := by
      rw [Function.update_self, habsorb]
    exact (hdh.split hl').neighbours.1
  unfold MSH.merge
  simp only [bind_apply, hd, Option.bind_some, getMSH_apply, hprev]
  rcases List.eq_nil_or_concat pre with rfl | ⟨zs, p, rfl⟩
  · exact ⟨d, rfl, hdh⟩
  simp only [List.concat_eq_append, List.map_append, List.map_cons, List.map_nil,
    List.getLast?_append, List.getLast?_singleton, Option.some_or, absorbBack,
    List.dropLast_concat, List.length_append, List.length_cons, List.length_nil,
    List.append_assoc, List.cons_append, List.nil_append] at hl hdh hpre hlen' ⊢
  have hda : Apart (Function.update l i (zs ++ p :: absorb s post)) := by
    refine ha.update fun u hu => Or.inl ?_
    rw [hl]
    rcases List.mem_append.mp hu with hu | hu
    · exact ⟨u, List.mem_append_left _ hu, rfl⟩
    rcases List.mem_cons.mp hu with rfl | hu
    · exact ⟨u, List.mem_append_right _ List.mem_cons_self, rfl⟩
    refine absorb_forall (P := fun u => ∃ v ∈ zs ++ p :: s :: post, v.addr = u.addr)
      ⟨s, by simp, rfl⟩ (fun t ht => ⟨t, by simp [ht], rfl⟩) (fun t n h _ => h) u hu
  obtain ⟨k', c', hc, hc'⟩ := mergeLoop_holds (k := 0) hdh hda (Function.update_self ..)
    (n := maxBlocks + 1)
    (List.forall_mem_cons.mpr ⟨hpre p (by simp), absorb_stop hs hpost⟩) (by
      rw [habsorb, List.length_cons]
      omega)
  rw [Function.update_idem] at hc'
  refine ⟨c', ?_, hc'⟩
  rw [bind_apply, hc]
  rfl

/-- The header that a pointer belongs to. -/
theorem sub64_addr (hs : s.addr + MEM_BLOCK_SIZE = p) (hlt : p < 2 ^ 64) :
    sub64 p MEM_BLOCK_SIZE = s.addr := by
  simp only [sub64, MEM_BLOCK_SIZE] at hs ⊢
  omega

/-- The pointer is not one that was given out. -/
theorem lookup_ne (hp : Partition r l) (hlt : p < 2 ^ 64) (hne : p ≠ MEM_BLOCK_SIZE)
    (hnone : ∀ s ∈ l i, s.addr + MEM_BLOCK_SIZE ≠ p) :
    toPtr (sub64 p MEM_BLOCK_SIZE) ≠ (((l i).map Segment.addr).takeWhile
      (· ≤ sub64 p MEM_BLOCK_SIZE)).getLast? := by
  intro he
  rw [toPtr] at he
  split at he
  · next h0 =>
    simp only [sub64, MEM_BLOCK_SIZE] at hne h0
    omega
  · obtain ⟨s, hs, hsa⟩ := lookup_mem he.symm
    have h₁ := hp.stop_lt hs
    have h₂ := hp.pos i s hs
    refine hnone s hs ?_
    simp only [sub64, Segment.stop, MEM_BLOCK_SIZE] at hsa h₁ ⊢
    omega

theorem erase_eq (hp : Partition r l) (hl : l i = pre ++ s :: post) :
    (l i).erase s = pre ++ post := by
  have hasc := hp.ascending i
  rw [hl] at hasc ⊢
  have hs : s ∉ pre := fun hm =>
    Nat.lt_irrefl _ ((List.pairwise_append.mp hasc).2.2 s hm s List.mem_cons_self)
  rw [List.erase_append_right _ hs, List.erase_cons_head]

/-- **A free of what was given out.** -/
theorem memFree_valid (hp : Partition r l) (h : Holds c l) (hi : i ≠ .freeMemoryHead)
    (hlt : p < 2 ^ 64) (hs : s ∈ l i) (hsp : s.addr + MEM_BLOCK_SIZE = p) :
    ∃ c', MemoryManager.memFree_ p i c = some (0, c') ∧
      Holds c' (Function.update (Function.update l i ((l i).erase s)) .freeMemoryHead
        (release s (l .freeMemoryHead))) := by
  obtain ⟨pre, post, hl⟩ := List.append_of_mem hs
  have hpos := hp.addr_pos hs
  have hp0 : p ≠ 0 := by
    simp only [MEM_BLOCK_SIZE] at hsp
    omega
  have hptr : toPtr s.addr = some s.addr := if_neg (by
    simp only [MEM_BLOCK_SIZE] at hpos
    omega)
  obtain ⟨c₁, hc₁, h₁, hsz₁⟩ := remove_holds h hp.apart hl
  have ha₁ : Apart (Function.update l i (pre ++ post)) := hp.apart.update fun u hu =>
    Or.inl ⟨u, hl ▸ by simp only [List.mem_append, List.mem_cons] at hu ⊢; tauto, rfl⟩
  have hfree := Function.update_of_ne hi.symm (pre ++ post) l
  obtain ⟨c₂, hc₂, h₂, -⟩ := insertSorted_holds (i := .freeMemoryHead) h₁ ha₁ (hp.removed hl)
    ((congrFun hsz₁ s.addr).trans (h.sizes i s hs)) (hfree ▸ hp.length_le _)
  rw [hfree] at h₂
  have ha₂ : Apart (Function.update (Function.update l i (pre ++ post)) .freeMemoryHead
      (insertSegment s (l .freeMemoryHead))) := ha₁.update fun u hu => by
    rcases mem_insertSegment.mp hu with rfl | hu
    · exact Or.inr (hp.removed hl)
    · exact Or.inl ⟨u, hfree ▸ hu, rfl⟩
  obtain ⟨c', hc', h'⟩ := coalesce_does h₂ ha₂ (Function.update_self ..) (fun t ht => by
    rw [Function.update_self] at ht
    rcases mem_insertSegment.mp ht with rfl | ht
    · exact hp.stop_lt hs
    · exact hp.stop_lt ht) (by
    have := hp.length_le .freeMemoryHead
    rw [Function.update_self, insertSegment]
    have h := congrArg List.length (List.takeWhile_append_dropWhile (l := l .freeMemoryHead)
      (p := fun t => decide (t.addr ≤ s.addr)))
    rw [List.length_append] at h ⊢
    rw [List.length_cons]
    omega)
  rw [Function.update_idem] at h'
  refine ⟨c', ?_, (erase_eq hp hl).symm ▸ h'⟩
  have hfind := findByPointer_apply s.addr (h.lists i).chain (by
    rw [List.length_map]
    exact hp.length_le i)
  rw [lookup_eq (hp.ascending i) hs] at hfind
  unfold MemoryManager.memFree_
  rw [if_neg hp0, sub64_addr hsp hlt, hptr]
  simp only [bind_apply, getHead_apply, Option.bind_some, hfind, ne_eq, not_true_eq_false,
    if_false, followMSH_some, pure_apply, hc₁, hc₂]
  exact hc'

/-- **A free of anything else.** -/
theorem memFree_invalid (hp : Partition r l) (h : Holds c l) (hlt : p < 2 ^ 64)
    (hne : p ≠ MEM_BLOCK_SIZE) (hp0 : p ≠ 0) (hnone : ∀ s ∈ l i, s.addr + MEM_BLOCK_SIZE ≠ p) :
    MemoryManager.memFree_ p i c = some (ERR_MEM_FREE, c) := by
  have hmiss := lookup_ne hp hlt hne hnone
  unfold MemoryManager.memFree_
  rw [if_neg hp0]
  generalize sub64 p MEM_BLOCK_SIZE = a at hmiss ⊢
  have hfind := findByPointer_apply a (h.lists i).chain (by
    rw [List.length_map]
    exact hp.length_le i)
  rw [bind_apply, getHead_apply, Option.bind_some, bind_apply, hfind, Option.bind_some,
    if_pos hmiss, pure_apply]

/-- The code frees as `Layout.free` says, and changes nothing when it refuses. -/
theorem memFree_does (hp : Partition r l) (h : Holds c l) (hi : i ≠ .freeMemoryHead)
    (hlt : p < 2 ^ 64) (hne : p ≠ MEM_BLOCK_SIZE) :
    ∃ c', MemoryManager.memFree_ p i c = some ((l.free i p).1, c') ∧ Holds c' (l.free i p).2 ∧
      ((l.free i p).1 ≠ 0 → c' = c) := by
  unfold Layout.free
  by_cases hp0 : p = 0
  · rw [hp0]
    exact ⟨c, rfl, h, fun hc => absurd rfl hc⟩
  rw [if_neg hp0]
  cases hf : (l i).find? fun s => decide (s.addr + MEM_BLOCK_SIZE = p) with
  | none =>
    refine ⟨c, memFree_invalid hp h hlt hne hp0 fun s hs he => ?_, h, fun _ => rfl⟩
    exact List.find?_eq_none.mp hf s hs (decide_eq_true he)
  | some s =>
    obtain ⟨c', hc, hc'⟩ := memFree_valid hp h hi hlt (List.mem_of_find?_eq_some hf)
      (by simpa using List.find?_some hf)
    exact ⟨c', hc, hc', fun he => absurd rfl he⟩

/-! ## 5. `init` -/

theorem init_does (r : HeapRange) (mem : Nat → MSH) :
    ∃ c', MemoryManager.init r.start r.stop ⟨mem, fun _ => none⟩ = some ((), c') ∧
      Holds c' (Layout.initial r) := by
  obtain ⟨hbase, hne⟩ : MemoryManager.ALIGN r.start MEM_BLOCK_SIZE = r.base ∧ r.base ≠ 0 := by
    have h₁ := r.room
    have h₂ := r.above
    have h₃ := r.lt
    simp only [MemoryManager.ALIGN, HeapRange.base, MEM_BLOCK_SIZE, u64] at h₁ h₂ ⊢
    omega
  have hsize : sub64 r.stop r.base / MEM_BLOCK_SIZE = r.blocks := by
    have h₁ := r.room
    have h₃ := r.lt
    simp only [HeapRange.blocks, HeapRange.base, MEM_BLOCK_SIZE, sub64] at h₁ ⊢
    omega
  have hwhole : r.whole = ⟨r.base, r.blocks⟩ := rfl
  unfold MemoryManager.init
  rw [hbase]
  generalize r.base = b at hne hsize hwhole ⊢
  simp only [toPtr, if_neg hne, bind_apply, setHead_apply, getHead_apply, Function.update_self,
    Option.bind_some, followMSH_some, pure_apply, setMSH_apply, hsize]
  refine ⟨_, rfl, fun i => ?_, fun i => ?_⟩
  · cases i with
    | freeMemoryHead =>
      simp only [Layout.initial, hwhole, List.map_cons, List.map_nil]
      refine ⟨by simp, ?_, ?_, trivial⟩
      · simp [Heap.setMSH]
      · simp [Heap.setMSH]
    | systemMemoryHead => exact ⟨by simp [Layout.initial], trivial⟩
    | userMemoryHead => exact ⟨by simp [Layout.initial], trivial⟩
  · cases i with
    | freeMemoryHead =>
      simp only [Layout.initial, hwhole, List.forall_mem_singleton]
      simp [Heap.setMSH]
    | systemMemoryHead | userMemoryHead => simp [Layout.initial]

end Os1Kernel
