/-
# What the free list says

The partition determines the free list: it is the one list of segments, no two of which meet, that
covers what is not live (`Gaps.ext`).  So it does not depend on the history, and since its segments
are as long as can be, an allocation fails only when there is no room.

* `allocation_complete`: a stretch of vacant blocks lies in one free segment, because two free
  segments never meet (`Vacant.segment`); so a search that finds no segment long enough has shown
  that there is no such stretch.  The list is ascending, and the first fit is the lowest
  (`take_lowest`).
* `Gaps.ext` is an induction on two lists that cover the same addresses: their heads begin at the
  same place, since the first covered address is the first address of either, and end at the same
  place, since behind the head there is a gap.
* `free_list_of_live`: two allowed runs that end with the same live segments end with the same
  lists.  Freeing what was just allocated, and freeing everything in any order, are special cases.

A request is as large as was asked for when its size, rounded up to blocks and with the header's
block added, is still a `size_t`.
-/
import Os1Kernel.Results.Heap

namespace Os1Kernel

open DoublyLinked Simulation Run

variable {r : HeapRange} {l l' : Layout} {s t : HeapState} {mem : Nat → MSH}
  {calls : List HeapCall} {g u : Segment} {i : HeadPtr} {o : Owner} {a m n p : Nat}

/-! ## 1. First fit is lowest and complete -/

/-- `m` blocks from the address `a` on lie in the heap and in no live segment. -/
structure Vacant (r : HeapRange) (l : Layout) (a m : Nat) : Prop where
  aligned : MEM_BLOCK_SIZE ∣ a
  inside : r.base ≤ a ∧ a + MEM_BLOCK_SIZE * m ≤ r.base + MEM_BLOCK_SIZE * r.blocks
  vacant : ∀ x, a ≤ x → x < a + MEM_BLOCK_SIZE * m →
    coverage (l .systemMemoryHead) x = 0 ∧ coverage (l .userMemoryHead) x = 0

theorem Gaps.cases {l : List Segment} (h : Gaps l) (hg : g ∈ l) (hu : u ∈ l) (hne : g ≠ u) :
    g.stop < u.addr ∨ u.stop < g.addr := by
  obtain ⟨pre, post, rfl⟩ := List.append_of_mem hg
  obtain ⟨-, hpost, hpre⟩ := List.pairwise_append.mp h
  rcases List.mem_append.mp hu with hu | hu
  · exact Or.inr (hpre u hu g List.mem_cons_self)
  · exact Or.inl ((List.pairwise_cons.mp hpost).1 u
      ((List.mem_cons.mp hu).resolve_left fun he => hne he.symm))

/-- What is vacant is in a free segment. -/
theorem Vacant.free (hv : Vacant r l a m) (h : Partition r l) {x : Nat} (h₁ : a ≤ x)
    (h₂ : x < a + MEM_BLOCK_SIZE * m) : ∃ g ∈ l .freeMemoryHead, g.has x = true := by
  have htotal := h.total x
  have hzero := hv.vacant x h₁ h₂
  have hin : r.whole.has x = true := has_iff.mpr (by
    have := hv.inside
    simp only [HeapRange.whole, Segment.stop] at this ⊢
    omega)
  rw [hin, Layout.total, hzero.1, hzero.2] at htotal
  exact List.countP_pos_iff.mp (Nat.lt_of_lt_of_eq Nat.one_pos htotal.symm)

/-- Since no two free segments meet, it is in one. -/
theorem Vacant.segment (hv : Vacant r l a m) (h : Partition r l) (hm : 1 ≤ m) :
    ∃ g ∈ l .freeMemoryHead, g.addr ≤ a ∧ a + MEM_BLOCK_SIZE * m ≤ g.stop := by
  obtain ⟨g, hg, hga⟩ := hv.free h (Nat.le_refl a) (by
    simp only [MEM_BLOCK_SIZE]
    omega)
  obtain ⟨h₁, h₂⟩ := has_iff.mp hga
  refine ⟨g, hg, h₁, ?_⟩
  by_contra hlt
  obtain ⟨u, hu, hus⟩ := hv.free h h₂.le (Nat.lt_of_not_le hlt)
  obtain ⟨h₃, h₄⟩ := has_iff.mp hus
  have hne : g ≠ u := by
    rintro rfl
    exact Nat.lt_irrefl _ h₄
  have haddr : u.addr = g.stop := by
    refine Nat.le_antisymm h₃ (Nat.le_of_not_lt fun hua => hne ?_)
    exact (h.eq_of_has (x := g.stop - 1) hg hu (has_iff.mpr (by omega))
      (has_iff.mpr (by omega))).2
  rcases h.gaps.cases hg hu hne with hlt | hlt
  · omega
  · have : u.addr ≤ u.stop := Nat.le_add_right _ _
    omega

/-- The front of a free segment is vacant. -/
theorem vacant_of_mem (h : Partition r l) (hg : g ∈ l .freeMemoryHead) (hm : m ≤ g.size) :
    Vacant r l g.addr m := by
  have hpos := h.pos _ g hg
  have h₁ := has_iff.mp (h.inside hg (has_addr hpos))
  have h₂ := has_iff.mp (h.inside hg (x := g.stop - 1) (has_iff.mpr (by
    simp only [Segment.stop, MEM_BLOCK_SIZE]
    omega)))
  refine ⟨h.aligned _ g hg, ?_, fun x hx₁ hx₂ => ?_⟩
  · simp only [HeapRange.whole, Segment.stop, MEM_BLOCK_SIZE] at h₁ h₂ ⊢
    omega
  · obtain ⟨pre, post, hl⟩ := List.append_of_mem hg
    have hx : g.has x = true := has_iff.mpr (by
      simp only [Segment.stop, MEM_BLOCK_SIZE] at hx₂ ⊢
      omega)
    constructor
    all_goals
      refine List.countP_eq_zero.mpr fun u hu => ?_
      rw [h.disjoint hl hx (Or.inr ⟨by decide, hu⟩)]
      exact Bool.false_ne_true

/-- First fit in an ascending list is lowest fit. -/
theorem take_lowest (h : Partition r l) {free : List Segment}
    (ht : take m (l .freeMemoryHead) = some (g, free)) (hu : u ∈ l .freeMemoryHead)
    (hm : m ≤ u.size) : g.addr ≤ u.addr := by
  obtain ⟨pre, v, post, hl, hpre, rfl, -⟩ := take_eq_some ht
  have hasc := h.gaps.ascending
  rw [hl] at hasc hu
  obtain ⟨-, hpost, -⟩ := List.pairwise_append.mp hasc
  rcases List.mem_append.mp hu with hu | hu
  · exact absurd hm (Nat.not_le_of_lt (hpre u hu))
  · rcases List.mem_cons.mp hu with rfl | hu
    · exact Nat.le_refl _
    · exact ((List.pairwise_cons.mp hpost).1 u hu).le

/-- **An allocation fails only for want of room, and takes the lowest place.**  After any allowed
calls, a request is refused exactly if nowhere in the heap so many blocks in a row are free;
otherwise the pointer is to the lowest place where they are, behind the header. -/
theorem allocation_complete (h : AllowedRun r mem calls) (hs : heapRun r mem calls = some s)
    (hn : n + 1 < 2 ^ 64) :
    ∃ p c, o.alloc n s.heap = some (p, c) ∧
      (p = 0 ↔ ¬ ∃ a, Vacant r s.heap.segments a (n + 1)) ∧
      (p ≠ 0 → ∃ a, p = a + MEM_BLOCK_SIZE ∧ Vacant r s.heap.segments a (n + 1) ∧
        (∀ b, Vacant r s.heap.segments b (n + 1) → a ≤ b) ∧
        c.segments o.head = insertSegment ⟨a, n + 1⟩ (s.heap.segments o.head)) := by
  obtain ⟨t, ht, hsound⟩ := heapRun_sound h
  obtain rfl : t = s := Option.some.inj (ht.symm.trans hs)
  have hp := hsound.partition
  obtain ⟨c, hc, hc'⟩ := hsound.alloc (o := o) hn
  refine ⟨_, c, hc, ?_⟩
  have hseg := hc'.holds.segments_eq hc'.partition
  revert hseg
  unfold Layout.alloc
  cases htake : take (n + 1) (t.heap.segments .freeMemoryHead) with
  | none =>
    intro _
    refine ⟨iff_of_true rfl ?_, fun hne => absurd rfl hne⟩
    rintro ⟨a, hv⟩
    obtain ⟨g, hg, h₁, h₂⟩ := hv.segment hp (Nat.le_add_left 1 n)
    have h₃ := take_eq_none htake g hg
    simp only [Segment.stop, MEM_BLOCK_SIZE] at h₂
    omega
  | some found =>
    obtain ⟨g, free⟩ := found
    intro hseg
    obtain ⟨pre, v, post, hl, -, rfl, hend⟩ := take_eq_some htake
    have hv : v ∈ t.heap.segments .freeMemoryHead :=
      hl ▸ List.mem_append_right _ List.mem_cons_self
    have hsize : n + 1 ≤ v.size := by
      rcases hend with ⟨hend, -⟩ | ⟨hend, -⟩ <;> omega
    have hvac := vacant_of_mem hp hv hsize
    have hne : v.addr + MEM_BLOCK_SIZE ≠ 0 := by
      simp only [MEM_BLOCK_SIZE]
      omega
    refine ⟨iff_of_false hne fun hno => hno ⟨_, hvac⟩, fun _ => ⟨v.addr, rfl, hvac, ?_, ?_⟩⟩
    · intro b hb
      obtain ⟨w, hw, h₁, h₂⟩ := hb.segment hp (Nat.le_add_left 1 n)
      have := take_lowest hp htake hw (by
        simp only [Segment.stop, MEM_BLOCK_SIZE] at h₂
        omega)
      exact this.trans h₁
    · exact (congrFun hseg o.head).trans (Function.update_self ..)

theorem allocation_complete_demo : ∃ s p c, heapRun demoRange demoMemory demoCalls = some s ∧
    Owner.user.alloc 7 s.heap = some (p, c) ∧
      (p = 0 ↔ ¬ ∃ a, Vacant demoRange s.heap.segments a 8) ∧
      (p ≠ 0 → ∃ a, p = a + MEM_BLOCK_SIZE ∧ Vacant demoRange s.heap.segments a 8 ∧
        (∀ b, Vacant demoRange s.heap.segments b 8 → a ≤ b) ∧
        c.segments .userMemoryHead = insertSegment ⟨a, 8⟩ (s.heap.segments .userMemoryHead)) := by
  obtain ⟨s, hs, -⟩ := heapRun_sound demoCalls_allowed
  obtain ⟨p, c, h⟩ := allocation_complete (o := .user) demoCalls_allowed hs
    (show 7 + 1 < 2 ^ 64 by decide)
  exact ⟨s, p, c, hs, h⟩

/-! ## 2. The free list is canonical -/

/-- What is covered on one side is in a segment of the other side. -/
theorem exists_of_coverage {l l' : List Segment} {x : Nat}
    (hcov : ∀ x, coverage l x = coverage l' x) (hg : g ∈ l) (hx : g.has x = true) :
    ∃ u ∈ l', u.has x = true :=
  List.countP_pos_iff.mp (Nat.lt_of_lt_of_eq (coverage_pos hg hx) (hcov x))

section Heads

variable {g g' : Segment} {l l' : List Segment}

theorem Gaps.head_le (h' : Gaps (g' :: l')) (hpos : 1 ≤ g.size)
    (hcov : ∀ x, coverage (g :: l) x = coverage (g' :: l') x) : g'.addr ≤ g.addr := by
  obtain ⟨u, hu, hx⟩ := exists_of_coverage hcov List.mem_cons_self (has_addr hpos)
  have h₁ := has_iff.mp hx
  rcases List.mem_cons.mp hu with rfl | hu
  · exact h₁.1
  · have h₂ := (List.pairwise_cons.mp h').1 u hu
    have h₃ : g'.addr ≤ g'.stop := Nat.le_add_right _ _
    omega

theorem Gaps.head_stop_le (h : Gaps (g :: l)) (haddr : g.addr = g'.addr)
    (hcov : ∀ x, coverage (g :: l) x = coverage (g' :: l') x) : g'.stop ≤ g.stop := by
  by_contra hlt
  have hle : g.addr ≤ g.stop := Nat.le_add_right _ _
  obtain ⟨u, hu, hx⟩ := exists_of_coverage (fun x => (hcov x).symm) (g := g') (x := g.stop)
    List.mem_cons_self (has_iff.mpr (by omega))
  have h₁ := has_iff.mp hx
  rcases List.mem_cons.mp hu with rfl | hu
  · omega
  · have h₂ := (List.pairwise_cons.mp h).1 u hu
    omega

end Heads

/-- **A list of segments, no two of which meet, is determined by what it covers.** -/
theorem Gaps.ext {l l' : List Segment} (h : Gaps l) (h' : Gaps l') (hpos : ∀ g ∈ l, 1 ≤ g.size)
    (hpos' : ∀ g ∈ l', 1 ≤ g.size) (hcov : ∀ x, coverage l x = coverage l' x) : l = l' := by
  induction l generalizing l' with
  | nil =>
    cases l' with
    | nil => rfl
    | cons g l' =>
      obtain ⟨u, hu, -⟩ := exists_of_coverage (fun x => (hcov x).symm) List.mem_cons_self
        (has_addr (hpos' g List.mem_cons_self))
      cases hu
  | cons g l ih =>
    cases l' with
    | nil =>
      obtain ⟨u, hu, -⟩ := exists_of_coverage hcov List.mem_cons_self
        (has_addr (hpos g List.mem_cons_self))
      cases hu
    | cons g' l' =>
      have hcov' := fun x => (hcov x).symm
      rw [List.forall_mem_cons] at hpos hpos'
      have haddr : g.addr = g'.addr :=
        Nat.le_antisymm (h.head_le hpos'.1 hcov') (h'.head_le hpos.1 hcov)
      have hstop : g.stop = g'.stop :=
        Nat.le_antisymm (h'.head_stop_le haddr.symm hcov') (h.head_stop_le haddr hcov)
      obtain rfl : g = g' := by
        obtain ⟨a, m⟩ := g
        obtain ⟨a', m'⟩ := g'
        simp only [Segment.stop, MEM_BLOCK_SIZE, Segment.mk.injEq] at haddr hstop ⊢
        omega
      refine congrArg (g :: ·) (ih (List.pairwise_cons.mp h).2 (List.pairwise_cons.mp h').2
        hpos.2 hpos'.2 fun x => ?_)
      have := hcov x
      rw [coverage_cons, coverage_cons] at this
      omega

/-- Two ascending lists of the same segments. -/
theorem Ascending.ext {l l' : List Segment} (h : Ascending l) (h' : Ascending l')
    (hmem : ∀ g, g ∈ l ↔ g ∈ l') : l = l' := by
  have hne : ∀ {l : List Segment}, Ascending l → l.Nodup := fun h =>
    h.imp fun hlt he => Nat.ne_of_lt hlt (congrArg Segment.addr he)
  refine List.Perm.eq_of_pairwise ?_ h h' ((List.perm_ext_iff_of_nodup (hne h) (hne h')).mpr hmem)
  exact fun a b _ _ h₁ h₂ => absurd h₁ (Nat.lt_asymm h₂)

theorem HeapState.Sound.mem_iff (h : s.Sound r l) :
    g ∈ l o.head ↔ 1 ≤ g.size ∧ ⟨o, g.addr + MEM_BLOCK_SIZE, g.size - 1⟩ ∈ s.live := by
  rw [h.live]
  constructor
  · intro hg
    have hpos := h.partition.pos _ g hg
    exact ⟨hpos, g, hg, rfl, by
      show g.size = g.size - 1 + 1
      omega⟩
  · rintro ⟨hpos, u, hu, haddr, hsize⟩
    obtain rfl : u = g := by
      obtain ⟨a, m⟩ := u
      obtain ⟨a', m'⟩ := g
      simp only [Segment.mk.injEq] at haddr hsize hpos ⊢
      omega
    exact hu

/-- **What is live determines all three lists.** -/
theorem HeapState.Sound.ext (h : s.Sound r l) (h' : t.Sound r l')
    (hlive : ∀ a, a ∈ s.live ↔ a ∈ t.live) : l = l' := by
  have howner : ∀ o : Owner, l o.head = l' o.head := fun o => by
    refine (h.partition.ascending _).ext (h'.partition.ascending _) fun g => ?_
    rw [h.mem_iff, h'.mem_iff, hlive]
  funext i
  cases i with
  | systemMemoryHead => exact howner .system
  | userMemoryHead => exact howner .user
  | freeMemoryHead =>
    refine h.partition.gaps.ext h'.partition.gaps (h.partition.pos _) (h'.partition.pos _)
      fun x => ?_
    have h₁ := h.partition.total x
    have h₂ := h'.partition.total x
    have h₃ : l .systemMemoryHead = l' .systemMemoryHead := howner .system
    have h₄ : l .userMemoryHead = l' .userMemoryHead := howner .user
    rw [Layout.total, h₃, h₄] at h₁
    rw [Layout.total] at h₂
    omega

/-! ## 3. Frees in any order -/

/-- The frees of some pointers, in this order. -/
def freeAll (ps : List (Owner × Nat)) : List HeapCall := ps.map fun q => .free q.1 q.2

/-- A pointer that may be passed to a free. -/
def Freeable (q : Owner × Nat) : Prop := q.2 < 2 ^ 64 ∧ q.2 ≠ MEM_BLOCK_SIZE

/-- The free of what is live succeeds. -/
theorem HeapState.Sound.free_live (h : s.Sound r l) {a : Allocation} (ha : a ∈ s.live)
    (ho : a.owner = o) (hp : a.pointer = p) : (l.free o.head p).1 = 0 := by
  obtain ⟨g, hg, he, -⟩ := (h.live a).mp ha
  subst ho hp
  rw [Layout.free, if_neg (h.pointer_ne_zero ha)]
  cases hf : (l a.owner.head).find? fun g => decide (g.addr + MEM_BLOCK_SIZE = a.pointer) with
  | none => exact absurd (decide_eq_true he.symm) (List.find?_eq_none.mp hf g hg)
  | some u => rfl

/-- What is live may be freed. -/
theorem HeapState.Sound.freeable (h : s.Sound r l) {a : Allocation} (ha : a ∈ s.live) :
    Freeable (a.owner, a.pointer) := by
  obtain ⟨g, hg, he, -⟩ := (h.live a).mp ha
  have h₁ := h.partition.addr_pos hg
  have h₂ := h.partition.stop_lt hg
  have h₃ := h.partition.pos _ g hg
  simp only [Freeable, Segment.stop, MEM_BLOCK_SIZE] at he h₁ h₂ ⊢
  omega

theorem HeapState.Sound.free_step (h : s.Sound r l) {q : Owner × Nat} (hq : Freeable q) :
    ∃ t l', s.step (.free q.1 q.2) = some t ∧ t.Sound r l' ∧
      ∀ a, a ∈ t.live ↔ a ∈ s.live ∧ (a.owner, a.pointer) ≠ q := by
  obtain ⟨c, hc, hsound⟩ := h.free (o := q.1) hq
  refine ⟨_, _, by rw [HeapState.step, hc]; rfl, hsound, fun a => ?_⟩
  have hne : (a.owner, a.pointer) ≠ q ↔ ¬ (a.owner = q.1 ∧ a.pointer = q.2) := by
    rw [ne_eq, Prod.ext_iff]
  rw [hne]
  split
  · rw [List.mem_filter, decide_eq_true_eq]
  · next hfail =>
    exact ⟨fun ha => ⟨ha, fun he => hfail (h.free_live ha he.1 he.2)⟩, fun ha => ha.1⟩

theorem HeapState.Sound.freeAll (h : s.Sound r l) {ps : List (Owner × Nat)}
    (hps : ∀ q ∈ ps, Freeable q) : ∃ t l', Run.run HeapState.step s (freeAll ps) = some t ∧
      t.Sound r l' ∧ ∀ a, a ∈ t.live ↔ a ∈ s.live ∧ (a.owner, a.pointer) ∉ ps := by
  induction ps generalizing s l with
  | nil => exact ⟨s, l, rfl, h, fun a => by simp⟩
  | cons q ps ih =>
    rw [List.forall_mem_cons] at hps
    obtain ⟨t, l', ht, hsound, hlive⟩ := h.free_step hps.1
    obtain ⟨u, m, hu, hsound', hlive'⟩ := ih hsound hps.2
    refine ⟨u, m, ?_, hsound', fun a => ?_⟩
    · rw [Os1Kernel.freeAll, List.map_cons, run_cons, ht, Option.bind_some]
      exact hu
    · rw [hlive', hlive, List.mem_cons, not_or, and_assoc]

theorem HeapState.Sound.eq_segments (h : s.Sound r s.heap.segments) (h' : t.Sound r l)
    (hlive : ∀ a, a ∈ t.live ↔ a ∈ s.live) : t.heap.segments = s.heap.segments := by
  rw [h'.holds.segments_eq h'.partition]
  exact h'.ext h hlive

theorem initial_owner (o : Owner) : Layout.initial r o.head = [] := by
  cases o <;> rfl

/-- A free undoes an allocation. -/
theorem HeapState.Sound.alloc_free (h : s.Sound r s.heap.segments) (hn : n + 1 < 2 ^ 64) :
    ∃ p c c', o.alloc n s.heap = some (p, c) ∧ o.free p c = some (0, c') ∧
      c'.segments = s.heap.segments := by
  obtain ⟨c, hc, hsound⟩ := h.alloc (o := o) hn
  refine ⟨(s.heap.segments.alloc o.head n).1, c, ?_⟩
  generalize (s.heap.segments.alloc o.head n).2 = l at hsound
  generalize (s.heap.segments.alloc o.head n).1 = p at hc hsound ⊢
  by_cases hp : p = 0
  · rw [if_pos hp] at hsound
    refine ⟨c, hc, ?_, h.eq_segments hsound fun _ => Iff.rfl⟩
    rw [hp]
    cases o <;> rfl
  · rw [if_neg hp] at hsound
    obtain ⟨c', hc', hsound'⟩ := hsound.free (o := o) (hsound.freeable List.mem_cons_self)
    have hzero := hsound.free_live List.mem_cons_self (show o = o from rfl) (show p = p from rfl)
    rw [hzero] at hc'
    rw [if_pos hzero] at hsound'
    refine ⟨c', hc, hc', h.eq_segments hsound' fun a => ?_⟩
    rw [List.mem_filter, decide_eq_true_eq, List.mem_cons]
    constructor
    · rintro ⟨rfl | ha, hne⟩
      · exact absurd ⟨rfl, rfl⟩ hne
      · exact ha
    · exact fun ha => ⟨Or.inr ha, fun hc =>
        (List.pairwise_cons.mp hsound.distinct).1 a ha hc.2.symm⟩

/-- **The free list depends only on what is live.**  Runs that end with the same live segments
end with the same lists; frees of the same pointers, in any order, lead to the same lists; a free
undoes an allocation; and when everything has been freed the lists are those after `init`. -/
theorem free_list_of_live (h : AllowedRun r mem calls) (hs : heapRun r mem calls = some s) :
    (∀ mem' calls' t, AllowedRun r mem' calls' → heapRun r mem' calls' = some t →
      (∀ a, a ∈ t.live ↔ a ∈ s.live) → t.heap.segments = s.heap.segments) ∧
    (∀ ps qs : List (Owner × Nat), (∀ q ∈ ps, Freeable q) → (∀ q, q ∈ ps ↔ q ∈ qs) →
      ∃ t u, run HeapState.step s (freeAll ps) = some t ∧
        run HeapState.step s (freeAll qs) = some u ∧ t.heap.segments = u.heap.segments) ∧
    (∀ (o : Owner) (n : Nat), n + 1 < 2 ^ 64 → ∃ p c c', o.alloc n s.heap = some (p, c) ∧
      o.free p c = some (0, c') ∧ c'.segments = s.heap.segments) ∧
    ∀ ps : List (Owner × Nat), (∀ q ∈ ps, Freeable q) →
      (∀ a ∈ s.live, (a.owner, a.pointer) ∈ ps) →
      ∃ t, run HeapState.step s (freeAll ps) = some t ∧ t.heap.segments = Layout.initial r := by
  obtain ⟨t, ht, hsound⟩ := heapRun_sound h
  obtain rfl : t = s := Option.some.inj (ht.symm.trans hs)
  refine ⟨fun mem' calls' u h' hu hlive => ?_, fun ps qs hps hmem => ?_, fun o n hn => ?_,
    fun ps hps hall => ?_⟩
  · obtain ⟨v, hv, hsound'⟩ := heapRun_sound h'
    obtain rfl : v = u := Option.some.inj (hv.symm.trans hu)
    exact hsound.eq_segments hsound' hlive
  · obtain ⟨u, l, hu, hul, hulive⟩ := hsound.freeAll hps
    obtain ⟨v, l', hv, hvl, hvlive⟩ := hsound.freeAll fun q hq => hps q ((hmem q).mpr hq)
    refine ⟨u, v, hu, hv, ?_⟩
    rw [hul.holds.segments_eq hul.partition, hvl.holds.segments_eq hvl.partition]
    exact hul.ext hvl fun a => by rw [hulive, hvlive, hmem]
  · exact hsound.alloc_free hn
  · obtain ⟨u, l, hu, hul, hulive⟩ := hsound.freeAll hps
    obtain ⟨v, -, hv⟩ := HeapState.Sound.boot r mem
    refine ⟨u, hu, ?_⟩
    rw [hul.holds.segments_eq hul.partition]
    refine hul.ext hv fun a => ?_
    rw [hulive, hv.live, initial_owner]
    constructor
    · exact fun ha => absurd (hall a ha.1) ha.2
    · rintro ⟨g, hg, -⟩
      cases hg

theorem free_list_of_live_demo : ∃ s, heapRun demoRange demoMemory demoCalls = some s ∧
    (∀ mem' calls' t, AllowedRun demoRange mem' calls' → heapRun demoRange mem' calls' = some t →
      (∀ a, a ∈ t.live ↔ a ∈ s.live) → t.heap.segments = s.heap.segments) ∧
    ∃ p c c', Owner.system.alloc 3 s.heap = some (p, c) ∧
      Owner.system.free p c = some (0, c') ∧ c'.segments = s.heap.segments := by
  obtain ⟨s, hs, -⟩ := heapRun_sound demoCalls_allowed
  obtain ⟨h₁, -, h₂, -⟩ := free_list_of_live demoCalls_allowed hs
  exact ⟨s, hs, h₁, h₂ .system 3 (by decide)⟩

end Os1Kernel
