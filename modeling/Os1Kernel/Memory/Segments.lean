/-
# The heap as three sequences of segments

What the memory manager is for, without headers: the heap is cut into segments, each of them free
or owned by the system or by the user.  `Partition` is the invariant; `take` and `release` are what
an allocation and a free do to the sequences.

That nothing is lost and nothing owned twice is a statement about every single address: the number
of segments that contain it is one inside the heap and none outside.  So the invariant is an
equation between sums, and each operation has one lemma about what it does to the count of an
address: cutting a segment in two and joining two that meet leave the count as it is, and moving a
segment to another sequence leaves the sum as it is.

The order is separate.  Each sequence is ascending, and no two free segments meet (`Gaps`), which
`release` keeps by joining a freed segment with both of its neighbours.
-/
import Mathlib.Data.List.TakeWhile
import Mathlib.Order.Basic
import Os1Kernel.Memory.Manager

namespace Os1Kernel

/-! ## 1. Segments -/

structure Segment where
  addr : Nat
  /-- In blocks, the header's one included. -/
  size : Nat
  deriving DecidableEq, Repr

/-- The address behind the segment. -/
def Segment.stop (s : Segment) : Nat := s.addr + MEM_BLOCK_SIZE * s.size

/-- Whether the segment contains an address. -/
def Segment.has (s : Segment) (x : Nat) : Bool := s.addr ≤ x ∧ x < s.stop

/-- How many of the segments contain an address. -/
def coverage (l : List Segment) (x : Nat) : Nat := l.countP fun s => s.has x

variable {s t : Segment} {l l' : List Segment} {x m : Nat}

@[simp] theorem coverage_nil : coverage [] x = 0 := rfl

@[simp] theorem coverage_cons : coverage (s :: l) x = coverage l x + (s.has x).toNat := by
  rw [coverage, List.countP_cons]
  cases s.has x <;> rfl

@[simp] theorem coverage_append : coverage (l ++ l') x = coverage l x + coverage l' x :=
  List.countP_append

theorem has_iff : s.has x = true ↔ s.addr ≤ x ∧ x < s.stop := decide_eq_true_iff

theorem coverage_pos (hs : s ∈ l) (hx : s.has x = true) : 1 ≤ coverage l x :=
  List.countP_pos_iff.mpr ⟨s, hs, hx⟩

theorem has_toNat : (s.has x).toNat = if s.addr ≤ x ∧ x < s.addr + 64 * s.size then 1 else 0 :=
  by
  rw [Segment.has]
  split_ifs with h
  · exact congrArg Bool.toNat (decide_eq_true h)
  · exact congrArg Bool.toNat (decide_eq_false h)

theorem has_addr (hs : 1 ≤ s.size) : s.has s.addr = true := by
  refine has_iff.mpr ⟨Nat.le_refl _, ?_⟩
  show s.addr < s.addr + 64 * s.size
  omega

/-- A segment cut in two. -/
theorem has_cut (hm : m ≤ s.size) : (s.has x).toNat =
    ((⟨s.addr, m⟩ : Segment).has x).toNat +
      ((⟨s.addr + MEM_BLOCK_SIZE * m, s.size - m⟩ : Segment).has x).toNat := by
  obtain ⟨k, hk⟩ : ∃ k, s.size = m + k := ⟨s.size - m, by omega⟩
  simp only [has_toNat, hk, Nat.add_sub_cancel_left, MEM_BLOCK_SIZE]
  split_ifs <;> omega

/-- Two segments that meet, as one. -/
theorem has_join (h : s.stop = t.addr) :
    ((⟨s.addr, s.size + t.size⟩ : Segment).has x).toNat = (s.has x).toNat + (t.has x).toNat := by
  rw [has_cut (s := ⟨s.addr, s.size + t.size⟩) (m := s.size) (Nat.le_add_right _ _)]
  simp only [Nat.add_sub_cancel_left]
  rw [show s.addr + MEM_BLOCK_SIZE * s.size = t.addr from h]

/-! ## 2. What an allocation and a free do

On the list of free segments; the list that a segment goes to or comes from is changed by
`insertSegment` and by erasing. -/

/-- Insertion by address. -/
def insertSegment (s : Segment) (l : List Segment) : List Segment :=
  l.takeWhile (fun t => t.addr ≤ s.addr) ++ s :: l.dropWhile (fun t => t.addr ≤ s.addr)

/-- A segment joined with those behind it that it meets, one after the other. -/
def absorb (s : Segment) : List Segment → List Segment
  | [] => [s]
  | t :: l => if s.stop = t.addr then absorb ⟨s.addr, s.size + t.size⟩ l else s :: t :: l

/-- The free segments before a segment, it included, when it is joined with what is behind it. -/
def absorbBack (pre l : List Segment) : List Segment :=
  match pre.getLast? with
  | none => l
  | some p => pre.dropLast ++ absorb p l

/-- The free segments when a segment is freed. -/
def release (s : Segment) (free : List Segment) : List Segment :=
  absorbBack (free.takeWhile fun t => t.addr ≤ s.addr)
    (absorb s (free.dropWhile fun t => t.addr ≤ s.addr))

/-- The free segments when the first `m` blocks of the first large enough one are taken, with the
segment that is taken. -/
def take (m : Nat) : List Segment → Option (Segment × List Segment)
  | [] => none
  | s :: l =>
    if s.size < m then (take m l).map fun p => (p.1, s :: p.2)
    else if s.size = m then some (s, l)
    else some (⟨s.addr, m⟩, ⟨s.addr + MEM_BLOCK_SIZE * m, s.size - m⟩ :: l)

/-- The free segments are in ascending order, and none of them meets the next. -/
def Gaps (l : List Segment) : Prop := l.Pairwise fun s t => s.stop < t.addr

def Ascending (l : List Segment) : Prop := l.Pairwise fun s t => s.addr < t.addr

/-! ## 3. The sequences keep their order -/

theorem insertSegment_coverage : coverage (insertSegment s l) x = coverage (s :: l) x := by
  have := congrArg (coverage · x) (List.takeWhile_append_dropWhile (l := l)
    (p := fun t => decide (t.addr ≤ s.addr)))
  simp only [coverage_append] at this
  simp only [insertSegment, coverage_append, coverage_cons]
  omega

theorem mem_insertSegment : t ∈ insertSegment s l ↔ t = s ∨ t ∈ l := by
  rw [insertSegment, List.mem_append, List.mem_cons, or_left_comm, ← List.mem_append,
    List.takeWhile_append_dropWhile]

/-- Behind the place of an insertion all segments come later. -/
theorem mem_dropWhile (hl : Ascending l) (ht : t ∈ l.dropWhile fun t => t.addr ≤ s.addr) :
    s.addr < t.addr := by
  cases hd : l.dropWhile fun t => decide (t.addr ≤ s.addr) with
  | nil =>
    rw [hd] at ht
    cases ht
  | cons u l' =>
    have hu : ¬ u.addr ≤ s.addr := by
      have := List.head_dropWhile_not (fun t : Segment => decide (t.addr ≤ s.addr)) (by rw [hd]; simp)
      simpa [hd] using this
    have hsub : (u :: l').Sublist l := hd ▸ List.dropWhile_sublist _
    rw [hd] at ht
    rcases List.mem_cons.mp ht with rfl | ht
    · omega
    · have := (List.pairwise_cons.mp (hl.sublist hsub)).1 t ht
      omega

theorem mem_takeWhile (ht : t ∈ l.takeWhile fun t => t.addr ≤ s.addr) :
    t ∈ l ∧ t.addr ≤ s.addr :=
  ⟨(List.takeWhile_sublist _).mem ht, by simpa using List.mem_takeWhile_imp ht⟩

theorem insertSegment_ascending (hl : Ascending l) (hs : ∀ t ∈ l, t.addr ≠ s.addr) :
    Ascending (insertSegment s l) := by
  refine List.pairwise_append.mpr ⟨hl.sublist (List.takeWhile_sublist _),
    List.pairwise_cons.mpr ⟨fun t => mem_dropWhile hl, hl.sublist (List.dropWhile_sublist _)⟩, ?_⟩
  intro t ht u hu
  have hlt : t.addr < s.addr :=
    lt_of_le_of_ne (mem_takeWhile ht).2 (hs t (mem_takeWhile ht).1)
  rcases List.mem_cons.mp hu with rfl | hu
  · exact hlt
  · exact hlt.trans (mem_dropWhile hl hu)

theorem absorb_coverage : coverage (absorb s l) x = coverage (s :: l) x := by
  induction l generalizing s with
  | nil => rfl
  | cons t l ih =>
    rw [absorb]
    split
    · next h =>
      rw [ih]
      simp only [coverage_cons, has_join h]
      omega
    · rfl

theorem absorb_gaps (hl : Gaps l) (hs : ∀ t ∈ l, s.stop ≤ t.addr) : Gaps (absorb s l) := by
  induction l generalizing s with
  | nil => exact List.pairwise_singleton _ _
  | cons t l ih =>
    obtain ⟨ht, hl'⟩ := List.pairwise_cons.mp hl
    rw [absorb]
    split
    · next h =>
      refine ih hl' fun u hu => ?_
      have := ht u hu
      simp only [Segment.stop, MEM_BLOCK_SIZE, Nat.mul_add] at h this ⊢
      omega
    · next h =>
      refine List.pairwise_cons.mpr ⟨fun u hu => ?_, hl⟩
      have hst : s.stop < t.addr := lt_of_le_of_ne (hs t List.mem_cons_self) h
      rcases List.mem_cons.mp hu with rfl | hu
      · exact hst
      · have h₁ := ht u hu
        have h₂ : t.addr ≤ t.stop := Nat.le_add_right _ _
        omega

/-- What is true of a segment, and of one that begins where it does, is true of all of `absorb`. -/
theorem absorb_forall {P : Segment → Prop} (hs : P s) (hl : ∀ t ∈ l, P t)
    (hjoin : ∀ t n, P t → t.size ≤ n → P ⟨t.addr, n⟩) : ∀ t ∈ absorb s l, P t := by
  induction l generalizing s with
  | nil => simpa [absorb] using hs
  | cons t l ih =>
    rw [List.forall_mem_cons] at hl
    rw [absorb]
    split
    · exact ih (hjoin s _ hs (Nat.le_add_right _ _)) hl.2
    · exact List.forall_mem_cons.mpr ⟨hs, List.forall_mem_cons.mpr hl⟩

theorem absorbBack_coverage {pre : List Segment} :
    coverage (absorbBack pre l) x = coverage pre x + coverage l x := by
  rcases List.eq_nil_or_concat pre with rfl | ⟨pre, p, rfl⟩
  · simp [absorbBack]
  · simp only [absorbBack, List.concat_eq_append, List.getLast?_append, List.getLast?_singleton,
      Option.some_or, List.dropLast_concat, coverage_append, absorb_coverage, coverage_cons,
      coverage_nil]
    omega

theorem release_coverage : coverage (release s l) x = coverage (s :: l) x := by
  have := congrArg (coverage · x) (List.takeWhile_append_dropWhile (l := l)
    (p := fun t => decide (t.addr ≤ s.addr)))
  simp only [coverage_append] at this
  simp only [release, absorbBack_coverage, absorb_coverage, coverage_cons]
  omega

theorem Gaps.ascending (h : Gaps l) : Ascending l :=
  h.imp fun hst => lt_of_le_of_lt (Nat.le_add_right _ _) hst

/-- A freed segment that lies between two free ones leaves no two that meet. -/
theorem release_gaps (hl : Gaps l) (hbefore : ∀ t ∈ l, t.addr ≤ s.addr → t.stop ≤ s.addr)
    (hbehind : ∀ t ∈ l, s.addr < t.addr → s.stop ≤ t.addr) : Gaps (release s l) := by
  have hpost : Gaps (absorb s (l.dropWhile fun t => t.addr ≤ s.addr)) :=
    absorb_gaps (hl.sublist (List.dropWhile_sublist _)) fun t ht =>
      hbehind t ((List.dropWhile_sublist _).mem ht) (mem_dropWhile hl.ascending ht)
  have haddr : ∀ t ∈ absorb s (l.dropWhile fun t => t.addr ≤ s.addr), s.addr ≤ t.addr :=
    absorb_forall (Nat.le_refl _) (fun t ht => (mem_dropWhile hl.ascending ht).le)
      fun t _ ht _ => ht
  have hpre : Gaps (l.takeWhile fun t => t.addr ≤ s.addr) := hl.sublist (List.takeWhile_sublist _)
  have hstop : ∀ t ∈ l.takeWhile (fun t => decide (t.addr ≤ s.addr)), t.stop ≤ s.addr :=
    fun t ht => hbefore t (mem_takeWhile ht).1 (mem_takeWhile ht).2
  unfold release absorbBack
  generalize l.takeWhile (fun t => decide (t.addr ≤ s.addr)) = pre at hpre hstop
  generalize absorb s (l.dropWhile fun t => decide (t.addr ≤ s.addr)) = post at hpost haddr
  rcases List.eq_nil_or_concat pre with rfl | ⟨pre, p, rfl⟩
  · exact hpost
  simp only [List.concat_eq_append, List.getLast?_append, List.getLast?_singleton,
    Option.some_or, List.dropLast_concat] at hpre hstop ⊢
  obtain ⟨hpre', -, hgap⟩ := List.pairwise_append.mp hpre
  refine List.pairwise_append.mpr ⟨hpre', absorb_gaps hpost fun t ht => ?_, fun t ht => ?_⟩
  · exact (hstop p (by simp)).trans (haddr t ht)
  · have htp : t.stop < p.addr := hgap t ht p (List.mem_singleton_self p)
    refine absorb_forall htp (fun u hu => ?_) fun u _ hu _ => hu
    have h₁ := hstop t (by simp [ht])
    have h₂ := haddr u hu
    have h₃ : p.addr ≤ p.stop := Nat.le_add_right _ _
    have h₄ := hstop p (by simp)
    omega

theorem release_forall {P : Segment → Prop} (hs : P s) (hl : ∀ t ∈ l, P t)
    (hjoin : ∀ t n, P t → t.size ≤ n → P ⟨t.addr, n⟩) : ∀ t ∈ release s l, P t := by
  have hpost := absorb_forall hs (fun t ht => hl t ((List.dropWhile_sublist _).mem ht)) hjoin
    (l := l.dropWhile fun t => decide (t.addr ≤ s.addr))
  have hpre : ∀ t ∈ l.takeWhile fun t => decide (t.addr ≤ s.addr), P t :=
    fun t ht => hl t (mem_takeWhile ht).1
  unfold release absorbBack
  generalize l.takeWhile (fun t => decide (t.addr ≤ s.addr)) = pre at hpre
  rcases List.eq_nil_or_concat pre with rfl | ⟨pre, p, rfl⟩
  · exact hpost
  simp only [List.concat_eq_append, List.getLast?_append, List.getLast?_singleton,
    Option.some_or, List.dropLast_concat] at hpre ⊢
  rw [List.forall_mem_append, List.forall_mem_singleton] at hpre
  exact List.forall_mem_append.mpr ⟨hpre.1, absorb_forall hpre.2 hpost hjoin⟩

/-- **First fit.** -/
theorem take_eq_some {l' : List Segment} (h : take m l = some (s, l')) :
    ∃ pre t post, l = pre ++ t :: post ∧ (∀ u ∈ pre, u.size < m) ∧ s = ⟨t.addr, m⟩ ∧
      (t.size = m ∧ l' = pre ++ post ∨
        m < t.size ∧ l' = pre ++ ⟨t.addr + MEM_BLOCK_SIZE * m, t.size - m⟩ :: post) := by
  induction l generalizing l' with
  | nil => cases h
  | cons t l ih =>
    rw [take] at h
    split at h
    · next hlt =>
      obtain ⟨⟨s', l''⟩, hrec, he⟩ := Option.map_eq_some_iff.mp h
      cases he
      obtain ⟨pre, u, post, rfl, hpre, hs, hend⟩ := ih hrec
      refine ⟨t :: pre, u, post, rfl, List.forall_mem_cons.mpr ⟨hlt, hpre⟩, hs, ?_⟩
      exact hend.imp (fun h => ⟨h.1, congrArg (t :: ·) h.2⟩) fun h => ⟨h.1, congrArg (t :: ·) h.2⟩
    · next hge =>
      split at h
      · next heq =>
        cases h
        exact ⟨[], _, _, rfl, nofun, by rw [← heq], Or.inl ⟨heq, rfl⟩⟩
      · next hne =>
        cases h
        exact ⟨[], t, l, rfl, nofun, rfl, Or.inr ⟨by omega, rfl⟩⟩

theorem take_size {l' : List Segment} (h : take m l = some (s, l')) : s.size = m := by
  obtain ⟨-, -, -, -, -, rfl, -⟩ := take_eq_some h
  rfl

theorem take_eq_none (h : take m l = none) : ∀ t ∈ l, t.size < m := by
  induction l with
  | nil => exact nofun
  | cons t l ih =>
    rw [take] at h
    split at h
    · next hlt => exact List.forall_mem_cons.mpr ⟨hlt, ih (Option.map_eq_none_iff.mp h)⟩
    · split at h <;> cases h

/-- Taking from the front of a free segment opens no new place where two meet. -/
theorem take_gaps {l' : List Segment} (hl : Gaps l) (h : take m l = some (s, l')) : Gaps l' := by
  obtain ⟨pre, t, post, rfl, -, -, ⟨-, rfl⟩ | ⟨hlt, rfl⟩⟩ := take_eq_some h
  · exact hl.sublist ((List.Sublist.refl pre).append (List.sublist_cons_self t post))
  obtain ⟨hpre, hpost, hgap⟩ := List.pairwise_append.mp hl
  obtain ⟨ht, hpost⟩ := List.pairwise_cons.mp hpost
  refine List.pairwise_append.mpr ⟨hpre, List.pairwise_cons.mpr ⟨fun u hu => ?_, hpost⟩, ?_⟩
  · have := ht u hu
    simp only [Segment.stop, MEM_BLOCK_SIZE] at this ⊢
    omega
  · intro u hu v hv
    rcases List.mem_cons.mp hv with rfl | hv
    · exact Nat.lt_of_lt_of_le (hgap u hu t List.mem_cons_self) (Nat.le_add_right _ _)
    · exact hgap u hu v (List.mem_cons_of_mem _ hv)

theorem take_coverage {l' : List Segment} (h : take m l = some (s, l')) :
    coverage l x = coverage l' x + (s.has x).toNat := by
  obtain ⟨pre, t, post, rfl, -, rfl, ⟨rfl, rfl⟩ | ⟨hlt, rfl⟩⟩ := take_eq_some h
  · change _ = _ + (t.has x).toNat
    simp only [coverage_append, coverage_cons]
    omega
  · simp only [coverage_append, coverage_cons, has_cut (s := t) hlt.le]
    omega

/-! ## 4. The partition -/

/-- The heap between `HEAP_START_ADDR` and `HEAP_END_ADDR`: it lies above the first block, does
not wrap, and has room for one aligned block. -/
structure HeapRange where
  start : Nat
  stop : Nat
  above : MEM_BLOCK_SIZE ≤ start
  room : (start + 63) / 64 * 64 + MEM_BLOCK_SIZE ≤ stop
  lt : stop < 2 ^ 64

namespace HeapRange

variable (r : HeapRange)

/-- The first aligned address. -/
def base : Nat := (r.start + 63) / 64 * 64

/-- The blocks behind it. -/
def blocks : Nat := (r.stop - r.base) / 64

/-- The whole heap, as one segment. -/
def whole : Segment := ⟨r.base, r.blocks⟩

end HeapRange

/-- The three sequences. -/
abbrev Layout := HeadPtr → List Segment

namespace Layout

/-- How many segments of all sequences contain an address. -/
def total (l : Layout) (x : Nat) : Nat :=
  coverage (l .freeMemoryHead) x + coverage (l .systemMemoryHead) x + coverage (l .userMemoryHead) x

end Layout

structure Partition (r : HeapRange) (l : Layout) : Prop where
  pos : ∀ i, ∀ s ∈ l i, 1 ≤ s.size
  aligned : ∀ i, ∀ s ∈ l i, 64 ∣ s.addr
  ascending : ∀ i, Ascending (l i)
  gaps : Gaps (l .freeMemoryHead)
  total : ∀ x, l.total x = (r.whole.has x).toNat

namespace Partition

variable {r : HeapRange} {l : Layout} {i j : HeadPtr}

theorem coverage_le (l : Layout) (i : HeadPtr) : coverage (l i) x ≤ l.total x := by
  unfold Layout.total
  cases i <;> omega

/-- Every segment lies inside the heap. -/
theorem inside (h : Partition r l) (hs : s ∈ l i) (hx : s.has x = true) : r.whole.has x = true := by
  have h₁ := coverage_pos hs hx
  have h₂ := coverage_le (x := x) l i
  rw [h.total] at h₂
  cases hw : r.whole.has x with
  | true => rfl
  | false =>
    rw [hw] at h₂
    exact absurd h₂ (by simp; omega)

/-- No address is owned twice. -/
theorem disjoint (h : Partition r l) {pre post : List Segment} (hi : l i = pre ++ s :: post)
    (hx : s.has x = true) (ht : t ∈ pre ++ post ∨ j ≠ i ∧ t ∈ l j) : t.has x = false := by
  by_contra htx
  rw [Bool.not_eq_false] at htx
  have h₁ := h.total x
  have h₂ : (r.whole.has x).toNat ≤ 1 := Bool.toNat_le _
  have h₃ : coverage (l i) x = coverage (pre ++ post) x + 1 := by
    rw [hi]
    simp only [coverage_append, coverage_cons, hx, Bool.toNat_true]
    omega
  unfold Layout.total at h₁
  rcases ht with ht | ⟨hj, ht⟩
  · have := coverage_pos ht htx
    cases i <;> omega
  · have := coverage_pos ht htx
    cases i <;> cases j <;> first | exact hj rfl | omega

theorem total_update (l : Layout) (i : HeadPtr) (l' : List Segment) :
    Layout.total (Function.update l i l') x + coverage (l i) x = l.total x + coverage l' x := by
  unfold Layout.total
  cases i <;> simp only [Function.update_self, ne_eq, reduceCtorEq, not_false_eq_true,
    Function.update_of_ne] <;> omega

/-- One sequence is replaced. -/
theorem update_forall {P : List Segment → Prop} (h : ∀ i, P (l i)) {l' : List Segment} (hl : P l') :
    ∀ j, P (Function.update l i l' j) := by
  intro j
  by_cases hj : j = i
  · rw [hj, Function.update_self]
    exact hl
  · rw [Function.update_of_ne hj]
    exact h j

/-- A segment is owned by nobody else. -/
theorem addr_ne (h : Partition r l) {pre post : List Segment} (hi : l i = pre ++ s :: post)
    {a : Nat} (ha : s.has a = true) (ht : t ∈ pre ++ post ∨ j ≠ i ∧ t ∈ l j) : t.addr ≠ a := by
  rintro rfl
  have hpos : 1 ≤ t.size := by
    rcases ht with ht | ⟨-, ht⟩
    · refine h.pos i t ?_
      rw [hi]
      exact List.mem_append.mpr ((List.mem_append.mp ht).imp id (List.mem_cons_of_mem _))
    · exact h.pos j t ht
  have := h.disjoint hi ha ht
  rw [has_addr hpos] at this
  cases this

/-- **An allocation keeps the partition.** -/
theorem alloc (h : Partition r l) (hm : 1 ≤ m) (hi : i ≠ .freeMemoryHead) {l' : List Segment}
    (ht : take m (l .freeMemoryHead) = some (s, l')) :
    Partition r (Function.update (Function.update l .freeMemoryHead l') i
      (insertSegment s (l i))) := by
  obtain ⟨pre, t, post, hl, -, rfl, hend⟩ := take_eq_some ht
  have htm : t ∈ l .freeMemoryHead := hl ▸ List.mem_append_right _ List.mem_cons_self
  have hmem : ∀ u ∈ l', u ∈ l .freeMemoryHead ∨
      m < t.size ∧ u = ⟨t.addr + MEM_BLOCK_SIZE * m, t.size - m⟩ := by
    rw [hl]
    rcases hend with ⟨-, rfl⟩ | ⟨hlt, rfl⟩
    · exact fun u hu => Or.inl (by simp only [List.mem_append, List.mem_cons] at hu ⊢; tauto)
    · intro u hu
      simp only [List.mem_append, List.mem_cons] at hu ⊢
      tauto
  have hfresh : ∀ u ∈ l i, u.addr ≠ t.addr := fun u hu =>
    h.addr_ne hl (has_addr (h.pos _ t htm)) (Or.inr ⟨hi, hu⟩)
  constructor
  · refine update_forall (P := fun l => ∀ s ∈ l, 1 ≤ s.size) (update_forall
      (P := fun l => ∀ s ∈ l, 1 ≤ s.size) h.pos fun u hu => ?_) fun u hu => ?_
    · rcases hmem u hu with hu | ⟨hlt, rfl⟩
      · exact h.pos _ u hu
      · exact Nat.sub_pos_of_lt hlt
    · rcases mem_insertSegment.mp hu with rfl | hu
      · exact hm
      · exact h.pos i u hu
  · refine update_forall (P := fun l => ∀ s ∈ l, 64 ∣ s.addr) (update_forall
      (P := fun l => ∀ s ∈ l, 64 ∣ s.addr) h.aligned fun u hu => ?_) fun u hu => ?_
    · rcases hmem u hu with hu | ⟨-, rfl⟩
      · exact h.aligned _ u hu
      · exact Nat.dvd_add (h.aligned _ t htm) (Nat.dvd_mul_right _ _)
    · rcases mem_insertSegment.mp hu with rfl | hu
      · exact h.aligned _ t htm
      · exact h.aligned i u hu
  · exact update_forall (P := Ascending) (update_forall (P := Ascending) h.ascending
      (take_gaps h.gaps ht).ascending) (insertSegment_ascending (h.ascending i) hfresh)
  · rw [Function.update_of_ne (Ne.symm hi), Function.update_self]
    exact take_gaps h.gaps ht
  · intro x
    have h₁ := total_update (x := x) (Function.update l .freeMemoryHead l') i
      (insertSegment ⟨t.addr, m⟩ (l i))
    have h₂ := total_update (x := x) l .freeMemoryHead l'
    have h₃ := take_coverage (x := x) ht
    rw [insertSegment_coverage, coverage_cons, Function.update_of_ne hi] at h₁
    have h₄ := h.total x
    omega

/-- **A free keeps the partition.** -/
theorem free (h : Partition r l) (hi : i ≠ .freeMemoryHead) {pre post : List Segment}
    (hl : l i = pre ++ s :: post) :
    Partition r (Function.update (Function.update l i (pre ++ post)) .freeMemoryHead
      (release s (l .freeMemoryHead))) := by
  have hsub : (pre ++ post).Sublist (l i) :=
    hl ▸ (List.Sublist.refl pre).append (List.sublist_cons_self s post)
  have hs : s ∈ l i := hl ▸ List.mem_append_right _ List.mem_cons_self
  have hdisj : ∀ t ∈ l .freeMemoryHead, ∀ x, s.has x = true → t.has x = false :=
    fun t ht x hx => h.disjoint hl hx (Or.inr ⟨Ne.symm hi, ht⟩)
  have hbefore : ∀ t ∈ l .freeMemoryHead, t.addr ≤ s.addr → t.stop ≤ s.addr := by
    intro t ht hle
    by_contra hlt
    have := hdisj t ht s.addr (has_addr (h.pos i s hs))
    rw [has_iff.mpr ⟨hle, by omega⟩] at this
    cases this
  have hbehind : ∀ t ∈ l .freeMemoryHead, s.addr < t.addr → s.stop ≤ t.addr := by
    intro t ht hlt
    by_contra hstop
    have := hdisj t ht t.addr (has_iff.mpr ⟨hlt.le, by omega⟩)
    rw [has_addr (h.pos _ t ht)] at this
    cases this
  have hgaps := release_gaps h.gaps hbefore hbehind
  constructor
  · exact update_forall (P := fun l => ∀ s ∈ l, 1 ≤ s.size) (update_forall
      (P := fun l => ∀ s ∈ l, 1 ≤ s.size) h.pos fun u hu => h.pos i u (hsub.mem hu))
      (release_forall (h.pos i s hs) (h.pos _) fun t n h₁ h₂ => h₁.trans h₂)
  · exact update_forall (P := fun l => ∀ s ∈ l, 64 ∣ s.addr) (update_forall
      (P := fun l => ∀ s ∈ l, 64 ∣ s.addr) h.aligned fun u hu => h.aligned i u (hsub.mem hu))
      (release_forall (h.aligned i s hs) (h.aligned _) fun t n h₁ _ => h₁)
  · exact update_forall (P := Ascending) (update_forall (P := Ascending) h.ascending
      ((h.ascending i).sublist hsub)) hgaps.ascending
  · rw [Function.update_self]
    exact hgaps
  · intro x
    have h₁ := total_update (x := x) (Function.update l i (pre ++ post)) .freeMemoryHead
      (release s (l .freeMemoryHead))
    have h₂ := total_update (x := x) l i (pre ++ post)
    rw [release_coverage, coverage_cons, Function.update_of_ne (Ne.symm hi)] at h₁
    rw [hl] at h₂
    simp only [coverage_append, coverage_cons] at h₁ h₂
    have h₄ := h.total x
    omega

end Partition

/-- Everything is free. -/
def Layout.initial (r : HeapRange) : Layout
  | .freeMemoryHead => [r.whole]
  | _ => []

theorem partition_initial (r : HeapRange) : Partition r (Layout.initial r) where
  pos i s hs := by
    cases i with
    | freeMemoryHead =>
      rw [List.mem_singleton.mp hs]
      have := r.room
      show 1 ≤ (r.stop - (r.start + 63) / 64 * 64) / 64
      simp only [MEM_BLOCK_SIZE] at this
      omega
    | systemMemoryHead | userMemoryHead => cases hs
  aligned i s hs := by
    cases i with
    | freeMemoryHead =>
      rw [List.mem_singleton.mp hs]
      exact Nat.dvd_mul_left _ _
    | systemMemoryHead | userMemoryHead => cases hs
  ascending i := by
    cases i with
    | freeMemoryHead => exact List.pairwise_singleton _ _
    | systemMemoryHead | userMemoryHead => exact List.Pairwise.nil
  gaps := List.pairwise_singleton _ _
  total x := by
    show coverage [r.whole] x + 0 + 0 = _
    simp

end Os1Kernel
