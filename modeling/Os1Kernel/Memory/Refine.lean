/-
# The headers represent the segments

`Holds c l`: the three lists of headers in the heap `c` are the sequences `l`.  Each function of
`MSH` acts on the sequences as it should; in particular its loop ends, and it follows no null
pointer.

A header is in memory that is managed with it, so a write to one could be a write to another.  Two
conditions exclude this: no header is on two lists (`Apart`), and the addresses on a list are
different, which a list that ends implies.  An update of a header then changes the list it is on
and no other (`Holds.update`).

* `Touches` says what a function leaves alone: the other lists, and the headers that are not on its
  own.
* `insertAfter`, `remove` and `reduce` are seams in a doubly linked list (`Lib.DoublyLinked`).
* The loop of `merge` reads the header of the next segment before it gives it up.  `absorbNext` is
  one round of it, and the loop is an induction on the segments that are absorbed.
-/
import Os1Kernel.Lib.DoublyLinked
import Os1Kernel.Memory.Segments

namespace Os1Kernel

open DoublyLinked Simulation

/-! ## 1. Access to headers

An update of one field of one header, as the lists see it: the link fields of the others stay, and
so do the sizes. -/

/-- `setMSHIf` on the state. -/
def Heap.setIf (c : Heap) (p : Option Nat) (f : MSH → MSH) : Heap :=
  match p with
  | some p => c.setMSH p f
  | none => c

section Access

variable (c : Heap) (p : Nat) (q : Option Nat) (i : HeadPtr) (f : MSH → MSH)

@[simp] theorem getMSH_apply : getMSH p c = some (c.mem p, c) := rfl

@[simp] theorem setMSH_apply : setMSH p f c = some ((), c.setMSH p f) := rfl

@[simp] theorem setMSHIf_apply : setMSHIf q f c = some ((), c.setIf q f) := by
  cases q <;> rfl

@[simp] theorem getHead_apply : getHead i c = some (c.head i, c) := rfl

@[simp] theorem setHead_apply :
    setHead i q c = some ((), { c with head := Function.update c.head i q }) := rfl

@[simp] theorem followMSH_some : followMSH (some p) = pure p := rfl

end Access

variable {c c' : Heap} {l : Layout} {i j : HeadPtr} {s t : Segment} {pre post : List Segment}
  {p q : Nat} {o v : Option Nat} {f : MSH → MSH}

theorem comp_setMSH {β : Type} (φ : MSH → β) : φ ∘ (c.setMSH p f).mem =
    Function.update (φ ∘ c.mem) p (φ (f (c.mem p))) := Function.comp_update ..

theorem comp_setMSH_same {β : Type} (φ : MSH → β) (h : ∀ x, φ (f x) = φ x) :
    φ ∘ (c.setMSH p f).mem = φ ∘ c.mem := by
  rw [comp_setMSH, h]
  exact Function.update_eq_self p (φ ∘ c.mem)

section Fields

variable (n : Nat)

@[simp] theorem next_setNext : MSH.next ∘ (c.setMSH p fun x => { x with next := v }).mem =
    Function.update (MSH.next ∘ c.mem) p v := comp_setMSH _

@[simp] theorem next_setPrev : MSH.next ∘ (c.setMSH p fun x => { x with prev := v }).mem =
    MSH.next ∘ c.mem := comp_setMSH_same _ fun _ => rfl

@[simp] theorem next_setSize : MSH.next ∘ (c.setMSH p fun x => { x with size := n }).mem =
    MSH.next ∘ c.mem := comp_setMSH_same _ fun _ => rfl

@[simp] theorem prev_setNext : MSH.prev ∘ (c.setMSH p fun x => { x with next := v }).mem =
    MSH.prev ∘ c.mem := comp_setMSH_same _ fun _ => rfl

@[simp] theorem prev_setPrev : MSH.prev ∘ (c.setMSH p fun x => { x with prev := v }).mem =
    Function.update (MSH.prev ∘ c.mem) p v := comp_setMSH _

@[simp] theorem prev_setSize : MSH.prev ∘ (c.setMSH p fun x => { x with size := n }).mem =
    MSH.prev ∘ c.mem := comp_setMSH_same _ fun _ => rfl

@[simp] theorem size_setNext : MSH.size ∘ (c.setMSH p fun x => { x with next := v }).mem =
    MSH.size ∘ c.mem := comp_setMSH_same _ fun _ => rfl

@[simp] theorem size_setPrev : MSH.size ∘ (c.setMSH p fun x => { x with prev := v }).mem =
    MSH.size ∘ c.mem := comp_setMSH_same _ fun _ => rfl

@[simp] theorem size_setSize : MSH.size ∘ (c.setMSH p fun x => { x with size := n }).mem =
    Function.update (MSH.size ∘ c.mem) p n := comp_setMSH _

/-- `this->prev = this->next = nullptr` -/
@[simp] theorem next_clear : MSH.next ∘ (c.setMSH p fun x =>
    { x with prev := none, next := none }).mem = Function.update (MSH.next ∘ c.mem) p none :=
  comp_setMSH _

@[simp] theorem prev_clear : MSH.prev ∘ (c.setMSH p fun x =>
    { x with prev := none, next := none }).mem = Function.update (MSH.prev ∘ c.mem) p none :=
  comp_setMSH _

@[simp] theorem size_clear : MSH.size ∘ (c.setMSH p fun x =>
    { x with prev := none, next := none }).mem = MSH.size ∘ c.mem :=
  comp_setMSH_same _ fun _ => rfl

/-- `if (o) o->prev = v` -/
@[simp] theorem next_setIfPrev : MSH.next ∘ (c.setIf o fun x => { x with prev := v }).mem =
    MSH.next ∘ c.mem := by
  cases o with
  | none => rfl
  | some p => exact next_setPrev

@[simp] theorem prev_setIfPrev : MSH.prev ∘ (c.setIf o fun x => { x with prev := v }).mem =
    setAt (MSH.prev ∘ c.mem) o v := by
  cases o with
  | none => rfl
  | some p => exact prev_setPrev

@[simp] theorem size_setIfPrev : MSH.size ∘ (c.setIf o fun x => { x with prev := v }).mem =
    MSH.size ∘ c.mem := by
  cases o with
  | none => rfl
  | some p => exact size_setPrev

end Fields

@[simp] theorem mem_setMSH_self : (c.setMSH p f).mem p = f (c.mem p) :=
  Function.update_self ..

theorem mem_setMSH_of_ne (h : q ≠ p) : (c.setMSH p f).mem q = c.mem q :=
  Function.update_of_ne h _ _

theorem mem_setIf_of_ne (h : o ≠ some q) : (c.setIf o f).mem q = c.mem q := by
  cases o with
  | none => rfl
  | some p => exact mem_setMSH_of_ne fun e => h (congrArg some e.symm)

@[simp] theorem head_setMSH : (c.setMSH p f).head = c.head := rfl

@[simp] theorem head_setIf : (c.setIf o f).head = c.head := by
  cases o <;> rfl

theorem setMSH_congr {g : MSH → MSH} (h : f (c.mem p) = g (c.mem p)) :
    c.setMSH p f = c.setMSH p g := by
  rw [Heap.setMSH, Heap.setMSH, h]

/-! ## 2. The relation -/

structure Holds (c : Heap) (l : Layout) : Prop where
  lists : ∀ i, IsList (MSH.next ∘ c.mem) (MSH.prev ∘ c.mem) (c.head i) ((l i).map Segment.addr)
  sizes : ∀ i, ∀ s ∈ l i, (c.mem s.addr).size = s.size

/-- No header is on two lists. -/
def Apart (l : Layout) : Prop := ∀ i j, i ≠ j → ∀ s ∈ l i, ∀ t ∈ l j, s.addr ≠ t.addr

theorem Apart.update (h : Apart l) {l' : List Segment}
    (hl : ∀ t ∈ l', (∃ u ∈ l i, u.addr = t.addr) ∨ ∀ j, ∀ u ∈ l j, u.addr ≠ t.addr) :
    Apart (Function.update l i l') := by
  intro j k hjk s hs t ht
  by_cases hj : j = i
  · subst hj
    rw [Function.update_self] at hs
    rw [Function.update_of_ne (Ne.symm hjk)] at ht
    rcases hl s hs with ⟨u, hu, he⟩ | hs
    · exact he ▸ h j k hjk u hu t ht
    · exact (hs k t ht).symm
  rw [Function.update_of_ne hj] at hs
  by_cases hk : k = i
  · subst hk
    rw [Function.update_self] at ht
    rcases hl t ht with ⟨u, hu, he⟩ | ht
    · exact he ▸ h j k hjk s hs u hu
    · exact ht j s hs
  · rw [Function.update_of_ne hk] at ht
    exact h j k hjk s hs t ht

theorem addr_not_mem {xs : List Segment} {a : Nat} (h : ∀ u ∈ xs, u.addr ≠ a) :
    a ∉ xs.map Segment.addr := by
  intro ha
  obtain ⟨u, hu, he⟩ := List.mem_map.mp ha
  exact h u hu he

theorem Apart.not_mem (h : Apart l) (hj : j ≠ i) (ht : t ∈ l j) :
    t.addr ∉ (l i).map Segment.addr :=
  addr_not_mem fun u hu => h i j (Ne.symm hj) u hu t ht

/-- One list changes, and no header of the others. -/
theorem Holds.update (h : Holds c l) {l' : List Segment}
    (hlist : IsList (MSH.next ∘ c'.mem) (MSH.prev ∘ c'.mem) (c'.head i) (l'.map Segment.addr))
    (hsizes : ∀ s ∈ l', (c'.mem s.addr).size = s.size) (hhead : ∀ j ≠ i, c'.head j = c.head j)
    (hmem : ∀ j ≠ i, ∀ t ∈ l j, c'.mem t.addr = c.mem t.addr) :
    Holds c' (Function.update l i l') := by
  constructor
  · intro j
    by_cases hj : j = i
    · subst hj
      rwa [Function.update_self]
    · rw [Function.update_of_ne hj, hhead j hj]
      refine (h.lists j).congr fun p hp => ?_
      obtain ⟨t, ht, rfl⟩ := List.mem_map.mp hp
      simp only [Function.comp_apply, hmem j hj t ht, and_self]
  · intro j
    by_cases hj : j = i
    · subst hj
      rwa [Function.update_self]
    · rw [Function.update_of_ne hj]
      intro t ht
      rw [hmem j hj t ht]
      exact h.sizes j t ht

theorem Holds.split (h : Holds c l) (hi : l i = pre ++ s :: post) :
    IsList (MSH.next ∘ c.mem) (MSH.prev ∘ c.mem) (c.head i)
      (pre.map Segment.addr ++ s.addr :: post.map Segment.addr) := by
  have := h.lists i
  rwa [hi, List.map_append, List.map_cons] at this

/-! ## 3. `MSH::remove` -/

/-- What a function that works on the list `i` leaves alone: the other heads, and the headers that
are not among `xs`. -/
structure Touches (i : HeadPtr) (xs : List Nat) (c c' : Heap) : Prop where
  head : ∀ j ≠ i, c'.head j = c.head j
  mem : ∀ p, p ∉ xs → c'.mem p = c.mem p

theorem remove_isList {xs ys : List Nat} {a : Nat}
    (h : IsList (MSH.next ∘ c.mem) (MSH.prev ∘ c.mem) (c.head i) (xs ++ a :: ys)) :
    ∃ c', MSH.remove a i c = some ((), c') ∧
      IsList (MSH.next ∘ c'.mem) (MSH.prev ∘ c'.mem) (c'.head i) (xs ++ ys) ∧
      Touches i (xs ++ a :: ys) c c' ∧ MSH.size ∘ c'.mem = MSH.size ∘ c.mem := by
  obtain ⟨hprev, hnext⟩ := h.neighbours
  simp only [Function.comp_apply] at hprev hnext
  have hnd := h.nodup
  have ha : a ∉ xs ++ ys := by
    rw [List.nodup_append, List.nodup_cons] at hnd
    grind
  have hfirst := h.head_eq_some
  have herase := h.erase.update (x := a) (v := none) (w := none) ha
  have hafter : ∀ q, q ∉ ys → ys.head? ≠ some q := fun q hq he => hq (List.mem_of_mem_head? he)
  rcases List.eq_nil_or_concat xs with rfl | ⟨zs, z, rfl⟩
  · have hhead : c.head i = some a := hfirst.mpr rfl
    refine ⟨(({ c with head := Function.update c.head i ys.head? } : Heap).setIf
      ys.head? fun z => { z with prev := none }).setMSH a
        fun x => { x with prev := none, next := none }, ?_, ?_, ⟨fun j hj => ?_, fun p hp => ?_⟩, ?_⟩
    · unfold MSH.remove
      simp [hhead, hnext]
    · simpa using herase
    · simp [hj]
    · simp only [List.nil_append, List.mem_cons, not_or] at hp
      rw [mem_setMSH_of_ne hp.1, mem_setIf_of_ne (hafter p hp.2)]
    · simp
  · simp only [List.concat_eq_append, List.append_assoc, List.cons_append, List.nil_append,
      List.getLast?_append, List.getLast?_singleton, Option.some_or, List.append_eq_nil_iff,
      List.cons_ne_nil, and_false, if_false] at h hprev herase ha ⊢
    have haz : a ≠ z := by
      rintro rfl
      simp at ha
    have hhead : c.head i ≠ some a := fun he => by simpa using hfirst.mp he
    refine ⟨((c.setMSH z fun x => { x with next := ys.head? }).setIf
      ys.head? fun x => { x with prev := some z }).setMSH a
        fun x => { x with prev := none, next := none }, ?_, ?_, ⟨fun j hj => ?_, fun p hp => ?_⟩, ?_⟩
    · unfold MSH.remove
      simp [hhead, hnext, hprev, mem_setMSH_of_ne haz]
    · simpa using herase
    · simp
    · simp only [List.mem_append, List.mem_cons, not_or] at hp
      rw [mem_setMSH_of_ne hp.2.2.1, mem_setIf_of_ne (hafter p hp.2.2.2), mem_setMSH_of_ne hp.2.1]
    · simp

theorem remove_holds (h : Holds c l) (ha : Apart l) (hi : l i = pre ++ s :: post) :
    ∃ c', MSH.remove s.addr i c = some ((), c') ∧ Holds c' (Function.update l i (pre ++ post)) ∧
      MSH.size ∘ c'.mem = MSH.size ∘ c.mem := by
  obtain ⟨c', hc, hlist, ht, hsize⟩ := remove_isList (h.split hi)
  refine ⟨c', hc, h.update ?_ (fun t ht => ?_) ht.head fun j hj t htj => ht.mem _ ?_, hsize⟩
  · rwa [List.map_append]
  · rw [show (c'.mem t.addr).size = (c.mem t.addr).size from congrFun hsize t.addr]
    refine h.sizes i t ?_
    rw [hi]
    simp only [List.mem_append, List.mem_cons] at ht ⊢
    tauto
  · rw [← List.map_cons, ← List.map_append, ← hi]
    exact ha.not_mem hj htj

/-! ## 4. The searches

The search by address ends at the last header that is not behind the address, and the search by
size at the first one that is large enough; both end because the list does. -/

theorem findByPointerLoop_apply {n other a : Nat} {xs : List Nat}
    (h : Linked.Chain (MSH.next ∘ c.mem) (some a) (a :: xs)) (hn : xs.length < n) :
    MSH.findByPointerLoop other n a c = some ((xs.takeWhile (· ≤ other)).getLastD a, c) := by
  induction xs generalizing a n with
  | nil =>
    obtain ⟨n, rfl⟩ := Nat.exists_eq_succ_of_ne_zero (Nat.ne_of_gt hn)
    have hnext : (c.mem a).next = none := h.2
    simp [MSH.findByPointerLoop, hnext]
  | cons y xs ih =>
    obtain ⟨n, rfl⟩ := Nat.exists_eq_succ_of_ne_zero (Nat.ne_of_gt (Nat.zero_lt_of_lt hn))
    have hnext : (c.mem a).next = some y := h.2.1
    rw [MSH.findByPointerLoop]
    simp only [bind_apply, getMSH_apply, Option.bind_some, hnext, List.takeWhile_cons,
      decide_eq_true_eq]
    split
    · next hle =>
      rw [ih ⟨rfl, h.2.2⟩ (Nat.lt_of_succ_lt_succ hn), List.getLastD_cons]
    · rfl

/-- The result is the last element that is not behind `other`. -/
theorem findByPointer_apply (other : Nat) {xs : List Nat}
    (h : Linked.Chain (MSH.next ∘ c.mem) o xs) (hn : xs.length ≤ maxBlocks) :
    MSH.findByPointer o other c = some ((xs.takeWhile (· ≤ other)).getLast?, c) := by
  cases xs with
  | nil =>
    obtain rfl : o = none := h
    rfl
  | cons a xs =>
    obtain rfl : o = some a := h.1
    rw [MSH.findByPointer, List.takeWhile_cons]
    simp only [decide_eq_true_eq]
    split
    · rw [bind_apply, findByPointerLoop_apply h (by simp only [List.length_cons] at hn; omega)]
      simp [List.getLast?_cons]
    · rfl

theorem findBySizeLoop_apply {n m : Nat} {l : List Segment}
    (h : Linked.Chain (MSH.next ∘ c.mem) o (l.map Segment.addr))
    (hs : ∀ s ∈ l, (c.mem s.addr).size = s.size) (hn : l.length < n) :
    MSH.findBySizeLoop m n o c = some ((take m l).map fun p => p.1.addr, c) := by
  induction l generalizing o n with
  | nil =>
    obtain ⟨n, rfl⟩ := Nat.exists_eq_succ_of_ne_zero (Nat.ne_of_gt hn)
    obtain rfl : o = none := h
    rfl
  | cons s l ih =>
    obtain ⟨n, rfl⟩ := Nat.exists_eq_succ_of_ne_zero (Nat.ne_of_gt (Nat.zero_lt_of_lt hn))
    rw [List.forall_mem_cons] at hs
    obtain rfl : o = some s.addr := h.1
    rw [MSH.findBySizeLoop]
    simp only [bind_apply, getMSH_apply, Option.bind_some, hs.1, take]
    split
    · refine (ih h.2 hs.2 (Nat.lt_of_succ_lt_succ hn)).trans ?_
      rw [Option.map_map]
      rfl
    · split <;> rfl

/-! ## 5. `insertAfter` and `insertAsHead` -/

theorem insert_isList {xs ys : List Nat} {a : Nat}
    (h : IsList (MSH.next ∘ c.mem) (MSH.prev ∘ c.mem) (c.head i) (xs ++ ys)) (ha : a ∉ xs ++ ys) :
    ∃ c', (match xs.getLast? with
        | some w => MSH.insertAfter w a
        | none => MSH.insertAsHead i a) c = some ((), c') ∧
      IsList (MSH.next ∘ c'.mem) (MSH.prev ∘ c'.mem) (c'.head i) (xs ++ a :: ys) ∧
      Touches i (a :: (xs ++ ys)) c c' ∧ MSH.size ∘ c'.mem = MSH.size ∘ c.mem := by
  have hinsert := h.insert ha
  have hafter : ∀ q, q ∉ ys → ys.head? ≠ some q := fun q hq he => hq (List.mem_of_mem_head? he)
  rcases List.eq_nil_or_concat xs with rfl | ⟨zs, z, rfl⟩
  · have hhead : c.head i = ys.head? := h.head
    refine ⟨({ (c.setMSH a fun y => { y with prev := none }).setMSH a
      (fun y => { y with next := ys.head? }) with
        head := Function.update c.head i (some a) } : Heap).setIf ys.head?
        fun z => { z with prev := some a }, ?_, ?_, ⟨fun j hj => ?_, fun p hp => ?_⟩, ?_⟩
    · simp [MSH.insertAsHead, hhead]
    · simpa using hinsert
    · simp [hj]
    · simp only [List.nil_append, List.mem_cons, not_or] at hp
      rw [mem_setIf_of_ne (hafter p hp.2)]
      simp only [mem_setMSH_of_ne hp.1]
    · simp
  · simp only [List.concat_eq_append, List.append_assoc, List.cons_append, List.nil_append,
      List.getLast?_append, List.getLast?_singleton, Option.some_or, List.append_eq_nil_iff,
      List.cons_ne_nil, and_false, if_false] at h hinsert ha ⊢
    have hza : z ≠ a := by
      rintro rfl
      simp at ha
    have hnext : (c.mem z).next = ys.head? := h.neighbours.2
    refine ⟨(((c.setMSH a fun y => { y with prev := some z }).setMSH a
      fun y => { y with next := ys.head? }).setMSH z fun x => { x with next := some a }).setIf
        ys.head? fun z => { z with prev := some a }, ?_, ?_, ⟨fun j hj => ?_, fun p hp => ?_⟩, ?_⟩
    · simp [MSH.insertAfter, mem_setMSH_of_ne hza, hnext, mem_setMSH_of_ne hza.symm]
    · simpa using hinsert
    · simp
    · simp only [List.mem_append, List.mem_cons, not_or] at hp
      rw [mem_setIf_of_ne (hafter p hp.2.2.2), mem_setMSH_of_ne hp.2.2.1, mem_setMSH_of_ne hp.1,
        mem_setMSH_of_ne hp.1]
    · simp

/-- The links of the new segment's header are overwritten, and it is in place. -/
theorem insertSorted_holds (h : Holds c l) (ha : Apart l)
    (hs : ∀ j, ∀ t ∈ l j, t.addr ≠ s.addr) (hsize : (c.mem s.addr).size = s.size)
    (hn : (l i).length ≤ maxBlocks) :
    ∃ c', MemoryManager.insertSorted s.addr i c = some ((), c') ∧
      Holds c' (Function.update l i (insertSegment s (l i))) ∧
      MSH.size ∘ c'.mem = MSH.size ∘ c.mem := by
  have hlist := h.lists i
  have hsplit := List.takeWhile_append_dropWhile (l := l i) (p := fun t => decide (t.addr ≤ s.addr))
  rw [← hsplit, List.map_append] at hlist
  have hnew : s.addr ∉ (l i).map Segment.addr := addr_not_mem (hs i)
  obtain ⟨c', hc, hlist', ht, hsize'⟩ := insert_isList hlist (a := s.addr) (by
    rwa [← List.map_append, hsplit])
  have hsz : ∀ a, (c'.mem a).size = (c.mem a).size := congrFun hsize'
  refine ⟨c', ?_, h.update ?_ (fun t hm => ?_) ht.head fun j hj t htj => ht.mem _ ?_, hsize'⟩
  · unfold MemoryManager.insertSorted
    simp only [bind_apply, getHead_apply, Option.bind_some]
    rw [findByPointer_apply _ (h.lists i).chain (by rwa [List.length_map]), Option.bind_some]
    simp only [List.takeWhile_map]
    rw [← hc]
    rfl
  · rw [insertSegment, List.map_append, List.map_cons]
    exact hlist'
  · rw [hsz]
    rcases mem_insertSegment.mp hm with rfl | hm
    · exact hsize
    · exact h.sizes i t hm
  · rw [← List.map_append, hsplit, List.mem_cons, not_or]
    exact ⟨hs j t htj, ha.not_mem hj htj⟩

/-! ## 6. `reduce`

Cutting a segment makes a header in the middle of it, where there was none before; so it is on no
list yet, and that its memory is not that of another header has to be known from outside. -/

theorem reduce_isList {xs ys : List Nat} {a b m : Nat}
    (h : IsList (MSH.next ∘ c.mem) (MSH.prev ∘ c.mem) (c.head i) (xs ++ a :: ys))
    (hb : b ∉ xs ++ a :: ys) (hlt : m < (c.mem a).size)
    (hba : u64 (a + u64 (m * MEM_BLOCK_SIZE)) = b) (hb0 : b ≠ 0) :
    ∃ c', MSH.reduce a m i c = some (true, c') ∧
      IsList (MSH.next ∘ c'.mem) (MSH.prev ∘ c'.mem) (c'.head i) (xs ++ b :: ys) ∧
      Touches i (b :: (xs ++ a :: ys)) c c' ∧
      MSH.size ∘ c'.mem =
        Function.update (Function.update (MSH.size ∘ c.mem) b ((c.mem a).size - m)) a m := by
  obtain ⟨hprev, hnext⟩ := h.neighbours
  simp only [Function.comp_apply] at hprev hnext
  have ha : a ∉ xs ++ b :: ys := by
    have hnd := h.nodup
    rw [List.nodup_append, List.nodup_cons] at hnd
    simp only [List.mem_append, List.mem_cons, not_or] at hb ⊢
    refine ⟨fun hx => hnd.2.2 a hx a List.mem_cons_self rfl, Ne.symm hb.2.1, hnd.2.1.1⟩
  have hab : a ≠ b := fun e => ha (by simp [e])
  have hfirst := h.head_eq_some
  have hreplace := (h.replace hb).update (x := a) (v := none) (w := none) ha
  have hafter : ∀ q, q ∉ ys → ys.head? ≠ some q := fun q hq he => hq (List.mem_of_mem_head? he)
  have hguard : ¬ ((c.mem a).size < 1 ∨ (c.mem a).size ≤ m) := by omega
  -- the new header is complete before any other header refers to it
  obtain ⟨d, hd⟩ : ∃ d, d = (((c.setMSH b fun y => { y with size := (c.mem a).size - m }).setMSH a
    fun x => { x with size := m }).setMSH b fun y => { y with prev := xs.getLast? }).setMSH b
      fun y => { y with next := ys.head? } := ⟨_, rfl⟩
  have hdn : MSH.next ∘ d.mem = Function.update (MSH.next ∘ c.mem) b ys.head? := by simp [hd]
  have hdp : MSH.prev ∘ d.mem = Function.update (MSH.prev ∘ c.mem) b xs.getLast? := by simp [hd]
  have hds : MSH.size ∘ d.mem = Function.update (Function.update (MSH.size ∘ c.mem) b
    ((c.mem a).size - m)) a m := by simp [hd]
  have hdh : d.head = c.head := by simp [hd]
  have hdm : ∀ p, p ≠ a → p ≠ b → d.mem p = c.mem p := fun p hpa hpb => by
    simp only [hd, mem_setMSH_of_ne hpa, mem_setMSH_of_ne hpb]
  rcases List.eq_nil_or_concat xs with rfl | ⟨zs, z, rfl⟩
  · have hhead : c.head i = some a := hfirst.mpr rfl
    refine ⟨(({ d with head := Function.update d.head i (some b) } : Heap).setIf
      ys.head? fun z => { z with prev := some b }).setMSH a
        fun x => { x with prev := none, next := none }, ?_, ?_, ⟨fun j hj => ?_, fun p hp => ?_⟩, ?_⟩
    · unfold MSH.reduce
      simp only [bind_apply, getMSH_apply, Option.bind_some, if_neg hguard]
      simp [hba, toPtr, hb0, hhead, hd, hprev, hnext, mem_setMSH_of_ne hab]
    · simpa [hdn, hdp, hdh] using hreplace
    · simp [hj, hdh]
    · simp only [List.nil_append, List.mem_cons, not_or] at hp
      rw [mem_setMSH_of_ne hp.2.1, mem_setIf_of_ne (hafter p hp.2.2)]
      exact hdm p hp.2.1 hp.1
    · simp [hds]
  · simp only [List.concat_eq_append, List.append_assoc, List.cons_append, List.nil_append,
      List.getLast?_append, List.getLast?_singleton, Option.some_or, List.append_eq_nil_iff,
      List.cons_ne_nil, and_false, if_false] at h hprev hreplace hdp hd ha ⊢
    have hhead : c.head i ≠ some a := fun he => by simpa using hfirst.mp he
    refine ⟨((d.setMSH z fun x => { x with next := some b }).setIf
      ys.head? fun x => { x with prev := some b }).setMSH a
        fun x => { x with prev := none, next := none }, ?_, ?_, ⟨fun j hj => ?_, fun p hp => ?_⟩, ?_⟩
    · have hbz : b ≠ z := by
        rintro rfl
        simp at hb
      unfold MSH.reduce
      simp only [bind_apply, getMSH_apply, Option.bind_some, if_neg hguard]
      simp [hba, toPtr, hb0, hhead, hd, hprev, hnext, mem_setMSH_of_ne hab, mem_setMSH_of_ne hbz]
    · simpa [hdn, hdp, hdh] using hreplace
    · simp [hdh]
    · simp only [List.mem_append, List.mem_cons, not_or] at hp
      rw [mem_setMSH_of_ne hp.2.2.2.1, mem_setIf_of_ne (hafter p hp.2.2.2.2),
        mem_setMSH_of_ne hp.2.2.1]
      exact hdm p hp.2.2.2.1 hp.1
    · simp [hds]

theorem reduce_holds {m : Nat} (h : Holds c l) (ha : Apart l) (hi : l i = pre ++ t :: post)
    (hm : 1 ≤ m) (hlt : m < t.size) (hstop : t.stop < 2 ^ 64)
    (hfresh : ∀ j, ∀ u ∈ l j, u.addr ≠ t.addr + MEM_BLOCK_SIZE * m) :
    ∃ c', MSH.reduce t.addr m i c = some (true, c') ∧
      Holds c' (Function.update l i
        (pre ++ ⟨t.addr + MEM_BLOCK_SIZE * m, t.size - m⟩ :: post)) ∧
      (c'.mem t.addr).size = m := by
  have hall := h.sizes i
  rw [hi, List.forall_mem_append, List.forall_mem_cons] at hall
  obtain ⟨hpre, hsize, hpost⟩ := hall
  have hsplit := h.split hi
  have hb64 : t.addr + MEM_BLOCK_SIZE * m ≠ 0 ∧ t.addr + MEM_BLOCK_SIZE * m ≠ t.addr := by
    simp only [MEM_BLOCK_SIZE]
    omega
  have hba : u64 (t.addr + u64 (m * MEM_BLOCK_SIZE)) = t.addr + MEM_BLOCK_SIZE * m := by
    simp only [Segment.stop, MEM_BLOCK_SIZE, u64] at hstop ⊢
    omega
  generalize t.addr + MEM_BLOCK_SIZE * m = b at hfresh hba hb64 ⊢
  have hnew := addr_not_mem (hfresh i)
  rw [hi, List.map_append, List.map_cons] at hnew
  obtain ⟨c', hc, hlist, htouch, hsizes⟩ := reduce_isList hsplit hnew (hsize ▸ hlt) hba hb64.1
  have hsz : ∀ a, (c'.mem a).size = Function.update (Function.update (MSH.size ∘ c.mem) b
    ((c.mem t.addr).size - m)) t.addr m a := congrFun hsizes
  -- the sizes of the other segments of the list
  have hkeep : ∀ u ∈ l i, u.addr ≠ t.addr → (c'.mem u.addr).size = (c.mem u.addr).size :=
    fun u hu hne => by
      rw [hsz, Function.update_of_ne hne, Function.update_of_ne (hfresh i u hu)]
      rfl
  obtain ⟨-, hnd, hdisj⟩ := List.nodup_append.mp hsplit.nodup
  refine ⟨c', hc, h.update ?_ ?_ htouch.head fun j hj u huj => htouch.mem _ ?_, ?_⟩
  · rw [List.map_append, List.map_cons]
    exact hlist
  · rw [List.forall_mem_append, List.forall_mem_cons]
    refine ⟨fun u hu => ?_, ?_, fun u hu => ?_⟩
    · rw [hkeep u (by simp [hi, hu]) (hdisj _ (List.mem_map_of_mem hu) _ List.mem_cons_self)]
      exact hpre u hu
    · rw [hsz, Function.update_of_ne hb64.2, Function.update_self, hsize]
    · rw [hkeep u (by simp [hi, hu]) fun he =>
        (List.nodup_cons.mp hnd).1 (he ▸ List.mem_map_of_mem hu)]
      exact hpost u hu
  · rw [← List.map_cons, ← List.map_append, ← hi, List.mem_cons, not_or]
    exact ⟨hfresh j u huj, ha.not_mem hj huj⟩
  · rw [hsz, Function.update_self]

/-! ## 7. `merge` -/

/-- One round of the loop, with the header of the next segment read before it is given up. -/
def Heap.absorbNext (c : Heap) (a n : Nat) (o : Option Nat) : Heap :=
  ((c.setMSH a fun x => { x with size := n }).setMSH a fun x => { x with next := o }).setIf o
    fun y => { y with prev := some a }

theorem absorbNext_size (a n : Nat) (o : Option Nat) : MSH.size ∘ (c.absorbNext a n o).mem =
    Function.update (MSH.size ∘ c.mem) a n := by
  simp only [Heap.absorbNext, size_setIfPrev, size_setNext, size_setSize]

theorem absorbNext_holds {s t : Segment} (h : Holds c l) (ha : Apart l)
    (hi : l i = pre ++ s :: t :: post) :
    Holds (c.absorbNext s.addr (s.size + t.size) (post.map Segment.addr).head?)
      (Function.update l i (pre ++ ⟨s.addr, s.size + t.size⟩ :: post)) := by
  have hall := h.sizes i
  rw [hi, List.forall_mem_append, List.forall_mem_cons, List.forall_mem_cons] at hall
  obtain ⟨hpre, -, -, hpost⟩ := hall
  have hsplit := h.split hi
  rw [List.map_cons] at hsplit
  obtain ⟨-, hnd, hdisj⟩ := List.nodup_append.mp hsplit.nodup
  obtain ⟨hnd, -⟩ := List.nodup_cons.mp hnd
  have hsizes : ∀ a, ((c.absorbNext s.addr (s.size + t.size)
      (post.map Segment.addr).head?).mem a).size =
        Function.update (MSH.size ∘ c.mem) s.addr (s.size + t.size) a :=
    congrFun (absorbNext_size _ _ _)
  have hkeep : ∀ u : Segment, u.addr ≠ s.addr → ((c.absorbNext s.addr (s.size + t.size)
      (post.map Segment.addr).head?).mem u.addr).size = (c.mem u.addr).size := fun u hu => by
    rw [hsizes, Function.update_of_ne hu]
    rfl
  refine h.update ?_ ?_ (fun j _ => by simp [Heap.absorbNext]) fun j hj u huj => ?_
  · have hsplit' : IsList (MSH.next ∘ c.mem) (MSH.prev ∘ c.mem) (c.head i)
        ((pre.map Segment.addr ++ [s.addr]) ++ t.addr :: post.map Segment.addr) := by
      simpa using hsplit
    simpa [Heap.absorbNext] using hsplit'.erase
  · rw [List.forall_mem_append, List.forall_mem_cons]
    refine ⟨fun u hu => ?_, ?_, fun u hu => ?_⟩
    · rw [hkeep u (hdisj _ (List.mem_map_of_mem hu) _ List.mem_cons_self)]
      exact hpre u hu
    · rw [hsizes, Function.update_self]
    · rw [hkeep u fun he => hnd (he ▸ List.mem_cons_of_mem _ (List.mem_map_of_mem hu))]
      exact hpost u hu
  · have hu := ha.not_mem hj huj
    simp only [hi, List.map_append, List.map_cons, List.mem_append, List.mem_cons, not_or] at hu
    have hafter : (post.map Segment.addr).head? ≠ some u.addr := fun he =>
      hu.2.2.2 (List.mem_of_mem_head? he)
    simp only [Heap.absorbNext, mem_setIf_of_ne hafter, mem_setMSH_of_ne hu.2.1]

theorem mergeLoop_holds {n k : Nat} (h : Holds c l) (ha : Apart l) (hi : l i = pre ++ s :: post)
    (hstop : ∀ t ∈ s :: post, t.stop < 2 ^ 64) (hn : post.length < n) :
    ∃ k' c', MSH.mergeLoop s.addr n k c = some (k', c') ∧
      Holds c' (Function.update l i (pre ++ absorb s post)) := by
  induction post generalizing c l s n k with
  | nil =>
    obtain ⟨n, rfl⟩ := Nat.exists_eq_succ_of_ne_zero (Nat.ne_of_gt hn)
    have hnext : (c.mem s.addr).next = none := (h.split hi).neighbours.2
    refine ⟨k, c, by simp [MSH.mergeLoop, hnext], ?_⟩
    rwa [absorb, ← hi, Function.update_eq_self]
  | cons t post ih =>
    obtain ⟨n, rfl⟩ := Nat.exists_eq_succ_of_ne_zero (Nat.ne_of_gt (Nat.zero_lt_of_lt hn))
    have hnext : (c.mem s.addr).next = some t.addr := (h.split hi).neighbours.2
    rw [List.forall_mem_cons, List.forall_mem_cons] at hstop
    have hmeet : u64 (s.addr + u64 ((c.mem s.addr).size * MEM_BLOCK_SIZE)) = s.stop := by
      have hs := hstop.1
      rw [h.sizes i s (by simp [hi])]
      simp only [Segment.stop, MEM_BLOCK_SIZE, u64] at hs ⊢
      omega
    rw [MSH.mergeLoop, absorb]
    simp only [bind_apply, getMSH_apply, Option.bind_some, hnext, hmeet]
    split
    · next hst =>
      have hts : t.addr ≠ s.addr := fun he => by
        have hnd := (List.nodup_append.mp (h.split hi).nodup).2.1
        exact (List.nodup_cons.mp hnd).1 (he ▸ List.mem_cons_self)
      have hi' : l i = (pre ++ [s]) ++ t :: post := by simpa using hi
      have hend : (c.mem t.addr).next = (post.map Segment.addr).head? :=
        (h.split hi').neighbours.2
      have hsum : u64 ((c.mem s.addr).size + (c.mem t.addr).size) = s.size + t.size := by
        have ht := hstop.2.1
        rw [h.sizes i s (by simp [hi]), h.sizes i t (by simp [hi])]
        simp only [Segment.stop, MEM_BLOCK_SIZE, u64] at ht hst ⊢
        omega
      have hround : (c.setMSH s.addr fun x => { x with size := u64 (x.size + (c.mem t.addr).size) }) =
          c.setMSH s.addr fun x => { x with size := s.size + t.size } :=
        setMSH_congr (by rw [hsum])
      have hapart : Apart (Function.update l i (pre ++ ⟨s.addr, s.size + t.size⟩ :: post)) := by
        refine ha.update fun u hu => Or.inl ?_
        rcases List.mem_append.mp hu with hu | hu
        · exact ⟨u, by simp [hi, hu], rfl⟩
        · rcases List.mem_cons.mp hu with rfl | hu
          · exact ⟨s, by simp [hi], rfl⟩
          · exact ⟨u, by simp [hi, hu], rfl⟩
      have hstop' : ∀ u ∈ (⟨s.addr, s.size + t.size⟩ : Segment) :: post, u.stop < 2 ^ 64 := by
        refine List.forall_mem_cons.mpr ⟨?_, hstop.2.2⟩
        have ht := hstop.2.1
        simp only [Segment.stop, MEM_BLOCK_SIZE] at ht hst ⊢
        omega
      obtain ⟨k', c', hrun, hc'⟩ := ih (n := n) (k := k + 1) (absorbNext_holds h ha hi) hapart
        (Function.update_self ..) hstop' (Nat.lt_of_succ_lt_succ hn)
      refine ⟨k', c', Eq.trans ?_ hrun, by rwa [Function.update_idem] at hc'⟩
      simp [Heap.absorbNext, hround, hend, mem_setMSH_of_ne hts]
    · exact ⟨k, c, rfl, by rwa [← hi, Function.update_eq_self]⟩

end Os1Kernel
