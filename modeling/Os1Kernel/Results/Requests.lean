/-
# Is a granted allocation as large as was asked for?

A request for bytes is rounded up, and one for blocks gets a block for the header; both sums are
`size_t`.  A request whose sum fits gets what it asks for.  One whose sum wraps asks the search for
no block, or for one: it is granted by the first free segment, if there is any.

`request_granted_iff` is an equivalence for each of the four entry points, on every heap that an
allowed run leaves.

* If the sum fits, the request is one of the calls of `Memory.Runs`, and its size is what was asked
  for, rounded up (section 2).
* If a sum of blocks wraps, the search is for no block.  It ends at the first free segment, takes
  it, and writes the size 0 into its header; no call after that restores it, as every statement
  between there and the end keeps it (section 3).
* If a sum of bytes wraps, the request is for no payload at all, and the payload is too small for
  what was asked (section 4).
-/
import Os1Kernel.Results.FreeList

namespace Os1Kernel

open DoublyLinked Simulation Run MemoryManager

variable {r : HeapRange} {l : Layout} {s t : HeapState} {mem : Nat → MSH}
  {calls : List HeapCall} {g u : Segment} {i : HeadPtr} {o : Owner} {a m n p : Nat}

/-! ## 1. What a request should get -/

/-- The call returns; null means that no list has changed, a pointer that a segment which is
`Enough` has left the free list. -/
def HeapState.Grants (s : HeapState) (call : HeapM Nat) (i : HeadPtr) (Enough : Segment → Prop) :
    Prop :=
  ∃ p c, call s.heap = some (p, c) ∧ (p = 0 → c.segments = s.heap.segments) ∧
    (p ≠ 0 → ∃ g ∈ c.segments i, p = g.addr + MEM_BLOCK_SIZE ∧ Enough g ∧ ∀ x, g.has x = true →
      coverage (s.heap.segments .freeMemoryHead) x = 1 ∧
        coverage (c.segments .freeMemoryHead) x = 0)

/-- The payload has room for so many bytes. -/
def BytesEnough (size : Nat) (g : Segment) : Prop :=
  size + MEM_BLOCK_SIZE ≤ MEM_BLOCK_SIZE * g.size

def BlocksEnough (nBlocks : Nat) (g : Segment) : Prop := nBlocks + 1 ≤ g.size

/-! ## 2. Requests that fit -/

theorem HeapState.Sound.grants (h : s.Sound r s.heap.segments) (hn : n + 1 < 2 ^ 64) :
    s.Grants (o.alloc n) o.head fun g => g.size = n + 1 := by
  obtain ⟨c, hc, hsound⟩ := h.alloc (o := o) hn
  refine ⟨_, c, hc, ?_⟩
  have hseg := hsound.holds.segments_eq hsound.partition
  have hpart := hsound.partition
  revert hseg hpart
  unfold Layout.alloc
  cases htake : take (n + 1) (s.heap.segments .freeMemoryHead) with
  | none => exact fun hseg _ => ⟨fun _ => hseg, fun hne => absurd rfl hne⟩
  | some found =>
    obtain ⟨g, free⟩ := found
    intro hseg hpart
    have hne : g.addr + MEM_BLOCK_SIZE ≠ 0 := by
      simp only [MEM_BLOCK_SIZE]
      omega
    have hg : g ∈ Function.update (Function.update s.heap.segments .freeMemoryHead free) o.head
        (insertSegment g (s.heap.segments o.head)) o.head := by
      rw [Function.update_self]
      exact mem_insertSegment.mpr (Or.inl rfl)
    refine ⟨fun he => absurd he hne, fun _ => ⟨g, hseg ▸ hg, rfl, take_size htake, fun x hx => ?_⟩⟩
    have h₁ := take_coverage (x := x) htake
    have h₂ := h.partition.total x
    have h₃ : (r.whole.has x).toNat ≤ 1 := Bool.toNat_le _
    have h₄ : c.segments .freeMemoryHead = free := (congrFun hseg .freeMemoryHead).trans
      ((Function.update_of_ne o.head_ne.symm _ _).trans (Function.update_self ..))
    rw [hx, Bool.toNat_true] at h₁
    rw [Layout.total] at h₂
    rw [h₄]
    omega

/-- Without free segments nothing is granted, whatever is asked for. -/
theorem HeapState.Sound.grants_none (h : s.Sound r s.heap.segments)
    (hfree : s.heap.segments .freeMemoryHead = []) (n : Nat) (Enough : Segment → Prop) :
    s.Grants (o.alloc n) o.head Enough := by
  have hlist := h.holds.lists .freeMemoryHead
  rw [hfree] at hlist
  have hhead : s.heap.head .freeMemoryHead = none := hlist.head
  refine ⟨0, s.heap, ?_, fun _ => rfl, fun hne => absurd rfl hne⟩
  rw [o.alloc_eq, memAlloc_, bind_apply, getHead_apply, Option.bind_some, hhead]
  rfl

/-- Two segments that a pointer belongs to are the same. -/
theorem Heap.eq_of_pointer {c : Heap} (hg : g ∈ c.segments i) (hu : u ∈ c.segments i)
    (he : g.addr + MEM_BLOCK_SIZE = u.addr + MEM_BLOCK_SIZE) : g = u := by
  obtain ⟨q, -, rfl⟩ := List.mem_map.mp hg
  obtain ⟨q', -, rfl⟩ := List.mem_map.mp hu
  obtain rfl : q = q' := Nat.add_right_cancel he
  rfl

/-- A block is given out as long as there is any. -/
theorem HeapState.Sound.alloc_ne_zero (h : s.Sound r s.heap.segments)
    (hfree : s.heap.segments .freeMemoryHead ≠ []) {c : Heap}
    (hrun : o.alloc 0 s.heap = some (p, c)) : p ≠ 0 := by
  obtain ⟨c', hc, -⟩ := h.alloc (o := o) (show 0 + 1 < 2 ^ 64 by decide)
  cases hc.symm.trans hrun
  rw [Layout.alloc]
  cases htake : take (0 + 1) (s.heap.segments .freeMemoryHead) with
  | none =>
    obtain ⟨g, rest, hl⟩ := List.exists_cons_of_ne_nil hfree
    have hg : g ∈ s.heap.segments .freeMemoryHead := hl ▸ List.mem_cons_self
    have h₁ := take_eq_none htake g hg
    have h₂ := h.partition.pos _ g hg
    omega
  | some found =>
    simp only [MEM_BLOCK_SIZE]
    omega

/-! ## 3. Requests that wrap -/

/-- The size in a header is 0. -/
def SizeZero (a : Nat) (c : Heap) : Prop := (c.mem a).size = 0

section SizeZero

variable {q : Option Nat} {f : MSH → MSH}

theorem setMSH_keeps (hf : ∀ x, (f x).size = x.size) : Keeps (SizeZero a) (setMSH p f) := by
  refine Keeps.write (fun c => setMSH_apply c p f) fun c hc => ?_
  by_cases hp : a = p
  · subst hp
    show ((c.setMSH a f).mem a).size = 0
    rw [mem_setMSH_self, hf]
    exact hc
  · show ((c.setMSH p f).mem a).size = 0
    rw [mem_setMSH_of_ne hp]
    exact hc

theorem setMSHIf_keeps (hf : ∀ x, (f x).size = x.size) : Keeps (SizeZero a) (setMSHIf q f) := by
  cases q with
  | none => exact Keeps.pure _
  | some p => exact setMSH_keeps hf

theorem getMSH_keeps : Keeps (SizeZero a) (getMSH p) := Keeps.read fun c => getMSH_apply c p

theorem getHead_keeps : Keeps (SizeZero a) (getHead i) := Keeps.read fun c => getHead_apply c i

theorem setHead_keeps : Keeps (SizeZero a) (setHead i q) :=
  Keeps.write (fun c => setHead_apply c q i) fun _ hc => hc

theorem followMSH_keeps : Keeps (SizeZero a) (followMSH q) := by
  cases q with
  | none => exact Keeps.failure
  | some p => exact Keeps.pure _

theorem insertAfter_keeps : Keeps (SizeZero a) (MSH.insertAfter n p) := by
  unfold MSH.insertAfter
  refine Keeps.bind (setMSH_keeps fun _ => rfl) fun _ => Keeps.bind getMSH_keeps fun _ => ?_
  refine Keeps.bind (setMSH_keeps fun _ => rfl) fun _ => ?_
  refine Keeps.bind (setMSH_keeps fun _ => rfl) fun _ => ?_
  exact Keeps.bind getMSH_keeps fun _ => setMSHIf_keeps fun _ => rfl

theorem insertAsHead_keeps : Keeps (SizeZero a) (MSH.insertAsHead i p) := by
  unfold MSH.insertAsHead
  refine Keeps.bind (setMSH_keeps fun _ => rfl) fun _ => Keeps.bind getHead_keeps fun _ => ?_
  refine Keeps.bind (setMSH_keeps fun _ => rfl) fun _ => Keeps.bind setHead_keeps fun _ => ?_
  exact Keeps.bind getMSH_keeps fun _ => setMSHIf_keeps fun _ => rfl

theorem findByPointerLoop_keeps (k : Nat) :
    Keeps (SizeZero a) (MSH.findByPointerLoop n k p) := by
  induction k generalizing p with
  | zero => exact Keeps.failure
  | succ k ih =>
    refine getMSH_keeps.bind fun x => ?_
    split
    · split
      · exact ih
      · exact Keeps.pure _
    · exact Keeps.pure _

theorem insertSorted_keeps : Keeps (SizeZero a) (insertSorted p i) := by
  refine getHead_keeps.bind fun q => Keeps.bind (m := MSH.findByPointer q p) ?_ fun w => ?_
  · unfold MSH.findByPointer
    split
    · split
      · exact (findByPointerLoop_keeps _).bind fun _ => Keeps.pure _
      · exact Keeps.pure _
    · exact Keeps.pure _
  · split
    · exact insertAfter_keeps
    · exact insertAsHead_keeps

end SizeZero

/-- A segment cut in front of its first block: the new header is the old one, and what is written
there last is the size 0. -/
theorem reduce_zero {c c' : Heap} {b : Bool} (hpos : 1 ≤ (c.mem a).size) (ha : a ≠ 0)
    (hlt : a < 2 ^ 64) (h : MSH.reduce a 0 i c = some (b, c')) : SizeZero a c' := by
  have hguard : ¬ ((c.mem a).size < 1 ∨ (c.mem a).size ≤ 0) := by omega
  have hsame : u64 (a + u64 (0 * MEM_BLOCK_SIZE)) = a := by
    simp only [MEM_BLOCK_SIZE, u64]
    omega
  rw [MSH.reduce, bind_apply, getMSH_apply, Option.bind_some, if_neg hguard, hsame, toPtr,
    if_neg ha, followMSH_some, bind_apply, pure_apply, Option.bind_some, bind_apply, setMSH_apply,
    Option.bind_some, bind_apply, setMSH_apply, Option.bind_some] at h
  have hzero : SizeZero a ((c.setMSH a fun y => { y with size := (c.mem a).size - 0 }).setMSH a
      fun x => { x with size := 0 }) := congrArg MSH.size mem_setMSH_self
  refine Keeps.bind getMSH_keeps (fun x => ?_) _ _ _ hzero h
  refine Keeps.bind (setMSH_keeps fun _ => rfl) fun _ => Keeps.bind getMSH_keeps fun x => ?_
  refine Keeps.bind (setMSH_keeps fun _ => rfl) fun _ => Keeps.bind getHead_keeps fun q => ?_
  refine Keeps.bind ?_ fun _ => Keeps.bind getMSH_keeps fun y =>
    Keeps.bind (setMSHIf_keeps fun _ => rfl) fun _ =>
      Keeps.bind (setMSH_keeps fun _ => rfl) fun _ => Keeps.pure _
  split
  · exact setHead_keeps
  · exact Keeps.bind getMSH_keeps fun y => Keeps.bind followMSH_keeps fun z =>
      setMSH_keeps fun _ => rfl

/-- The request for no block takes the first free segment, and leaves it with the size 0. -/
theorem HeapState.Sound.alloc_wrapped (h : s.Sound r s.heap.segments) {rest : List Segment}
    (hfree : s.heap.segments .freeMemoryHead = g :: rest) {c : Heap}
    (hrun : memAlloc_ (2 ^ 64 - 1) i s.heap = some (p, c)) :
    p = g.addr + MEM_BLOCK_SIZE ∧ SizeZero g.addr c := by
  have hpart := h.partition
  have hg : g ∈ s.heap.segments .freeMemoryHead := hfree ▸ List.mem_cons_self
  have hpos := hpart.pos _ g hg
  have hstop := hpart.stop_lt hg
  have haddr := hpart.addr_pos hg
  have hsize := h.holds.sizes _ g hg
  have htake : take 0 (s.heap.segments .freeMemoryHead) =
      some (⟨g.addr, 0⟩, ⟨g.addr + MEM_BLOCK_SIZE * 0, g.size - 0⟩ :: rest) := by
    rw [hfree, take, if_neg (Nat.not_lt_zero _), if_neg (by omega)]
  have hfind := findBySizeLoop_apply (h.holds.lists .freeMemoryHead).chain
    (h.holds.sizes .freeMemoryHead) (Nat.lt_succ_of_le (hpart.length_le _)) (m := 0)
  rw [htake, Option.map_some] at hfind
  have hact : u64 (2 ^ 64 - 1 + 1) = 0 := by decide
  have hret : u64 (g.addr + MEM_BLOCK_SIZE) = g.addr + MEM_BLOCK_SIZE := by
    simp only [Segment.stop, MEM_BLOCK_SIZE, u64] at hstop ⊢
    omega
  have hne : g.addr ≠ 0 ∧ g.addr < 2 ^ 64 := by
    simp only [Segment.stop, MEM_BLOCK_SIZE] at haddr hstop
    omega
  unfold memAlloc_ MSH.findBySize at hrun
  rw [bind_apply, getHead_apply, Option.bind_some, hact, bind_apply, hfind, Option.bind_some] at hrun
  simp only [bind_apply, getMSH_apply, Option.bind_some, hsize, if_neg (Nat.ne_of_gt hpos)] at hrun
  obtain ⟨⟨_, c₂⟩, h₂, hrun⟩ := Option.bind_eq_some_iff.mp hrun
  obtain ⟨⟨b, c₁⟩, h₁, h₂⟩ := Option.bind_eq_some_iff.mp h₂
  cases h₂
  obtain ⟨⟨_, c₃⟩, h₃, hrun⟩ := Option.bind_eq_some_iff.mp hrun
  cases hrun
  exact ⟨hret, insertSorted_keeps _ _ _ (reduce_zero (hsize ▸ hpos) hne.1 hne.2 h₁) h₃⟩

/-- So it is not granted what it asks for. -/
theorem HeapState.Sound.wrapped_not_grants (h : s.Sound r s.heap.segments)
    (hfree : s.heap.segments .freeMemoryHead ≠ []) :
    ¬ s.Grants (o.alloc (2 ^ 64 - 1)) o.head (BlocksEnough (2 ^ 64 - 1)) := by
  rintro ⟨p, c, hrun, -, hgrant⟩
  obtain ⟨g, rest, hl⟩ := List.exists_cons_of_ne_nil hfree
  rw [o.alloc_eq] at hrun
  obtain ⟨rfl, hzero⟩ := h.alloc_wrapped hl hrun
  obtain ⟨u, hu, he, henough, -⟩ := hgrant (by
    simp only [MEM_BLOCK_SIZE]
    omega)
  obtain ⟨q, -, rfl⟩ := List.mem_map.mp hu
  obtain rfl : g.addr = q := Nat.add_right_cancel he
  have hq : (c.mem g.addr).size = 0 := hzero
  simp only [BlocksEnough, hq] at henough
  omega

/-! ## 4. Bytes -/

theorem roundup_fits (hn : n + 63 < 2 ^ 64) : ROUNDUP n MEM_BLOCK_SIZE + 1 < 2 ^ 64 ∧
    n + MEM_BLOCK_SIZE ≤ MEM_BLOCK_SIZE * (ROUNDUP n MEM_BLOCK_SIZE + 1) := by
  simp only [ROUNDUP, MEM_BLOCK_SIZE, u64]
  omega

theorem roundup_wraps (hlt : n < 2 ^ 64) (hn : 2 ^ 64 ≤ n + 63) : ROUNDUP n MEM_BLOCK_SIZE = 0 := by
  simp only [ROUNDUP, MEM_BLOCK_SIZE, u64]
  omega

theorem HeapState.Grants.imp {call : HeapM Nat} {P Q : Segment → Prop} (h : s.Grants call i P)
    (himp : ∀ g, P g → Q g) : s.Grants call i Q := by
  obtain ⟨p, c, hrun, hnull, hgrant⟩ := h
  refine ⟨p, c, hrun, hnull, fun hp => ?_⟩
  obtain ⟨g, hg, he, hP, hcov⟩ := hgrant hp
  exact ⟨g, hg, he, himp g hP, hcov⟩

theorem HeapState.Sound.grants_bytes (h : s.Sound r s.heap.segments) (hlt : n < 2 ^ 64) :
    s.Grants (o.alloc (ROUNDUP n MEM_BLOCK_SIZE)) o.head (BytesEnough n) ↔
      n + 63 < 2 ^ 64 ∨ s.heap.segments .freeMemoryHead = [] := by
  constructor
  · intro hgrant
    by_contra hno
    rw [not_or, Nat.not_lt] at hno
    rw [roundup_wraps hlt hno.1] at hgrant
    obtain ⟨p, c, hrun, -, hbytes⟩ := hgrant
    have hp := h.alloc_ne_zero hno.2 hrun
    obtain ⟨p', c', hrun', -, hblock⟩ := h.grants (o := o) (show 0 + 1 < 2 ^ 64 by decide)
    cases hrun'.symm.trans hrun
    obtain ⟨g, hg, hgp, hgs, -⟩ := hblock hp
    obtain ⟨u, hu, hup, hus, -⟩ := hbytes hp
    obtain rfl : g = u := Heap.eq_of_pointer hg hu (hgp.symm.trans hup)
    simp only [BytesEnough, hgs, MEM_BLOCK_SIZE] at hus
    omega
  · rintro (hn | hfree)
    · obtain ⟨h₁, h₂⟩ := roundup_fits hn
      refine (h.grants h₁).imp fun g hg => ?_
      rw [BytesEnough, hg]
      exact h₂
    · exact h.grants_none hfree _ _

theorem HeapState.Sound.grants_blocks (h : s.Sound r s.heap.segments) (hlt : n < 2 ^ 64) :
    s.Grants (o.alloc n) o.head (BlocksEnough n) ↔
      n + 1 < 2 ^ 64 ∨ s.heap.segments .freeMemoryHead = [] := by
  constructor
  · intro hgrant
    by_contra hno
    rw [not_or] at hno
    obtain rfl : n = 2 ^ 64 - 1 := by omega
    exact h.wrapped_not_grants hno.2 hgrant
  · rintro (hn | hfree)
    · exact (h.grants hn).imp fun g hg => Nat.le_of_eq hg.symm
    · exact h.grants_none hfree _ _

/-- **When a granted request is as large as was asked for.**  For each of the four entry points, on
every heap that an allowed run leaves: a pointer that is not null has room for the request behind
it exactly if the sum that the code forms does not wrap, or if nothing is free and there is no
pointer. -/
theorem request_granted_iff (h : AllowedRun r mem calls) (hs : heapRun r mem calls = some s)
    (hlt : n < 2 ^ 64) :
    (s.Grants (mem_alloc n) .userMemoryHead (BytesEnough n) ↔
      n + 63 < 2 ^ 64 ∨ s.heap.segments .freeMemoryHead = []) ∧
    (s.Grants (memAlloc_byte n) .userMemoryHead (BytesEnough n) ↔
      n + 63 < 2 ^ 64 ∨ s.heap.segments .freeMemoryHead = []) ∧
    (s.Grants (kMemAlloc_byte n) .systemMemoryHead (BytesEnough n) ↔
      n + 63 < 2 ^ 64 ∨ s.heap.segments .freeMemoryHead = []) ∧
    (s.Grants (handleMemAlloc n) .userMemoryHead (BlocksEnough n) ↔
      n + 1 < 2 ^ 64 ∨ s.heap.segments .freeMemoryHead = []) := by
  obtain ⟨t, ht, hsound⟩ := heapRun_sound h
  obtain rfl : t = s := Option.some.inj (ht.symm.trans hs)
  exact ⟨hsound.grants_bytes (o := .user) hlt, hsound.grants_bytes (o := .user) hlt,
    hsound.grants_bytes (o := .system) hlt, hsound.grants_blocks (o := .user) hlt⟩

theorem request_granted_iff_demo : ∃ s, heapRun demoRange demoMemory demoCalls = some s ∧
    (s.Grants (mem_alloc 100) .userMemoryHead (BytesEnough 100) ↔
      100 + 63 < 2 ^ 64 ∨ s.heap.segments .freeMemoryHead = []) := by
  obtain ⟨s, hs, -⟩ := heapRun_sound demoCalls_allowed
  exact ⟨s, hs, (request_granted_iff demoCalls_allowed hs (show 100 < 2 ^ 64 by decide)).1⟩

/-- Right after `init`, `mem_alloc(2^64 - 1)` is granted a block without payload, and the system
call with `2^64 - 1` blocks a segment of the size 0. -/
theorem wrapped_requests_granted : ∃ s, heapRun demoRange demoMemory [] = some s ∧
    (mem_alloc (2 ^ 64 - 1) s.heap).map (fun x => (x.1, x.2.segments .userMemoryHead)) =
      some (192, [⟨128, 1⟩]) ∧
    (handleMemAlloc (2 ^ 64 - 1) s.heap).map (fun x => (x.1, x.2.segments .userMemoryHead)) =
      some (192, [⟨128, 0⟩]) ∧
    ¬ s.Grants (mem_alloc (2 ^ 64 - 1)) .userMemoryHead (BytesEnough (2 ^ 64 - 1)) ∧
    ¬ s.Grants (handleMemAlloc (2 ^ 64 - 1)) .userMemoryHead (BlocksEnough (2 ^ 64 - 1)) := by
  obtain ⟨s, hs, hsound⟩ := heapRun_sound (show AllowedRun demoRange demoMemory []
    from fun _ _ => trivial)
  have hfree : (heapRun demoRange demoMemory []).map (fun s => s.heap.segments .freeMemoryHead) =
    some [⟨128, 13⟩] := by decide +kernel
  have hbytes : ((heapRun demoRange demoMemory []).bind fun s => (mem_alloc (2 ^ 64 - 1) s.heap).map
    fun x => (x.1, x.2.segments .userMemoryHead)) = some (192, [⟨128, 1⟩]) := by decide +kernel
  have hblocks : ((heapRun demoRange demoMemory []).bind fun s =>
    (handleMemAlloc (2 ^ 64 - 1) s.heap).map fun x => (x.1, x.2.segments .userMemoryHead)) =
      some (192, [⟨128, 0⟩]) := by decide +kernel
  rw [hs] at hfree hbytes hblocks
  have hne : s.heap.segments .freeMemoryHead ≠ [] := fun he => by
    rw [Option.map_some, he] at hfree
    cases hfree
  refine ⟨s, hs, hbytes, hblocks, fun hgrant => ?_,
    hsound.wrapped_not_grants (o := .user) hne⟩
  rcases (hsound.grants_bytes (o := .user) (by decide)).mp hgrant with hlt | he
  · exact absurd hlt (by decide)
  · exact hne he

end Os1Kernel
