/-
# Delta lists

A delta list stores a sorted sequence of deadlines by their differences: the first element holds
its own deadline, every later one its distance from the one before.  `Deltas rel base l` says that
the differences `rel` denote the deadlines paired with the elements of `l`, counted from `base`.

Counting one time unit down touches the first difference only (`Deltas.tick`), removing an element
adds its difference to its successor's (`Deltas.remove`), inserting one splits the successor's
(`Deltas.insert`).  The sequence itself is kept by `List.orderedInsert` under the strict order of
the deadlines, so an element goes behind those with its own deadline.
-/
import Mathlib.Algebra.GroupWithZero.Nat
import Mathlib.Data.List.Basic
import Mathlib.Data.List.Sort
import Mathlib.Data.List.Pairwise
import Mathlib.Logic.Function.Basic

namespace DeltaList

variable {α : Type*}

/-! ## 1. Differences and deadlines -/

/-- Each difference leads from the deadline before (from `base`, at the head) to its own. -/
def Deltas (rel : α → Nat) : Nat → List (α × Nat) → Prop
  | _, [] => True
  | base, (x, d) :: l => base + rel x = d ∧ Deltas rel d l

variable {rel rel' : α → Nat} {base d e : Nat} {x y : α} {l pre post : List (α × Nat)}

@[simp] theorem deltas_nil : Deltas rel base [] := trivial

@[simp] theorem deltas_cons : Deltas rel base ((x, d) :: l) ↔ base + rel x = d ∧ Deltas rel d l :=
  Iff.rfl

theorem Deltas.congr (h : ∀ p ∈ l, rel p.1 = rel' p.1) (hd : Deltas rel base l) :
    Deltas rel' base l := by
  induction l generalizing base with
  | nil => exact trivial
  | cons p l ih =>
    obtain ⟨hp, hd⟩ := hd
    refine ⟨?_, ih (fun q hq => h q (List.mem_cons_of_mem _ hq)) hd⟩
    rw [← h p List.mem_cons_self]
    exact hp

theorem deltas_append_cons :
    Deltas rel base (pre ++ (x, d) :: post) ↔
      Deltas rel base (pre ++ [(x, d)]) ∧ Deltas rel d post := by
  induction pre generalizing base with
  | nil => simp
  | cons p pre ih =>
    obtain ⟨z, f⟩ := p
    simp only [List.cons_append, deltas_cons, ih, and_assoc]

/-- **The sum of the differences up to an element is its deadline.** -/
theorem Deltas.sum_eq (h : Deltas rel base (pre ++ (x, d) :: post)) :
    base + (pre.map fun p => rel p.1).sum + rel x = d := by
  induction pre generalizing base with
  | nil => simpa using h.1
  | cons p pre ih =>
    obtain ⟨hp, h⟩ := h
    have := ih h
    simp only [List.map_cons, List.sum_cons]
    omega

/-! ## 2. Counting down -/

theorem Deltas.shift (h : Deltas rel (base + 1) l) :
    Deltas rel base (l.map fun p => (p.1, p.2 - 1)) := by
  induction l generalizing base with
  | nil => exact trivial
  | cons p l ih =>
    obtain ⟨hp, h⟩ := h
    refine ⟨?_, ih ?_⟩
    · omega
    · rwa [show p.2 - 1 + 1 = p.2 by omega]

section Update

variable [DecidableEq α]

theorem Deltas.update {v : Nat} (hx : x ∉ l.map Prod.fst) (h : Deltas rel base l) :
    Deltas (Function.update rel x v) base l := by
  refine h.congr fun p hp => ?_
  have hpx : p.1 ≠ x := fun e => hx (e ▸ List.mem_map_of_mem hp)
  rw [Function.update_of_ne hpx]

/-- One time unit passes: the first difference goes down by one, every deadline does. -/
theorem Deltas.tick (h : Deltas rel 0 ((x, d) :: l)) (hx : x ∉ l.map Prod.fst) (hd : 0 < d) :
    Deltas (Function.update rel x (rel x - 1)) 0 (((x, d) :: l).map fun p => (p.1, p.2 - 1)) := by
  obtain ⟨hd', h⟩ := h
  have hl : Deltas rel (d - 1) (l.map fun p => (p.1, p.2 - 1)) := by
    apply Deltas.shift
    rwa [Nat.sub_add_cancel hd]
  refine ⟨?_, hl.update ?_⟩
  · rw [Function.update_self]
    omega
  · rw [List.map_map]
    exact hx

/-! ## 3. Removal and insertion -/

/-- Removing an element that has a successor: the successor takes over its difference. -/
theorem Deltas.remove (h : Deltas rel base (pre ++ (x, d) :: (y, e) :: post))
    (hnd : ((pre ++ (x, d) :: (y, e) :: post).map Prod.fst).Nodup) :
    Deltas (Function.update rel y (rel y + rel x)) base (pre ++ (y, e) :: post) := by
  induction pre generalizing base with
  | nil =>
    obtain ⟨hx, hy, h⟩ := h
    simp only [List.nil_append, List.map_cons, List.nodup_cons] at hnd
    refine ⟨?_, h.update hnd.2.1⟩
    rw [Function.update_self]
    omega
  | cons p pre ih =>
    obtain ⟨hp, h⟩ := h
    simp only [List.cons_append, List.map_cons, List.nodup_cons] at hnd
    refine ⟨?_, ih h hnd.2⟩
    have hpy : p.1 ≠ y := by
      rintro rfl
      exact hnd.1 (by simp)
    rw [Function.update_of_ne hpy]
    exact hp

/-- Inserting in front of an element, which keeps the rest of its difference. -/
theorem Deltas.insertHead {v n : Nat} (h : Deltas rel base ((y, e) :: post))
    (hx : x ∉ ((y, e) :: post).map Prod.fst) (hy : y ∉ post.map Prod.fst)
    (hv : base + v = n) (hn : n ≤ e) :
    Deltas (Function.update (Function.update rel y (rel y - v)) x v) base
      ((x, n) :: (y, e) :: post) := by
  obtain ⟨hye, h⟩ := h
  simp only [List.map_cons, List.mem_cons, not_or] at hx
  refine ⟨by simpa using hv, ?_, (h.update hy).update hx.2⟩
  rw [Function.update_of_ne (Ne.symm hx.1), Function.update_self]
  omega

/-- Inserting between an element and its successor. -/
theorem Deltas.insert {v n : Nat} {z : α} {f : Nat}
    (h : Deltas rel base (pre ++ (z, f) :: (y, e) :: post))
    (hx : x ∉ (pre ++ (z, f) :: (y, e) :: post).map Prod.fst)
    (hnd : ((pre ++ (z, f) :: (y, e) :: post).map Prod.fst).Nodup)
    (hv : f + v = n) (hn : n ≤ e) :
    Deltas (Function.update (Function.update rel y (rel y - v)) x v) base
      (pre ++ (z, f) :: (x, n) :: (y, e) :: post) := by
  obtain ⟨hpre, hpost⟩ := deltas_append_cons.mp h
  have hy : y ∉ (pre ++ [(z, f)]).map Prod.fst ∧ y ∉ post.map Prod.fst := by
    simp only [List.map_append, List.map_cons, List.nodup_append] at hnd
    grind
  have hxpre : x ∉ (pre ++ [(z, f)]).map Prod.fst ∧ x ∉ ((y, e) :: post).map Prod.fst := by
    simp only [List.map_append, List.map_cons, List.mem_append, List.mem_cons] at hx ⊢
    grind
  refine deltas_append_cons.mpr ⟨?_, ?_⟩
  · exact (hpre.update hy.1).update hxpre.1
  · exact hpost.insertHead hxpre.2 hy.2 hv hn

/-- Inserting at the end. -/
theorem Deltas.insertLast {v n : Nat} {z : α} {f : Nat} (h : Deltas rel base (pre ++ [(z, f)]))
    (hx : x ∉ (pre ++ [(z, f)]).map Prod.fst) (hv : f + v = n) :
    Deltas (Function.update rel x v) base (pre ++ [(z, f), (x, n)]) := by
  refine deltas_append_cons.mpr ⟨h.update hx, ?_, trivial⟩
  rw [Function.update_self]
  exact hv

end Update

/-- Removing the last element. -/
theorem Deltas.removeLast (h : Deltas rel base (pre ++ [(x, d)])) : Deltas rel base pre := by
  induction pre generalizing base with
  | nil => exact trivial
  | cons p pre ih => exact ⟨h.1, ih h.2⟩

/-- Removing any element. -/
theorem Deltas.erase [DecidableEq α] (h : Deltas rel base (pre ++ (x, d) :: post))
    (hnd : ((pre ++ (x, d) :: post).map Prod.fst).Nodup) :
    Deltas (match post.head? with
      | some q => Function.update rel q.1 (rel q.1 + rel x)
      | none => rel) base (pre ++ post) := by
  cases post with
  | nil =>
    rw [List.append_nil]
    exact h.removeLast
  | cons q post => exact h.remove hnd

/-! ## 4. Where an element is inserted -/

/-- Insertion behind every element whose deadline is not later. -/
def insertBy (x : α) (n : Nat) (l : List (α × Nat)) : List (α × Nat) :=
  l.orderedInsert (fun p q => p.2 < q.2) (x, n)

variable {n : Nat} {q : α × Nat}

theorem mem_insertBy : q ∈ insertBy x n l ↔ q = (x, n) ∨ q ∈ l := List.mem_orderedInsert _

theorem insertBy_perm : (insertBy x n l).Perm ((x, n) :: l) := List.perm_orderedInsert _ _ _

/-- The new element goes behind all that are not later, and in front of all that are. -/
theorem insertBy_pairwise {R : α × Nat → α × Nat → Prop} (hs : l.Pairwise fun p q => p.2 ≤ q.2)
    (h : l.Pairwise R) (hbehind : ∀ p ∈ l, p.2 ≤ n → R p (x, n))
    (hbefore : ∀ p ∈ l, n < p.2 → R (x, n) p) : (insertBy x n l).Pairwise R := by
  induction l with
  | nil => simp [insertBy]
  | cons p l ih =>
    obtain ⟨hle, hs⟩ := List.pairwise_cons.mp hs
    obtain ⟨hp, hl⟩ := List.pairwise_cons.mp h
    rw [insertBy, List.orderedInsert]
    split
    · next hlt =>
      have hlt' : n < p.2 := hlt
      refine List.pairwise_cons.mpr ⟨fun q hq => hbefore q hq ?_, h⟩
      rcases List.mem_cons.mp hq with rfl | hq
      · exact hlt'
      · exact hlt'.trans_le (hle q hq)
    · next hlt =>
      rw [List.forall_mem_cons] at hbehind hbefore
      refine List.pairwise_cons.mpr ⟨fun q hq => ?_, ih hs hl hbehind.2 hbefore.2⟩
      rcases mem_insertBy.mp hq with rfl | hq
      · exact hbehind.1 (Nat.not_lt.mp hlt)
      · exact hp q hq

theorem insertBy_sorted (h : l.Pairwise fun p q => p.2 ≤ q.2) :
    (insertBy x n l).Pairwise fun p q => p.2 ≤ q.2 :=
  insertBy_pairwise h h (fun _ _ => id) fun _ _ => le_of_lt

/-- The place found by stepping over the elements that are not later. -/
theorem insertBy_append (hpre : ∀ p ∈ pre, p.2 ≤ n) (hpost : ∀ p ∈ post.head?, n < p.2) :
    insertBy x n (pre ++ post) = pre ++ (x, n) :: post := by
  induction pre with
  | nil =>
    cases post with
    | nil => rfl
    | cons p post => exact if_pos (hpost p rfl)
  | cons p pre ih =>
    have hp : ¬ n < p.2 := Nat.not_lt.mpr (hpre p List.mem_cons_self)
    have := ih fun q hq => hpre q (List.mem_cons_of_mem _ hq)
    rw [insertBy] at this ⊢
    rw [List.cons_append, List.orderedInsert, if_neg hp, this, List.cons_append]

end DeltaList
