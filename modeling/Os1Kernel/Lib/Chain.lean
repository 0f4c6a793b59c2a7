/-
# Singly linked chains threaded through their elements

A list whose links live INSIDE its elements (one `next` field per element, a head pointer and
sometimes a tail pointer beside them) denotes a finite sequence when the links, followed from
the head, reach the null pointer.  This file relates the two, for any element type:

* `Seg next p xs q`: following `next` from the pointer `p` passes exactly `xs` and ends at `q`;
* `Chain next p xs`: the same, ending at null.  A chain is acyclic: `Chain.nodup`;
* `IsQueue next head tail xs`: a chain from `head` whose last element is `tail`.

The lemmas say what the usual pointer updates (append at the tail, take the head, unlink from
the middle, insert after an element) do to the sequence, and that a traversal with enough fuel
(`walk`, `search`) reads the sequence back.
-/
import Mathlib.Data.List.Basic
import Mathlib.Data.List.Nodup
import Mathlib.Logic.Function.Basic

namespace Linked

variable {α : Type*}

/-! ## 1. Segments and chains -/

/-- Following `next` from `p` passes the elements `xs`, in order, and arrives at `q`. -/
def Seg (next : α → Option α) : Option α → List α → Option α → Prop
  | p, [], q => p = q
  | p, x :: xs, q => p = some x ∧ Seg next (next x) xs q

/-- A chain is a segment that ends at the null pointer. -/
def Chain (next : α → Option α) (p : Option α) (xs : List α) : Prop := Seg next p xs none

variable {next next' : α → Option α} {p q : Option α} {x y : α} {xs ys : List α}

@[simp] theorem seg_nil : Seg next p [] q ↔ p = q := Iff.rfl

@[simp] theorem seg_cons : Seg next p (x :: xs) q ↔ p = some x ∧ Seg next (next x) xs q := Iff.rfl

@[simp] theorem chain_nil : Chain next p [] ↔ p = none := Iff.rfl

@[simp] theorem chain_cons :
    Chain next p (x :: xs) ↔ p = some x ∧ Chain next (next x) xs := Iff.rfl

/-- Only the links of the elements passed matter. -/
theorem Seg.congr (h : ∀ x ∈ xs, next x = next' x) (hs : Seg next p xs q) :
    Seg next' p xs q := by
  induction xs generalizing p with
  | nil => exact hs
  | cons x xs ih =>
    obtain ⟨hp, hs⟩ := hs
    refine ⟨hp, ih (fun y hy => h y (List.mem_cons_of_mem _ hy)) ?_⟩
    rw [← h x List.mem_cons_self]
    exact hs

theorem seg_append :
    Seg next p (xs ++ ys) q ↔ ∃ r, Seg next p xs r ∧ Seg next r ys q := by
  induction xs generalizing p with
  | nil => simp
  | cons x xs ih => simp only [List.cons_append, seg_cons, ih]; grind

/-- Two chains from one pointer are the same sequence. -/
theorem Chain.unique (hx : Chain next p xs) (hy : Chain next p ys) : xs = ys := by
  induction xs generalizing p ys with
  | nil =>
    cases ys with
    | nil => rfl
    | cons y ys => simp_all
  | cons x xs ih =>
    cases ys with
    | nil => simp_all
    | cons y ys =>
      obtain ⟨rfl, hx⟩ := hx
      obtain ⟨hxy, hy⟩ := hy
      obtain rfl := Option.some.inj hxy
      rw [ih hx hy]

theorem Chain.head (h : Chain next p xs) : p = xs.head? := by
  cases xs with
  | nil => exact h
  | cons x xs => exact h.1

/-- The chain from the successor of a member is the part of the sequence behind it. -/
theorem Chain.after (h : Chain next p (xs ++ x :: ys)) : Chain next (next x) ys := by
  obtain ⟨r, -, -, hr⟩ := seg_append.mp h
  exact hr

/-- **A chain is acyclic.**  A repeated element would have two different numbers of elements
behind it. -/
theorem Chain.nodup (h : Chain next p xs) : xs.Nodup := by
  induction xs generalizing p with
  | nil => exact List.nodup_nil
  | cons x xs ih =>
    refine List.nodup_cons.mpr ⟨fun hx => ?_, ih h.2⟩
    obtain ⟨pre, post, rfl⟩ := List.append_of_mem hx
    have hlong : Chain next (next x) (pre ++ x :: post) := h.2
    have hsame := congrArg List.length (hlong.unique hlong.after)
    simp only [List.length_append, List.length_cons] at hsame
    omega

/-! ## 2. Queues with a tail pointer -/

/-- A chain from `head` with `tail` at its last element, null when it is empty. -/
structure IsQueue (next : α → Option α) (head tail : Option α) (xs : List α) : Prop where
  chain : Chain next head xs
  last : tail = xs.getLast?

theorem IsQueue.nodup {head tail : Option α} (h : IsQueue next head tail xs) : xs.Nodup :=
  h.chain.nodup

theorem isQueue_empty : IsQueue next none none [] := ⟨rfl, rfl⟩

theorem IsQueue.congr {head tail : Option α} (h : IsQueue next head tail xs)
    (hn : ∀ x ∈ xs, next x = next' x) : IsQueue next' head tail xs :=
  ⟨Seg.congr hn h.chain, h.last⟩

/-- The tail pointer is null exactly when the head is. -/
theorem IsQueue.tail_eq_none {head tail : Option α} (h : IsQueue next head tail xs) :
    tail = none ↔ xs = [] := by
  rw [h.last, List.getLast?_eq_none_iff]

/-- Taking the head element off. -/
theorem IsQueue.pop {head tail : Option α} (h : IsQueue next head tail (x :: xs)) :
    IsQueue next (next x) (if next x = none then none else tail) xs := by
  refine ⟨h.chain.2, ?_⟩
  cases xs with
  | nil => simp [show next x = none from h.chain.2]
  | cons y ys => simp [show next x = some y from h.chain.2.1, h.last]

section Update

variable [DecidableEq α] {v : Option α}

theorem Seg.update (hx : x ∉ xs) (h : Seg next p xs q) :
    Seg (Function.update next x v) p xs q := by
  refine h.congr fun y hy => ?_
  have hyx : y ≠ x := fun e => hx (e ▸ hy)
  rw [Function.update_of_ne hyx]

theorem Chain.update (hx : x ∉ xs) (h : Chain next p xs) :
    Chain (Function.update next x v) p xs :=
  Seg.update hx h

theorem IsQueue.update {head tail : Option α} (hx : x ∉ xs) (h : IsQueue next head tail xs) :
    IsQueue (Function.update next x v) head tail xs :=
  ⟨h.chain.update hx, h.last⟩

/-- Appending to an empty queue. -/
theorem isQueue_singleton :
    IsQueue (Function.update next x none) (some x) (some x) [x] := by
  refine ⟨⟨rfl, ?_⟩, rfl⟩
  simp

/-- Appending behind the last element: its link is set to the new one, whose link is null. -/
theorem IsQueue.push {head : Option α} (h : IsQueue next head (some y) xs) (hx : x ∉ xs) :
    IsQueue (Function.update (Function.update next x none) y (some x)) head (some x)
      (xs ++ [x]) := by
  obtain ⟨ys, rfl⟩ : ∃ ys, xs = ys ++ [y] := List.getLast?_eq_some_iff.mp h.last.symm
  have hy : y ∉ ys := by
    have := h.nodup
    rw [List.nodup_append] at this
    grind
  have hxy : x ≠ y := by grind
  refine ⟨?_, by simp⟩
  obtain ⟨r, hys, hr⟩ := seg_append.mp h.chain
  refine seg_append.mpr ⟨some x, seg_append.mpr ⟨r, ?_, hr.1, ?_⟩, rfl, ?_⟩
  · exact Seg.update hy (Seg.update (by grind) hys)
  · simp
  · simp [Function.update_of_ne hxy]

/-- Unlinking a member that has a predecessor `y`: the predecessor skips it. -/
theorem Seg.unlink (hy : y ∉ ys ++ xs) (h : Seg next p (ys ++ y :: x :: xs) q) :
    Seg (Function.update next y (next x)) p (ys ++ y :: xs) q := by
  obtain ⟨r, hys, hr, -, hxs⟩ := seg_append.mp h
  simp only [List.mem_append, not_or] at hy
  refine seg_append.mpr ⟨r, hys.update hy.1, hr, ?_⟩
  rw [Function.update_self]
  exact Seg.update hy.2 hxs

/-- The same for a queue; the tail moves back when the last element leaves. -/
theorem IsQueue.unlink {head tail : Option α}
    (h : IsQueue next head tail (ys ++ y :: x :: xs)) :
    IsQueue (Function.update next y (next x)) head
      (if some x = tail then some y else tail) (ys ++ y :: xs) := by
  have hnd := h.nodup
  have hy : y ∉ ys ++ xs := by
    rw [List.nodup_append] at hnd
    grind
  refine ⟨Seg.unlink hy h.chain, ?_⟩
  have hlast := h.last
  cases hxs : xs with
  | nil => simp [hlast, hxs]
  | cons z zs =>
    have hmem : (z :: zs).getLast (List.cons_ne_nil z zs) ∈ z :: zs := List.getLast_mem _
    have hne : x ≠ (z :: zs).getLast (List.cons_ne_nil z zs) := by
      intro he
      rw [hxs, List.nodup_append] at hnd
      grind
    have ht : tail = some ((z :: zs).getLast (List.cons_ne_nil z zs)) := by
      rw [hlast, hxs, List.getLast?_append]
      simp [List.getLast?_eq_some_getLast]
    rw [if_neg (by simpa [ht] using hne), ht, List.getLast?_append]
    simp [List.getLast?_eq_some_getLast]

/-- Unlinking any member: its predecessor skips it, or the head pointer does. -/
theorem Chain.erase (h : Chain next p (ys ++ x :: xs)) :
    Chain (match ys.getLast? with
      | some y => Function.update next y (next x)
      | none => next) (if ys = [] then next x else p) (ys ++ xs) := by
  rcases List.eq_nil_or_concat ys with rfl | ⟨ys, y, rfl⟩
  · exact h.2
  · simp only [List.concat_eq_append, List.append_assoc, List.cons_append, List.nil_append,
      List.getLast?_append, List.getLast?_singleton, Option.some_or, List.append_eq_nil_iff,
      List.cons_ne_nil, and_false, if_false] at h ⊢
    have hnd := h.nodup
    rw [List.nodup_append] at hnd
    refine Seg.unlink ?_ h
    grind

/-- Inserting `x` right behind the member `y`. -/
theorem Chain.insertAfter (h : Chain next p (ys ++ y :: xs)) (hx : x ∉ ys ++ y :: xs) :
    Chain (Function.update (Function.update next x (next y)) y (some x)) p
      (ys ++ y :: x :: xs) := by
  have hnd := h.nodup
  have hy : y ∉ ys ++ xs := by
    rw [List.nodup_append] at hnd
    grind
  simp only [List.mem_append, List.mem_cons, not_or] at hx hy
  obtain ⟨r, hys, hr, hxs⟩ := seg_append.mp h
  refine seg_append.mpr ⟨r, (hys.update hx.1).update hy.1, hr, ?_, ?_⟩
  · simp
  · rw [Function.update_of_ne (by grind), Function.update_self]
    exact Seg.update hy.2 (Seg.update hx.2.2 hxs)

/-- Putting `x` in front of the head. -/
theorem Chain.cons (h : Chain next p xs) (hx : x ∉ xs) :
    Chain (Function.update next x p) (some x) (x :: xs) := by
  refine ⟨rfl, ?_⟩
  rw [Function.update_self]
  exact h.update hx

end Update

/-! ## 3. Reading a chain back -/

/-- The elements met in at most `fuel` steps from a pointer. -/
def walk (next : α → Option α) : Nat → Option α → List α
  | 0, _ => []
  | _ + 1, none => []
  | fuel + 1, some x => x :: walk next fuel (next x)

theorem Chain.walk_eq {fuel : Nat} (h : Chain next p xs) (hf : xs.length ≤ fuel) :
    walk next fuel p = xs := by
  induction xs generalizing p fuel with
  | nil =>
    obtain rfl : p = none := h
    cases fuel <;> rfl
  | cons x xs ih =>
    obtain ⟨rfl, h⟩ := h
    cases fuel with
    | zero => simp at hf
    | succ fuel => simp [walk, ih h (by simpa using hf)]

/-- The loop `while (curr && curr != x) prev = curr, curr = curr->next`: the pair `prev`,
`curr` it ends with, or `none` when it is still running after `fuel` iterations. -/
def search [DecidableEq α] (next : α → Option α) (x : α) :
    Nat → Option α → Option α → Option (Option α × Option α)
  | 0, _, _ => none
  | _ + 1, prev, none => some (prev, none)
  | fuel + 1, prev, some y =>
    if y = x then some (prev, some y) else search next x fuel (some y) (next y)

/-- On a chain that contains `x` the search stops at `x`, with the element before it. -/
theorem Chain.search_eq [DecidableEq α] {fuel : Nat} {prev : Option α}
    (h : Chain next p (ys ++ x :: xs)) (hx : x ∉ ys) (hf : ys.length < fuel) :
    search next x fuel prev p = some (ys.getLast?.or prev, some x) := by
  induction ys generalizing p prev fuel with
  | nil =>
    obtain ⟨rfl, -⟩ := h
    cases fuel with
    | zero => simp at hf
    | succ fuel => simp [search]
  | cons y ys ih =>
    obtain ⟨rfl, h⟩ := h
    cases fuel with
    | zero => simp at hf
    | succ fuel =>
      have hyx : y ≠ x := fun e => hx (e ▸ List.mem_cons_self)
      rw [search, if_neg hyx, ih h (fun hm => hx (List.mem_cons_of_mem _ hm)) (by simpa using hf)]
      cases hl : ys.getLast? <;> simp [List.getLast?_cons, hl]

end Linked
