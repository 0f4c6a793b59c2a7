/-
# Doubly linked lists threaded through their elements

Every element has a link to the element behind it and one to the element before it.

* `Seg next prev b xs e`: the elements `xs` are linked to each other, the first one back to `b` and
  the last one on to `e`;
* `IsList next prev head xs`: a whole list, from its head pointer to null at both ends.

All changes of such a list are seams: the link of the last element before a place, and the back
link of the first element behind it, are set anew (`Seg.reseam`); erasing, inserting and replacing
an element are instances.
-/
import Os1Kernel.Lib.Chain

namespace DoublyLinked

variable {α : Type*}

/-! ## 1. Segments and lists -/

def Seg (next prev : α → Option α) : Option α → List α → Option α → Prop
  | _, [], _ => True
  | b, x :: xs, e => prev x = b ∧ next x = xs.head?.or e ∧ Seg next prev (some x) xs e

structure IsList (next prev : α → Option α) (head : Option α) (xs : List α) : Prop where
  head : head = xs.head?
  links : Seg next prev none xs none

variable {next prev next' prev' : α → Option α} {b e b' e' head : Option α} {x y : α}
  {xs ys : List α}

theorem Seg.congr (h : ∀ x ∈ xs, next x = next' x ∧ prev x = prev' x)
    (hs : Seg next prev b xs e) : Seg next' prev' b xs e := by
  induction xs generalizing b with
  | nil => trivial
  | cons x xs ih =>
    obtain ⟨hp, hn, hs⟩ := hs
    obtain ⟨h₁, h₂⟩ := h x List.mem_cons_self
    exact ⟨h₂ ▸ hp, h₁ ▸ hn, ih (fun y hy => h y (List.mem_cons_of_mem _ hy)) hs⟩

theorem seg_append : Seg next prev b (xs ++ ys) e ↔
    Seg next prev b xs (ys.head?.or e) ∧ Seg next prev (xs.getLast?.or b) ys e := by
  induction xs generalizing b with
  | nil => simp [Seg]
  | cons x xs ih =>
    have hlast : (x :: xs).getLast?.or b = xs.getLast?.or (some x) := by
      rw [List.getLast?_cons]
      cases xs.getLast? <;> rfl
    simp only [List.cons_append, Seg, ih, hlast, List.head?_append, Option.or_assoc, and_assoc]

/-- The links on are those of a chain. -/
theorem Seg.chain (h : Seg next prev b xs none) : Linked.Chain next xs.head? xs := by
  induction xs generalizing b with
  | nil => rfl
  | cons x xs ih =>
    obtain ⟨-, hn, hs⟩ := h
    refine ⟨rfl, ?_⟩
    rw [hn, Option.or_none]
    exact ih hs

theorem IsList.chain (h : IsList next prev head xs) : Linked.Chain next head xs :=
  h.head ▸ h.links.chain

/-- A list has no element twice. -/
theorem IsList.nodup (h : IsList next prev head xs) : xs.Nodup := h.chain.nodup

/-- The neighbours of an element. -/
theorem IsList.neighbours (h : IsList next prev head (xs ++ x :: ys)) :
    prev x = xs.getLast? ∧ next x = ys.head? := by
  obtain ⟨-, hp, hn, -⟩ := seg_append.mp h.links
  exact ⟨by rwa [Option.or_none] at hp, by rwa [Option.or_none] at hn⟩

theorem IsList.head_eq_some (h : IsList next prev head (xs ++ x :: ys)) :
    head = some x ↔ xs = [] := by
  rw [h.head]
  cases xs with
  | nil => simp
  | cons y xs =>
    have hyx : y ≠ x := by
      rintro rfl
      exact (List.nodup_cons.mp h.nodup).1 (List.mem_append_right _ List.mem_cons_self)
    simp [hyx]

theorem IsList.congr (h : IsList next prev head xs)
    (hn : ∀ x ∈ xs, next x = next' x ∧ prev x = prev' x) : IsList next' prev' head xs :=
  ⟨h.head, h.links.congr hn⟩

/-- The head pointer when a list gets a new second part. -/
theorem IsList.head_eq (h : IsList next prev head (xs ++ ys)) (zs : List α) :
    (if xs = [] then zs.head? else head) = (xs ++ zs).head? := by
  cases xs with
  | nil => rfl
  | cons x xs => exact h.head

/-! ## 2. Seams -/

section Update

variable [DecidableEq α]

/-- Set the link of an element, if there is one. -/
def setAt (f : α → Option α) : Option α → Option α → α → Option α
  | none, _ => f
  | some x, v => Function.update f x v

@[simp] theorem setAt_none (f : α → Option α) (v : Option α) : setAt f none v = f := rfl

@[simp] theorem setAt_some (f : α → Option α) (v : Option α) :
    setAt f (some x) v = Function.update f x v := rfl

theorem setAt_of_ne {f : α → Option α} {p v : Option α} (h : p ≠ some x) : setAt f p v x = f x := by
  cases p with
  | none => rfl
  | some y => exact Function.update_of_ne (fun e => h (congrArg some e.symm)) _ _

/-- An element outside the list is written. -/
theorem IsList.update {v w : Option α} (h : IsList next prev head xs) (hx : x ∉ xs) :
    IsList (Function.update next x v) (Function.update prev x w) head xs := by
  refine h.congr fun y hy => ?_
  have hne : y ≠ x := fun he => hx (he ▸ hy)
  exact ⟨(Function.update_of_ne hne _ _).symm, (Function.update_of_ne hne _ _).symm⟩

theorem Seg.setNext (hnd : xs.Nodup) (h : Seg next prev b xs e) :
    Seg (setAt next xs.getLast? e') prev b xs e' := by
  rcases List.eq_nil_or_concat xs with rfl | ⟨ys, y, rfl⟩
  · trivial
  simp only [List.concat_eq_append, List.getLast?_append, List.getLast?_singleton, Option.some_or]
    at hnd h ⊢
  have hy : y ∉ ys := by
    rw [List.nodup_append] at hnd
    grind
  obtain ⟨hs, hp, -, -⟩ := seg_append.mp h
  refine seg_append.mpr ⟨hs.congr fun x hx => ⟨?_, rfl⟩, hp, ?_, trivial⟩
  · exact (Function.update_of_ne (fun he : x = y => hy (he ▸ hx)) _ _).symm
  · exact Function.update_self ..

theorem Seg.setPrev (hnd : xs.Nodup) (h : Seg next prev b xs e) :
    Seg next (setAt prev xs.head? b') b' xs e := by
  cases xs with
  | nil => trivial
  | cons x xs =>
    obtain ⟨-, hn, hs⟩ := h
    refine ⟨Function.update_self .., hn, hs.congr fun y hy => ⟨rfl, ?_⟩⟩
    have hne : y ≠ x := fun he => (List.nodup_cons.mp hnd).1 (he ▸ hy)
    exact (Function.update_of_ne hne _ _).symm

/-- **The two links at a seam are set anew.** -/
theorem Seg.reseam (hxs : Seg next prev b xs e) (hys : Seg next prev b' ys e')
    (hnd : (xs ++ ys).Nodup) (p q : Option α) :
    Seg (setAt next xs.getLast? p) (setAt prev ys.head? q) b xs p ∧
      Seg (setAt next xs.getLast? p) (setAt prev ys.head? q) q ys e' := by
  obtain ⟨hx, hy, hne⟩ := List.nodup_append.mp hnd
  constructor
  · refine (hxs.setNext hx).congr fun x hm => ⟨rfl, (setAt_of_ne fun he => ?_).symm⟩
    exact hne x hm x (List.mem_of_mem_head? he) rfl
  · refine (hys.setPrev hy).congr fun x hm => ⟨(setAt_of_ne fun he => ?_).symm, rfl⟩
    exact hne x (List.mem_of_mem_getLast? he) x hm rfl

/-- An element is taken out. -/
theorem IsList.erase (h : IsList next prev head (xs ++ x :: ys)) :
    IsList (setAt next xs.getLast? ys.head?) (setAt prev ys.head? xs.getLast?)
      (if xs = [] then ys.head? else head) (xs ++ ys) := by
  have hnd : (xs ++ ys).Nodup :=
    h.nodup.sublist ((List.Sublist.refl xs).append (List.sublist_cons_self x ys))
  obtain ⟨hxs, -, -, hys⟩ := seg_append.mp h.links
  obtain ⟨hxs', hys'⟩ := hxs.reseam hys hnd ys.head? xs.getLast?
  refine ⟨h.head_eq ys, seg_append.mpr ⟨?_, ?_⟩⟩
  · rwa [Option.or_none]
  · rwa [Option.or_none]

/-- An element is put between two parts; it gets its links before its neighbours get theirs. -/
theorem Seg.insert (hxs : Seg next prev none xs e) (hys : Seg next prev b ys none)
    (hnd : (xs ++ ys).Nodup) (hx : x ∉ xs ++ ys) :
    Seg (setAt (Function.update next x ys.head?) xs.getLast? (some x))
      (setAt (Function.update prev x xs.getLast?) ys.head? (some x)) none (xs ++ x :: ys) none := by
  rw [List.mem_append, not_or] at hx
  have hne : ∀ {zs : List α}, x ∉ zs → ∀ y ∈ zs, y ≠ x := fun hz y hy he => hz (he ▸ hy)
  have hkeep : ∀ {zs : List α}, x ∉ zs → ∀ y ∈ zs, next y = Function.update next x ys.head? y ∧
      prev y = Function.update prev x xs.getLast? y := fun hz y hy =>
    ⟨(Function.update_of_ne (hne hz y hy) _ _).symm, (Function.update_of_ne (hne hz y hy) _ _).symm⟩
  obtain ⟨hxs', hys'⟩ :=
    (hxs.congr (hkeep hx.1)).reseam (hys.congr (hkeep hx.2)) hnd (some x) (some x)
  refine seg_append.mpr ⟨hxs', ?_, ?_, hys'⟩
  · rw [setAt_of_ne fun he => hx.2 (List.mem_of_mem_head? he), Function.update_self, Option.or_none]
  · rw [setAt_of_ne fun he => hx.1 (List.mem_of_mem_getLast? he), Function.update_self,
      Option.or_none]

/-- A new element is put behind `xs`. -/
theorem IsList.insert (h : IsList next prev head (xs ++ ys)) (hx : x ∉ xs ++ ys) :
    IsList (setAt (Function.update next x ys.head?) xs.getLast? (some x))
      (setAt (Function.update prev x xs.getLast?) ys.head? (some x))
      (if xs = [] then some x else head) (xs ++ x :: ys) := by
  obtain ⟨hxs, hys⟩ := seg_append.mp h.links
  exact ⟨h.head_eq (x :: ys), hxs.insert hys h.nodup hx⟩

/-- A new element takes the place of another one. -/
theorem IsList.replace (h : IsList next prev head (xs ++ y :: ys)) (hx : x ∉ xs ++ y :: ys) :
    IsList (setAt (Function.update next x ys.head?) xs.getLast? (some x))
      (setAt (Function.update prev x xs.getLast?) ys.head? (some x))
      (if xs = [] then some x else head) (xs ++ x :: ys) := by
  have hsub : (xs ++ ys).Sublist (xs ++ y :: ys) :=
    (List.Sublist.refl xs).append (List.sublist_cons_self y ys)
  obtain ⟨hxs, -, -, hys⟩ := seg_append.mp h.links
  exact ⟨h.head_eq (x :: ys), hxs.insert hys (h.nodup.sublist hsub) fun hm => hx (hsub.mem hm)⟩

end Update

end DoublyLinked
