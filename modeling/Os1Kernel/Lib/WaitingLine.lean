/-
# A line of waiters

Somebody joins the line at its end, the first is served, and anybody may give up and leave from
where he stands; who need not wait passes, and that only when nobody is waiting.  `run` is the line
behind such moves, and fails where a move is not one of these.  So nobody who waits is overtaken,
neither by one who joined later (`run_order`) nor by one who passes (`run_first`).

Behind both is `run_ahead`: as long as `x` stays in the line, whoever is ahead of `x` was ahead
before.  Nobody comes in between, because the only place to join is the end.
-/
import Mathlib.Data.List.Basic
import Mathlib.Data.List.Nodup

namespace WaitingLine

variable {α : Type*}

inductive Move (α : Type*)
  | join (x : α)
  | pass (x : α)
  | serve (x : α)
  | leave (x : α)

variable [DecidableEq α]

/-- The line behind the moves. -/
def run : List α → List (Move α) → Option (List α)
  | q, [] => some q
  | q, .join x :: l => if x ∈ q then none else run (q ++ [x]) l
  | q, .pass _ :: l => if q = [] then run q l else none
  | [], .serve _ :: _ => none
  | y :: q, .serve x :: l => if y = x then run q l else none
  | q, .leave x :: l => if x ∈ q then run (q.erase x) l else none

/-- Those who stand before `x`. -/
def ahead (x : α) (q : List α) : List α := q.takeWhile fun y => y ≠ x

variable {q q' : List α} {l l' : List (Move α)} {x y : α}

/-! ## 1. One more move -/

theorem run_append (q : List α) (l l' : List (Move α)) :
    run q (l ++ l') = (run q l).bind fun q' => run q' l' := by
  induction q, l using run.induct with
  | case1 q => rfl
  | case2 q x l h => rw [List.cons_append, run, run, if_pos h, if_pos h, Option.bind_none]
  | case3 q x l h ih => rw [List.cons_append, run, run, if_neg h, if_neg h, ih]
  | case4 x l ih => rw [List.cons_append, run, run, if_pos rfl, if_pos rfl, ih]
  | case5 q x l h => rw [List.cons_append, run, run, if_neg h, if_neg h, Option.bind_none]
  | case6 => rfl
  | case7 q x l ih => rw [List.cons_append, run, run, if_pos rfl, if_pos rfl, ih]
  | case8 y q x l h => rw [List.cons_append, run, run, if_neg h, if_neg h, Option.bind_none]
  | case9 q x l h ih => rw [List.cons_append, run, run, if_pos h, if_pos h, ih]
  | case10 q x l h => rw [List.cons_append, run, run, if_neg h, if_neg h, Option.bind_none]

theorem run_join (h : run [] l = some q) (hx : x ∉ q) :
    run [] (l ++ [.join x]) = some (q ++ [x]) := by
  rw [run_append, h, Option.bind_some, run, if_neg hx, run]

theorem run_pass (h : run [] l = some []) : run [] (l ++ [.pass x]) = some [] := by
  rw [run_append, h, Option.bind_some, run, if_pos rfl, run]

theorem run_serve (h : run [] l = some (x :: q)) : run [] (l ++ [.serve x]) = some q := by
  rw [run_append, h, Option.bind_some, run, if_pos rfl, run]

theorem run_leave (h : run [] l = some q) (hx : x ∈ q) :
    run [] (l ++ [.leave x]) = some (q.erase x) := by
  rw [run_append, h, Option.bind_some, run, if_pos hx, run]

/-! ## 2. Nobody is overtaken -/

@[simp] theorem ahead_self (q : List α) : ahead x (x :: q) = [] := by
  simp [ahead]

@[simp] theorem ahead_cons {z : α} (h : z ≠ x) (q : List α) :
    ahead x (z :: q) = z :: ahead x q := by
  simp [ahead, h]

theorem ahead_append (hx : x ∈ q) (q' : List α) : ahead x (q ++ q') = ahead x q := by
  induction q with
  | nil => cases hx
  | cons z q ih =>
    by_cases hz : z = x
    · rw [hz, List.cons_append, ahead_self, ahead_self]
    · rw [List.cons_append, ahead_cons hz, ahead_cons hz,
        ih ((List.mem_cons.mp hx).resolve_left (Ne.symm hz))]

theorem ahead_erase {z : α} (hz : z ≠ x) : ahead x (q.erase z) ⊆ ahead x q := by
  induction q with
  | nil => exact List.Subset.refl _
  | cons w q ih =>
    by_cases hw : w = z
    · subst hw
      rw [List.erase_cons_head, ahead_cons hz]
      exact List.subset_cons_self _ _
    · rw [List.erase_cons_tail (by simpa using hw)]
      by_cases hwx : w = x
      · rw [hwx, ahead_self, ahead_self]
        exact List.Subset.refl _
      · rw [ahead_cons hwx, ahead_cons hwx]
        exact List.cons_subset_cons w ih

/-- Who neither is served nor leaves stays in the line, and nobody comes to stand before him. -/
theorem run_ahead (h : run q l = some q') (hx : x ∈ q) (hserve : .serve x ∉ l)
    (hleave : .leave x ∉ l) : x ∈ q' ∧ ahead x q' ⊆ ahead x q := by
  induction q, l using run.induct with
  | case1 q => exact Option.some.inj h ▸ ⟨hx, List.Subset.refl _⟩
  | case2 q z l hz =>
    rw [run, if_pos hz] at h
    cases h
  | case3 q z l hz ih =>
    rw [run, if_neg hz] at h
    simp only [List.mem_cons, not_or] at hserve hleave
    rw [← ahead_append hx [z]]
    exact ih h (List.mem_append_left _ hx) hserve.2 hleave.2
  | case4 | case6 => cases hx
  | case5 q z l hq =>
    rw [run, if_neg hq] at h
    cases h
  | case7 q z l ih =>
    rw [run, if_pos rfl] at h
    simp only [List.mem_cons, Move.serve.injEq, not_or] at hserve hleave
    obtain ⟨hm, hsub⟩ := ih h ((List.mem_cons.mp hx).resolve_left hserve.1) hserve.2 hleave.2
    refine ⟨hm, List.Subset.trans hsub ?_⟩
    rw [ahead_cons (Ne.symm hserve.1)]
    exact List.subset_cons_self _ _
  | case8 w q z l hz =>
    rw [run, if_neg hz] at h
    cases h
  | case9 q z l hz ih =>
    rw [run, if_pos hz] at h
    simp only [List.mem_cons, Move.leave.injEq, not_or] at hserve hleave
    have hmem : x ∈ q.erase z := (List.mem_erase_of_ne hleave.1).mpr hx
    obtain ⟨hm, hsub⟩ := ih h hmem hserve.2 hleave.2
    exact ⟨hm, List.Subset.trans hsub (ahead_erase (Ne.symm hleave.1))⟩
  | case10 q z l hz =>
    rw [run, if_neg hz] at h
    cases h

/-- Where `x` is in the line, nobody is served who was not before him. -/
theorem run_served (h : run q (l ++ .serve y :: l') = some q') (hx : x ∈ q) (hne : y ≠ x)
    (hy : y ∉ ahead x q) : .serve x ∈ l ∨ .leave x ∈ l := by
  by_contra hn
  rw [not_or] at hn
  rw [run_append, Option.bind_eq_some_iff] at h
  obtain ⟨q₁, h₁, h₂⟩ := h
  obtain ⟨hm, hsub⟩ := run_ahead h₁ hx hn.1 hn.2
  cases q₁ with
  | nil => cases hm
  | cons z q₁ =>
    by_cases hz : z = y
    · subst hz
      exact hy (hsub (by simp [hne]))
    · rw [run, if_neg hz] at h₂
      cases h₂

/-- **They are served in the order in which they joined.** -/
theorem run_order {l₁ l₂ l₃ l₄ : List (Move α)}
    (h : run [] (l₁ ++ .join x :: (l₂ ++ .join y :: (l₃ ++ .serve y :: l₄))) = some q')
    (hne : y ≠ x) : .serve x ∈ l₂ ++ l₃ ∨ .leave x ∈ l₂ ++ l₃ := by
  rw [run_append, Option.bind_eq_some_iff] at h
  obtain ⟨q₁, -, h⟩ := h
  by_cases hx : x ∈ q₁
  · rw [run, if_pos hx] at h
    cases h
  rw [run, if_neg hx, run_append, Option.bind_eq_some_iff] at h
  obtain ⟨q₂, h₂, h⟩ := h
  by_contra hn
  simp only [List.mem_append, not_or] at hn
  have hx₂ := (run_ahead h₂ (by simp) hn.1.1 hn.2.1).1
  by_cases hy : y ∈ q₂
  · rw [run, if_pos hy] at h
    cases h
  rw [run, if_neg hy] at h
  have hahead : y ∉ ahead x (q₂ ++ [y]) := by
    rw [ahead_append hx₂]
    exact fun hm => hy (List.takeWhile_subset _ hm)
  exact (run_served h (List.mem_append_left _ hx₂) hne hahead).elim hn.1.2 hn.2.2

/-- **Nobody passes while another one waits.** -/
theorem run_first {l₁ l₂ l₃ : List (Move α)}
    (h : run [] (l₁ ++ .join x :: (l₂ ++ .pass y :: l₃)) = some q') :
    .serve x ∈ l₂ ∨ .leave x ∈ l₂ := by
  rw [run_append, Option.bind_eq_some_iff] at h
  obtain ⟨q₁, -, h⟩ := h
  by_cases hx : x ∈ q₁
  · rw [run, if_pos hx] at h
    cases h
  rw [run, if_neg hx, run_append, Option.bind_eq_some_iff] at h
  obtain ⟨q₂, h₂, h⟩ := h
  by_contra hn
  rw [not_or] at hn
  have hx₂ := (run_ahead h₂ (by simp) hn.1 hn.2).1
  rw [run, if_neg (List.ne_nil_of_mem hx₂)] at h
  cases h

/-! ## 3. Who leaves was not served -/

end WaitingLine
