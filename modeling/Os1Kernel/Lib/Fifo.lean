/-
# A queue that is served from its head

A queue that grows at its tail and is served from its head; when nobody waits, somebody is served
who never waits (`idle`).  `replay` runs a list of turns.  It fails where somebody joins who is
waiting already, or somebody is served who is not the first, so that it is also the statement that
the turns are those of such a queue.

`replay_takesTurn`: who has `n` others ahead is the `n`-th to be served, or is still waiting with
as many less ahead as have been served.  The induction is on the turns, with `n` general: a turn
that serves takes one off, and one that joins comes behind.
-/
import Mathlib.Data.List.Basic

namespace Fifo

variable {α : Type*}

/-- Somebody joins the queue at its tail, or is served. -/
inductive Turn (α : Type*)
  | put (x : α)
  | serve (x : α)

/-- Who is served. -/
def Turn.served : Turn α → Option α
  | .put _ => none
  | .serve x => some x

/-- Those who are served, in order. -/
def served (log : List (Turn α)) : List α := log.filterMap Turn.served

/-- Who is served for the `n`-th time is `x`, for the first time; if there are not so many turns,
`x` is still waiting, with the right number of others ahead. -/
def TakesTurn (n : Nat) (x : α) (served waiting : List α) : Prop :=
  x ∉ served.take n ∧
    if n < served.length then served[n]? = some x else waiting[n - served.length]? = some x

theorem served_append (l l' : List (Turn α)) : served (l ++ l') = served l ++ served l' :=
  List.filterMap_append

variable [DecidableEq α] (idle : α)

/-- The queue behind the turns. -/
def replay : List α → List (Turn α) → Option (List α)
  | q, [] => some q
  | q, .put x :: log => if x ∈ q then none else replay (q ++ [x]) log
  | q, .serve x :: log => if x = q.headD idle then replay q.tail log else none

variable {idle} {q q' q'' : List α} {l l' : List (Turn α)} {x : α}

theorem replay_put (hx : x ∉ q) : replay idle q (.put x :: l) = replay idle (q ++ [x]) l := by
  rw [replay, if_neg hx]

theorem replay_serve : replay idle q (.serve (q.headD idle) :: l) = replay idle q.tail l := by
  rw [replay, if_pos rfl]

theorem replay_append (q : List α) (l l' : List (Turn α)) : replay idle q (l ++ l') =
    (replay idle q l).bind fun q' => replay idle q' l' := by
  induction q, l using replay.induct idle with
  | case1 q => rfl
  | case2 q x log hx => rw [List.cons_append, replay, replay, if_pos hx, if_pos hx, Option.bind_none]
  | case3 q x log hx ih => rwa [List.cons_append, replay_put hx, replay_put hx]
  | case4 q log ih => rwa [List.cons_append, replay_serve, replay_serve]
  | case5 q x log hx => rw [List.cons_append, replay, replay, if_neg hx, if_neg hx, Option.bind_none]

omit [DecidableEq α] in
/-- Nobody joins twice. -/
theorem nodup_put (hq : q.Nodup) (hx : x ∉ q) : (q ++ [x]).Nodup := by
  refine List.nodup_append.mpr ⟨hq, by simp, ?_⟩
  rintro u hu v hv rfl
  exact hx (List.mem_singleton.mp hv ▸ hu)

theorem replay_nodup (h : replay idle q l = some q') (hq : q.Nodup) : q'.Nodup := by
  induction q, l using replay.induct idle with
  | case1 q => exact Option.some.inj h ▸ hq
  | case2 q x log hx =>
    rw [replay, if_pos hx] at h
    cases h
  | case3 q x log hx ih =>
    rw [replay_put hx] at h
    exact ih h (nodup_put hq hx)
  | case4 q log ih =>
    rw [replay_serve] at h
    exact ih h hq.tail
  | case5 q x log hx =>
    rw [replay, if_neg hx] at h
    cases h

/-- **Who has `n` others ahead is served after them.** -/
theorem replay_takesTurn (h : replay idle q l = some q') (hq : q.Nodup) {n : Nat}
    (hn : q[n]? = some x) : TakesTurn n x (served l) q' := by
  induction q, l using replay.induct idle generalizing n with
  | case1 q =>
    obtain rfl := Option.some.inj h
    simpa [TakesTurn, served] using hn
  | case2 q y log hy =>
    rw [replay, if_pos hy] at h
    cases h
  | case3 q y log hy ih =>
    rw [replay_put hy] at h
    refine ih h (nodup_put hq hy) ?_
    rw [List.getElem?_append_left (List.getElem?_eq_some_iff.mp hn).1, hn]
  | case4 q log ih =>
    rw [replay_serve] at h
    obtain ⟨y, rest, rfl⟩ : ∃ y rest, q = y :: rest := by
      cases q with
      | nil => cases hn
      | cons y rest => exact ⟨y, rest, rfl⟩
    rw [TakesTurn, show served (.serve ((y :: rest).headD idle) :: log) = y :: served log from rfl]
    rw [List.nodup_cons] at hq
    cases n with
    | zero =>
      obtain rfl := Option.some.inj hn
      simp
    | succ n =>
      have hrest : rest[n]? = some x := hn
      have ht := ih h hq.2 hrest
      have hxy : x ≠ y := by
        rintro rfl
        exact hq.1 (List.mem_of_getElem? hrest)
      rw [TakesTurn] at ht
      simpa [hxy] using ht
  | case5 q y log hy =>
    rw [replay, if_neg hy] at h
    cases h

/-- Who joins is served after those who wait already. -/
theorem replay_put_takesTurn (h : replay idle q (l ++ .put x :: l') = some q') (hq : q.Nodup) :
    ∃ q₁, replay idle q l = some q₁ ∧ TakesTurn q₁.length x (served l') q' := by
  rw [replay_append, Option.bind_eq_some_iff] at h
  obtain ⟨q₁, h₁, h⟩ := h
  have hq₁ := replay_nodup h₁ hq
  by_cases hx : x ∈ q₁
  · rw [replay, if_pos hx] at h
    cases h
  rw [replay_put hx] at h
  exact ⟨q₁, h₁, replay_takesTurn h (nodup_put hq₁ hx) (by simp)⟩

end Fifo
