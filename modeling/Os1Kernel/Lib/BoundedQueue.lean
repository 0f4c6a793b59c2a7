/-
# A bounded queue

`run n q ops` is the queue behind the operations, if each of them is one of a queue that holds at
most `n`: a `put` finds room, and a `get` returns the first.  So what was put in is what was taken
out and then what is left (`run_fifo`), by induction on the operations.

The operations are given with their results, so that `run` says of a history whether it is that of
such a queue.  Who makes them, and what they wait for until they can, does not matter here.
-/
import Mathlib.Data.List.Basic

namespace BoundedQueue

variable {α : Type} {n : Nat}

inductive Op (α : Type)
  | put (x : α)
  /-- `x` was returned. -/
  | get (x : α)
  deriving DecidableEq, Repr

def Op.in? : Op α → Option α
  | .put x => some x
  | .get _ => none

def Op.out? : Op α → Option α
  | .put _ => none
  | .get x => some x

/-- What was put in. -/
def puts (ops : List (Op α)) : List α := ops.filterMap Op.in?

/-- What was taken out. -/
def gets (ops : List (Op α)) : List α := ops.filterMap Op.out?

variable [DecidableEq α]

def run (n : Nat) : List α → List (Op α) → Option (List α)
  | q, [] => some q
  | q, .put x :: ops => if q.length < n then run n (q ++ [x]) ops else none
  | [], .get _ :: _ => none
  | y :: q, .get x :: ops => if y = x then run n q ops else none

variable {q q' : List α} {ops ops' : List (Op α)} {x : α}

theorem run_append (q : List α) (ops ops' : List (Op α)) :
    run n q (ops ++ ops') = (run n q ops).bind fun q' => run n q' ops' := by
  induction q, ops using run.induct (α := α) n with
  | case1 q => rfl
  | case2 q x ops h ih => rw [List.cons_append, run, run, if_pos h, if_pos h, ih]
  | case3 q x ops h => rw [List.cons_append, run, run, if_neg h, if_neg h, Option.bind_none]
  | case4 => rfl
  | case5 q x ops ih => rw [List.cons_append, run, run, if_pos rfl, if_pos rfl, ih]
  | case6 y q x ops h => rw [List.cons_append, run, run, if_neg h, if_neg h, Option.bind_none]

theorem run_put (h : run n [] ops = some q) (hl : q.length < n) :
    run n [] (ops ++ [.put x]) = some (q ++ [x]) := by
  rw [run_append, h, Option.bind_some, run, if_pos hl, run]

theorem run_get (h : run n [] ops = some (x :: q)) : run n [] (ops ++ [.get x]) = some q := by
  rw [run_append, h, Option.bind_some, run, if_pos rfl, run]

/-- What was there and what was put in is what was taken out and what is left. -/
theorem run_fifo (h : run n q ops = some q') : q ++ puts ops = gets ops ++ q' := by
  induction q, ops using run.induct (α := α) n with
  | case1 q =>
    cases h
    simp [puts, gets]
  | case2 q x ops hl ih =>
    rw [run, if_pos hl] at h
    rw [show puts (.put x :: ops) = x :: puts ops from rfl,
      show gets (.put x :: ops) = gets ops from rfl, ← ih h, List.append_assoc, List.singleton_append]
  | case3 q x ops hl =>
    rw [run, if_neg hl] at h
    cases h
  | case4 => cases h
  | case5 q x ops ih =>
    rw [run, if_pos rfl] at h
    exact congrArg (x :: ·) (ih h)
  | case6 y q x ops hne =>
    rw [run, if_neg hne] at h
    cases h

theorem run_length (h : run n q ops = some q') (hq : q.length ≤ n) : q'.length ≤ n := by
  induction q, ops using run.induct (α := α) n with
  | case1 q =>
    cases h
    exact hq
  | case2 q x ops hl ih =>
    rw [run, if_pos hl] at h
    refine ih h ?_
    rw [List.length_append]
    exact hl
  | case3 q x ops hl =>
    rw [run, if_neg hl] at h
    cases h
  | case4 => cases h
  | case5 q x ops ih =>
    rw [run, if_pos rfl] at h
    exact ih h (Nat.le_of_succ_le hq)
  | case6 y q x ops hne =>
    rw [run, if_neg hne] at h
    cases h

end BoundedQueue
