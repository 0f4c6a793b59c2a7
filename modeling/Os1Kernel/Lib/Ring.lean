/-
# A queue in a ring

An array of `n` cells, read at `r` and written at `w`, both of which go round.  `Holds v r w l`:
the cells from `r` up to `w` hold the queue `l`.  The two positions do not tell a full ring from an
empty one.

So the length of the queue is not a function of the positions, and `push` has as a hypothesis that
there is room, `pop` that there is an element.  Whoever uses the ring must know this from
elsewhere, from a count of free cells for instance.
-/
import Mathlib.Data.Vector.Defs
import Mathlib.Data.Nat.ModEq

namespace Ring

variable {α : Type} {n r w : Nat} {v : Vector α n} {l : List α} {c : α}

structure Holds (v : Vector α n) (r w : Nat) (l : List α) : Prop where
  length : l.length ≤ n
  read : r < n
  write : w = (r + l.length) % n
  cells : ∀ i < l.length, v[(r + i) % n]? = l[i]?

/-- Cells that are fewer than `n` apart are different. -/
theorem cell_ne {i j : Nat} (hij : i < j) (hj : j < i + n) : (r + j) % n ≠ (r + i) % n := by
  intro he
  have hmod : j ≡ i [MOD n] := Nat.ModEq.add_left_cancel' r he
  have hdvd := (Nat.modEq_iff_dvd' hij.le).mp hmod.symm
  exact absurd (Nat.le_of_dvd (by omega) hdvd) (by omega)

theorem Holds.nil (hr : r < n) : Holds v r r [] where
  length := Nat.zero_le n
  read := hr
  write := (Nat.mod_eq_of_lt hr).symm
  cells i hi := absurd hi (Nat.not_lt_zero i)

theorem Holds.write_lt (h : Holds v r w l) : w < n :=
  h.write ▸ Nat.mod_lt _ (Nat.zero_lt_of_lt h.read)

/-- What was in the queue stays, since the cell at `w` is none of its cells. -/
theorem Holds.push (h : Holds v r w l) (hl : l.length < n) (hw : w < n) :
    Holds (v.set w c hw) r ((w + 1) % n) (l ++ [c]) where
  length := by
    rw [List.length_append]
    exact hl
  read := h.read
  write := by
    rw [h.write, Nat.mod_add_mod, List.length_append, List.length_singleton, Nat.add_assoc]
  cells i hi := by
    rw [List.length_append, List.length_singleton] at hi
    rw [Vector.getElem?_set]
    rcases Nat.lt_succ_iff_lt_or_eq.mp hi with hi | rfl
    · rw [if_neg (h.write ▸ cell_ne hi (by omega)), List.getElem?_append_left hi]
      exact h.cells i hi
    · rw [if_pos h.write, List.getElem?_concat_length]

theorem Holds.pop (h : Holds v r w (c :: l)) : v[r]? = some c ∧ Holds v ((r + 1) % n) w l := by
  refine ⟨?_, ?_⟩
  · have := h.cells 0 (Nat.succ_pos _)
    rwa [Nat.add_zero, Nat.mod_eq_of_lt h.read] at this
  · refine ⟨(Nat.le_succ _).trans h.length, Nat.mod_lt _ (Nat.zero_lt_of_lt h.read), ?_, ?_⟩
    · rw [h.write, Nat.mod_add_mod, List.length_cons, Nat.add_assoc, Nat.add_comm 1]
    · intro i hi
      rw [Nat.mod_add_mod, Nat.add_assoc, Nat.add_comm 1]
      exact h.cells (i + 1) (Nat.succ_lt_succ hi)

/-- What the positions say about the length. -/
theorem Holds.length_eq (h : Holds v r w l) (hl : l.length ≠ n) :
    l.length = (w + (n - r)) % n := by
  have hlt : l.length < n := lt_of_le_of_ne h.length hl
  have hr := h.read
  rw [h.write, Nat.mod_add_mod, show r + l.length + (n - r) = l.length + n by omega,
    Nat.add_mod_right, Nat.mod_eq_of_lt hlt]

end Ring
