/-
# Numerals

`numeral b x` is what the loop `do { digit = x % b; x /= b; } while (x != 0)` writes: the digits of
`x` in base `b`, the last one first.  They are those of `Nat.digits`, but there is always one: zero
has the numeral 0, where `Nat.digits` is empty.

`value` reads a numeral from its front, as its reader does.  Reading what was written gives back
the number (`value_reverse_numeral`), and how long a numeral is says between which powers of the
base the number lies (`numeral_length_le_iff`).
-/
import Mathlib.Data.Nat.Digits.Lemmas

namespace Numeral

variable {b x : Nat}

def numeral (b x : Nat) : List Nat :=
  if _h : 2 ≤ b ∧ x / b ≠ 0 then x % b :: numeral b (x / b) else [x % b]
termination_by x
decreasing_by exact Nat.div_lt_self (Nat.pos_of_ne_zero fun he => _h.2 (by simp [he])) _h.1

theorem numeral_step (hb : 2 ≤ b) (hx : x / b ≠ 0) : numeral b x = x % b :: numeral b (x / b) := by
  rw [numeral, dif_pos ⟨hb, hx⟩]

theorem numeral_last (hx : x / b = 0) : numeral b x = [x % b] := by
  rw [numeral, dif_neg fun h => h.2 hx]

theorem numeral_eq_digits (hb : 2 ≤ b) (x : Nat) :
    numeral b x = if x = 0 then [0] else b.digits x := by
  induction x using numeral.induct (b := b) with
  | case1 x h ih =>
    have hx : 0 < x := Nat.pos_of_ne_zero fun he => h.2 (by simp [he])
    rw [numeral_step hb h.2, ih, if_neg h.2, if_neg hx.ne', Nat.digits_def' hb hx]
  | case2 x h =>
    have h0 : x / b = 0 := by
      by_contra hx
      exact h ⟨hb, hx⟩
    rw [numeral_last h0]
    by_cases hx : x = 0
    · rw [if_pos hx, hx, Nat.zero_mod]
    · rw [if_neg hx, Nat.digits_def' hb (Nat.pos_of_ne_zero hx), h0, Nat.digits_zero]

theorem numeral_ne_nil : numeral b x ≠ [] := by
  rw [numeral]
  split <;> exact List.cons_ne_nil _ _

/-- The numeral is read back with Horner's rule. -/
theorem ofDigits_numeral (hb : 2 ≤ b) (x : Nat) : Nat.ofDigits b (numeral b x) = x := by
  rw [numeral_eq_digits hb]
  split
  · next hx => rw [hx, Nat.ofDigits_singleton]
  · exact Nat.ofDigits_digits b x

theorem lt_of_mem_numeral (hb : 2 ≤ b) {d : Nat} (hd : d ∈ numeral b x) : d < b := by
  rw [numeral_eq_digits hb] at hd
  split at hd
  · rw [List.mem_singleton.mp hd]
    exact Nat.lt_of_lt_of_le Nat.two_pos hb
  · exact Nat.digits_lt_base hb hd

theorem numeral_length_le_iff (hb : 2 ≤ b) {n : Nat} (hn : 1 ≤ n) :
    (numeral b x).length ≤ n ↔ x < b ^ n := by
  rw [numeral_eq_digits hb]
  split
  · next hx =>
    have : 0 < b ^ n := Nat.pow_pos (Nat.lt_of_lt_of_le Nat.two_pos hb)
    simp [hx, hn, this]
  · exact Nat.digits_length_le_iff hb x

/-- Reading from the front, as a reader of the reversed numeral does. -/
def value (b : Nat) (l : List Nat) : Nat := l.foldl (fun n d => n * b + d) 0

theorem value_reverse (b : Nat) (l : List Nat) : value b l.reverse = Nat.ofDigits b l := by
  rw [value, List.foldl_reverse, Nat.ofDigits_eq_foldr]
  simp [Nat.add_comm, Nat.mul_comm]

theorem value_reverse_numeral (hb : 2 ≤ b) (x : Nat) : value b (numeral b x).reverse = x := by
  rw [value_reverse, ofDigits_numeral hb]

end Numeral
