/-
# How long a sleeper sleeps

The ticks that a sleeper still has to wait and those that it has waited add up to the same number
as long as it sleeps.  When it does not sleep any more, and has not been chosen, it is ready.

One step either leaves a sleeper where it is, with one tick less if it is a tick, or makes it ready
(`Step.sleeper`).  The sum of what is left and what has passed is therefore constant
(`Steps.remaining`), and as what is left is positive between ticks, the number of ticks that pass
while a thread sleeps is bounded by what was left at first (`Steps.sleeper`).
-/
import Os1Kernel.Spec.Isolation
import Os1Kernel.Spec.Records

namespace Os1Kernel

namespace Sys

variable {a b : Sys} {t u : Tid} {n : Nat}

/-- Whoever sleeps behind the removal of a thread is another one. -/
theorem mem_awake (hd : (t, n) ∈ a.sleepers) (hb : t ∈ (a.awake u).asleep) :
    (t, n) ∈ (a.awake u).sleepers := by
  rw [asleep_awake] at hb
  exact List.mem_filter.mpr ⟨hd, (List.mem_filter.mp hb).2⟩

/-- The ticks that remain, and that of the step. -/
theorem Step.sleeper (hs : a.Step b) (hi : a.Inv) (hd : (t, n) ∈ a.sleepers) (hb : t ∈ b.asleep) :
    ∃ l m, b.history = l ++ a.history ∧ (t, m) ∈ b.sleepers ∧ m + l.countP Event.isTick = n := by
  cases hs with
  | tick hbody =>
    have hpos : 1 ≤ n := hi.ticks.pos (by rw [hbody.activity]; nofun) _ hd
    refine ⟨[.tick], n - 1, rfl, List.mem_map.mpr ⟨(t, n), hd, rfl⟩, ?_⟩
    change n - 1 + 1 = n
    omega
  | fallAsleep => exact ⟨[_], n, rfl, DeltaList.mem_insertBy.mpr (Or.inr hd), rfl⟩
  | timeoutZero => exact ⟨[.returned _ _, .expired _ _], n, rfl, mem_awake hd hb, rfl⟩
  | expire | wake | grant => exact ⟨[_], n, rfl, mem_awake hd hb, rfl⟩
  | @release s m => exact ⟨[m.event s _], n, rfl, mem_awake hd hb, by cases m <;> rfl⟩
  | _ => first
    | exact ⟨[], n, rfl, hd, rfl⟩
    | exact ⟨[_], n, rfl, hd, rfl⟩

/-- Until it is chosen, a sleeper has so many ticks less to wait. -/
theorem Steps.remaining (hs : Relation.ReflTransGen Step a b) (hi : a.Inv)
    (hd : (t, n) ∈ a.sleepers) (ht : t ∈ a.threads) (hne : t ≠ a.running) :
    b.Inv ∧ ∃ l, b.history = l ++ a.history ∧ (.chosen t ∉ l → t ∈ b.asleep →
      ∃ m, (t, m) ∈ b.sleepers ∧ m + l.countP Event.isTick = n) := by
  induction hs with
  | refl => exact ⟨hi, [], rfl, fun _ _ => ⟨n, hd, rfl⟩⟩
  | @tail b d hab hs ih =>
    obtain ⟨hb, l, hl, hsum⟩ := ih
    obtain ⟨l', hl'⟩ := hs.history
    have hhist : d.history = (l' ++ l) ++ a.history := by rw [hl', hl, List.append_assoc]
    refine ⟨hb.step hs, l' ++ l, hhist, fun hc hasleep => ?_⟩
    rw [List.mem_append, not_or] at hc
    -- it does not run, so the step has not put it to sleep
    obtain ⟨l₁, hl₁, hrests⟩ := Steps.rests hab hi ht hne
    obtain rfl : l = l₁ := List.append_cancel_right (hl.symm.trans hl₁)
    obtain ⟨hmem, hrun, -⟩ := hrests.resolve_left hc.2
    obtain ⟨l₂, hl₂, hrests'⟩ := Steps.rests (hab.tail hs) hi ht hne
    obtain rfl : l' ++ l = l₂ := List.append_cancel_right (hhist.symm.trans hl₂)
    obtain ⟨-, hrun', -⟩ := hrests'.resolve_left (by simpa using hc)
    have hstill : t ∈ b.asleep := by
      rcases hs.stillOrFreed hb hmem hrun hrun' with hstill | hfreed
      · exact hstill.asleep.mp hasleep
      · exact absurd hasleep hfreed.asleep
    obtain ⟨m, hm, hsum⟩ := hsum hc.2 hstill
    obtain ⟨l₃, m', hl₃, hm', hsum'⟩ := hs.sleeper hb hm hasleep
    obtain rfl : l' = l₃ := List.append_cancel_right (hl'.symm.trans hl₃)
    refine ⟨m', hm', ?_⟩
    rw [List.countP_append, ← Nat.add_assoc, hsum', hsum]

/-- **A sleeper is chosen, or is ready, or has so many ticks less to wait.** -/
theorem Steps.sleeper (hs : Relation.ReflTransGen Step a b) (hi : a.Inv)
    (hd : (t, n) ∈ a.sleepers) (ht : t ∈ a.threads) (hne : t ≠ a.running) :
    ∃ l, b.history = l ++ a.history ∧ (.chosen t ∈ l ∨ t ∈ b.ready ∨
      ∃ m, (t, m) ∈ b.sleepers ∧ m + l.countP Event.isTick = n) := by
  obtain ⟨-, l, hl, hsum⟩ := Steps.remaining hs hi hd ht hne
  obtain ⟨l', hl', hrests⟩ := Steps.rests hs hi ht hne
  obtain rfl : l = l' := List.append_cancel_right (hl.symm.trans hl')
  refine ⟨l, hl, ?_⟩
  by_cases hc : .chosen t ∈ l
  · exact Or.inl hc
  obtain ⟨-, -, hrests⟩ := hrests.resolve_left hc
  rcases hrests.place with hstill | hfreed
  · exact Or.inr (Or.inr (hsum hc (hstill.asleep.mpr (mem_asleep.mpr ⟨n, hd⟩))))
  · exact Or.inr (Or.inl hfreed.ready)

end Sys

end Os1Kernel
