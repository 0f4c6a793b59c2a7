/-
# Runs of a deterministic, partial step function

`step s i = some t` says that the input `i` takes the state `s` to `t`; `none` says that the
input is not possible in `s`.  `run step` folds it over a list of inputs.  The rules below
package the inductions: what one step keeps, every run keeps (`run_invariant`, and
`run_invariant_of` for runs whose steps meet a condition); what one step relates, every run
relates, state by state (`run_matches`, forward simulation).
-/
import Mathlib.Data.List.Basic

namespace Run

variable {σ τ ι : Type*} {step : σ → ι → Option σ}

/-- The state after the inputs `is`, `none` if one of them is impossible when it comes. -/
def run (step : σ → ι → Option σ) : σ → List ι → Option σ
  | s, [] => some s
  | s, i :: is => (step s i).bind fun t => run step t is

@[simp] theorem run_nil (s : σ) : run step s [] = some s := rfl

@[simp] theorem run_cons (s : σ) (i : ι) (is : List ι) :
    run step s (i :: is) = (step s i).bind fun t => run step t is := rfl

theorem run_append (s : σ) (is js : List ι) :
    run step s (is ++ js) = (run step s is).bind fun t => run step t js := by
  induction is generalizing s with
  | nil => rfl
  | cons i is ih =>
    simp only [List.cons_append, run_cons]
    cases step s i with
    | none => rfl
    | some t => simpa using ih t

/-- **The invariant rule.** -/
theorem run_invariant {P : σ → Prop} (hstep : ∀ s i t, P s → step s i = some t → P t)
    {s t : σ} {is : List ι} (hs : P s) (hr : run step s is = some t) : P t := by
  induction is generalizing s with
  | nil => exact Option.some.inj hr ▸ hs
  | cons i is ih =>
    simp only [run_cons, Option.bind_eq_some_iff] at hr
    obtain ⟨u, hu, hr⟩ := hr
    exact ih (hstep s i u hs hu) hr

/-- The invariant rule for runs all of whose steps meet a condition on the state before the
step and its input. -/
def AllSteps (step : σ → ι → Option σ) (C : σ → ι → Prop) : σ → List ι → Prop
  | _, [] => True
  | s, i :: is => C s i ∧ ∀ t, step s i = some t → AllSteps step C t is

instance allStepsDecidable {C : σ → ι → Prop} [∀ s i, Decidable (C s i)] :
    ∀ (s : σ) (is : List ι), Decidable (AllSteps step C s is)
  | _, [] => isTrue trivial
  | s, i :: is =>
    match h : step s i with
    | none => decidable_of_iff (C s i) ⟨fun hc => ⟨hc, fun _ ht => nomatch h.symm.trans ht⟩, And.left⟩
    | some t =>
      let _ := allStepsDecidable (C := C) t is
      decidable_of_iff (C s i ∧ AllSteps step C t is)
        ⟨fun hc => ⟨hc.1, fun _ hu => Option.some.inj (h.symm.trans hu) ▸ hc.2⟩,
          fun hc => ⟨hc.1, hc.2 t h⟩⟩

theorem allSteps_of_forall {p : ι → Prop} {is : List ι} (h : ∀ i ∈ is, p i) (s : σ) :
    AllSteps step (fun _ i => p i) s is := by
  induction is generalizing s with
  | nil => trivial
  | cons i is ih =>
    rw [List.forall_mem_cons] at h
    exact ⟨h.1, fun t _ => ih h.2 t⟩

theorem run_invariant_of {P : σ → Prop} {C : σ → ι → Prop}
    (hstep : ∀ s i t, P s → C s i → step s i = some t → P t)
    {s t : σ} {is : List ι} (hs : P s) (hc : AllSteps step C s is)
    (hr : run step s is = some t) : P t := by
  induction is generalizing s with
  | nil => exact Option.some.inj hr ▸ hs
  | cons i is ih =>
    simp only [run_cons, Option.bind_eq_some_iff] at hr
    obtain ⟨u, hu, hr⟩ := hr
    exact ih (hstep s i u hs hc.1 hu) (hc.2 u hu) hr

/-- **The simulation rule, for every state of a run.**  If every step of the concrete system is
matched by one of a relation `S`, the states that a run passes through are matched by a chain
of `S`. -/
theorem run_matches {S : τ → τ → Prop} {R : σ → τ → Prop}
    (hstep : ∀ s a i t, R s a → step s i = some t → ∃ b, S a b ∧ R t b)
    {s t : σ} {a : τ} {is : List ι} (h : R s a) (hr : run step s is = some t) :
    ∃ f : Nat → τ, f 0 = a ∧ (∀ n < is.length, S (f n) (f (n + 1))) ∧
      ∀ n ≤ is.length, ∃ c, run step s (is.take n) = some c ∧ R c (f n) := by
  induction is generalizing s a with
  | nil =>
    refine ⟨fun _ => a, rfl, fun n hn => absurd hn (Nat.not_lt_zero n), fun n hn => ⟨s, ?_, h⟩⟩
    rw [List.take_nil, run_nil]
  | cons i is ih =>
    rw [run_cons, Option.bind_eq_some_iff] at hr
    obtain ⟨u, hu, hr⟩ := hr
    obtain ⟨b, hb, hub⟩ := hstep s a i u h hu
    obtain ⟨f, hf, hchain, hstates⟩ := ih hub hr
    refine ⟨fun n => n.casesOn a f, rfl, fun n hn => ?_, fun n hn => ?_⟩
    · cases n with
      | zero =>
        change S a (f 0)
        rwa [hf]
      | succ n => exact hchain n (Nat.lt_of_succ_lt_succ hn)
    · cases n with
      | zero => exact ⟨s, rfl, h⟩
      | succ n =>
        obtain ⟨c, hc, hcr⟩ := hstates n (Nat.le_of_succ_le_succ hn)
        exact ⟨c, by rw [List.take_succ_cons, run_cons, hu, Option.bind_some, hc], hcr⟩

end Run
