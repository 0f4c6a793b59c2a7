/-
# Programs that do not look at data

`Agrees v w m m'` compares two programs on a state of which `v` shows a part: from two states that
look alike both fail, or both return, in states that look alike, with results that `w` shows to be
alike.  For a program and itself it says that what `v` and `w` hide has no influence on the rest;
for two different programs, that they differ in nothing but what is hidden.

Failing is part of it: a program that fails because of what is hidden does not agree with itself.
The rule for a sequence (`Agrees.bind`) asks that the second parts agree for any two results that
look alike.  The relation is symmetric and transitive but not reflexive, so two programs that agree
with a third agree with each other (`Agrees.trans_symm`), and a run of steps that agree agrees
(`run_agrees`).
-/
import Os1Kernel.Lib.Run
import Os1Kernel.Lib.Simulation

namespace Simulation

variable {σ α β γ δ ρ : Type} {v : σ → ρ} {w : α → γ} {u : β → δ}

/-- From states that look alike, the two programs do what looks alike. -/
def Agrees (v : σ → ρ) (w : α → γ) (m m' : StateT σ Option α) : Prop :=
  ∀ c c', v c = v c' → (m c).map (Prod.map w v) = (m' c').map (Prod.map w v)

namespace Agrees

variable {m m' m₀ : StateT σ Option α} {k k' : α → StateT σ Option β} {x x' : α}

/-! ## 1. The two ways to end -/

theorem pure (h : w x = w x') : Agrees v w (pure x) (pure x' : StateT σ Option α) := by
  intro c c' hv
  simp only [pure_apply, Option.map_some, Prod.map, h, hv]

theorem failure : Agrees v w (failure : StateT σ Option α) failure := fun _ _ _ => rfl

/-! ## 2. Sequences -/

/-- What is the case when both return. -/
theorem cases (h : Agrees v w m m') {c c' : σ} (hv : v c = v c') :
    m c = none ∧ m' c' = none ∨ ∃ x d x' d', m c = some (x, d) ∧ m' c' = some (x', d') ∧
      w x = w x' ∧ v d = v d' := by
  have hmap := h c c' hv
  cases hm : m c with
  | none =>
    rw [hm, Option.map_none] at hmap
    exact Or.inl ⟨rfl, Option.map_eq_none_iff.mp hmap.symm⟩
  | some p =>
    rw [hm, Option.map_some] at hmap
    obtain ⟨q, hq, heq⟩ := Option.map_eq_some_iff.mp hmap.symm
    obtain ⟨hw, hd⟩ := Prod.mk.inj heq
    exact Or.inr ⟨p.1, p.2, q.1, q.2, rfl, hq, hw.symm, hd.symm⟩

/-- **Sequencing.**  The rest may depend on what is visible of the result. -/
theorem bind (hm : Agrees v w m m') (hk : ∀ x x', w x = w x' → Agrees v u (k x) (k' x')) :
    Agrees v u (m >>= k) (m' >>= k') := by
  intro c c' hv
  rw [bind_apply, bind_apply]
  obtain ⟨hc, hc'⟩ | ⟨x, d, x', d', hc, hc', hw, hd⟩ := hm.cases hv
  · rw [hc, hc']
    rfl
  · rw [hc, hc', Option.bind_some, Option.bind_some]
    exact hk x x' hw d d' hd

/-- Sequencing behind a result that is all visible. -/
theorem bind_id (hm : Agrees v id m m') (hk : ∀ x, Agrees v u (k x) (k' x)) :
    Agrees v u (m >>= k) (m' >>= k') :=
  hm.bind fun x x' h => by
    cases h
    exact hk x

/-- A program that reads something, and a rest that depends on what is visible of it. -/
theorem bind_read {f : σ → α} (h : ∀ c, m c = some (f c, c))
    (hk : ∀ c c', v c = v c' → Agrees v u (k (f c)) (k' (f c'))) :
    Agrees v u (m >>= k) (m >>= k') := by
  intro c c' hv
  rw [bind_apply, bind_apply, h, h]
  exact hk c c' hv c c' hv

/-- Two branches, of which both programs take the same. -/
theorem ite {p : Prop} [Decidable p] {n n' : StateT σ Option α} (hm : p → Agrees v w m m')
    (hn : ¬ p → Agrees v w n n') :
    Agrees v w (if p then m else n) (if p then m' else n') := by
  by_cases hp : p
  · rw [if_pos hp, if_pos hp]
    exact hm hp
  · rw [if_neg hp, if_neg hp]
    exact hn hp

/-! ## 3. Reading and writing -/

/-- A program that leaves the state as it is, and returns what is visible of it. -/
theorem read {f : σ → α} (h : ∀ c, m c = some (f c, c))
    (hf : ∀ c c', v c = v c' → w (f c) = w (f c')) : Agrees v w m m := by
  intro c c' hv
  rw [h, h, Option.map_some, Option.map_some, Prod.map, Prod.map, hf c c' hv, hv]

/-- Two programs that cannot fail, and change the state by `f` and by `f'`. -/
theorem write {m m' : StateT σ Option PUnit} {w : PUnit → γ} {f f' : σ → σ}
    (h : ∀ c, m c = some (⟨⟩, f c)) (h' : ∀ c, m' c = some (⟨⟩, f' c))
    (hf : ∀ c c', v c = v c' → v (f c) = v (f' c')) : Agrees v w m m' := by
  intro c c' hv
  rw [h, h', Option.map_some, Option.map_some, Prod.map, Prod.map, hf c c' hv]

/-! ## 4. Two programs and a third -/

/-- Programs that agree with the same one agree. -/
theorem trans_symm (h : Agrees v w m m₀) (h' : Agrees v w m' m₀) : Agrees v w m m' :=
  fun c c' hv => (h c c' hv).trans (h' c' c' rfl).symm

/-- The states behind them look alike. -/
theorem states (h : Agrees v w m m') {c c' : σ} (hv : v c = v c') :
    ((m c).map (·.2)).map v = ((m' c').map (·.2)).map v := by
  have hmap := congrArg (Option.map Prod.snd) (h c c' hv)
  rw [Option.map_map, Option.map_map] at hmap
  rw [Option.map_map, Option.map_map]
  exact hmap

end Agrees

/-- **Runs.**  What looks alike step by step looks alike at the end. -/
theorem run_agrees {ι κ : Type} {step : σ → ι → Option σ} {e : ι → κ}
    (hstep : ∀ c c' i i', v c = v c' → e i = e i' → (step c i).map v = (step c' i').map v)
    {c c' : σ} {is is' : List ι} (hv : v c = v c') (he : is.map e = is'.map e) :
    (Run.run step c is).map v = (Run.run step c' is').map v := by
  induction is generalizing c c' is' with
  | nil =>
    obtain rfl := List.map_eq_nil_iff.mp he.symm
    exact congrArg some hv
  | cons i is ih =>
    obtain ⟨i', is', rfl, hi, his⟩ := List.map_eq_cons_iff.mp he.symm
    have hmap := hstep c c' i i' hv hi.symm
    rw [Run.run_cons, Run.run_cons]
    cases hs : step c i with
    | none =>
      rw [hs, Option.map_none] at hmap
      rw [Option.map_eq_none_iff.mp hmap.symm]
      rfl
    | some d =>
      rw [hs, Option.map_some] at hmap
      obtain ⟨d', hs', hd⟩ := Option.map_eq_some_iff.mp hmap.symm
      rw [hs']
      exact ih hd.symm his.symm

end Simulation
