/-
# Simulating fallible stateful programs

A program that may fail is a `StateT σ Option α`.  Two judgements relate one, started in a
concrete state `c`, to an abstract system; both say in particular that it does not fail.

* `Yields R m c x a`: it returns `x`, in a state that `R` relates to `a`.  This is the form for a
  program that implements a function on abstract states.
* `Follows R S m c a Q`: its run is matched by finitely many transitions `S` of the abstract system
  from `a`, to a state that satisfies `Q` together with the result.  This is the form for a
  program that the abstract system takes apart into several steps.

A third one, `Keeps P m`, is about the concrete states alone: what holds before holds behind.  And
`Respects v m` compares two runs: states that differ only in what `v` hides lead to such states.
-/
import Mathlib.Data.Option.Basic
import Mathlib.Logic.Relation

namespace Simulation

variable {σ τ α β : Type}

@[simp] theorem bind_apply (m : StateT σ Option α) (k : α → StateT σ Option β) (c : σ) :
    (m >>= k) c = (m c).bind fun p => k p.1 p.2 := rfl

@[simp] theorem pure_apply (x : α) (c : σ) : (pure x : StateT σ Option α) c = some (x, c) := rfl

@[simp] theorem map_apply (f : α → β) (m : StateT σ Option α) (c : σ) :
    (f <$> m) c = (m c).map fun p => (f p.1, p.2) := by
  cases h : m c with
  | none => simp [Functor.map, StateT.map, h]
  | some p => simp [Functor.map, StateT.map, h]

@[simp] theorem get_apply (c : σ) : (get : StateT σ Option σ) c = some (c, c) := rfl

@[simp] theorem modify_apply (f : σ → σ) (c : σ) :
    (modify f : StateT σ Option PUnit) c = some (⟨⟩, f c) := rfl

@[simp] theorem failure_apply (c : σ) : (failure : StateT σ Option α) c = none := rfl

variable {R : σ → τ → Prop} {S : τ → τ → Prop} {m : StateT σ Option α}
  {k : α → StateT σ Option β} {c c' : σ} {x : α} {y : β} {a b : τ}

/-! ## 1. Programs that compute a function -/

/-- `m` run from `c` returns `x`, in a state related to `a`. -/
def Yields (R : σ → τ → Prop) (m : StateT σ Option α) (c : σ) (x : α) (a : τ) : Prop :=
  ∃ c', m c = some (x, c') ∧ R c' a

theorem Yields.of_eq (h : m c = some (x, c')) (hr : R c' a) : Yields R m c x a := ⟨c', h, hr⟩

theorem Yields.pure (h : R c a) : Yields R (pure x) c x a := ⟨c, rfl, h⟩

/-- Sequencing: the rest of the program starts from whatever related state the first part
reached. -/
theorem Yields.bind (hm : Yields R m c x a) (hk : ∀ c', R c' a → Yields R (k x) c' y b) :
    Yields R (m >>= k) c y b := by
  obtain ⟨c', hc, hr⟩ := hm
  obtain ⟨c'', hc', hr'⟩ := hk c' hr
  exact ⟨c'', by simp [hc, hc'], hr'⟩

/-- A first part whose exact result is known. -/
theorem Yields.bind_eq (hm : m c = some (x, c')) (hk : Yields R (k x) c' y b) :
    Yields R (m >>= k) c y b := by
  obtain ⟨c'', hc', hr'⟩ := hk
  exact ⟨c'', by simp [hm, hc'], hr'⟩

/-! ## 2. Programs that follow transitions -/

/-- `m` run from `c` is matched by transitions from `a`, to a state and with a result that
satisfy `Q`. -/
def Follows (R : σ → τ → Prop) (S : τ → τ → Prop) (m : StateT σ Option α) (c : σ) (a : τ)
    (Q : α → τ → Prop) : Prop :=
  ∃ x c' b, m c = some (x, c') ∧ Relation.ReflTransGen S a b ∧ R c' b ∧ Q x b

variable {Q Q' : α → τ → Prop} {P : β → τ → Prop}

theorem Follows.pure (h : R c a) (hq : Q x a) : Follows R S (pure x) c a Q :=
  ⟨x, c, a, rfl, .refl, h, hq⟩

theorem Follows.mono (h : Follows R S m c a Q) (hq : ∀ x b, Q x b → Q' x b) :
    Follows R S m c a Q' := by
  obtain ⟨x, c', b, hm, hs, hr, h⟩ := h
  exact ⟨x, c', b, hm, hs, hr, hq x b h⟩

/-- **Sequencing.** -/
theorem Follows.bind (hm : Follows R S m c a Q)
    (hk : ∀ x c' b, R c' b → Q x b → Follows R S (k x) c' b P) :
    Follows R S (m >>= k) c a P := by
  obtain ⟨x, c', b, hc, hs, hr, hq⟩ := hm
  obtain ⟨y, c'', d, hc', hs', hr', hp⟩ := hk x c' b hr hq
  exact ⟨y, c'', d, by simp [hc, hc'], hs.trans hs', hr', hp⟩

/-- A first part whose exact result is known, and which takes no transition. -/
theorem Follows.bind_eq (hm : m c = some (x, c')) (hk : Follows R S (k x) c' a P) :
    Follows R S (m >>= k) c a P := by
  obtain ⟨y, c'', d, hc', hs', hr', hp⟩ := hk
  exact ⟨y, c'', d, by simp [hm, hc'], hs', hr', hp⟩

/-- A transition that the program does not notice. -/
theorem Follows.silent (hs : S a b) (h : Follows R S m c b Q) : Follows R S m c a Q := by
  obtain ⟨x, c', d, hm, hs', hr, hq⟩ := h
  exact ⟨x, c', d, hm, .head hs hs', hr, hq⟩

/-! ## 3. Programs that keep a predicate -/

/-- If `m` returns, the predicate `P` still holds. -/
def Keeps (P : σ → Prop) (m : StateT σ Option α) : Prop :=
  ∀ c x c', P c → m c = some (x, c') → P c'

variable {P : σ → Prop}

theorem Keeps.pure (x : α) : Keeps P (pure x : StateT σ Option α) := by
  intro c y c' hp h
  cases h
  exact hp

theorem Keeps.failure : Keeps P (failure : StateT σ Option α) := by
  intro c y c' _ h
  cases h

/-- A program that leaves the state as it is. -/
theorem Keeps.read {f : σ → α} (h : ∀ c, m c = some (f c, c)) : Keeps P m := by
  intro c x c' hp hm
  cases (h c).symm.trans hm
  exact hp

/-- A program that cannot fail, and changes the state by `f`. -/
theorem Keeps.write {m : StateT σ Option PUnit} {f : σ → σ} (h : ∀ c, m c = some (⟨⟩, f c))
    (hf : ∀ c, P c → P (f c)) : Keeps P m := by
  intro c x c' hp hm
  cases (h c).symm.trans hm
  exact hf c hp

theorem Keeps.bind (hm : Keeps P m) (hk : ∀ x, Keeps P (k x)) : Keeps P (m >>= k) := by
  intro c y c' hp h
  rw [bind_apply, Option.bind_eq_some_iff] at h
  obtain ⟨⟨x, c₁⟩, h₁, h₂⟩ := h
  exact hk x c₁ y c' (hm c x c₁ hp h₁) h₂

/-- Behind the first part something holds in addition, and the rest keeps both. -/
theorem Keeps.bind_imp {Q : α → σ → Prop} (hm : ∀ c x c', P c → m c = some (x, c') → Q x c')
    (hk : ∀ x, Keeps (Q x) (k x)) (hq : ∀ x c, Q x c → P c) : Keeps P (m >>= k) := by
  intro c y c' hp h
  rw [bind_apply, Option.bind_eq_some_iff] at h
  obtain ⟨⟨x, c₁⟩, h₁, h₂⟩ := h
  exact hq x c' (hk x c₁ y c' (hm c x c₁ hp h₁) h₂)

/-! ## 4. Programs that do not look at everything -/

/-- From two states that look alike through `v`, the program returns the same, in states that look
alike. -/
def Respects {ρ : Type} (v : σ → ρ) (m : StateT σ Option α) : Prop :=
  ∀ c c' x d, v c = v c' → m c = some (x, d) → ∃ d', m c' = some (x, d') ∧ v d = v d'

section Respects

variable {ρ : Type} {v : σ → ρ}

theorem Respects.pure (x : α) : Respects v (pure x : StateT σ Option α) := by
  intro c c' y d hv h
  cases h
  exact ⟨c', rfl, hv⟩

theorem Respects.failure : Respects v (failure : StateT σ Option α) := by
  intro c c' y d _ h
  cases h

theorem Respects.bind (hm : Respects v m) (hk : ∀ x, Respects v (k x)) :
    Respects v (m >>= k) := by
  intro c c' y d hv h
  rw [bind_apply, Option.bind_eq_some_iff] at h
  obtain ⟨⟨x, c₁⟩, h₁, h₂⟩ := h
  obtain ⟨c₁', h₁', hv₁⟩ := hm c c' x c₁ hv h₁
  obtain ⟨d', h₂', hv'⟩ := hk x c₁ c₁' y d hv₁ h₂
  exact ⟨d', by simp [h₁', h₂'], hv'⟩

/-- A program that reads the whole state, and goes on in the same way where it looks alike. -/
theorem Respects.bind_read {m : StateT σ Option σ} {k : σ → StateT σ Option β}
    (h : ∀ c, m c = some (c, c)) (heq : ∀ c c', v c = v c' → k c = k c')
    (hk : ∀ c, Respects v (k c)) : Respects v (m >>= k) := by
  intro c c' y d hv hm
  simp only [bind_apply, h, Option.bind_some] at hm
  rw [heq c c' hv] at hm
  obtain ⟨d', hm', hv'⟩ := hk c' c c' y d hv hm
  exact ⟨d', by simp [h, hm'], hv'⟩

/-- A program that leaves the state as it is, and returns what can be seen of it. -/
theorem Respects.read {f : σ → α} (h : ∀ c, m c = some (f c, c))
    (hf : ∀ c c', v c = v c' → f c = f c') : Respects v m := by
  intro c c' x d hv hm
  cases (h c).symm.trans hm
  exact ⟨c', by rw [h, hf c c' hv], hv⟩

/-- A program that cannot fail, and changes the state by `f`. -/
theorem Respects.write {m : StateT σ Option PUnit} {f : σ → σ} (h : ∀ c, m c = some (⟨⟩, f c))
    (hf : ∀ c c', v c = v c' → v (f c) = v (f c')) : Respects v m := by
  intro c c' x d hv hm
  cases (h c).symm.trans hm
  exact ⟨f c', h c', hf c c' hv⟩

end Respects

/-! ## 5. Programs that may fail -/

/-- If `m` run from `c` returns, then with a result and in a state that satisfy `Q`. -/
def Partially (m : StateT σ Option α) (c : σ) (Q : α → σ → Prop) : Prop :=
  ∀ x c', m c = some (x, c') → Q x c'

section Partially

variable {Q Q' : α → σ → Prop} {P : β → σ → Prop}

theorem Partially.of_eq (h : m c = some (x, c')) (hq : Q x c') : Partially m c Q := by
  intro y d hd
  cases h.symm.trans hd
  exact hq

theorem Partially.of_none (h : m c = none) : Partially m c Q := by
  intro y d hd
  cases h.symm.trans hd

theorem Partially.bind (hm : Partially m c Q)
    (hk : ∀ x c', Q x c' → Partially (k x) c' P) : Partially (m >>= k) c P := by
  intro y d hd
  rw [bind_apply, Option.bind_eq_some_iff] at hd
  obtain ⟨⟨x, c'⟩, h₁, h₂⟩ := hd
  exact hk x c' (hm x c' h₁) y d h₂

theorem Partially.bind_eq (h : m c = some (x, c')) (hk : Partially (k x) c' P) :
    Partially (m >>= k) c P :=
  Partially.bind (.of_eq (Q := fun y d => y = x ∧ d = c') h ⟨rfl, rfl⟩) fun _ _ hq => by
    rw [hq.1, hq.2]
    exact hk

theorem Partially.mono (h : Partially m c Q) (hq : ∀ x c', Q x c' → Q' x c') :
    Partially m c Q' :=
  fun x c' hm => hq x c' (h x c' hm)

/-- What is kept holds behind a program that returns. -/
theorem Keeps.partially {P : σ → Prop} (h : Keeps P m) (hc : P c) : Partially m c fun _ => P :=
  fun x c' hm => h c x c' hc hm

end Partially

end Simulation
