/-
# The life of a thread

A thread lives from its creation until `TCB::finish` begins for it.  Unless it is the idle thread
it is not chosen again after that, so `TCB::finish` runs for it once.

`Lives` is about the state, `Final` about the history: behind the `finish` of a thread there is no
event that chooses it or lets it finish.  `Mortal` ties the two together.  The step that needs an
argument is the one that chooses a thread: the ready list has unfinished threads only
(`Places.live`), so whoever is chosen has not finished, or the list is empty and it is the idle
thread.  For the idle thread this is no longer true once it has finished, and `final` says no more
of it.

The second half of what a life is, its children, is in `Children.lean`; what a new thread begins
with is `Enlisted`, which later invariants use for the only step that adds a thread.
-/
import Os1Kernel.Spec.Tokens

namespace Os1Kernel

/-- The thread has told its parent that it finishes. -/
def Stage.isLeft : Stage → Bool
  | .left => true
  | _ => false

/-- A thread is chosen or finishes. -/
def Event.isTurn : Event → Bool
  | .chosen _ | .finish _ => true
  | _ => false

/-- After it has finished, `t` is not chosen, and does not finish again. -/
def Final (t : Tid) (l : List Event) : Prop := ∀ l₁ l₂, l = l₁ ++ .finish t :: l₂ →
  .finish t ∉ l₁ ∧ .chosen t ∉ l₁

theorem Final.cons {t : Tid} {e : Event} {l : List Event} (h : Final t l)
    (he : e = .finish t ∨ e = .chosen t → .finish t ∉ l) : Final t (e :: l) := by
  intro l₁ l₂ heq
  cases l₁ with
  | nil => exact ⟨List.not_mem_nil, List.not_mem_nil⟩
  | cons e' l₁ =>
    rw [List.cons_append, List.cons.injEq] at heq
    obtain ⟨rfl, rfl⟩ := heq
    have hmem : .finish t ∈ l₁ ++ .finish t :: l₂ := by simp
    obtain ⟨h₁, h₂⟩ := h _ _ rfl
    simp only [List.mem_cons, not_or]
    exact ⟨⟨fun hf => he (Or.inl hf.symm) hmem, h₁⟩, fun hc => he (Or.inr hc.symm) hmem, h₂⟩

theorem Final.of_quiet {t : Tid} {l l' : List Event} (h : Final t l')
    (hl : ∀ e ∈ l, Event.isTurn e = false) : Final t (l ++ l') := by
  induction l with
  | nil => exact h
  | cons e l ih =>
    rw [List.forall_mem_cons] at hl
    refine (ih hl.2).cons ?_
    rintro (rfl | rfl) <;> cases hl.1

theorem Final.before {t : Tid} {l l' : List Event} (h : Final t (l ++ .finish t :: l')) :
    .finish t ∉ l' := fun hm => by
  obtain ⟨l₁, l₂, rfl⟩ := List.append_of_mem hm
  exact (h (l ++ .finish t :: l₁) l₂ (by simp)).1 (by simp)

namespace Sys

variable {a b : Sys} {t p : Tid} {s : SemPtr}

/-! ## 1. Threads that have not finished -/

/-- The thread exists, and `TCB::finish` has not begun for it. -/
structure Lives (a : Sys) (t : Tid) : Prop where
  mem : t ∈ a.threads
  unfinished : (a.thread t).finished = false
  stage : t = a.running → a.stage.isFinishing = false

theorem Lives.active (h : a.Lives t) (hi : a.Inv) (hs : s ∈ SemPtr.own t) :
    (a.sem s).active = true :=
  hi.alive.own_active t h.mem h.unfinished h.stage s hs

/-- Nobody releases the waiters of its semaphores. -/
theorem Lives.not_releasing (h : a.Lives t) (hi : a.Inv) (ho : a.Origins) (hs : s ∈ SemPtr.own t)
    (hj : ∀ u, s ≠ .join u) (m : UnblockManner) : a.activity ≠ .releasing s m := fun hr => by
  rcases ho.regular s m hr with rfl | ⟨u, rfl⟩
  · rcases hi.alive.releasing s hr with ⟨n, rfl⟩ | ⟨u, hu, hfin⟩
    · simp [SemPtr.own] at hs
    · rw [SemPtr.mem_own] at hs hu
      obtain rfl := Option.some.inj (hs.symm.trans hu)
      obtain ⟨hrun, hf⟩ := hfin h.mem
      rw [h.stage hrun] at hf
      cases hf
  · exact hj u rfl

/-- Who lives has lived as long as it has existed. -/
theorem Step.lives (hs : a.Step b) (hi : a.Inv) (hm : t ∈ a.threads) (h : b.Lives t) :
    a.Lives t := by
  have hfin : (a.thread t).finished = false := by
    rcases hs.finished h.mem with he | ⟨-, -, hf⟩
    · exact he.symm.trans h.unfinished
    · rw [h.unfinished] at hf
      cases hf
  refine ⟨hm, hfin, ?_⟩
  rintro rfl
  have hkeep : b.running = a.running → b.stage.isFinishing = a.stage.isFinishing →
      a.stage.isFinishing = false := fun hr he => he.symm.trans (h.stage hr.symm)
  have hnone : a.stage = .code → a.stage.isFinishing = false := fun he => by rw [he]; rfl
  cases hs with
  | preempt hb => exact hb.isFinishing
  | switch hl => exact hi.alive.leaving (by rw [hl]; rfl)
  | timeoutZero hl => exact hnone (hi.contexts.leaving hl).1
  | leave _ hl => exact hl.isFinishing
  | acquire hw | block hw | dead hw => exact hw.isFinishing
  | signal hc | skip hc => exact hkeep rfl hc.isFinishing
  | endWait _ hst | write _ hst | received _ hst | putChar _ hst | getChar _ hst =>
    rw [hst]
    rfl
  | putting hc => exact hnone hc.stage
  | finish hc => exact hnone hc.stage
  | noParent _ hst | childLeaves _ hst | childSignals _ hst => exact hkeep rfl (by rw [hst]; rfl)
  | retire =>
    have := h.unfinished
    simp [setThread] at this
  | _ => exact hkeep rfl rfl

/-- A context that leads to a semaphore of a thread is one of its own, or names it. -/
theorem ArgsOk.owner {u : Tid} {ctx : Context} (h : a.ArgsOk u ctx) (hw : ctx.waitsAt u = some s)
    (hs : s ∈ SemPtr.own t) (hu : u ∈ a.threads) : t ∈ a.threads := by
  rw [SemPtr.mem_own] at hs
  cases ctx with
  | semWait s' =>
    obtain ⟨⟨n, rfl⟩, -⟩ := h
    cases hw
    cases hs
  | join u' | send u' =>
    cases hw
    cases hs
    exact h.1
  | joinAll | timedJoinAll | receive =>
    cases hw
    cases hs
    exact hu
  | put | putMutex | get | getMutex =>
    cases hw
    cases hs
  | _ => cases hw

/-- `t` is put on the list of all threads. -/
structure Enlisted (a b : Sys) (t : Tid) : Prop where
  body : b.AtBody
  sem : b.sem = a.sem
  context : ∀ u, (b.thread u).context = (a.thread u).context
  ready : ∀ u ∈ b.ready, u ∈ a.ready ∨ u = t
  history : ∃ p x, b.history = .created t p x :: a.history
  new : (a.thread t).context = .threadWrapper
  value : ∀ s ∈ SemPtr.own t, (a.sem s).value = s.initial

theorem Step.new_unfinished (hs : a.Step b) (ht : t ∈ b.threads) (hn : t ∉ a.threads) :
    (a.thread t).finished = false := by
  cases hs with
  | enlist _ _ _ _ hx =>
    obtain rfl := List.mem_singleton.mp ((List.mem_append.mp ht).resolve_left hn)
    exact hx.2.1
  | _ => exact absurd ht hn

theorem Step.enlisted (hs : a.Step b) (ht : t ∈ b.threads) (hn : t ∉ a.threads) :
    a.Enlisted b t := by
  cases hs with
  | @enlist hc u hnew hlt hroom hx hp hsem =>
    obtain rfl : t = u := List.mem_singleton.mp ((List.mem_append.mp ht).resolve_left hn)
    refine ⟨⟨hc.activity, hc.stage, ?_⟩, rfl, fun u => update_field Thread.context (by rfl) u,
      fun u hu => ?_, ⟨_, _, rfl⟩, hx.1, fun s hs' => (hsem s hs').2.2⟩
    · exact (update_field Thread.context (by rfl) _).trans hc.context
    · by_cases hbody : (a.thread t).hasBody = true
      · have : u ∈ a.ready ++ [t] := (if_pos hbody : _ = a.ready ++ [t]) ▸ hu
        simpa using this
      · exact Or.inl ((if_neg hbody : _ = a.ready) ▸ hu)
  | _ => exact absurd ht hn

/-! ## 2. Turns -/

/-- Who is chosen is the idle thread or lives. -/
theorem Step.turn (hs : a.Step b) (hi : a.Inv) :
    (∃ l, (∀ e ∈ l, Event.isTurn e = false) ∧ b.history = l ++ a.history) ∨
    (∃ t, (t = a.idle ∨ a.Lives t) ∧ a.stage.isFinishing = false ∧
      b.history = .chosen t :: a.history) ∨
    a.AtBody ∧ b.running = a.running ∧ b.stage = .finishing ∧
      b.history = .finish a.running :: a.history := by
  have hready : ∀ t ∈ a.ready, a.Lives t := fun t ht => by
    obtain ⟨hm, -, hf⟩ := hi.places.live t (Or.inl ht)
    exact ⟨hm, hf, fun he => absurd (he ▸ ht) hi.places.running_ready⟩
  have hhead : ∀ l : List Tid, (∀ t ∈ l, a.Lives t) → l.headD a.idle = a.idle ∨
      a.Lives (l.headD a.idle) := fun l hl => by
    cases l with
    | nil => exact Or.inl rfl
    | cons t l => exact Or.inr (hl t List.mem_cons_self)
  cases hs with
  | preempt h =>
    refine Or.inr (Or.inl ⟨_, hhead _ fun t ht => ?_, h.isFinishing, rfl⟩)
    simp only [pushReady] at ht
    split at ht
    · exact hready t ht
    · next hne =>
      rcases List.mem_append.mp ht with ht | ht
      · exact hready t ht
      · obtain rfl := List.mem_singleton.mp ht
        exact ⟨hi.alive.running_mem, hi.contexts.unfinished h.activity hne, fun _ => h.isFinishing⟩
  | switch h =>
    exact Or.inr (Or.inl ⟨_, hhead _ hready, hi.alive.leaving (by rw [h]; rfl), rfl⟩)
  | finish h => exact Or.inr (Or.inr ⟨h, rfl, rfl, rfl⟩)
  | timeoutZero =>
    exact Or.inl ⟨[.returned a.running TIMEOUT, .expired _ a.running], by simp [Event.isTurn], rfl⟩
  | @release s m _ u =>
    exact Or.inl ⟨[m.event s u], by cases m <;> simp [UnblockManner.event, Event.isTurn], rfl⟩
  | _ =>
    refine Or.inl ?_
    first
    | exact ⟨[], by simp, rfl⟩
    | exact ⟨[_], by simp [Event.isTurn], rfl⟩

/-- Whoever has finished does not live, and is not chosen any more unless it is the idle thread. -/
structure Mortal (a : Sys) : Prop where
  /-- Who has finished is a thread that does not live any more. -/
  ended : ∀ t, .finish t ∈ a.history → t ∈ a.threads ∧ ¬ a.Lives t
  finishing : a.stage.isFinishing = true → .finish a.running ∈ a.history
  finished : ∀ t ∈ a.threads, (a.thread t).finished = true → .finish t ∈ a.history
  /-- It is not chosen, and does not finish again. -/
  final : ∀ t, (t = a.idle → .finish t ∉ a.history) → Final t a.history

/-- Where `TCB::finish` begins. -/
theorem Step.finishing (hs : a.Step b) (hi : a.Inv) (h : b.stage.isFinishing = true) :
    b.running = a.running ∧ (a.stage.isFinishing = true ∨
      b.history = .finish a.running :: a.history) := by
  have hnone : ∀ {st : Stage}, b.stage = st → st.isFinishing = false →
      b.running = a.running ∧ (a.stage.isFinishing = true ∨
        b.history = .finish a.running :: a.history) := fun h₁ h₂ => by
    rw [h₁, h₂] at h
    cases h
  have hkeep : b.running = a.running → b.stage.isFinishing = a.stage.isFinishing →
      b.running = a.running ∧ (a.stage.isFinishing = true ∨
        b.history = .finish a.running :: a.history) := fun h₁ h₂ => ⟨h₁, Or.inl (h₂ ▸ h)⟩
  cases hs with
  | preempt hb => exact hnone hb.stage rfl
  | switch hl => exact hnone (hi.contexts.leaving hl).1 rfl
  | leave | acquire | block | dead | timeoutZero | endWait | write | received | putChar | getChar
  | putting | retire => exact hnone rfl rfl
  | signal hc | skip hc => exact hkeep rfl hc.isFinishing
  | noParent _ hst | childLeaves _ hst | childSignals _ hst => exact hkeep rfl (by rw [hst]; rfl)
  | finish => exact ⟨rfl, Or.inr rfl⟩
  | _ => exact hkeep rfl rfl

theorem Mortal.step (h : a.Mortal) (hi : a.Inv) (hs : a.Step b) : b.Mortal := by
  obtain ⟨l, hl⟩ := hs.history
  have hgrow : ∀ {e}, e ∈ a.history → e ∈ b.history := fun he => hl ▸ List.mem_append_right _ he
  have hended : ∀ t, .finish t ∈ a.history → t ∈ b.threads ∧ ¬ b.Lives t := fun t ht => by
    obtain ⟨hm, hn⟩ := h.ended t ht
    exact ⟨hs.threads t hm, fun hb => hn (hs.lives hi hm hb)⟩
  refine ⟨fun t ht => ?_, fun hf => ?_, fun t hm hf => ?_, fun t ht => ?_⟩
  · obtain ⟨l, hl, hh⟩ | ⟨u, -, -, hh⟩ | ⟨hbody, hrun, hst, hh⟩ := hs.turn hi
    · rw [hh] at ht
      exact hended t ((List.mem_append.mp ht).resolve_left fun he => nomatch hl _ he)
    · rw [hh] at ht
      exact hended t ((List.mem_cons.mp ht).resolve_left nofun)
    · rw [hh] at ht
      rcases List.mem_cons.mp ht with he | ht
      · cases he
        refine ⟨hs.threads _ hi.alive.running_mem, fun hlives => ?_⟩
        have := hlives.stage hrun.symm
        rw [hst] at this
        cases this
      · exact hended t ht
  · obtain ⟨hrun, hf | hh⟩ := hs.finishing hi hf
    · exact hrun ▸ hgrow (h.finishing hf)
    · rw [hrun, hh]
      exact List.mem_cons_self
  · rcases hs.finished hm with he | ⟨rfl, hst, -⟩
    · by_cases hma : t ∈ a.threads
      · exact hgrow (h.finished t hma (he.symm.trans hf))
      · have := hs.new_unfinished hm hma
        rw [he.symm.trans hf] at this
        cases this
    · exact hgrow (h.finishing (by rw [hst]; rfl))
  · have hold : t = a.idle → .finish t ∉ a.history := fun he hm =>
      ht (he.trans hs.idle.symm) (hgrow hm)
    have hfinal := h.final t hold
    obtain ⟨l, hl, hh⟩ | ⟨u, hu, -, hh⟩ | ⟨hbody, hrun, hst, hh⟩ := hs.turn hi
    · rw [hh]
      exact hfinal.of_quiet hl
    · rw [hh]
      refine hfinal.cons ?_
      rintro (he | he) hm <;> cases he
      exact hu.elim (fun he => hold he hm) fun hl => (h.ended _ hm).2 hl
    · rw [hh]
      refine hfinal.cons ?_
      rintro (he | he) hm <;> cases he
      by_cases hidle : a.running = a.idle
      · exact hold hidle hm
      · exact (h.ended _ hm).2 ⟨hi.alive.running_mem,
          hi.contexts.unfinished hbody.activity hidle, fun _ => hbody.isFinishing⟩

end Sys

end Os1Kernel
