/-
# What the history says about a thread

A thread waits at a semaphore until it is granted a token, or is dismissed by `close` or by its
`timeout`-th tick, and the wait returns the result that belongs to this cause; or it sleeps until
its `timeout`-th tick; or neither.  `stay` reads off the history which it is, and is `none` if the
history does not fit: a thread is released twice or when its time has not come, or a result does
not belong to the cause.

Nothing in this module is about a state.  It is the automaton of one thread (`Stay.next`,
`Stay.tick`), and what follows for a history that the automaton accepts: from the event with which
a wait began, it lasts, or it was ended once, by a cause that fits and with nothing else happening
to the thread, or it has returned the result of that cause (`stay_called`); and whoever is behind a
wait has begun it and has not returned from it (`stay_behind`).  That the histories of the kernel
are accepted is the invariant of `Records.lean`.
-/
import Os1Kernel.Spec.System

namespace Os1Kernel

/-! ## 1. Stays -/

/-- What a thread is doing. -/
inductive Stay
  /-- Nothing that the kernel ends. -/
  | free
  /-- It waits, and there have been so many ticks since. -/
  | waiting (s : SemPtr) (timeout : Option Nat) (ticks : Nat)
  /-- It is in `time_sleep`. -/
  | sleeping (timeout : Nat) (ticks : Nat)
  /-- It has been released from a wait, which has not returned. -/
  | released (s : SemPtr) (manner : UnblockManner)
  deriving DecidableEq

/-- The thread that begins or ends a stay. -/
def Event.who : Event → Option Tid
  | .blocked _ t _ | .granted _ t | .dismissed _ t | .expired _ t | .returned t _ | .slept t _
  | .woken t => some t
  | _ => none

/-- An event of the thread itself. -/
def Stay.next : Stay → Event → Option Stay
  | .free, .blocked s _ timeout => some (.waiting s timeout 0)
  | .free, .slept _ n => some (.sleeping n 0)
  | .waiting s timeout k, .slept _ n =>
    if timeout = some n ∧ k = 0 then some (.waiting s timeout 0) else none
  | .waiting s timeout k, .granted s' _ =>
    if s' = s ∧ ∀ n ∈ timeout, k < n then some (.released s .regular) else none
  | .waiting s timeout k, .dismissed s' _ =>
    if s' = s ∧ ∀ n ∈ timeout, k < n then some (.released s .onClose) else none
  | .waiting s timeout k, .expired s' _ =>
    if s' = s ∧ timeout = some k then some (.released s .waitTimeout) else none
  | .sleeping n k, .woken _ => if k = n then some .free else none
  | .released _ manner, .returned _ result => if result = manner.result then some .free else none
  | _, _ => none

/-- A tick. -/
def Stay.tick : Stay → Stay
  | .waiting s timeout k => .waiting s timeout (k + 1)
  | .sleeping n k => .sleeping n (k + 1)
  | x => x

/-- The stay of a thread after these events, the last first. -/
def stay (t : Tid) : List Event → Option Stay
  | [] => some .free
  | e :: l => (stay t l).bind fun x =>
    if e.who = some t then x.next e else if e = .tick then some x.tick else some x

/-- The semaphore that the thread goes on behind. -/
def Stay.sem : Stay → Option SemPtr
  | .waiting s _ _ | .released s _ => some s
  | .free | .sleeping .. => none

variable {t u : Tid} {e : Event} {l : List Event} {x y : Stay}

theorem stay_own (h : stay t l = some x) (he : e.who = some t) : stay t (e :: l) = x.next e := by
  rw [stay, h, Option.bind_some, if_pos he]

theorem stay_tick (h : stay t l = some x) : stay t (.tick :: l) = some x.tick := by
  rw [stay, h, Option.bind_some]
  rfl

theorem stay_other (he : e.who ≠ some t) (htick : e ≠ .tick) : stay t (e :: l) = stay t l := by
  simp only [stay, if_neg he, if_neg htick, Option.bind_fun_some]

/-- What was read off a part of the history is not taken back. -/
theorem stay_append (l' : List Event) (h : (stay t (l' ++ l)).isSome = true) :
    (stay t l).isSome = true := by
  induction l' with
  | nil => exact h
  | cons e l' ih =>
    obtain ⟨x, hx⟩ := Option.isSome_iff_exists.mp h
    rw [List.cons_append, stay, Option.bind_eq_some_iff] at hx
    obtain ⟨y, hy, -⟩ := hx
    exact ih (by rw [hy]; rfl)

/-! ## 2. A wait in the history -/

/-- `Sleep::onTick` -/
def Event.isTick : Event → Bool
  | .tick => true
  | _ => false

/-- An event that is nobody's and no tick changes no stay. -/
theorem stay_silent (hw : e.who = none) (ht : e.isTick = false) : stay t (e :: l) = stay t l :=
  stay_other (by rw [hw]; exact Option.some_ne_none t ∘ Eq.symm) (by rintro rfl; cases ht)

/-- Nothing has happened to a waiter but that it fell asleep. -/
def Undisturbed (t : Tid) (timeout : Option Nat) (l : List Event) : Prop :=
  ∀ e ∈ l, e.who = some t → ∃ n, timeout = some n ∧ e = .slept t n

/-- This event ends a wait that has lasted for `k` ticks. -/
def Released (t : Tid) (s : SemPtr) (timeout : Option Nat) (k : Nat) :
    Event → UnblockManner → Prop
  | .granted s' t', .regular => s' = s ∧ t' = t ∧ ∀ n ∈ timeout, k < n
  | .dismissed s' t', .onClose => s' = s ∧ t' = t ∧ ∀ n ∈ timeout, k < n
  | .expired s' t', .waitTimeout => s' = s ∧ t' = t ∧ timeout = some k
  | _, _ => False

/-- One of the events since a wait began has ended it, and nothing has happened to the thread
before or since. -/
inductive Ended (t : Tid) (s : SemPtr) (timeout : Option Nat) (manner : UnblockManner) :
    List Event → Prop
  | now {e : Event} {l : List Event} (h : Undisturbed t timeout l)
    (he : Released t s timeout (l.countP Event.isTick) e manner) : Ended t s timeout manner (e :: l)
  | since {e : Event} {l : List Event} (h : Ended t s timeout manner l) (he : e.who ≠ some t) :
    Ended t s timeout manner (e :: l)

theorem countP_tick (l : List Event) :
    (Event.tick :: l).countP Event.isTick = l.countP Event.isTick + 1 :=
  List.countP_cons_of_pos rfl

theorem countP_other (he : e ≠ .tick) (l : List Event) :
    (e :: l).countP Event.isTick = l.countP Event.isTick := by
  refine List.countP_cons_of_neg ?_
  cases e <;> first | exact Bool.false_ne_true | exact absurd rfl he

theorem next_waiting {s : SemPtr} {timeout : Option Nat} {k : Nat}
    (h : (Stay.waiting s timeout k).next e = some x) (he : e.who = some t) :
    x = .waiting s timeout k ∧ (∃ n, timeout = some n ∧ e = .slept t n) ∨
      ∃ manner, x = .released s manner ∧ Released t s timeout k e manner := by
  have hite : ∀ {p : Prop} [Decidable p] {y : Stay}, (if p then some y else none) = some x →
      p ∧ y = x := fun hif => by
    obtain ⟨hp, hy⟩ := Option.ite_none_right_eq_some.mp hif
    exact ⟨hp, Option.some.inj hy⟩
  cases e with
  | granted s' u | dismissed s' u | expired s' u =>
    obtain rfl := Option.some.inj he
    obtain ⟨hc, rfl⟩ := hite h
    exact Or.inr ⟨_, rfl, hc.1, rfl, hc.2⟩
  | slept u n =>
    obtain rfl := Option.some.inj he
    obtain ⟨⟨rfl, rfl⟩, rfl⟩ := hite h
    exact Or.inl ⟨rfl, n, rfl, rfl⟩
  | blocked | returned | woken => cases h
  | _ => cases he

theorem next_released {s : SemPtr} {manner : UnblockManner}
    (h : (Stay.released s manner).next e = some x) (he : e.who = some t) :
    e = .returned t manner.result := by
  cases e with
  | returned u result =>
    obtain rfl := Option.some.inj he
    rw [(Option.ite_none_right_eq_some.mp h).1]
  | blocked | granted | dismissed | expired | slept | woken => cases h
  | _ => cases he

/-- **What becomes of a wait**: it lasts, or it has been ended, or it has returned the result that
belongs to its end. -/
theorem stay_called {s : SemPtr} {timeout : Option Nat} {since before : List Event}
    (h : (stay t (since ++ .blocked s t timeout :: before)).isSome = true) :
    stay t (since ++ .blocked s t timeout :: before) =
        some (.waiting s timeout (since.countP Event.isTick)) ∧ Undisturbed t timeout since ∨
      (∃ manner, stay t (since ++ .blocked s t timeout :: before) = some (.released s manner) ∧
        Ended t s timeout manner since) ∨
      ∃ later manner earlier, since = later ++ .returned t manner.result :: earlier ∧
        Ended t s timeout manner earlier := by
  induction since with
  | nil =>
    obtain ⟨x, hx⟩ := Option.isSome_iff_exists.mp h
    rw [List.nil_append, stay, Option.bind_eq_some_iff] at hx
    obtain ⟨y, hy, hx⟩ := hx
    rw [if_pos (show (Event.blocked s t timeout).who = some t from rfl)] at hx
    refine Or.inl ⟨?_, by simp [Undisturbed]⟩
    rw [List.nil_append, stay_own hy rfl, hx]
    cases y with
    | free => exact hx.symm
    | waiting | sleeping | released => cases hx
  | cons e since ih =>
    rw [List.cons_append] at h ⊢
    obtain ⟨y, hy⟩ := Option.isSome_iff_exists.mp h
    rcases ih (stay_append [e] h) with ⟨hx, hund⟩ | ⟨manner, hx, hend⟩ | hret
    · by_cases hwho : e.who = some t
      · rw [stay_own hx hwho] at hy ⊢
        rcases next_waiting hy hwho with ⟨rfl, n, rfl, rfl⟩ | ⟨manner, rfl, hrel⟩
        · exact Or.inl ⟨hy, List.forall_mem_cons.mpr ⟨fun _ => ⟨n, rfl, rfl⟩, hund⟩⟩
        · exact Or.inr (Or.inl ⟨manner, hy, .now hund hrel⟩)
      · refine Or.inl ⟨?_, List.forall_mem_cons.mpr ⟨fun he => absurd he hwho, hund⟩⟩
        by_cases htick : e = .tick
        · subst htick
          rw [stay_tick hx, countP_tick]
          rfl
        · rw [stay_other hwho htick, hx, countP_other htick]
    · by_cases hwho : e.who = some t
      · rw [stay_own hx hwho] at hy
        obtain rfl := next_released hy hwho
        exact Or.inr (Or.inr ⟨[], manner, since, rfl, hend⟩)
      · refine Or.inr (Or.inl ⟨manner, ?_, .since hend hwho⟩)
        by_cases htick : e = .tick
        · subst htick
          exact stay_tick hx
        · rw [stay_other hwho htick, hx]
    · obtain ⟨later, manner, earlier, rfl, hend⟩ := hret
      exact Or.inr (Or.inr ⟨e :: later, manner, earlier, rfl, hend⟩)

/-- A thread comes to be behind a wait by calling it, and is so no more when it has returned. -/
theorem next_sem {s : SemPtr} (h : y.next e = some x) (hs : x.sem = some s) :
    (y.sem = some s ∧ ∀ u ret, e ≠ .returned u ret) ∨ ∃ u timeout, e = .blocked s u timeout := by
  cases y with
  | free =>
    cases e with
    | blocked s' u timeout =>
      obtain rfl := Option.some.inj h
      obtain rfl := Option.some.inj hs
      exact Or.inr ⟨u, timeout, rfl⟩
    | slept u n =>
      obtain rfl := Option.some.inj h
      cases hs
    | _ => cases h
  | waiting s' timeout k =>
    cases e with
    | slept | granted | dismissed | expired =>
      obtain ⟨-, h⟩ := Option.ite_none_right_eq_some.mp h
      obtain rfl := Option.some.inj h
      exact Or.inl ⟨hs, by simp⟩
    | _ => cases h
  | sleeping n k =>
    cases e with
    | woken u =>
      obtain ⟨-, h⟩ := Option.ite_none_right_eq_some.mp h
      obtain rfl := Option.some.inj h
      cases hs
    | _ => cases h
  | released s' manner =>
    cases e with
    | returned u ret =>
      obtain ⟨-, h⟩ := Option.ite_none_right_eq_some.mp h
      obtain rfl := Option.some.inj h
      cases hs
    | _ => cases h

/-- **Who is behind a wait has called it**, and has not returned since. -/
theorem stay_behind {s : SemPtr} (h : stay t l = some x) (hs : x.sem = some s) :
    ∃ timeout since before, l = since ++ .blocked s t timeout :: before ∧
      ∀ ret, .returned t ret ∉ since := by
  induction l generalizing x with
  | nil =>
    obtain rfl := Option.some.inj h
    cases hs
  | cons e l ih =>
    rw [stay, Option.bind_eq_some_iff] at h
    obtain ⟨y, hy, h⟩ := h
    have hbefore : y.sem = some s → (∀ ret, e ≠ .returned t ret) → ∃ timeout since before,
        e :: l = since ++ .blocked s t timeout :: before ∧ ∀ ret, .returned t ret ∉ since := by
      intro hys he
      obtain ⟨timeout, since, before, rfl, hnot⟩ := ih hy hys
      exact ⟨timeout, e :: since, before, rfl, fun ret hm =>
        (List.mem_cons.mp hm).elim (fun h => he ret h.symm) (hnot ret)⟩
    by_cases hwho : e.who = some t
    · rw [if_pos hwho] at h
      rcases next_sem h hs with ⟨hys, he⟩ | ⟨u, timeout, rfl⟩
      · exact hbefore hys (he t)
      · obtain rfl := Option.some.inj hwho
        exact ⟨timeout, [], l, rfl, by simp⟩
    · have he : ∀ ret, e ≠ .returned t ret := by
        rintro ret rfl
        exact hwho rfl
      rw [if_neg hwho] at h
      refine hbefore ?_ he
      by_cases htick : e = .tick
      · rw [if_pos htick] at h
        obtain rfl := Option.some.inj h
        rw [← hs]
        cases y <;> rfl
      · rw [if_neg htick] at h
        exact (congrArg Stay.sem (Option.some.inj h)).trans hs

end Os1Kernel
