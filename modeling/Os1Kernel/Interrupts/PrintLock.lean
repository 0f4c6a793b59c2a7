/-
# The print lock and the exception handler

`mLockPrint`, the macros `MLOCK` and `MUNLOCK`, and the default branch of
`Kernel::handleSupervisorTrap`, which prints through the same lock as everybody else, from inside
the trap of the thread that raised the exception, and then finishes that thread.

Between two attempts at the lock a thread dispatches, so any interleaving of the threads is
possible.  The lock does not know its owner; the state does.

**What is proved** (`exception_path_goes_on`): in a run in which no thread raises an exception
while it holds the lock, no handler waits for its own thread, and a handler goes on to finish its
thread, by steps of this thread alone, as soon as nobody else holds the lock.  A thread that does
raise an exception inside its section waits in the handler for a lock that only it could release
(`selfBlocked_of_not_careful`, `fault_inside_blocks`).

**The invariant** (`Owned`): the lock is taken exactly if it has an owner, and the owner is the one
thread that is inside a section.  The handler's own section is like any other, and so a handler
that waits waits for somebody else.
-/
import Mathlib.Logic.Function.Basic
import Os1Kernel.Lib.Run

namespace Os1Kernel

open Run

/-! ## 1. The lock and the threads -/

/-- `m_copy_and_swap`: the result, 0 if successful, and the lock afterwards. -/
def m_copy_and_swap (lock expected desired : Nat) : Nat × Nat :=
  if lock = expected then (0, desired) else (1, lock)

/-- The default branch calls `mPrintString` once and `log` six times, each of which is bracketed
by `MLOCK` and `MUNLOCK`. -/
def handlerPrints : Nat := 7

/-- Where a thread is with regard to the bracketed sections. -/
inductive Section
  | outside
  /-- in the loop of `MLOCK` -/
  | spin
  /-- between `MLOCK` and `MUNLOCK` -/
  | inside
  deriving DecidableEq, Repr

structure Printer where
  /-- In the default branch of the handler, with so many prints to do. -/
  handler : Option Nat
  sect : Section
  finished : Bool
  deriving DecidableEq, Repr

structure PrintState where
  mLockPrint : Nat
  /-- Who acquired the lock. -/
  owner : Option Nat
  thread : Nat → Printer

inductive PrintAct
  /-- A thread comes to an `MLOCK`. -/
  | enter (t : Nat)
  /-- It tries `m_copy_and_swap(mLockPrint, 0, 1)`, and dispatches if that fails. -/
  | mlock (t : Nat)
  /-- It tries `m_copy_and_swap(mLockPrint, 1, 0)`. -/
  | munlock (t : Nat)
  /-- It raises an exception in its body. -/
  | fault (t : Nat)
  /-- The handler finishes it. -/
  | finish (t : Nat)
  deriving DecidableEq, Repr

/-- The thread that makes the step. -/
def PrintAct.by' : PrintAct → Nat
  | enter t | mlock t | munlock t | fault t | finish t => t

namespace PrintState

def setThread (s : PrintState) (t : Nat) (p : Printer) : PrintState :=
  { s with thread := Function.update s.thread t p }

def step (s : PrintState) : PrintAct → Option PrintState
  | .enter t =>
    let p := s.thread t
    if p.finished = false ∧ p.sect = .outside ∧ p.handler ≠ some 0 then
      some (s.setThread t { p with sect := .spin })
    else none
  | .mlock t =>
    let p := s.thread t
    if p.finished = false ∧ p.sect = .spin then
      let r := m_copy_and_swap s.mLockPrint 0 1
      if r.1 = 0 then
        some { s.setThread t { p with sect := .inside } with mLockPrint := r.2, owner := some t }
      else some s
    else none
  | .munlock t =>
    let p := s.thread t
    if p.finished = false ∧ p.sect = .inside then
      let r := m_copy_and_swap s.mLockPrint 1 0
      if r.1 = 0 then
        some { s.setThread t { p with sect := .outside, handler := p.handler.map (· - 1) } with
          mLockPrint := r.2, owner := none }
      else some s
    else none
  | .fault t =>
    let p := s.thread t
    if p.finished = false ∧ p.handler = none then
      some (s.setThread t { p with handler := some handlerPrints, sect := .outside })
    else none
  | .finish t =>
    let p := s.thread t
    if p.finished = false ∧ p.sect = .outside ∧ p.handler = some 0 then
      some (s.setThread t { p with finished := true })
    else none

def start : PrintState where
  mLockPrint := 0
  owner := none
  thread _ := ⟨none, .outside, false⟩

/-- The handler waits for a lock that its own thread holds. -/
def SelfBlocked (s : PrintState) (t : Nat) : Prop :=
  (s.thread t).handler ≠ none ∧ (s.thread t).sect = .spin ∧ s.owner = some t

/-- No thread raises an exception while it holds the lock. -/
def Careful (s : PrintState) (act : PrintAct) : Prop :=
  ∀ t, act = .fault t → (s.thread t).sect ≠ .inside

/-! ## 2. The owner is inside -/

structure Owned (s : PrintState) : Prop where
  lock : s.mLockPrint = if s.owner = none then 0 else 1
  inside : ∀ t, (s.thread t).sect = .inside ↔ s.owner = some t
  /-- Behind its last print a handler enters no section. -/
  done : ∀ t, (s.thread t).handler = some 0 → (s.thread t).sect = .outside

variable {s s' : PrintState} {t u : Nat} {act : PrintAct} {acts : List PrintAct}

@[simp] theorem setThread_thread (p : Printer) :
    (s.setThread t p).thread = Function.update s.thread t p := rfl

@[simp] theorem setThread_owner (p : Printer) : (s.setThread t p).owner = s.owner := rfl

@[simp] theorem setThread_lock (p : Printer) : (s.setThread t p).mLockPrint = s.mLockPrint := rfl

theorem owned_start : Owned start where
  lock := rfl
  inside t := by simp [start]
  done t := by simp [start]

theorem Owned.not_selfBlocked (h : s.Owned) : ¬ s.SelfBlocked t := by
  rintro ⟨-, hsect, howner⟩
  have := (h.inside t).mpr howner
  rw [hsect] at this
  cases this

/-- A thread moves outside the section. -/
theorem Owned.setThread (h : s.Owned) {p : Printer} (hp : p.sect ≠ .inside)
    (hdone : p.handler = some 0 → p.sect = .outside) (ht : (s.thread t).sect ≠ .inside) :
    (s.setThread t p).Owned := by
  refine ⟨h.lock, fun u => ?_, fun u => ?_⟩
  · by_cases hu : u = t
    · subst hu
      have : s.owner ≠ some u := fun he => ht ((h.inside u).mpr he)
      simp [hp, this]
    · simp [Function.update_of_ne hu, h.inside u]
  · by_cases hu : u = t
    · subst hu
      simpa using hdone
    · simpa [Function.update_of_ne hu] using h.done u

/-- A thread acquires the lock. -/
theorem Owned.acquire (h : s.Owned) (howner : s.owner = none) {p : Printer}
    (hp : p.handler ≠ some 0) : Owned { s.setThread t { p with sect := .inside } with
      mLockPrint := 1, owner := some t } := by
  refine ⟨rfl, fun u => ?_, fun u => ?_⟩
  · by_cases hu : u = t
    · subst hu
      simp
    · have hne : t ≠ u := Ne.symm hu
      simp [Function.update_of_ne hu, h.inside u, howner, hne]
  · by_cases hu : u = t
    · subst hu
      simp [hp]
    · simpa [Function.update_of_ne hu] using h.done u

/-- A thread releases the lock. -/
theorem Owned.release (h : s.Owned) (howner : s.owner = some t) {p : Printer}
    (hp : p.sect = .outside) : Owned { s.setThread t p with mLockPrint := 0, owner := none } := by
  refine ⟨rfl, fun u => ?_, fun u => ?_⟩
  · by_cases hu : u = t
    · subst hu
      simp [hp]
    · have hne : t ≠ u := Ne.symm hu
      simp [Function.update_of_ne hu, h.inside u, howner, hne]
  · by_cases hu : u = t
    · subst hu
      simp [hp]
    · simpa [Function.update_of_ne hu] using h.done u

theorem Owned.owner_none (h : s.Owned) (hlock : s.mLockPrint = 0) : s.owner = none := by
  by_contra hne
  rw [h.lock, if_neg hne] at hlock
  cases hlock

theorem Owned.step (h : s.Owned) (hc : s.Careful act) (hs : s.step act = some s') : s'.Owned := by
  cases act with
  | enter t =>
    simp only [PrintState.step] at hs
    split at hs
    · next hcond =>
      cases hs
      exact h.setThread nofun (fun he => absurd he hcond.2.2) (by simp [hcond.2.1])
    · cases hs
  | mlock t =>
    simp only [PrintState.step] at hs
    split at hs
    · next hcond =>
      have hne : (s.thread t).handler ≠ some 0 := fun he => by
        have := h.done t he
        rw [hcond.2] at this
        cases this
      by_cases hlock : s.mLockPrint = 0
      · rw [m_copy_and_swap, if_pos hlock] at hs
        cases hs
        exact h.acquire (h.owner_none hlock) hne
      · rw [m_copy_and_swap, if_neg hlock] at hs
        cases hs
        exact h
    · cases hs
  | munlock t =>
    simp only [PrintState.step] at hs
    split at hs
    · next hcond =>
      have howner := (h.inside t).mp hcond.2
      have hlock : s.mLockPrint = 1 := by rw [h.lock, howner, if_neg (Option.some_ne_none t)]
      rw [m_copy_and_swap, if_pos hlock] at hs
      cases hs
      exact h.release howner rfl
    · cases hs
  | fault t =>
    simp only [PrintState.step] at hs
    split at hs
    · cases hs
      exact h.setThread nofun (fun _ => rfl) (hc t rfl)
    · cases hs
  | finish t =>
    simp only [PrintState.step] at hs
    split at hs
    · next hcond =>
      cases hs
      exact h.setThread (by simp [hcond.2.1]) (fun _ => hcond.2.1) (by simp [hcond.2.1])
    · cases hs

theorem owned_run (hacts : AllSteps step Careful start acts) (hrun : run step start acts = some s) :
    s.Owned :=
  run_invariant_of (fun _ _ _ hp hc hs => hp.step hc hs) owned_start hacts hrun

/-! ## 3. The handler goes on -/

/-- Steps of the thread `t` alone lead from one state to another. -/
def Reaches (t : Nat) (s s' : PrintState) : Prop :=
  ∃ acts, (∀ act ∈ acts, PrintAct.by' act = t) ∧ run step s acts = some s'

theorem Reaches.trans {s₁ s₂ s₃ : PrintState} (h : Reaches t s₁ s₂) (h' : Reaches t s₂ s₃) :
    Reaches t s₁ s₃ := by
  obtain ⟨acts, hby, hrun⟩ := h
  obtain ⟨acts', hby', hrun'⟩ := h'
  refine ⟨acts ++ acts', fun act hact => ?_, ?_⟩
  · exact (List.mem_append.mp hact).elim (hby act) (hby' act)
  · rw [run_append, hrun, Option.bind_some, hrun']

theorem Reaches.single (hs : s.step act = some s') (hby : act.by' = t) : Reaches t s s' :=
  ⟨[act], by simpa using hby, by simp [hs]⟩

/-- Inside its section the handler ends the print. -/
theorem Owned.print_inside (h : s.Owned) {n : Nat}
    (ht : s.thread t = ⟨some (n + 1), .inside, false⟩) :
    ∃ s', Reaches t s s' ∧ s'.Owned ∧ s'.thread t = ⟨some n, .outside, false⟩ ∧ s'.owner = none := by
  have howner := (h.inside t).mp (by rw [ht])
  have hlock : s.mLockPrint = 1 := by rw [h.lock, howner, if_neg (Option.some_ne_none t)]
  have hstep : s.step (.munlock t) = some { s.setThread t ⟨some n, .outside, false⟩ with
      mLockPrint := 0, owner := none } := by
    simp [PrintState.step, ht, m_copy_and_swap, hlock]
  exact ⟨_, .single hstep rfl, h.release howner rfl, by simp, rfl⟩

/-- In front of a free lock it goes inside. -/
theorem Owned.print_spin (h : s.Owned) {n : Nat} (ht : s.thread t = ⟨some (n + 1), .spin, false⟩)
    (howner : s.owner = none) :
    ∃ s', Reaches t s s' ∧ s'.Owned ∧ s'.thread t = ⟨some n, .outside, false⟩ ∧ s'.owner = none := by
  have hlock : s.mLockPrint = 0 := by rw [h.lock, howner, if_pos rfl]
  have hstep : s.step (.mlock t) = some { s.setThread t ⟨some (n + 1), .inside, false⟩ with
      mLockPrint := 1, owner := some t } := by
    simp [PrintState.step, ht, m_copy_and_swap, hlock]
  have howned := h.acquire (t := t) howner (p := ⟨some (n + 1), .spin, false⟩) (by simp)
  obtain ⟨s', hreach, hrest⟩ := howned.print_inside (t := t) (n := n) (by simp)
  exact ⟨s', (Reaches.single hstep rfl).trans hreach, hrest⟩

theorem Owned.print (h : s.Owned) {n : Nat} {sect : Section}
    (ht : s.thread t = ⟨some (n + 1), sect, false⟩) (howner : s.owner = none ∨ s.owner = some t) :
    ∃ s', Reaches t s s' ∧ s'.Owned ∧ s'.thread t = ⟨some n, .outside, false⟩ ∧ s'.owner = none := by
  have hnone : sect ≠ .inside → s.owner = none := fun hne => howner.resolve_right fun he => hne (by
    have := (h.inside t).mpr he
    rwa [ht] at this)
  cases sect with
  | inside => exact h.print_inside ht
  | spin => exact h.print_spin ht (hnone nofun)
  | outside =>
    have hstep : s.step (.enter t) = some (s.setThread t ⟨some (n + 1), .spin, false⟩) := by
      simp [PrintState.step, ht]
    have howned := h.setThread (t := t) (p := ⟨some (n + 1), .spin, false⟩) nofun nofun
      (by simp [ht])
    obtain ⟨s', hreach, hrest⟩ := howned.print_spin (t := t) (n := n) (by simp) (hnone nofun)
    exact ⟨s', (Reaches.single hstep rfl).trans hreach, hrest⟩

/-- Print after print, and then `TCB::finish`. -/
theorem Owned.finishes (h : s.Owned) {n : Nat} {sect : Section}
    (ht : s.thread t = ⟨some n, sect, false⟩) (howner : s.owner = none ∨ s.owner = some t) :
    ∃ s', Reaches t s s' ∧ (s'.thread t).finished = true := by
  induction n generalizing s sect with
  | zero =>
    have hsect : sect = .outside := by
      have := h.done t (by rw [ht])
      rwa [ht] at this
    have hstep : s.step (.finish t) = some (s.setThread t ⟨some 0, .outside, true⟩) := by
      simp [PrintState.step, ht, hsect]
    exact ⟨_, .single hstep rfl, by simp⟩
  | succ n ih =>
    obtain ⟨s₁, hreach, howned, ht₁, hnone⟩ := h.print ht howner
    obtain ⟨s₂, hreach₂, hfin⟩ := ih howned ht₁ (Or.inl hnone)
    exact ⟨s₂, hreach.trans hreach₂, hfin⟩

/-- **The exception path when no thread faults inside a section.**  No handler waits for its own
thread, and a handler goes on to finish the thread as soon as nobody else holds the lock. -/
theorem exception_path_goes_on (hacts : AllSteps step Careful start acts)
    (hrun : run step start acts = some s) :
    (∀ t, ¬ s.SelfBlocked t) ∧
      ∀ t, (s.thread t).handler ≠ none → (s.thread t).finished = false →
        (s.owner = none ∨ s.owner = some t) →
        ∃ s', Reaches t s s' ∧ (s'.thread t).finished = true := by
  have howned := owned_run hacts hrun
  refine ⟨fun t => howned.not_selfBlocked, fun t hhandler hfin howner => ?_⟩
  obtain ⟨n, hn⟩ := Option.ne_none_iff_exists'.mp hhandler
  have ht : s.thread t = ⟨some n, (s.thread t).sect, false⟩ := by rw [← hn, ← hfin]
  exact howned.finishes ht howner

/-- A thread prints, and the steps of its handler after an exception outside the section. -/
theorem exception_path_goes_on_run : ∃ s,
    run step start [.enter 0, .mlock 0, .munlock 0, .fault 0] = some s ∧
      ∃ s', Reaches 0 s s' ∧ (s'.thread 0).finished = true := by
  have hacts : AllSteps step Careful start [.enter 0, .mlock 0, .munlock 0, .fault 0] := by
    refine ⟨nofun, fun _ h₁ => ⟨nofun, fun _ h₂ => ⟨nofun, fun _ h₃ => ⟨?_, fun _ _ => trivial⟩⟩⟩⟩
    cases h₁
    cases h₂
    cases h₃
    intro t ht
    cases ht
    decide
  refine ⟨_, rfl, (exception_path_goes_on hacts rfl).2 0 ?_ ?_ (Or.inl ?_)⟩
  all_goals decide

/-- A fault inside a section, and the handler's first `MLOCK`. -/
theorem selfBlocked_of_not_careful (hs : s.Owned) (hc : ¬ s.Careful act)
    (hfault : s.step act = some s') :
    ∃ t s'', act = .fault t ∧ s'.step (.enter t) = some s'' ∧ s''.SelfBlocked t := by
  simp only [Careful, Classical.not_forall, not_not] at hc
  obtain ⟨t, rfl, hinside⟩ := hc
  simp only [PrintState.step] at hfault
  split at hfault
  · next hcond =>
    cases hfault
    refine ⟨t, (s.setThread t ⟨some handlerPrints, .spin, false⟩), rfl, ?_, ?_, ?_, ?_⟩
    · simp [PrintState.step, hcond.1, handlerPrints, setThread]
    · simp
    · simp
    · exact (hs.inside t).mp hinside
  · cases hfault

/-- `mPrintString` with a pointer that cannot be read: the thread faults between `MLOCK` and
`MUNLOCK`, and every attempt of its handler at the lock leaves everything as it is. -/
theorem fault_inside_blocks : ∃ s,
    run step start [.enter 0, .mlock 0, .fault 0, .enter 0] = some s ∧ s.SelfBlocked 0 ∧
      s.step (.mlock 0) = some s := by
  refine ⟨_, rfl, ⟨?_, ?_, ?_⟩, rfl⟩
  all_goals decide

end PrintState

end Os1Kernel
