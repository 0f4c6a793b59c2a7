/-
# The flag of the input routine

`IO::inputRoutine` and the external-interrupt branch of `Kernel::handleSupervisorTrap`, which share
`IO::inputPass`.  The routine is cut where something else can come between: at the test of the
flag, the load of `CONSOLE_STATUS`, the store of its RX bit into the flag, the read of
`CONSOLE_RX_DATA`, and `uPut`.

The store is of a value that may be old.  When a character arrives after the load of a clear bit,
and its interrupt is taken before the store, the wake-up is overwritten, and the routine waits for
a character that is there (`overtaken_lost`).

**What is proved** (`wakeup_kept`): in a run in which no interrupt is taken for a character that
has arrived between such a load and its store, the wake-up is never lost.  Taken there, it is
(`lost_of_not_timely`).

**The invariant** is `Seen`: if there is a character, then the interrupt is pending, or the flag is
set, or the routine is at a point from which it comes to look at the bit again.  The store of a
clear bit keeps it only because the interrupt for a character that has come since is still pending.
-/
import Os1Kernel.Lib.Run

namespace Os1Kernel

open Run

/-! ## 1. The device, the handler and the routine -/

/-- Where `inputRoutine` is. -/
inductive InputPc
  /-- at `!inputPass` -/
  | test
  /-- in `thread_dispatch()` -/
  | dispatch
  /-- before `*((char*)CONSOLE_STATUS)` -/
  | load
  /-- before `inputPass =`, with the RX bit that was loaded -/
  | store (rx : Bool)
  /-- before `*((char*)CONSOLE_RX_DATA)` -/
  | read
  /-- before `inputBuffer->uPut(c)` -/
  | uPut (c : UInt8)
  deriving DecidableEq, Repr

structure InputState where
  /-- `CONSOLE_RX_STATUS_BIT` of `CONSOLE_STATUS` -/
  rxReady : Bool
  /-- `CONSOLE_RX_DATA` -/
  rxData : UInt8
  /-- `CONSOLE_IRQ` is raised, and not yet claimed. -/
  irqPending : Bool
  inputPass : Bool
  pc : InputPc
  /-- The characters put into `inputBuffer`, the last one first. -/
  inputBuffer : List UInt8
  deriving DecidableEq, Repr

inductive InputAct
  /-- A character arrives. -/
  | arrive (c : UInt8)
  /-- The external interrupt is taken. -/
  | interrupt
  /-- The routine makes a step. -/
  | routine
  deriving DecidableEq, Repr

namespace InputState

/-- The device raises an interrupt when the bit goes from 0 to 1. -/
def arrive (s : InputState) (c : UInt8) : InputState :=
  { s with rxReady := true, rxData := c, irqPending := s.irqPending || !s.rxReady }

/-- `plic_claim`, `plic_complete`, and the store into the flag. -/
def interrupt (s : InputState) : InputState := { s with irqPending := false, inputPass := true }

/-- One step of `inputRoutine`. -/
def routine (s : InputState) : InputState :=
  match s.pc with
  | .test => { s with pc := if s.inputPass then .load else .dispatch }
  | .dispatch => { s with pc := .test }
  | .load => { s with pc := .store s.rxReady }
  | .store rx => { s with inputPass := rx, pc := if rx then .read else .test }
  | .read => { s with rxReady := false, pc := .uPut s.rxData }
  | .uPut c => { s with inputBuffer := c :: s.inputBuffer, pc := .load }

def step (s : InputState) : InputAct → Option InputState
  | .arrive c => some (s.arrive c)
  | .interrupt => if s.irqPending then some s.interrupt else none
  | .routine => some s.routine

/-- The state at the start of `inputRoutine`. -/
def start : InputState where
  rxReady := false
  rxData := 0
  irqPending := false
  inputPass := false
  pc := .test
  inputBuffer := []

/-- In the loop `while (!inputPass) thread_dispatch()`. -/
def Waiting (s : InputState) : Prop := (s.pc = .test ∨ s.pc = .dispatch) ∧ s.inputPass = false

/-- The routine waits, nothing is going to wake it, and there is a character. -/
def Lost (s : InputState) : Prop := s.Waiting ∧ s.irqPending = false ∧ s.rxReady = true

/-! ## 2. When no wake-up is lost -/

/-- The step takes no interrupt for a character that has arrived between the load of a clear bit
and its store. -/
def Timely (s : InputState) (act : InputAct) : Prop :=
  act = .interrupt → s.pc = .store false → s.rxReady = false

instance (s : InputState) (act : InputAct) : Decidable (s.Timely act) :=
  inferInstanceAs (Decidable (act = .interrupt → s.pc = .store false → s.rxReady = false))

/-- A character that is there will be seen: by the interrupt, or from where the routine is. -/
def Seen (s : InputState) : Prop :=
  s.rxReady = true → s.irqPending = true ∨
    match s.pc with
    | .test | .dispatch => s.inputPass = true
    | .store rx => rx = true
    | .load | .read | .uPut _ => True

variable {s t : InputState} {act : InputAct} {acts : List InputAct}

theorem Seen.not_lost (h : s.Seen) : ¬ s.Lost := by
  rintro ⟨⟨hpc, hpass⟩, hirq, hrx⟩
  rcases h hrx with h | h
  · rw [hirq] at h
    cases h
  · rcases hpc with hpc | hpc
    all_goals
      rw [hpc, hpass] at h
      cases h

theorem Seen.arrive (h : s.Seen) (c : UInt8) : (s.arrive c).Seen := by
  intro _
  cases hrx : s.rxReady with
  | false => exact Or.inl (by simp [InputState.arrive, hrx])
  | true => exact (h hrx).imp (fun hirq => by simp [InputState.arrive, hirq]) id

theorem Seen.interrupt (hpc : s.pc = .store false → s.rxReady = false) : s.interrupt.Seen := by
  intro hrx
  refine Or.inr ?_
  simp only [InputState.interrupt]
  split
  · trivial
  · trivial
  · next rx hs =>
    refine Bool.of_not_eq_false fun he => ?_
    have hclear : s.interrupt.rxReady = false := hpc (he ▸ hs)
    rw [hclear] at hrx
    cases hrx
  all_goals trivial

theorem Seen.routine (h : s.Seen) : s.routine.Seen := by
  unfold InputState.routine
  split
  · next hpc =>
    intro hrx
    refine (h hrx).imp id fun hpass => ?_
    rw [hpc] at hpass
    have hp : s.inputPass = true := hpass
    simp only [hp, if_true]
  · next hpc =>
    intro hrx
    refine (h hrx).imp id fun hpass => ?_
    rwa [hpc] at hpass
  · exact fun hrx => Or.inr hrx
  · next rx hpc =>
    intro hrx
    refine (h hrx).imp id fun hload => ?_
    rw [hpc] at hload
    have hb : rx = true := hload
    simp only [hb, if_true]
  · intro hrx
    cases hrx
  · exact fun _ => Or.inr trivial

theorem Seen.step (h : s.Seen) (ht : s.Timely act) (hs : s.step act = some t) : t.Seen := by
  cases act with
  | arrive c =>
    cases hs
    exact h.arrive c
  | interrupt =>
    rw [InputState.step] at hs
    split at hs
    · cases hs
      exact Seen.interrupt (ht rfl)
    · cases hs
  | routine =>
    cases hs
    exact h.routine

/-- Behind a step that is not timely, the routine's next step loses the wake-up. -/
theorem lost_of_not_timely (ht : ¬ s.Timely act) (hs : s.step act = some t) : t.routine.Lost := by
  simp only [Timely, Classical.not_imp, Bool.not_eq_false] at ht
  obtain ⟨rfl, hpc, hrx⟩ := ht
  rw [InputState.step] at hs
  split at hs
  · cases hs
    refine ⟨⟨Or.inl ?_, ?_⟩, ?_, ?_⟩
    all_goals simp [InputState.routine, InputState.interrupt, hpc, hrx]
  · cases hs

/-- **No wake-up is lost while no such interrupt comes between load and store.**  The device, the
handler and the routine take their steps in any order, from the start of the routine; in no state
of such a run does the routine wait while a character is there and nothing is going to wake it. -/
theorem wakeup_kept (hacts : AllSteps InputState.step Timely start acts)
    (hrun : run InputState.step start acts = some s) : ¬ s.Lost :=
  (run_invariant_of (fun _ _ _ hp hc hs => Seen.step hp hc hs)
    (fun h => absurd h Bool.false_ne_true) hacts hrun).not_lost

/-- The routine has read a character and loads the clear bit; the next one arrives before the store
of it, but its interrupt is taken behind the store, and the routine reads that character too. -/
def justInTime : List InputAct :=
  [.arrive 97, .interrupt, .routine, .routine, .routine, .routine, .routine, .routine,
    .arrive 98, .routine, .interrupt, .routine, .routine, .routine, .routine, .routine]

theorem wakeup_kept_run : ∃ s, run InputState.step start justInTime = some s ∧
    s.inputBuffer = [98, 97] ∧ ¬ s.Lost := by
  have hacts : AllSteps InputState.step Timely start justInTime := by decide
  exact ⟨_, rfl, rfl, wakeup_kept hacts rfl⟩

/-- A character is received; before the bit that was loaded after it is stored, the next one
arrives with its interrupt. -/
def overtaken : List InputAct :=
  [.arrive 97, .interrupt, .routine, .routine, .routine, .routine, .routine, .routine,
    .arrive 98, .interrupt, .routine]

/-- The routine has loaded a clear bit.  The character comes, its interrupt sets the flag, and the
store of the old bit clears it: the routine waits, and the bit in the device stays set. -/
theorem overtaken_lost : ∃ s, run InputState.step start overtaken = some s ∧ s.Lost := by
  refine ⟨_, rfl, ⟨Or.inl ?_, ?_⟩, ?_, ?_⟩
  all_goals decide

end InputState

end Os1Kernel
