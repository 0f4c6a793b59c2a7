/-
# The output routine

`IO::outputRoutine`, the console that transmits one character at a time, the external-interrupt
branch of `Kernel::handleSupervisorTrap`, which sets `IO::outputPass`, and the threads that put
characters into `outputBuffer`.  The routine is cut where something else can come between.  In
`uGet` it may wait for long, with the bit of `CONSOLE_STATUS` loaded before.

* `output_accounts`: in every interleaving, what has appeared on the console, what is being
  transmitted, what the routine has in its hand and what is in the buffer is what was put in, in
  this order.  The reason is that the routine writes only while the device is ready, so that no
  write is lost (`Agree`): between the load of the set bit and the write nobody else writes.
* `output_goes_on`: if no interrupt has been taken between a load of a clear bit and the store of
  it, unless the device was still busy, then a device that is ready, and whose interrupt has been
  taken, gets the next character within six steps of the routine.  The invariant is `Noticed`, and
  the measure is how many steps the routine is away from the write (`OutputPc.left`).

As in `inputRoutine` the store into the flag may be of a value that is old.
-/
import Os1Kernel.Kernel.State
import Os1Kernel.Lib.Run

namespace Os1Kernel

open Run

/-! ## 1. The device, the handler, the routine and the writers -/

/-- Where `outputRoutine` is. -/
inductive OutputPc
  /-- at `!outputPass` -/
  | test
  /-- in `thread_dispatch()` -/
  | dispatch
  /-- before `*((char*)CONSOLE_STATUS)` -/
  | load
  /-- before `outputPass =`, with the TX bit that was loaded -/
  | store (tx : Bool)
  /-- before `outputBuffer->uGet()`, or waiting in it -/
  | uGet
  /-- before `*((char*)CONSOLE_TX_DATA) = c` -/
  | write (c : UInt8)
  deriving DecidableEq, Repr

/-- The character that the routine has taken from the buffer. -/
def OutputPc.hand : OutputPc → List UInt8
  | .write c => [c]
  | _ => []

/-- The routine has loaded the set bit, and has not written the character yet. -/
def OutputPc.loaded : OutputPc → Bool
  | .store tx => tx
  | .uGet | .write _ => true
  | _ => false

/-- From here the routine comes to a write while the device is ready, with the flag as it is. -/
def OutputPc.onWay (outputPass : Bool) : OutputPc → Prop
  | .test | .dispatch => outputPass = true
  | .store tx => tx = true
  | .load | .uGet | .write _ => True

/-- How many of its steps are left to that. -/
def OutputPc.left : OutputPc → Nat
  | .write _ => 1
  | .uGet => 2
  | .store _ => 3
  | .load => 4
  | .test => 5
  | .dispatch => 6

theorem OutputPc.left_bounds (pc : OutputPc) : 0 < pc.left ∧ pc.left ≤ 6 := by
  cases pc <;> simp [left]

structure OutputState where
  /-- `CONSOLE_TX_STATUS_BIT` of `CONSOLE_STATUS` -/
  txReady : Bool
  /-- The character that is being transmitted. -/
  txData : Option UInt8
  /-- What was transmitted, in order. -/
  console : List UInt8
  /-- `CONSOLE_IRQ` is raised, and not yet claimed. -/
  irqPending : Bool
  outputPass : Bool
  pc : OutputPc
  /-- The characters in `outputBuffer`, the oldest first. -/
  outputBuffer : List UInt8
  /-- What was put into it, in order. -/
  put : List UInt8
  /-- What was stored to `CONSOLE_TX_DATA`, in order. -/
  written : List UInt8
  deriving DecidableEq, Repr

inductive OutputAct
  /-- A thread puts a character into the buffer. -/
  | kPut (c : UInt8)
  /-- The device has transmitted its character. -/
  | transmitted
  /-- The device raises its interrupt for another reason: a character has arrived. -/
  | raise
  /-- The external interrupt is taken. -/
  | interrupt
  /-- The routine makes a step. -/
  | routine
  deriving DecidableEq, Repr

namespace OutputState

/-- A store to `CONSOLE_TX_DATA`; if the device is busy, the character in it is lost. -/
def write (s : OutputState) (c : UInt8) : OutputState :=
  { s with txReady := false, txData := some c, written := s.written ++ [c], pc := .load }

/-- One step of `outputRoutine`. -/
def routine (s : OutputState) : OutputState :=
  match s.pc with
  | .test => { s with pc := if s.outputPass then .load else .dispatch }
  | .dispatch => { s with pc := .test }
  | .load => { s with pc := .store s.txReady }
  | .store tx => { s with outputPass := tx, pc := if tx then .uGet else .test }
  | .uGet =>
    match s.outputBuffer with
    | [] => s
    | c :: buffer => { s with outputBuffer := buffer, pc := .write c }
  | .write c => s.write c

def step (s : OutputState) : OutputAct → Option OutputState
  | .kPut c =>
    if s.outputBuffer.length < bufferLength then
      some { s with outputBuffer := s.outputBuffer ++ [c], put := s.put ++ [c] }
    else none
  | .transmitted =>
    match s.txData with
    | some c =>
      some { s with txData := none, txReady := true, irqPending := true,
                    console := s.console ++ [c] }
    | none => none
  | .raise => some { s with irqPending := true }
  | .interrupt =>
    if s.irqPending then some { s with irqPending := false, outputPass := true } else none
  | .routine => some s.routine

/-- The state at the start of `outputRoutine`: the device is ready, and has said so. -/
def start : OutputState where
  txReady := true
  txData := none
  console := []
  irqPending := true
  outputPass := false
  pc := .test
  outputBuffer := []
  put := []
  written := []

variable {s t : OutputState} {act : OutputAct} {acts : List OutputAct}

/-! ## 2. No character is lost -/

/-- The device and the routine agree. -/
structure Agree (s : OutputState) : Prop where
  ready : s.txReady = s.txData.isNone
  /-- Behind a load of the set bit the device stays ready. -/
  loaded : s.pc.loaded = true → s.txReady = true
  written : s.console ++ s.txData.toList = s.written
  put : s.written ++ s.pc.hand ++ s.outputBuffer = s.put

theorem agree_start : Agree start where
  ready := rfl
  loaded _ := rfl
  written := rfl
  put := rfl

theorem Agree.txData_eq_none (h : s.Agree) (hpc : s.pc.loaded = true) : s.txData = none := by
  rw [← Option.isNone_iff_eq_none, ← h.ready]
  exact h.loaded hpc

theorem Agree.routine (h : s.Agree) : s.routine.Agree := by
  have hnone := h.txData_eq_none
  obtain ⟨hready, hloaded, hwritten, hput⟩ := h
  rcases s with ⟨ready, data, console, irq, pass, pc, buffer, put, written⟩
  cases pc with
  | test =>
    cases pass with
    | false => exact ⟨hready, nofun, hwritten, hput⟩
    | true => exact ⟨hready, nofun, hwritten, hput⟩
  | dispatch => exact ⟨hready, nofun, hwritten, hput⟩
  | load => exact ⟨hready, id, hwritten, hput⟩
  | store tx =>
    cases tx with
    | false => exact ⟨hready, nofun, hwritten, hput⟩
    | true => exact ⟨hready, fun _ => hloaded rfl, hwritten, hput⟩
  | uGet =>
    cases buffer with
    | nil => exact ⟨hready, hloaded, hwritten, hput⟩
    | cons c buffer =>
      refine ⟨hready, fun _ => hloaded rfl, hwritten, ?_⟩
      simpa [OutputState.routine, OutputPc.hand] using hput
  | write c =>
    obtain rfl : data = none := hnone rfl
    refine ⟨rfl, nofun, ?_, ?_⟩
    · simpa [OutputState.routine, OutputState.write] using hwritten
    · simpa [OutputState.routine, OutputState.write, OutputPc.hand] using hput

theorem Agree.step (h : s.Agree) (hs : s.step act = some t) : t.Agree := by
  cases act with
  | kPut c =>
    obtain ⟨-, ⟨⟩⟩ := Option.ite_none_right_eq_some.mp hs
    refine ⟨h.ready, h.loaded, h.written, ?_⟩
    rw [← List.append_assoc, h.put]
  | transmitted =>
    rw [OutputState.step] at hs
    split at hs
    · next c hc =>
      cases hs
      refine ⟨rfl, fun _ => rfl, ?_, h.put⟩
      have hwritten := h.written
      rw [hc] at hwritten
      simpa using hwritten
    · cases hs
  | raise =>
    cases hs
    exact ⟨h.ready, h.loaded, h.written, h.put⟩
  | interrupt =>
    obtain ⟨-, ⟨⟩⟩ := Option.ite_none_right_eq_some.mp hs
    exact ⟨h.ready, h.loaded, h.written, h.put⟩
  | routine =>
    cases hs
    exact h.routine

theorem agree_run (hrun : run OutputState.step start acts = some s) : s.Agree :=
  run_invariant (fun _ _ _ hp hs => hp.step hs) agree_start hrun

/-! ## 3. The routine goes on -/

/-- The step takes no interrupt between the load of a clear bit and its store, unless the device
is still busy. -/
def Timely (s : OutputState) (act : OutputAct) : Prop :=
  act = .interrupt → s.pc = .store false → s.txReady = false

instance (s : OutputState) (act : OutputAct) : Decidable (s.Timely act) :=
  inferInstanceAs (Decidable (_ → _))

/-- When the device is ready, the routine is going to see it: by the interrupt, or from where it
is. -/
def Noticed (s : OutputState) : Prop :=
  s.txReady = true → s.irqPending = true ∨ s.pc.onWay s.outputPass

theorem noticed_start : Noticed start := fun _ => Or.inl rfl

theorem Noticed.routine (h : s.Noticed) : s.routine.Noticed := by
  rcases s with ⟨ready, data, console, irq, pass, pc, buffer, put, written⟩
  cases pc with
  | test =>
    cases pass with
    | false => exact h
    | true => exact fun _ => Or.inr trivial
  | dispatch => exact h
  | load => exact fun hready => Or.inr hready
  | store tx =>
    cases tx with
    | false => exact h
    | true => exact fun _ => Or.inr trivial
  | uGet =>
    cases buffer with
    | nil => exact h
    | cons c buffer => exact fun _ => Or.inr trivial
  | write c => nofun

theorem Noticed.interrupt (hpc : s.pc = .store false → s.txReady = false) :
    Noticed { s with irqPending := false, outputPass := true } := by
  rcases s with ⟨ready, data, console, irq, pass, pc, buffer, put, written⟩
  intro hready
  refine Or.inr ?_
  cases pc with
  | test | dispatch => rfl
  | store tx =>
    refine Bool.of_not_eq_false fun he => ?_
    have hclear : ready = false := hpc (congrArg OutputPc.store he)
    exact absurd (hclear.symm.trans hready) Bool.false_ne_true
  | load | uGet | write c => trivial

theorem Noticed.step (h : s.Noticed) (ht : s.Timely act) (hs : s.step act = some t) :
    t.Noticed := by
  cases act with
  | kPut c =>
    obtain ⟨-, ⟨⟩⟩ := Option.ite_none_right_eq_some.mp hs
    exact h
  | transmitted =>
    rw [OutputState.step] at hs
    split at hs
    · cases hs
      exact fun _ => Or.inl rfl
    · cases hs
  | raise =>
    cases hs
    exact fun _ => Or.inl rfl
  | interrupt =>
    obtain ⟨-, ⟨⟩⟩ := Option.ite_none_right_eq_some.mp hs
    exact Noticed.interrupt (ht rfl)
  | routine =>
    cases hs
    exact h.routine

theorem noticed_run (hacts : AllSteps OutputState.step Timely start acts)
    (hrun : run OutputState.step start acts = some s) : s.Noticed :=
  run_invariant_of (fun _ _ _ hp hc hs => hp.step hc hs) noticed_start hacts hrun

/-- The routine is on its way to write a character. -/
structure Going (s : OutputState) : Prop where
  ready : s.txReady = true
  idle : s.txData = none
  char : s.pc.hand ++ s.outputBuffer ≠ []
  way : s.pc.onWay s.outputPass

theorem Going.routine (h : s.Going) : s.written.length < s.routine.written.length ∨
    s.routine.Going ∧ s.routine.pc.left < s.pc.left := by
  obtain ⟨hready, hidle, hchar, hway⟩ := h
  rcases s with ⟨ready, data, console, irq, pass, pc, buffer, put, written⟩
  cases pc with
  | test =>
    obtain rfl : pass = true := hway
    exact Or.inr ⟨⟨hready, hidle, hchar, trivial⟩, Nat.lt_succ_self _⟩
  | dispatch => exact Or.inr ⟨⟨hready, hidle, hchar, hway⟩, Nat.lt_succ_self _⟩
  | load => exact Or.inr ⟨⟨hready, hidle, hchar, hready⟩, Nat.lt_succ_self _⟩
  | store tx =>
    obtain rfl : tx = true := hway
    exact Or.inr ⟨⟨hready, hidle, hchar, trivial⟩, Nat.lt_succ_self _⟩
  | uGet =>
    cases buffer with
    | nil => exact absurd rfl hchar
    | cons c buffer =>
      exact Or.inr ⟨⟨hready, hidle, List.cons_ne_nil c buffer, trivial⟩, Nat.lt_succ_self _⟩
  | write c => exact Or.inl (by simp [OutputState.routine, OutputState.write])

theorem onWay_of_set {pc : OutputPc} {pass : Bool} (h : pc.onWay pass) : pc.onWay true := by
  cases pc with
  | test | dispatch => rfl
  | store tx => exact h
  | load | uGet | write c => trivial

/-- Nobody else takes it off its way. -/
theorem Going.step (h : s.Going) (hact : act ≠ .routine) (hs : s.step act = some t) :
    t.Going ∧ t.pc = s.pc ∧ t.written = s.written := by
  cases act with
  | kPut c =>
    obtain ⟨-, ⟨⟩⟩ := Option.ite_none_right_eq_some.mp hs
    refine ⟨⟨h.ready, h.idle, ?_, h.way⟩, rfl, rfl⟩
    simp
  | transmitted =>
    rw [OutputState.step, h.idle] at hs
    cases hs
  | raise =>
    cases hs
    exact ⟨⟨h.ready, h.idle, h.char, h.way⟩, rfl, rfl⟩
  | interrupt =>
    obtain ⟨-, ⟨⟩⟩ := Option.ite_none_right_eq_some.mp hs
    exact ⟨⟨h.ready, h.idle, h.char, onWay_of_set h.way⟩, rfl, rfl⟩
  | routine => exact absurd rfl hact

theorem written_step (hs : s.step act = some t) : s.written.length ≤ t.written.length := by
  cases act with
  | kPut c | interrupt =>
    obtain ⟨-, ⟨⟩⟩ := Option.ite_none_right_eq_some.mp hs
    exact Nat.le_refl _
  | transmitted =>
    rw [OutputState.step] at hs
    split at hs
    · cases hs
      exact Nat.le_refl _
    · cases hs
  | raise =>
    cases hs
    exact Nat.le_refl _
  | routine =>
    cases hs
    unfold OutputState.routine
    split
    case h_5 => split <;> exact Nat.le_refl _
    case h_6 => simp [OutputState.write]
    all_goals exact Nat.le_refl _

theorem written_run (hrun : run OutputState.step s acts = some t) :
    s.written.length ≤ t.written.length :=
  run_invariant (P := fun t => s.written.length ≤ t.written.length)
    (fun _ _ _ hp hs => Nat.le_trans hp (written_step hs)) (Nat.le_refl _) hrun

theorem Going.run (h : s.Going) (hrun : Run.run OutputState.step s acts = some t)
    (hcount : s.pc.left ≤ acts.count .routine) : s.written.length < t.written.length := by
  induction acts generalizing s with
  | nil =>
    have hpos := s.pc.left_bounds.1
    rw [List.count_nil] at hcount
    omega
  | cons act acts ih =>
    rw [run_cons, Option.bind_eq_some_iff] at hrun
    obtain ⟨u, hs, hrun⟩ := hrun
    by_cases hact : act = .routine
    · subst hact
      cases hs
      rw [List.count_cons_self] at hcount
      rcases h.routine with hwritten | ⟨hgoing, hleft⟩
      · exact Nat.lt_of_lt_of_le hwritten (written_run hrun)
      · have hs : s.step .routine = some s.routine := rfl
        exact Nat.lt_of_le_of_lt (written_step hs) (ih hgoing hrun (by omega))
    · rw [List.count_cons_of_ne hact] at hcount
      obtain ⟨hgoing, hpc, hwritten⟩ := h.step hact hs
      rw [← hwritten]
      exact ih hgoing hrun (by rwa [hpc])

/-! ## 4. What every run does -/

/-- **No character is lost on its way to the console.**  What the console has transmitted, the
character it is transmitting, the one that the routine has in its hand and those in the buffer
are, in this order, all that was put into the buffer; and the routine writes to the device only
while that is idle. -/
theorem output_accounts (hrun : Run.run OutputState.step start acts = some s) :
    s.console ++ s.txData.toList ++ s.pc.hand ++ s.outputBuffer = s.put ∧
      ∀ c, s.pc = .write c → s.txData = none := by
  have hagree := agree_run hrun
  refine ⟨by rw [hagree.written, hagree.put], fun c hc => hagree.txData_eq_none ?_⟩
  rw [hc]
  rfl

/-- Three characters: one on the console, one being transmitted, one in the buffer. -/
def threeChars : List OutputAct :=
  [.kPut 97, .interrupt, .routine, .kPut 98, .routine, .routine, .routine, .routine, .kPut 99,
    .transmitted, .routine, .routine, .routine, .routine]

theorem output_accounts_run : ∃ s, Run.run OutputState.step start threeChars = some s ∧
    s.console ++ s.txData.toList ++ s.pc.hand ++ s.outputBuffer = [97, 98, 99] := by
  obtain ⟨s, hs⟩ := Option.isSome_iff_exists.mp
    (by decide : (Run.run OutputState.step start threeChars).isSome = true)
  have hput : ∀ s ∈ Run.run OutputState.step start threeChars, s.put = [97, 98, 99] := by decide
  exact ⟨s, hs, (output_accounts hs).1.trans (hput s hs)⟩

/-- **The output goes on.**  While no interrupt comes between the load of a clear bit and its
store that is for this bit, a device that is ready, and whose interrupt has been taken, gets the
next character within six steps of the routine, whatever else happens meanwhile. -/
theorem output_goes_on {acts' : List OutputAct}
    (hacts : AllSteps OutputState.step Timely start acts)
    (hrun : Run.run OutputState.step start acts = some s) (hready : s.txReady = true)
    (hirq : s.irqPending = false) (hchar : s.pc.hand ++ s.outputBuffer ≠ [])
    (hrun' : Run.run OutputState.step s acts' = some t) (hcount : 6 ≤ acts'.count .routine) :
    s.written.length < t.written.length := by
  have hway := (noticed_run hacts hrun hready).resolve_left (by rw [hirq]; decide)
  have hidle : s.txData = none := by
    rw [← Option.isNone_iff_eq_none, ← (agree_run hrun).ready, hready]
  have hgoing : s.Going := ⟨hready, hidle, hchar, hway⟩
  exact hgoing.run hrun' (Nat.le_trans s.pc.left_bounds.2 hcount)

/-- Up to the interrupt for the first character. -/
def firstChar : List OutputAct := threeChars.take 10 ++ [.interrupt]

theorem output_goes_on_run : ∃ s t, Run.run OutputState.step start firstChar = some s ∧
    Run.run OutputState.step s (.replicate 6 .routine) = some t ∧
      s.written.length < t.written.length := by
  obtain ⟨s, hs⟩ := Option.isSome_iff_exists.mp
    (by decide : (Run.run OutputState.step start firstChar).isSome = true)
  have hstate : ∀ s ∈ Run.run OutputState.step start firstChar, s.txReady = true ∧
      s.irqPending = false ∧ s.pc.hand ++ s.outputBuffer ≠ [] ∧
      (Run.run OutputState.step s (.replicate 6 .routine)).isSome = true := by decide
  obtain ⟨hready, hirq, hchar, hsome⟩ := hstate s hs
  obtain ⟨t, ht⟩ := Option.isSome_iff_exists.mp hsome
  exact ⟨s, t, hs, ht, output_goes_on (by decide) hs hready hirq hchar ht (by decide)⟩

end OutputState

end Os1Kernel
