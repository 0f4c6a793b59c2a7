/-
# Privilege and interrupts across context switches

The hart has a privilege and three bits of `sstatus`; trap entry and `sret` act on them as the
RISC-V rules say.  `SPP` is one bit for all threads: `handleSupervisorTrap` keeps the whole
register in a local while it runs, `threadWrapper` sets it for the first run of a thread, and a
thread that is suspended in `uPut` or `uGet` does not touch it when it goes on.

A thread is what is on its stack: whether it still is in `threadWrapper` or has come to its body,
and above that the calls in progress.  Which thread a switch chooses is left open.

**What is proved** (`user_never_privileged`): in every interleaving the body of a user thread runs
in user mode, and interrupts are off at every context switch.

**The invariant** (`PrivState.Guarded`) has two parts.

* Each thread's stack is well formed (`GoodFrames`): the local `sstatus` of every trap in progress
  has in `SPP` and `SPIE` what the code under it needs, so its `w_sstatus` and `sret` bring back
  the privilege it came from, whatever has happened to the register meanwhile.
* The hart fits the running thread (`Fits`), and every other thread stands where a thread can be
  left (`Control.suspended`).  All such points run in supervisor mode with interrupts off, so what
  fits one of them fits any other: this is why a switch keeps the invariant
  (`Guarded.contextSwitch`).

**Not covered.**  The idle thread, a SYSTEM thread, returns from `thread_exit` when it is chosen
after it has finished, and comes to `threadWrapper` again, with `SIE` set.  No action here does
that: it concerns no user thread, and its switches are inside traps as everywhere, but
`base_eq_body` would be wrong of it.
-/
import Mathlib.Logic.Function.Basic
import Os1Kernel.Kernel.State
import Os1Kernel.Lib.Run

namespace Os1Kernel

open Run

/-! ## 1. The hart -/

inductive Priv
  | u
  | s
  deriving DecidableEq, Repr

/-- The bits of `sstatus` that the kernel uses. -/
structure Sstatus where
  SPP : Priv
  SPIE : Bool
  SIE : Bool
  deriving DecidableEq, Repr

structure Hart where
  priv : Priv
  sstatus : Sstatus
  deriving DecidableEq, Repr

namespace Hart

/-- Trap entry. -/
def trap (h : Hart) : Hart := ⟨.s, ⟨h.priv, h.sstatus.SIE, false⟩⟩

/-- `sret` -/
def sret (h : Hart) : Hart := ⟨h.sstatus.SPP, ⟨.u, true, h.sstatus.SPIE⟩⟩

/-- Interrupts are taken in user mode, or when `SIE` is 1. -/
def Interruptible (h : Hart) : Prop := h.priv = .u ∨ h.sstatus.SIE = true

instance (h : Hart) : Decidable h.Interruptible := inferInstanceAs (Decidable (_ ∨ _))

end Hart

/-! ## 2. The threads -/

/-- The privilege of a body of this mode. -/
def Mode.priv : Mode → Priv
  | .user => .u
  | .system => .s

/-- How far a thread has come. -/
inductive Base
  /-- At the start of `threadWrapper`, or not run yet. -/
  | wrapper
  /-- In `threadWrapper`, with `SPP` set, before the `sret` of `popSppSpie`. -/
  | popping
  /-- Behind it. -/
  | body
  deriving DecidableEq, Repr

/-- A call in progress. -/
inductive StackFrame
  /-- `handleSupervisorTrap`, with its local `sstatus`. -/
  | trap (sstatus : Sstatus)
  /-- `uPut` or `uGet`, with the bit `SIE` of its local, and whether it has cleared the bit. -/
  | buffer (SIE : Bool) (cleared : Bool)
  deriving DecidableEq, Repr

structure Control where
  base : Base
  /-- The innermost call first. -/
  frames : List StackFrame
  deriving DecidableEq, Repr

/-- The thread is where `TCB::yield` may be called: in a trap, or in `uPut` or `uGet` behind the
`mc_sstatus`. -/
def Control.yields (c : Control) : Bool :=
  match c.frames with
  | .trap _ :: _ | .buffer _ true :: _ => true
  | _ => false

structure PrivState where
  hart : Hart
  running : Nat
  /-- `none` for a thread that does not exist yet. -/
  mode : Nat → Option Mode
  control : Nat → Control

inductive PrivAct
  /-- A system call or an exception. -/
  | trap
  | interrupt
  /-- The end of `handleSupervisorTrap`: `w_sstatus`, and `sret`. -/
  | trapReturn
  /-- `TCB::contextSwitch` to a thread, in `TCB::yield`. -/
  | contextSwitch (t : Nat)
  /-- `mc_sstatus` or `ms_sstatus` in `threadWrapper`. -/
  | setSpp
  | popSppSpie
  /-- `r_sstatus` at the start of `uPut` or `uGet`. -/
  | enterBuffer
  /-- The `mc_sstatus` behind it. -/
  | clearSie
  /-- The `ms_sstatus` at the end. -/
  | leaveBuffer
  /-- `ms_sstatus` or `mc_sstatus` with `SSTATUS_SIE` in `main`. -/
  | mainSie (on : Bool)
  | threadCreate (t : Nat) (mode : Mode)
  deriving DecidableEq, Repr

namespace PrivState

/-- The thread that runs `main`. -/
def masterThread : Nat := 0

/-- The running thread goes on to another point. -/
def setControl (s : PrivState) (c : Control) : PrivState :=
  { s with control := Function.update s.control s.running c }

/-- `handleSupervisorTrap` is entered, and has read `sstatus`. -/
def enterTrap (s : PrivState) : PrivState :=
  let c := s.control s.running
  { s.setControl { c with frames := .trap s.hart.trap.sstatus :: c.frames } with hart := s.hart.trap }

def step (s : PrivState) : PrivAct → Option PrivState
  | .trap => if (s.control s.running).base = .body then some s.enterTrap else none
  | .interrupt => if s.hart.Interruptible then some s.enterTrap else none
  | .trapReturn =>
    match s.control s.running with
    | ⟨base, .trap sstatus :: frames⟩ =>
      some { s.setControl ⟨base, frames⟩ with hart := Hart.sret { s.hart with sstatus := sstatus } }
    | _ => none
  | .contextSwitch t =>
    if (s.control s.running).yields ∧ (s.mode t).isSome then some { s with running := t } else none
  | .setSpp =>
    match s.control s.running, s.mode s.running with
    | ⟨.wrapper, []⟩, some mode =>
      some { s.setControl ⟨.popping, []⟩ with
        hart := { s.hart with sstatus := { s.hart.sstatus with SPP := mode.priv } } }
    | _, _ => none
  | .popSppSpie =>
    match s.control s.running with
    | ⟨.popping, []⟩ => some { s.setControl ⟨.body, []⟩ with hart := s.hart.sret }
    | _ => none
  | .enterBuffer =>
    match s.control s.running, s.mode s.running with
    | ⟨.body, []⟩, some .system =>
      some { s.setControl ⟨.body, [.buffer s.hart.sstatus.SIE false]⟩ with hart := s.hart }
    | _, _ => none
  | .clearSie =>
    match s.control s.running with
    | ⟨base, .buffer SIE false :: frames⟩ =>
      some { s.setControl ⟨base, .buffer SIE true :: frames⟩ with
        hart := { s.hart with sstatus := { s.hart.sstatus with SIE := false } } }
    | _ => none
  | .leaveBuffer =>
    match s.control s.running with
    | ⟨base, .buffer SIE true :: frames⟩ =>
      some { s.setControl ⟨base, frames⟩ with
        hart := { s.hart with sstatus := { s.hart.sstatus with SIE := s.hart.sstatus.SIE || SIE } } }
    | _ => none
  | .mainSie on =>
    if s.running = masterThread ∧ s.control s.running = ⟨.body, []⟩ then
      some { s.setControl ⟨.body, []⟩ with
        hart := { s.hart with sstatus := { s.hart.sstatus with SIE := on } } }
    else none
  | .threadCreate t mode =>
    if s.mode t = none then
      some { s with mode := Function.update s.mode t (some mode),
                    control := Function.update s.control t ⟨.wrapper, []⟩ }
    else none

/-- `main`, with whatever is in the other bits, before it first sets `SIE`. -/
def boot (sstatus : Sstatus) : PrivState where
  hart := ⟨.s, { sstatus with SIE := false }⟩
  running := masterThread
  mode t := if t = masterThread then some .system else none
  control _ := ⟨.body, []⟩

end PrivState

/-! ## 3. The invariant -/

namespace Control

variable (c : Control) (m : Mode)

/-- The privilege that this point of the code runs with. -/
def priv : Priv := if c.base = .body ∧ c.frames = [] then m.priv else .s

/-- Whether interrupts must be off. -/
def masked : Bool :=
  match c.frames with
  | [] => c.base ≠ .body
  | .trap _ :: _ => true
  | .buffer _ cleared :: _ => cleared

/-- A thread can stand here without running. -/
def suspended : Bool := c.yields || (c.base = .wrapper ∧ c.frames = [])

variable {c} {m}

theorem masked_of_suspended (h : c.suspended = true) : c.masked = true := by
  obtain ⟨base, frames⟩ := c
  simp only [suspended, yields, Bool.or_eq_true, decide_eq_true_eq] at h
  rcases h with h | ⟨rfl, rfl⟩
  · split at h
    · rfl
    · rfl
    · cases h
  · rfl

theorem priv_of_suspended (h : c.suspended = true) : c.priv m = .s := by
  obtain ⟨base, frames⟩ := c
  refine if_neg ?_
  rintro ⟨rfl, rfl⟩
  cases h

end Control

/-- Every trap in progress will restore what the code under it needs. -/
def GoodFrames (base : Base) (m : Mode) : List StackFrame → Prop
  | [] => True
  | .trap sstatus :: frames =>
    base = .body ∧ sstatus.SIE = false ∧ sstatus.SPP = Control.priv ⟨base, frames⟩ m ∧
      (Control.masked ⟨base, frames⟩ = true → sstatus.SPIE = false) ∧ GoodFrames base m frames
  | .buffer _ _ :: frames => base = .body ∧ frames = [] ∧ m = .system

namespace PrivState

/-- The hart is as the running thread needs it. -/
structure Fits (h : Hart) (c : Control) (m : Mode) : Prop where
  priv : h.priv = c.priv m
  masked : c.masked = true → h.sstatus.SIE = false
  spp : c.base = .popping → c.frames = [] → h.sstatus.SPP = m.priv

structure Guarded (s : PrivState) : Prop where
  frames : ∀ t m, s.mode t = some m → GoodFrames (s.control t).base m (s.control t).frames
  suspended : ∀ t, (s.mode t).isSome → t ≠ s.running → (s.control t).suspended = true
  running : ∃ m, s.mode s.running = some m ∧ Fits s.hart (s.control s.running) m
  master : s.mode masterThread = some .system

variable {s s' : PrivState} {act : PrivAct} {acts : List PrivAct} {c : Control} {h : Hart}
  {m : Mode} {t : Nat}

theorem guarded_boot (sstatus : Sstatus) : (boot sstatus).Guarded where
  frames _ _ _ := trivial
  suspended t ht hne := by
    have hne' : t ≠ masterThread := hne
    simp [boot, hne'] at ht
  running := ⟨.system, rfl, rfl, nofun, nofun⟩
  master := rfl

/-- The running thread goes on, and the hart with it. -/
theorem Guarded.goOn (hs : s.Guarded) (hgood : ∀ m, s.mode s.running = some m →
    GoodFrames (s.control s.running).base m (s.control s.running).frames →
    Fits s.hart (s.control s.running) m → GoodFrames c.base m c.frames ∧ Fits h c m) :
    Guarded { s.setControl c with hart := h } := by
  obtain ⟨m, hm, hfits⟩ := hs.running
  obtain ⟨hc, hf⟩ := hgood m hm (hs.frames s.running m hm) hfits
  refine ⟨fun t m' hm' => ?_, fun t ht hne => ?_, ⟨m, hm, ?_⟩, hs.master⟩
  · show GoodFrames (Function.update s.control s.running c t).base m'
      (Function.update s.control s.running c t).frames
    by_cases ht : t = s.running
    · subst ht
      rw [Function.update_self]
      obtain rfl : m = m' := Option.some.inj (hm.symm.trans hm')
      exact hc
    · rw [Function.update_of_ne ht]
      exact hs.frames t m' hm'
  · show (Function.update s.control s.running c t).suspended = true
    have hne' : t ≠ s.running := hne
    rw [Function.update_of_ne hne']
    exact hs.suspended t ht hne'
  · show Fits h (Function.update s.control s.running c s.running) m
    rw [Function.update_self]
    exact hf

/-- A trap keeps in its local what the code under it needs. -/
theorem Guarded.enterTrap (hs : s.Guarded) (hbase : (s.control s.running).base = .body) :
    s.enterTrap.Guarded := by
  refine hs.goOn fun m hm hgood hfits => ⟨⟨hbase, rfl, hfits.priv, hfits.masked, hgood⟩, ?_, ?_, ?_⟩
  · simp [Hart.trap, Control.priv]
  · exact fun _ => rfl
  · exact fun _ => nofun

/-- An interrupt is not taken in `threadWrapper`. -/
theorem Guarded.base_eq_body (hs : s.Guarded) (hint : s.hart.Interruptible) :
    (s.control s.running).base = .body := by
  obtain ⟨m, hm, hfits⟩ := hs.running
  by_contra hbase
  have hgood := hs.frames s.running m hm
  have hnil : (s.control s.running).frames = [] := by
    cases hf : (s.control s.running).frames with
    | nil => rfl
    | cons f fs =>
      rw [hf] at hgood
      cases f with
      | trap sstatus => exact absurd hgood.1 hbase
      | buffer SIE cleared => exact absurd hgood.1 hbase
  rcases hint with hu | hsie
  · rw [hfits.priv, Control.priv, if_neg fun hc => hbase hc.1] at hu
    cases hu
  · rw [hfits.masked (by simp [Control.masked, hnil, hbase])] at hsie
    cases hsie

/-- **A context switch.** -/
theorem Guarded.contextSwitch (hs : s.Guarded) (hstep : s.step (.contextSwitch t) = some s') :
    s.hart.sstatus.SIE = false ∧ s'.Guarded := by
  obtain ⟨m, hm, hfits⟩ := hs.running
  simp only [PrivState.step] at hstep
  split at hstep
  · next hcond =>
    cases hstep
    have hsusp : (s.control s.running).suspended = true := by
      simp [Control.suspended, hcond.1]
    have hsie := hfits.masked (Control.masked_of_suspended hsusp)
    refine ⟨hsie, hs.frames, fun u hu hne => ?_, ?_, hs.master⟩
    · by_cases hur : u = s.running
      · exact hur ▸ hsusp
      · exact hs.suspended u hu hur
    · obtain ⟨m', hm'⟩ := Option.isSome_iff_exists.mp hcond.2
      have hsusp' : (s.control t).suspended = true := by
        by_cases ht : t = s.running
        · exact ht ▸ hsusp
        · exact hs.suspended t hcond.2 ht
      refine ⟨m', hm', ?_, fun _ => hsie, fun hbase hnil => ?_⟩
      · rw [hfits.priv, Control.priv_of_suspended hsusp, Control.priv_of_suspended hsusp']
      · have hpopping : s.control t = ⟨.popping, []⟩ := congrArg₂ Control.mk hbase hnil
        rw [hpopping] at hsusp'
        cases hsusp'
  · cases hstep

/-- `threadWrapper`, up to the body. -/
theorem Guarded.setSpp (hs : s.Guarded) (hstep : s.step .setSpp = some s') : s'.Guarded := by
  simp only [PrivState.step] at hstep
  split at hstep
  · next m hc hm =>
    cases hstep
    refine hs.goOn fun m' hm' _ hfits => ⟨trivial, ?_, fun _ => ?_, fun _ _ => ?_⟩
    · rw [hc] at hfits
      exact hfits.priv
    · rw [hc] at hfits
      exact hfits.masked rfl
    · obtain rfl : m = m' := Option.some.inj (hm.symm.trans hm')
      rfl
  · cases hstep

theorem Guarded.popSppSpie (hs : s.Guarded) (hstep : s.step .popSppSpie = some s') :
    s'.Guarded := by
  simp only [PrivState.step] at hstep
  split at hstep
  · next hc =>
    cases hstep
    refine hs.goOn fun m hm _ hfits => ⟨trivial, ?_, nofun, nofun⟩
    rw [hc] at hfits
    exact hfits.spp rfl rfl
  · cases hstep

theorem Guarded.trapReturn (hs : s.Guarded) (hstep : s.step .trapReturn = some s') :
    s'.Guarded := by
  simp only [PrivState.step] at hstep
  split at hstep
  · next base sstatus frames hc =>
    cases hstep
    refine hs.goOn fun m hm hgood hfits => ?_
    rw [hc] at hgood
    obtain ⟨hbase, -, hspp, hspie, hrest⟩ := hgood
    exact ⟨hrest, hspp, hspie, fun hpop => absurd (hbase.symm.trans hpop) nofun⟩
  · cases hstep

/-- `uPut` and `uGet`, from end to end. -/
theorem Guarded.enterBuffer (hs : s.Guarded) (hstep : s.step .enterBuffer = some s') :
    s'.Guarded := by
  simp only [PrivState.step] at hstep
  split at hstep
  · next hc hm =>
    cases hstep
    refine hs.goOn fun m hm' _ hfits => ?_
    obtain rfl : Mode.system = m := Option.some.inj (hm.symm.trans hm')
    rw [hc] at hfits
    exact ⟨⟨rfl, rfl, rfl⟩, hfits.priv, nofun, fun _ => nofun⟩
  · cases hstep

theorem Guarded.clearSie (hs : s.Guarded) (hstep : s.step .clearSie = some s') : s'.Guarded := by
  simp only [PrivState.step] at hstep
  split at hstep
  · next base SIE frames hc =>
    cases hstep
    refine hs.goOn fun m hm hgood hfits => ?_
    rw [hc] at hgood hfits
    exact ⟨hgood, hfits.priv.trans (by simp [Control.priv]), fun _ => rfl, fun _ => nofun⟩
  · cases hstep

theorem Guarded.leaveBuffer (hs : s.Guarded) (hstep : s.step .leaveBuffer = some s') :
    s'.Guarded := by
  simp only [PrivState.step] at hstep
  split at hstep
  · next base SIE frames hc =>
    cases hstep
    refine hs.goOn fun m hm hgood hfits => ?_
    rw [hc] at hgood hfits
    obtain ⟨rfl, rfl, rfl⟩ := hgood
    exact ⟨trivial, hfits.priv, nofun, nofun⟩
  · cases hstep

theorem Guarded.mainSie {on : Bool} (hs : s.Guarded) (hstep : s.step (.mainSie on) = some s') :
    s'.Guarded := by
  simp only [PrivState.step] at hstep
  split at hstep
  · next hcond =>
    cases hstep
    refine hs.goOn fun m hm hgood hfits => ?_
    rw [hcond.2] at hfits
    exact ⟨trivial, hfits.priv, nofun, nofun⟩
  · cases hstep

theorem Guarded.threadCreate {mode : Mode} (hs : s.Guarded)
    (hstep : s.step (.threadCreate t mode) = some s') : s'.Guarded := by
  simp only [PrivState.step] at hstep
  split at hstep
  · next hnone =>
    cases hstep
    have hne : ∀ u, (s.mode u).isSome → u ≠ t := fun u hu he => by
      rw [he, hnone] at hu
      cases hu
    obtain ⟨m, hm, hfits⟩ := hs.running
    have hrun : s.running ≠ t := hne _ (by rw [hm]; rfl)
    have hmaster : masterThread ≠ t := hne _ (by rw [hs.master]; rfl)
    refine ⟨fun u m' hm' => ?_, fun u hu hur => ?_, ⟨m, ?_, ?_⟩, ?_⟩
    · by_cases hut : u = t
      · simp only [hut, Function.update_self]
        trivial
      · simp only [Function.update_of_ne hut] at hm' ⊢
        exact hs.frames u m' hm'
    · by_cases hut : u = t
      · simp only [hut, Function.update_self]
        rfl
      · simp only [Function.update_of_ne hut] at hu ⊢
        exact hs.suspended u hu hur
    · exact (Function.update_of_ne hrun _ _).trans hm
    · simp only [Function.update_of_ne hrun]
      exact hfits
    · exact (Function.update_of_ne hmaster _ _).trans hs.master
  · cases hstep

theorem Guarded.step (hs : s.Guarded) (hstep : s.step act = some s') : s'.Guarded := by
  cases act with
  | trap =>
    rw [PrivState.step] at hstep
    split at hstep
    · next hbase =>
      cases hstep
      exact hs.enterTrap hbase
    · cases hstep
  | interrupt =>
    rw [PrivState.step] at hstep
    split at hstep
    · next hint =>
      cases hstep
      exact hs.enterTrap (hs.base_eq_body hint)
    · cases hstep
  | trapReturn => exact hs.trapReturn hstep
  | contextSwitch t => exact (hs.contextSwitch hstep).2
  | setSpp => exact hs.setSpp hstep
  | popSppSpie => exact hs.popSppSpie hstep
  | enterBuffer => exact hs.enterBuffer hstep
  | clearSie => exact hs.clearSie hstep
  | leaveBuffer => exact hs.leaveBuffer hstep
  | mainSie on => exact hs.mainSie hstep
  | threadCreate t mode => exact hs.threadCreate hstep

/-- **User threads never run privileged**, and no context switch can be interrupted.  Whatever
traps are taken, nested or not, whichever threads are chosen and wherever they are suspended: the
body of a `USER` thread runs in user mode, and at a call of `contextSwitch` interrupts are off. -/
theorem user_never_privileged (sstatus : Sstatus) (acts : List PrivAct)
    (hrun : run step (boot sstatus) acts = some s) :
    (s.mode s.running = some .user → s.control s.running = ⟨.body, []⟩ → s.hart.priv = .u) ∧
      ∀ t s', s.step (.contextSwitch t) = some s' → s.hart.sstatus.SIE = false := by
  have hs : s.Guarded := run_invariant (fun _ _ _ hp h => hp.step h) (guarded_boot sstatus) hrun
  refine ⟨fun hmode hc => ?_, fun t s' hstep => (hs.contextSwitch hstep).1⟩
  obtain ⟨m, hm, hfits⟩ := hs.running
  obtain rfl : m = .user := Option.some.inj (hm.symm.trans hmode)
  rw [hfits.priv, hc]
  rfl

/-- A user thread is created, run for the first time from a trap of `main`, and interrupted. -/
theorem user_never_privileged_run : ∃ s, run step (boot ⟨.s, true, true⟩)
    [.mainSie true, .trap, .threadCreate 1 .user, .contextSwitch 1, .setSpp, .popSppSpie, .interrupt,
      .trapReturn] = some s ∧
    (s.mode s.running = some .user → s.control s.running = ⟨.body, []⟩ → s.hart.priv = .u) ∧
      ∀ t s', s.step (.contextSwitch t) = some s' → s.hart.sstatus.SIE = false :=
  ⟨_, rfl, user_never_privileged ⟨.s, true, true⟩ [.mainSie true, .trap, .threadCreate 1 .user,
    .contextSwitch 1, .setSpp, .popSppSpie, .interrupt, .trapReturn] rfl⟩

end PrivState

end Os1Kernel
