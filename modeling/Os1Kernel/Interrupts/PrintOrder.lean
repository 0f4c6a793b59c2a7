/-
# What is printed under the lock

The functions of `mPrint.hpp` and `mPrintUtils.hpp` that bracket their characters with `MLOCK` and
`MUNLOCK`, on top of the lock and its threads.  Inside its section a thread passes one character
after the other to `putc`, and other threads may run between any two of them.

**What is proved** (`prints_in_order`): in every interleaving the output is a sequence of whole
texts, one behind the other, in the order in which the lock was taken, and at its end what the
owner has printed so far of its own.

**The invariant** (`Whole`) says just this.  A `putc` by the owner of the lock moves one character
from what is left of its text to the output; nobody else is inside a section, by the invariant of
`Os1Kernel.Interrupts.PrintLock`, so nobody else puts anything there.

**Not covered.**  A call of `mPrintInt` whose numeral does not fit into the array on its stack has
no text here (`Print.text`), and no step makes it.
-/
import Os1Kernel.Interrupts.PrintLock
import Os1Kernel.Util.Fractional

namespace Os1Kernel

open Run

/-! ## 1. The texts -/

/-- `mPrintString_nonatom` -/
def mPrintString_nonatom (string : CString) : List UInt8 := string.takeWhile (· ≠ 0)

/-- A `uint64` that is passed for an `int`. -/
def intOf (x : UInt64) : Int32 := x.toUInt32.toInt32

/-- `mPrintPointer_nonatom` -/
def mPrintPointer_nonatom (buf : Vector UInt8 16) (ptr : UInt64) : Option (List UInt8) := do
  pure (48 :: 120 :: (← mPrintInt_nonatom buf (intOf ptr) 16 0))

/-- `mPrintPercent_nonatom` -/
def mPrintPercent_nonatom (buf buf' : Vector UInt8 16) (percent : Fractional) :
    Option (List UInt8) := do
  pure ((← mPrintFractional_nonatom buf buf' percent) ++ [37])

structure Complex where
  real : UInt64
  imag : UInt64

/-- `mPrintComplex_nonatom` -/
def mPrintComplex_nonatom (buf buf' : Vector UInt8 16) (z : Complex) (base : Int32) :
    Option (List UInt8) := do
  pure ((← mPrintInt_nonatom buf (intOf z.real) base 0) ++ [32, 43, 32] ++
    (← mPrintInt_nonatom buf' (intOf z.imag) base 0) ++ [105])

/-- The functions that take the lock; the buffers are the arrays on their stacks. -/
inductive Print
  | mPrintString (string : CString)
  | mPrintInt (buf : Vector UInt8 16) (xx base sgn : Int32)
  | mPrintPointer (buf : Vector UInt8 16) (ptr : UInt64)
  | mPrintFractional (buf buf' : Vector UInt8 16) (frac : Fractional)
  | mPrintPercent (buf buf' : Vector UInt8 16) (percent : Fractional)
  | mPrintComplex (buf buf' : Vector UInt8 16) (z : Complex) (base : Int32)
  /-- The overloads of `log`. -/
  | logInt (string : CString) (buf : Vector UInt8 16) (xx base sgn : Int32)
  | log (string : CString)
  | logFractional (string : CString) (buf buf' : Vector UInt8 16) (frac : Fractional)
      (percent : Bool)
  | logPointer (string : CString) (buf : Vector UInt8 16) (p : UInt64)
  | logComplex (string : CString) (buf buf' : Vector UInt8 16) (z : Complex)

/-- The characters between `MLOCK` and `MUNLOCK`; `none` if an array on the stack is left. -/
def Print.text : Print → Option (List UInt8)
  | .mPrintString string => some (mPrintString_nonatom string)
  | .mPrintInt buf xx base sgn => mPrintInt_nonatom buf xx base sgn
  | .mPrintPointer buf ptr => mPrintPointer_nonatom buf ptr
  | .mPrintFractional buf buf' frac => mPrintFractional_nonatom buf buf' frac
  | .mPrintPercent buf buf' percent => mPrintPercent_nonatom buf buf' percent
  | .mPrintComplex buf buf' z base => mPrintComplex_nonatom buf buf' z base
  | .logInt string buf xx base sgn => do
    pure (mPrintString_nonatom string ++ (← mPrintInt_nonatom buf xx base sgn) ++ [10])
  | .log string => some (mPrintString_nonatom string ++ [10])
  | .logFractional string buf buf' frac percent => do
    pure (mPrintString_nonatom string ++
      (← if percent then mPrintPercent_nonatom buf buf' frac
         else mPrintFractional_nonatom buf buf' frac) ++ [10])
  | .logPointer string buf p => do
    pure (mPrintString_nonatom string ++ (← mPrintPointer_nonatom buf p) ++ [10])
  | .logComplex string buf buf' z => do
    pure (mPrintString_nonatom string ++ (← mPrintComplex_nonatom buf buf' z 10) ++ [10])

/-! ## 2. The threads -/

structure PrintOutput where
  lock : PrintState
  /-- What a thread still has to print in its section. -/
  left : Nat → List UInt8
  /-- The characters passed to `putc`, in order. -/
  output : List UInt8
  /-- The texts of the sections, in the order in which they got the lock. -/
  sections : List (List UInt8)

inductive PrintOutputAct
  /-- A thread calls one of the functions, and comes to its `MLOCK`. -/
  | enter (t : Nat) (p : Print)
  | mlock (t : Nat)
  /-- It passes the next character to `putc`. -/
  | putc (t : Nat)
  | munlock (t : Nat)
  | fault (t : Nat)
  | finish (t : Nat)

namespace PrintOutput

/-- The lock after a thread's attempt; the section begins if it was successful. -/
def mlock (s : PrintOutput) (t : Nat) (lock : PrintState) : PrintOutput :=
  { s with
    lock := lock
    sections := if (lock.thread t).sect = .inside then s.sections ++ [s.left t] else s.sections }

def step (s : PrintOutput) : PrintOutputAct → Option PrintOutput
  | .enter t p =>
    p.text.bind fun text =>
      (s.lock.step (.enter t)).map fun lock =>
        { s with lock := lock, left := Function.update s.left t text }
  | .mlock t => (s.lock.step (.mlock t)).map (s.mlock t)
  | .putc t =>
    match s.left t with
    | [] => none
    | c :: left =>
      if (s.lock.thread t).finished = false ∧ (s.lock.thread t).sect = .inside then
        some { s with left := Function.update s.left t left, output := s.output ++ [c] }
      else none
  | .munlock t =>
    if s.left t = [] then (s.lock.step (.munlock t)).map fun lock => { s with lock := lock }
    else none
  | .fault t => (s.lock.step (.fault t)).map fun lock => { s with lock := lock }
  | .finish t => (s.lock.step (.finish t)).map fun lock => { s with lock := lock }

def start : PrintOutput where
  lock := .start
  left _ := []
  output := []
  sections := []

/-- No thread raises an exception while it holds the lock. -/
def Careful (s : PrintOutput) (act : PrintOutputAct) : Prop :=
  ∀ t, act = .fault t → (s.lock.thread t).sect ≠ .inside

instance (s : PrintOutput) : ∀ act, Decidable (s.Careful act)
  | .fault t => decidable_of_iff ((s.lock.thread t).sect ≠ .inside)
    ⟨by rintro h u ⟨⟩; exact h, fun h => h t rfl⟩
  | .enter .. | .mlock _ | .putc _ | .munlock _ | .finish _ => isTrue (by rintro t ⟨⟩)

/-- What is left of the section in progress. -/
def unfinished (s : PrintOutput) : List UInt8 :=
  match s.lock.owner with
  | none => []
  | some t => s.left t

end PrintOutput

/-! ## 3. The owner of the lock -/

namespace PrintState

variable {s s' : PrintState} {t : Nat}

theorem enter_owner (hs : s.step (.enter t) = some s') :
    (s.thread t).sect = .outside ∧ s'.owner = s.owner := by
  simp only [step] at hs
  split at hs
  · next hcond =>
    cases hs
    exact ⟨hcond.2.1, rfl⟩
  · cases hs

/-- An attempt at the lock changes nothing, or makes the thread its owner. -/
theorem mlock_owner (hs : s.step (.mlock t) = some s') :
    (s.thread t).sect = .spin ∧ (s' = s ∨
      s.mLockPrint = 0 ∧ s'.owner = some t ∧ (s'.thread t).sect = .inside) := by
  simp only [step] at hs
  split at hs
  · next hcond =>
    refine ⟨hcond.2, ?_⟩
    by_cases hlock : s.mLockPrint = 0
    · rw [m_copy_and_swap, if_pos hlock] at hs
      cases hs
      exact Or.inr ⟨hlock, rfl, by simp⟩
    · rw [m_copy_and_swap, if_neg hlock] at hs
      cases hs
      exact Or.inl rfl
  · cases hs

theorem Owned.munlock_owner (h : s.Owned) (hs : s.step (.munlock t) = some s') :
    s.owner = some t ∧ s'.owner = none := by
  simp only [PrintState.step] at hs
  split at hs
  · next hcond =>
    have howner := (h.inside t).mp hcond.2
    have hlock : s.mLockPrint = 1 := by rw [h.lock, howner, if_neg (Option.some_ne_none t)]
    rw [m_copy_and_swap, if_pos hlock] at hs
    cases hs
    exact ⟨howner, rfl⟩
  · cases hs

theorem fault_owner (hs : s.step (.fault t) = some s') : s'.owner = s.owner := by
  simp only [step] at hs
  split at hs
  · cases hs
    rfl
  · cases hs

theorem finish_owner (hs : s.step (.finish t) = some s') : s'.owner = s.owner := by
  simp only [step] at hs
  split at hs
  · cases hs
    rfl
  · cases hs

end PrintState

/-! ## 4. The output -/

namespace PrintOutput

variable {s s' : PrintOutput} {act : PrintOutputAct} {acts : List PrintOutputAct}

/-- The sections are printed one behind the other. -/
structure Whole (s : PrintOutput) : Prop where
  owned : s.lock.Owned
  whole : s.output ++ s.unfinished = s.sections.flatten

theorem whole_start : Whole start := ⟨PrintState.owned_start, rfl⟩

theorem unfinished_of_owner {t : Nat} (h : s.lock.owner = some t) : s.unfinished = s.left t := by
  rw [unfinished, h]

theorem unfinished_of_none (h : s.lock.owner = none) : s.unfinished = [] := by
  rw [unfinished, h]

theorem unfinished_congr (howner : s'.lock.owner = s.lock.owner)
    (hleft : ∀ t, s.lock.owner = some t → s'.left t = s.left t) : s'.unfinished = s.unfinished := by
  cases h : s.lock.owner with
  | none => rw [unfinished_of_none h, unfinished_of_none (howner.trans h)]
  | some t =>
    rw [unfinished_of_owner h, unfinished_of_owner (howner.trans h), hleft t h]

/-- Steps that print nothing. -/
theorem Whole.congr (h : s.Whole) (howned : s'.lock.Owned) (howner : s'.lock.owner = s.lock.owner)
    (hleft : ∀ t, s.lock.owner = some t → s'.left t = s.left t) (houtput : s'.output = s.output)
    (hsections : s'.sections = s.sections) : s'.Whole := by
  refine ⟨howned, ?_⟩
  rw [unfinished_congr howner hleft, houtput, hsections]
  exact h.whole

theorem Whole.mlock (h : s.Whole) {t : Nat} {lock : PrintState}
    (hs : s.lock.step (.mlock t) = some lock) : (s.mlock t lock).Whole := by
  have howned := h.owned.step (by rintro u ⟨⟩) hs
  obtain ⟨hspin, rfl | ⟨hfree, howner, hinside⟩⟩ := PrintState.mlock_owner hs
  · refine ⟨howned, ?_⟩
    rw [PrintOutput.mlock, hspin, if_neg nofun]
    exact h.whole
  · refine ⟨howned, ?_⟩
    have hwhole := h.whole
    rw [unfinished_of_none (h.owned.owner_none hfree), List.append_nil] at hwhole
    rw [unfinished_of_owner (s := s.mlock t lock) howner, PrintOutput.mlock, if_pos hinside,
      List.flatten_append, ← hwhole, List.flatten_singleton]

theorem Whole.step (h : s.Whole) (hc : s.Careful act) (hs : s.step act = some s') : s'.Whole := by
  cases act with
  | enter t p =>
    simp only [PrintOutput.step, Option.bind_eq_some_iff, Option.map_eq_some_iff] at hs
    obtain ⟨text, -, lock, hlock, rfl⟩ := hs
    obtain ⟨hout, howner⟩ := PrintState.enter_owner hlock
    refine h.congr (h.owned.step (by rintro u ⟨⟩) hlock) howner (fun u hu => ?_) rfl rfl
    refine Function.update_of_ne ?_ ..
    rintro rfl
    rw [(h.owned.inside u).mpr hu] at hout
    cases hout
  | mlock t =>
    obtain ⟨lock, hlock, rfl⟩ := Option.map_eq_some_iff.mp hs
    exact h.mlock hlock
  | putc t =>
    simp only [PrintOutput.step] at hs
    split at hs
    · cases hs
    · next c left hleft =>
      obtain ⟨⟨-, hinside⟩, ⟨⟩⟩ := Option.ite_none_right_eq_some.mp hs
      have howner := (h.owned.inside t).mp hinside
      refine ⟨h.owned, ?_⟩
      have hwhole := h.whole
      rw [unfinished_of_owner howner, hleft] at hwhole
      have hrest := unfinished_of_owner
        (s := { s with left := Function.update s.left t left, output := s.output ++ [c] }) howner
      rw [hrest.trans (Function.update_self ..), List.append_assoc, List.singleton_append]
      exact hwhole
  | munlock t =>
    obtain ⟨hnil, hs⟩ := Option.ite_none_right_eq_some.mp hs
    obtain ⟨lock, hlock, rfl⟩ := Option.map_eq_some_iff.mp hs
    obtain ⟨howner, hnone⟩ := h.owned.munlock_owner hlock
    refine ⟨h.owned.step (by rintro u ⟨⟩) hlock, ?_⟩
    have hwhole := h.whole
    rw [unfinished_of_owner howner, hnil] at hwhole
    rwa [unfinished_of_none (s := { s with lock := lock }) hnone]
  | fault t =>
    obtain ⟨lock, hlock, rfl⟩ := Option.map_eq_some_iff.mp hs
    refine h.congr (h.owned.step ?_ hlock) (PrintState.fault_owner hlock) (fun _ _ => rfl) rfl rfl
    rintro u ⟨⟩
    exact hc t rfl
  | finish t =>
    obtain ⟨lock, hlock, rfl⟩ := Option.map_eq_some_iff.mp hs
    exact h.congr (h.owned.step (by rintro u ⟨⟩) hlock) (PrintState.finish_owner hlock)
      (fun _ _ => rfl) rfl rfl

/-- **What is printed under the lock is not mixed.**  In any order of the threads' steps the
output is the texts of the sections, each in one piece, in the order in which they got the lock,
but for what the owner of the lock still has to print.  A thread that raises an exception inside
its section is the exception: it never gives the lock back. -/
theorem prints_in_order (hacts : AllSteps step Careful start acts)
    (hrun : run step start acts = some s) :
    s.output ++ s.unfinished = s.sections.flatten ∧
      (s.lock.owner = none → s.output = s.sections.flatten) := by
  have h : s.Whole := run_invariant_of (fun _ _ _ hp hc hs => hp.step hc hs) whole_start hacts hrun
  refine ⟨h.whole, fun howner => ?_⟩
  have hwhole := h.whole
  rwa [unfinished_of_none howner, List.append_nil] at hwhole

/-- Two threads print at the same time. -/
def twoPrints : List PrintOutputAct :=
  [.enter 1 (.mPrintInt (Vector.replicate 16 0) 42 10 0), .enter 2 (.log [104, 105]), .mlock 1,
    .mlock 2, .putc 1, .mlock 2, .putc 1, .munlock 1, .mlock 2, .putc 2]

theorem prints_in_order_run : ∃ s, run step start twoPrints = some s ∧
    s.output ++ s.unfinished = [52, 50] ++ [104, 105, 10] := by
  obtain ⟨s, hs⟩ := Option.isSome_iff_exists.mp
    (by decide +kernel : (run step start twoPrints).isSome = true)
  have hsections : ∀ s ∈ run step start twoPrints, s.sections = [[52, 50], [104, 105, 10]] := by
    decide +kernel
  have hacts : AllSteps step Careful start twoPrints := by decide +kernel
  exact ⟨s, hs, by rw [(prints_in_order hacts hs).1, hsections s hs]; rfl⟩

end PrintOutput

end Os1Kernel
