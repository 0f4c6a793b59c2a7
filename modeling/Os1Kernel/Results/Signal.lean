/-
# `signal` is additive

`signal(x + y)` leaves the kernel as `signal(x)` followed by `signal(y)` does, and as `x + y` calls
of `signal(1)` do.  It is shown for every state that the operations of `kSemaphore` reach from a
state of the machine, with any numbers of tokens, although the system calls only ever use one.

The equation is one of states, not of lists: the loop of `signal(x + y)` is cut where the loop of
`signal(x)` ends, and that may be between two waiters, in the middle of what one of them needs, or
behind the last of them (`signalLoop_add`, by induction on the fuel).

* The history is left out of the equation (`Kernel.forget`), since it notes how many calls there
  were.  Nobody reads it (`Kernel.Ghost`), so the second call may be run on either state.
* The states in question need not be states of a run, where each waiter needs one token.  What is
  known of them is that their lists are in order (`Refine.Orderly`), which is what makes the loops
  end.
-/
import Os1Kernel.Kernel.Ghost
import Os1Kernel.Refine.Boot
import Os1Kernel.Refine.Orderly

namespace Os1Kernel

open Simulation

variable {k k' : Kernel} {s : SemPtr} {a : Sys}

/-! ## 1. Operations with any number of tokens

The states that the claim is about: those of the machine, and whatever the operations make of them
when they are called with other numbers than the system calls use. -/

/-- What the running thread calls, or the timer does. -/
inductive TokenAct
  | wait (s : SemPtr) (tokens : UInt64)
  | timedWait (s : SemPtr) (timeout tokens : UInt64)
  | tryWait (s : SemPtr) (tokens : UInt64)
  | signal (s : SemPtr) (tokens : UInt64)
  | dispatch
  | timer

def TokenAct.exec : TokenAct → KernelM Unit
  | .wait s tokens => do let _ ← kSemaphore.wait s tokens.toNat (.semWait s)
  | .timedWait s timeout tokens => do
    let _ ← kSemaphore.timedWait s timeout.toNat tokens.toNat (.semWait s)
  | .tryWait s tokens => do let _ ← kSemaphore.tryWait s tokens.toNat
  | .signal s tokens => do let _ ← kSemaphore.signal s tokens.toNat
  | .dispatch => TCB.yield true .dispatch
  | .timer => handleTimer

def TokenAct.byTimer : TokenAct → Bool
  | .timer => true
  | _ => false

/-- One operation.  The idle thread calls none. -/
def tokenStep (k : Kernel) (act : TokenAct) : Option Kernel :=
  if act.byTimer || k.running ≠ k.idle then (act.exec k).map (·.2) else none

/-- The states that these operations reach from any state of the machine, whatever threads and
semaphores it has. -/
def TokenReachable (k : Kernel) : Prop :=
  ∃ k₀ acts, Reachable k₀ ∧ Run.run tokenStep k₀ acts = some k

/-- `n` single signals. -/
def signalEach (s : SemPtr) : Nat → KernelM Unit
  | 0 => pure ()
  | n + 1 => do
    let _ ← kSemaphore.signal s 1
    signalEach s n

theorem Sys.Inv.orderly (h : a.Inv) (ha : a.activity = .none) : a.Orderly where
  places := h.places
  ticks := h.ticks
  threads_lt := h.names.threads_lt
  running_mem := h.alive.running_mem
  idle_mem := h.names.idle_mem
  finished := fun hf => (h.contexts.finished hf).resolve_right (Sys.not_leaving ha)

/-- A state between two operations. -/
def Kernel.Calm (k : Kernel) : Prop := ∃ a, Well k a ∧ a.activity = .none

/-- Whatever the result of an operation is. -/
theorem Goes.discard {α : Type} {m : KernelM α} (h : Goes m k a fun _ b => b.activity = .none) :
    Goes (do let _ ← m) k a fun _ b => b.activity = .none :=
  Follows.bind h fun _ _ _ h' hb => Follows.pure h' hb

theorem TokenAct.exec_goes (h : Well k a) (ha : a.activity = .none) (act : TokenAct)
    (hi : act.byTimer = true ∨ a.running ≠ a.idle) :
    Goes act.exec k a fun _ b => b.activity = .none := by
  cases act with
  | timer => exact handleTimer_goes h ha
  | dispatch => exact preempt_goes h ha .dispatch
  | signal s tokens => exact (signal_goes h ha s _).discard
  | tryWait s tokens => exact (tryWait_goes h ha s _).discard
  | wait s tokens => exact (wait_goes h ha (hi.resolve_left nofun) s _ _).discard
  | timedWait s timeout tokens =>
    exact (timedWait_goes h ha (hi.resolve_left nofun) s _ timeout.toNat_lt _).discard

theorem tokenStep_calm (h : k.Calm) {act : TokenAct} (hs : tokenStep k act = some k') :
    k'.Calm := by
  obtain ⟨a, hw, ha⟩ := h
  have hi : act.byTimer = true ∨ a.running ≠ a.idle := by
    by_contra hi
    rw [not_or, not_not] at hi
    simp [tokenStep, hi.1, hi.2, hw.rep.running, hw.rep.idle] at hs
  obtain ⟨x, k₁, b, hk, -, hw', hb⟩ := act.exec_goes hw ha hi
  have hs' : (act.exec k).map (·.2) = some k' := (Option.ite_none_right_eq_some.mp hs).2
  rw [hk] at hs'
  cases hs'
  exact ⟨b, hw', hb⟩

theorem TokenReachable.calm (h : TokenReachable k) : k.Calm := by
  obtain ⟨k₀, acts, h₀, hrun⟩ := h
  obtain ⟨_, _, a, -, hshow⟩ := h₀.shows
  exact Run.run_invariant (fun _ _ _ h hs => tokenStep_calm h hs)
    ⟨a, ⟨hshow.rep, hshow.inv.orderly hshow.idle.activity⟩, hshow.idle.activity⟩ hrun

/-! ## 2. Cutting the loop in two -/

/-- One iteration of the loop of `signal`. -/
theorem signalLoop_succ (s : SemPtr) (n tokens : Nat) (k : Kernel) :
    kSemaphore.signalLoop s (n + 1) tokens k =
      match (k.sem s).blockedHead with
      | none => some (tokens, k)
      | some head =>
        if 0 < tokens then
          if (k.tcb head).tokensNeeded ≤ tokens then
            (kSemaphore.release s .regular (k.setTcb head fun x =>
              { x with tokensNeeded := 0 })).bind fun p =>
                kSemaphore.signalLoop s n (tokens - (k.tcb head).tokensNeeded) p.2
          else kSemaphore.signalLoop s n 0 (k.setTcb head fun x =>
            { x with tokensNeeded := x.tokensNeeded - tokens })
        else some (tokens, k) := by
  rw [kSemaphore.signalLoop, bind_apply, getSem_apply, Option.bind_some]
  cases (k.sem s).blockedHead with
  | none => rfl
  | some head =>
    dsimp only
    by_cases h0 : 0 < tokens
    · rw [if_pos h0, if_pos h0, bind_apply, getTcb_apply, Option.bind_some]
      dsimp only
      split
      · rw [bind_apply, setThread_apply, Option.bind_some, bind_apply]
      · rw [bind_apply, setThread_apply, Option.bind_some]
    · rw [if_neg h0, if_neg h0]
      rfl

section Loop

variable {n x y left l : Nat}

theorem signalLoop_zero (h : n ≠ 0) : kSemaphore.signalLoop s n 0 k = some (0, k) := by
  obtain ⟨n, rfl⟩ := Nat.exists_eq_succ_of_ne_zero h
  rw [signalLoop_succ]
  cases (k.sem s).blockedHead <;> rfl

/-- A loop that ends needs some fuel. -/
theorem fuel_ne_zero {r : Nat × Kernel} (h : kSemaphore.signalLoop s n x k = some r) : n ≠ 0 := by
  rintro rfl
  cases h

/-- More fuel does no harm. -/
theorem signalLoop_mono {r : Nat × Kernel} (h : kSemaphore.signalLoop s n x k = some r) :
    kSemaphore.signalLoop s (n + 1) x k = some r := by
  induction n generalizing x k with
  | zero => cases h
  | succ n ih =>
    rw [signalLoop_succ] at h ⊢
    cases hb : (k.sem s).blockedHead with
    | none => rwa [hb] at h
    | some head =>
      rw [hb] at h
      dsimp only at h ⊢
      split
      · next h0 =>
        rw [if_pos h0] at h
        split
        · next hle =>
          rw [if_pos hle] at h
          obtain ⟨p, hp, h⟩ := Option.bind_eq_some_iff.mp h
          exact Option.bind_eq_some_iff.mpr ⟨p, hp, ih h⟩
        · next hle =>
          rw [if_neg hle] at h
          exact ih h
      · next h0 => rwa [if_neg h0] at h

/-- An update of one thread that overwrites another one. -/
theorem setTcb_setTcb {t : Tid} {f g : TCB → TCB} :
    (k.setTcb t f).setTcb t g = k.setTcb t (g ∘ f) := by
  simp only [Kernel.setTcb, Function.update_self, Function.update_idem, Function.comp_apply]

/-- **The loop, cut in two.**  When the loop for `x` ends, either it has used all its tokens, and
the loop for `y` goes on to where the loop for `x + y` ends, or nobody waits any more. -/
theorem signalLoop_add (h : kSemaphore.signalLoop s n (x + y) k = some (left, k')) :
    ∃ l k₁, kSemaphore.signalLoop s n x k = some (l, k₁) ∧
      (l = 0 ∧ kSemaphore.signalLoop s n y k₁ = some (left, k') ∨
        (k₁.sem s).blockedHead = none ∧ k₁ = k' ∧ left = l + y) := by
  induction n generalizing x k with
  | zero => cases h
  | succ n ih =>
    by_cases hx : x = 0
    · subst hx
      rw [Nat.zero_add] at h
      exact ⟨0, k, signalLoop_zero (fuel_ne_zero h), Or.inl ⟨rfl, h⟩⟩
    rw [signalLoop_succ] at h
    rw [signalLoop_succ]
    cases hb : (k.sem s).blockedHead with
    | none =>
      rw [hb] at h
      cases h
      exact ⟨x, k', rfl, Or.inr ⟨hb, rfl, rfl⟩⟩
    | some head =>
      rw [hb] at h
      dsimp only at h ⊢
      rw [if_pos (by omega)] at h
      rw [if_pos (Nat.pos_of_ne_zero hx)]
      by_cases hle : (k.tcb head).tokensNeeded ≤ x
      · -- the waiter gets all it needs out of `x`
        rw [if_pos (hle.trans (Nat.le_add_right x y))] at h
        rw [if_pos hle]
        obtain ⟨p, hp, h⟩ := Option.bind_eq_some_iff.mp h
        rw [Nat.sub_add_comm hle] at h
        obtain ⟨l, k₁, h₁, hl⟩ := ih h
        refine ⟨l, k₁, Option.bind_eq_some_iff.mpr ⟨p, hp, h₁⟩, hl.imp_left fun hl => ?_⟩
        exact ⟨hl.1, signalLoop_mono hl.2⟩
      · -- it gets `x`, and the rest, or a part of the rest, out of `y`
        have hn : n ≠ 0 := by
          rintro rfl
          split at h
          · obtain ⟨_, -, h⟩ := Option.bind_eq_some_iff.mp h
            cases h
          · cases h
        rw [if_neg hle, signalLoop_zero hn]
        refine ⟨0, _, rfl, Or.inl ⟨rfl, ?_⟩⟩
        have hneed : ((k.setTcb head fun z =>
            { z with tokensNeeded := z.tokensNeeded - x }).tcb head).tokensNeeded =
            (k.tcb head).tokensNeeded - x := by
          simp [Kernel.setTcb]
        rw [signalLoop_succ, show ((k.setTcb head fun z =>
          { z with tokensNeeded := z.tokensNeeded - x }).sem s).blockedHead = some head from hb]
        dsimp only
        rw [hneed, setTcb_setTcb, setTcb_setTcb]
        by_cases hle' : (k.tcb head).tokensNeeded ≤ x + y
        · rw [if_pos hle'] at h
          rw [if_pos (by omega), if_pos (by omega),
            show y - ((k.tcb head).tokensNeeded - x) = x + y - (k.tcb head).tokensNeeded by omega]
          exact h
        · rw [if_neg hle', signalLoop_zero hn] at h
          cases h
          by_cases hy : y = 0
          · subst hy
            rfl
          · rw [if_pos (Nat.pos_of_ne_zero hy), if_neg (by omega), signalLoop_zero hn]
            simp only [Function.comp_def, Nat.sub_sub]

/-- What is left of the tokens. -/
theorem signalLoop_le (h : kSemaphore.signalLoop s n x k = some (left, k')) : left ≤ x := by
  induction n generalizing x k with
  | zero => cases h
  | succ n ih =>
    rw [signalLoop_succ] at h
    cases hb : (k.sem s).blockedHead with
    | none =>
      rw [hb] at h
      cases h
      exact le_rfl
    | some head =>
      rw [hb] at h
      dsimp only at h
      split at h
      · split at h
        · obtain ⟨_, -, h⟩ := Option.bind_eq_some_iff.mp h
          exact (ih h).trans (Nat.sub_le _ _)
        · exact (ih h).trans (Nat.zero_le x)
      · cases h
        exact le_rfl

end Loop

/-! ## 3. `signal` in a calm state

A `signal` is its loop and the addition of what is left.  In a calm state the loop ends, so this is
an equation. -/

/-- `value += left` -/
def Kernel.addValue (k : Kernel) (s : SemPtr) (left : Nat) : Kernel :=
  k.setSem s fun z => { z with value := u64 (z.value + left) }

theorem addValue_forget (h : k.forget = k'.forget) (s : SemPtr) (left : Nat) :
    (k.addValue s left).forget = (k'.addValue s left).forget :=
  forget_congr (f := fun k => (k.addValue s left).forget) (fun _ _ => rfl) h

theorem addValue_zero (h : (k.sem s).value < 2 ^ 64) : k.addValue s 0 = k := by
  have hsame : ({ k.sem s with value := u64 ((k.sem s).value + 0) } : KSemaphore) = k.sem s := by
    rw [Nat.add_zero, u64_of_lt h]
  rw [Kernel.addValue, Kernel.setSem, hsame, Function.update_eq_self]

theorem addValue_add (k : Kernel) (s : SemPtr) (l m : Nat) :
    (k.addValue s l).addValue s m = k.addValue s (l + m) := by
  simp only [Kernel.addValue, Kernel.setSem, Function.update_self, Function.update_idem, u64,
    Nat.mod_add_mod, Nat.add_assoc]

/-- What two calls of `signal` have in common. -/
structure Signals (s : SemPtr) (n : Nat) (k : Kernel) (left : Nat) (k₁ k' : Kernel) : Prop where
  signal : kSemaphore.signal s n k = some (0, k')
  loop : kSemaphore.signalLoop s (k.IDCounter + 1) n k = some (left, k₁)
  after : k'.forget = (k₁.addValue s left).forget
  sem : (k₁.sem s).toSem = (k.sem s).toSem
  IDCounter : k₁.IDCounter = k.IDCounter
  calm : k'.Calm
  split : ∃ m, k'.blockedList s = (k.blockedList s).drop m ∧
    k'.readyList = k.readyList ++ (k.blockedList s).take m

theorem Kernel.Calm.signals (h : k.Calm) (hactive : (k.sem s).active = true) (n : Nat) :
    ∃ left k₁ k', Signals s n k left k₁ k' := by
  obtain ⟨a, hw, ha⟩ := h
  have hid : k.IDCounter = a.IDCounter := congrArg Core.IDCounter hw.rep.core
  have hlen := Nat.lt_succ_of_le (hw.orderly.places.queue_length hw.orderly.threads_lt s)
  have hgoes : Goes (kSemaphore.signalLoop s (a.IDCounter + 1) n) k a _ :=
    signalLoop_goes _ hw ha (Or.inl hlen)
  obtain ⟨left, k₁, b, hloop, -, hw₁, hb, hserves⟩ := hgoes
  -- the same loop, behind the event that `signal` notes
  obtain ⟨k₂, hloop₂, hforget⟩ := signalLoop_respects s _ n k
    { k with history := .signalled s n :: k.history } left k₁ rfl hloop
  have hsignal : kSemaphore.signal s n k = some (0, k₂.addValue s left) := by
    rw [← hid] at hloop₂
    simp only [kSemaphore.signal, bind_apply, getSem_apply, Option.bind_some, hactive]
    simp only [Bool.not_true, Bool.false_eq_true, if_false, bind_apply, emit_apply,
      Option.bind_some, fuel_apply, hloop₂, setSem_apply, pure_apply]
    rfl
  obtain ⟨x, k', d, hk', -, hw', hd⟩ := signal_goes hw ha s n
  have hk'' := hsignal.symm.trans hk'
  simp only [Option.some.injEq, Prod.mk.injEq] at hk''
  refine ⟨left, k₁, k₂.addValue s left, hsignal, hid ▸ hloop, (addValue_forget hforget s left).symm,
    ?_, ?_, ?_, ?_⟩
  · rw [hw₁.rep.sem_apply, hserves.sem, hw.rep.sem_apply]
  · exact (congrArg Core.IDCounter hw₁.rep.core).trans (hserves.IDCounter.trans hid.symm)
  · exact ⟨d, hk''.2 ▸ hw', hd⟩
  · -- the lists do not depend on the history, nor on the value
    obtain ⟨m, hm⟩ := hserves.split
    have hl : ∀ {c : Kernel} {a : Sys}, Well c a →
        c.blockedList s = a.queue s ∧ c.readyList = a.ready := fun h =>
      ⟨h.rep.blockedList_eq (h.orderly.places.queue_length h.orderly.threads_lt s),
        h.rep.readyList_eq (h.orderly.places.ready_length h.orderly.threads_lt)⟩
    have hblocked : (k₂.addValue s left).blockedList s = k₁.blockedList s := by
      rw [forget_congr (f := fun k => (k.addValue s left).blockedList s) (fun _ _ => rfl)
        hforget.symm]
      simp [Kernel.addValue, Kernel.blockedList, Kernel.setSem]
    have hready : (k₂.addValue s left).readyList = k₁.readyList :=
      forget_congr (f := fun k => (k.addValue s left).readyList) (fun _ _ => rfl) hforget.symm
    rw [hblocked, hready, (hl hw₁).1, (hl hw₁).2, (hl hw).1, (hl hw).2]
    exact ⟨m, hm⟩

/-! ## 4. Additivity -/

/-- **Two signals are one.** -/
theorem signal_add (h : k.Calm) (hactive : (k.sem s).active = true) {x y : Nat}
    (hv : (k.sem s).value < 2 ^ 64) :
    ∃ left l k₁ k' kₓ k₂, Signals s (x + y) k left k₁ k' ∧
      (∃ k₃, Signals s x k l k₃ kₓ) ∧ kSemaphore.signal s y kₓ = some (0, k₂) ∧
      k₂.forget = k'.forget := by
  obtain ⟨left, k₁, k', hxy⟩ := h.signals hactive (x + y)
  obtain ⟨l, k₃, kₓ, hx⟩ := h.signals hactive x
  have hsem : (kₓ.sem s).active = true := by
    rw [forget_congr (f := fun k => (k.sem s).active) (fun _ _ => rfl) hx.after]
    simp only [Kernel.addValue, Kernel.setSem, Function.update_self]
    rw [hx.sem, hactive]
  obtain ⟨m, k₄, k₂, hy⟩ := hx.calm.signals hsem y
  refine ⟨left, l, k₁, k', kₓ, k₂, hxy, ⟨k₃, hx⟩, hy.signal, ?_⟩
  rw [hy.after, hxy.after]
  have hid : kₓ.IDCounter = k.IDCounter := by
    rw [forget_congr (f := fun k => k.IDCounter) (fun _ _ => rfl) hx.after]
    exact hx.IDCounter
  obtain ⟨l', k₃', hloop, hcases⟩ := signalLoop_add hxy.loop
  have hsame := hx.loop.symm.trans hloop
  simp only [Option.some.injEq, Prod.mk.injEq] at hsame
  obtain ⟨rfl, rfl⟩ := hsame
  rcases hcases with ⟨rfl, hrest⟩ | ⟨hnone, rfl, rfl⟩
  · -- nothing was left of `x`
    have hkₓ : kₓ.forget = k₃.forget := by
      rw [hx.after, addValue_zero]
      rw [hx.sem]
      exact hv
    obtain ⟨k₅, hloop₅, hforget⟩ := signalLoop_respects s _ y k₃ kₓ left k₁ hkₓ.symm hrest
    have hsame := hy.loop.symm.trans (hid ▸ hloop₅)
    simp only [Option.some.injEq, Prod.mk.injEq] at hsame
    obtain ⟨rfl, rfl⟩ := hsame
    exact addValue_forget hforget.symm s m
  · -- nobody waits any more
    have hnone' : (kₓ.sem s).blockedHead = none := by
      rw [forget_congr (f := fun k => (k.sem s).blockedHead) (fun _ _ => rfl) hx.after]
      simpa [Kernel.addValue, Kernel.setSem] using hnone
    have hloop' := hy.loop
    rw [signalLoop_succ, hnone'] at hloop'
    cases hloop'
    rw [addValue_forget hx.after, addValue_add]

/-- **`n` signals are one.** -/
theorem signalEach_add (h : k.Calm) (hactive : (k.sem s).active = true) {n : Nat}
    (hv : (k.sem s).value + n < 2 ^ 64) :
    ∃ k' k₂, kSemaphore.signal s n k = some (0, k') ∧ signalEach s n k = some ((), k₂) ∧
      k₂.forget = k'.forget := by
  induction n generalizing k with
  | zero =>
    obtain ⟨left, k₁, k', hs⟩ := h.signals hactive 0
    have hloop := hs.loop
    rw [signalLoop_zero (Nat.succ_ne_zero _)] at hloop
    cases hloop
    exact ⟨k', k, hs.signal, rfl, by rw [hs.after, addValue_zero hv]⟩
  | succ n ih =>
    rw [Nat.add_comm n 1] at hv ⊢
    obtain ⟨left, l, k₁, k', kₓ, k₂, hs, ⟨k₃, hx⟩, hy, hforget⟩ :=
      signal_add h hactive (x := 1) (y := n) (by omega)
    have hvalue : (kₓ.sem s).active = true ∧ (kₓ.sem s).value + n < 2 ^ 64 := by
      rw [forget_congr (f := fun k => k.sem s) (fun _ _ => rfl) hx.after]
      simp only [Kernel.addValue, Kernel.setSem, Function.update_self]
      have hle := signalLoop_le hx.loop
      rw [hx.sem, u64_of_lt (by omega)]
      exact ⟨hactive, by omega⟩
    obtain ⟨k₄, k₅, h₄, h₅, hforget'⟩ := ih hx.calm hvalue.1 hvalue.2
    have hsame := hy.symm.trans h₄
    simp only [Option.some.injEq, Prod.mk.injEq, true_and] at hsame
    subst hsame
    refine ⟨k', k₅, hs.signal, ?_, hforget'.trans hforget⟩
    rw [Nat.add_comm 1 n, signalEach, bind_apply, hx.signal, Option.bind_some, h₅]

/-- **`signal` is additive**, and whom it releases are the first who wait, in their order.  The
states that are compared differ in nothing but the history. -/
theorem signal_additive (h : TokenReachable k) (hactive : (k.sem s).active = true) {x y : Nat}
    (hv : (k.sem s).value + x + y < 2 ^ 64) :
    ∃ k' kₓ k₂ k₃, kSemaphore.signal s (x + y) k = some (0, k') ∧
      kSemaphore.signal s x k = some (0, kₓ) ∧ kSemaphore.signal s y kₓ = some (0, k₂) ∧
      k₂.forget = k'.forget ∧
      signalEach s (x + y) k = some ((), k₃) ∧ k₃.forget = k'.forget ∧
      ∃ m, k'.blockedList s = (k.blockedList s).drop m ∧
        k'.readyList = k.readyList ++ (k.blockedList s).take m := by
  obtain ⟨left, l, k₁, k', kₓ, k₂, hxy, ⟨k₄, hx⟩, hy, hforget⟩ :=
    signal_add h.calm hactive (x := x) (y := y) (by omega)
  obtain ⟨k'', k₃, hk'', h₃, hforget'⟩ :=
    signalEach_add h.calm hactive (n := x + y) (by omega)
  have hsame := hk''.symm.trans hxy.signal
  simp only [Option.some.injEq, Prod.mk.injEq, true_and] at hsame
  subst hsame
  exact ⟨k'', kₓ, k₂, k₃, hxy.signal, hx.signal, hy, hforget, h₃, hforget', hxy.split⟩

/-- `main` waits for three tokens, the thread of the input for two of them. -/
def twoWaiters : List TokenAct := [.wait (.join 0) 3, .timedWait (.join 0) 7 2]

theorem signal_additive_run : ∃ k₀ k, boot zeroMessage zeroBuffer = some k₀ ∧
    Run.run tokenStep k₀ twoWaiters = some k ∧ k.blockedList (.join 0) = [0, 2] ∧
    ∃ k' kₓ k₂ k₃, kSemaphore.signal (.join 0) (4 + 2) k = some (0, k') ∧
      kSemaphore.signal (.join 0) 4 k = some (0, kₓ) ∧
      kSemaphore.signal (.join 0) 2 kₓ = some (0, k₂) ∧ k₂.forget = k'.forget ∧
      signalEach (.join 0) (4 + 2) k = some ((), k₃) ∧ k₃.forget = k'.forget ∧
      ∃ m, k'.blockedList (.join 0) = (k.blockedList (.join 0)).drop m ∧
        k'.readyList = k.readyList ++ (k.blockedList (.join 0)).take m := by
  obtain ⟨k₀, -, hboot, -⟩ := exists_run [] (by decide +kernel)
  have he : ((boot zeroMessage zeroBuffer).bind fun k₀ =>
      (Run.run tokenStep k₀ twoWaiters).bind fun k =>
        if k.blockedList (.join 0) = [0, 2] ∧ (k.sem (.join 0)).active = true ∧
          (k.sem (.join 0)).value = 0 then some () else none).isSome = true := by
    decide +kernel
  rw [hboot, Option.bind_some] at he
  obtain ⟨_, he⟩ := Option.isSome_iff_exists.mp he
  obtain ⟨k, hrun, hk⟩ := Option.bind_eq_some_iff.mp he
  obtain ⟨hlist, hactive, hvalue⟩ := (Option.ite_none_right_eq_some.mp hk).1
  refine ⟨k₀, k, hboot, hrun, hlist, ?_⟩
  exact signal_additive ⟨k₀, twoWaiters, ⟨_, _, k₀, [], hboot, rfl⟩, hrun⟩ hactive
    (by rw [hvalue]; decide)

end Os1Kernel
