/-
# Nobody reads the ghost

`Core.history` is written beside the statements of the source.  Here it is shown for the loop of
`signal`, and for what it calls, that two runs from states that differ in their histories only end
in such states, with the same result.  Two runs that do the same to the kernel, but note it in
other words, can so be compared.

`forget` is the state without the history, and each function respects it (`Respects`): it reads the
state through fields that `forget` keeps, and writes the history only where it notes an event.  The
lemmas go up the calls, from the access to the objects to the loop.
-/
import Os1Kernel.Kernel.Sync

namespace Os1Kernel

open Simulation

variable {α : Type} {k k' : Kernel} {s : SemPtr} {t : Tid}

/-! ## 1. The state without the ghost -/

/-- Everything the kernel can read. -/
def Kernel.forget (k : Kernel) : Kernel := { k with history := [] }

theorem forget_eq_iff : k.forget = k'.forget ↔ k' = { k with history := k'.history } := by
  constructor
  · intro h
    rw [show k' = { k'.forget with history := k'.history } from rfl, ← h]
    rfl
  · intro h
    rw [h]
    rfl

/-- What does not depend on the history. -/
theorem forget_congr {β : Type*} {f : Kernel → β}
    (hf : ∀ (k : Kernel) h, f { k with history := h } = f k) (h : k.forget = k'.forget) :
    f k = f k' := by
  rw [forget_eq_iff.mp h]
  exact (hf k k'.history).symm

theorem respects_read {m : KernelM α} {f : Kernel → α} (h : ∀ k, m k = some (f k, k))
    (hf : ∀ (k : Kernel) h, f { k with history := h } = f k) : Respects Kernel.forget m :=
  .read h fun _ _ => forget_congr hf

/-- An update that does with the history what it likes. -/
theorem respects_write {m : KernelM Unit} {f : Kernel → Kernel} (h : ∀ k, m k = some ((), f k))
    (hf : ∀ (k : Kernel) h, (f { k with history := h }).forget = (f k).forget) :
    Respects Kernel.forget m :=
  .write h fun _ _ => forget_congr (f := fun k => (f k).forget) hf

theorem respects_getKernel {f : Kernel → KernelM α}
    (hf : ∀ (k : Kernel) h, f { k with history := h } = f k)
    (hk : ∀ k, Respects Kernel.forget (f k)) : Respects Kernel.forget (getKernel >>= f) :=
  .bind_read getKernel_apply (fun _ _ => forget_congr hf) hk

/-! ## 2. Access to the objects -/

theorem getTcb_respects (t : Tid) : Respects Kernel.forget (getTcb t) :=
  respects_read (fun k => getTcb_apply k t) fun _ _ => rfl

theorem getSem_respects (s : SemPtr) : Respects Kernel.forget (getSem s) :=
  respects_read (fun k => getSem_apply k s) fun _ _ => rfl

theorem fuel_respects : Respects Kernel.forget fuel :=
  respects_read fuel_apply fun _ _ => rfl

theorem setTcb_respects (f : TCB → TCB) : Respects Kernel.forget (setTcb t f) :=
  respects_write (fun k => setTcb_apply k t f) fun _ _ => rfl

theorem setThread_respects (f : Thread → Thread) : Respects Kernel.forget (setThread t f) :=
  setTcb_respects _

theorem setSem_respects (f : KSemaphore → KSemaphore) : Respects Kernel.forget (setSem s f) :=
  respects_write (fun k => setSem_apply k s f) fun _ _ => rfl

theorem emit_respects (e : Event) : Respects Kernel.forget (emit e) :=
  respects_write (fun k => emit_apply k e) fun _ _ => rfl

theorem modify_respects {f : Kernel → Kernel}
    (hf : ∀ (k : Kernel) h, (f { k with history := h }).forget = (f k).forget) :
    Respects Kernel.forget (modify f : KernelM Unit) :=
  respects_write (fun _ => modify_apply ..) hf

theorem follow_respects (p : Option α) : Respects Kernel.forget (follow p) := by
  cases p with
  | none => exact .failure
  | some x => exact .pure x

/-! ## 3. The queues -/

theorem schedulerPut_respects (t : Tid) : Respects Kernel.forget (Scheduler.put t) := by
  refine respects_getKernel (fun _ _ => rfl) fun k => ?_
  split
  · exact .pure _
  refine .bind (setTcb_respects _) fun _ => ?_
  cases k.readyTail with
  | none => exact modify_respects fun _ _ => rfl
  | some last => exact .bind (setTcb_respects _) fun _ => modify_respects fun _ _ => rfl

theorem semaphoreGetHead_respects (s : SemPtr) : Respects Kernel.forget (kSemaphore.get s none) := by
  refine .bind (.bind (getSem_respects s) fun x => ?_) fun ret => .bind ?_ fun _ => .pure _
  · cases x.blockedHead with
    | none => exact .pure _
    | some t =>
      exact .bind (getTcb_respects t) fun _ => .bind (setSem_respects _) fun _ => .pure _
  · cases ret with
    | none => exact .pure _
    | some t => exact .bind (setThread_respects _) fun _ => setTcb_respects _

theorem sleepGet_respects (t : Tid) : Respects Kernel.forget (Sleep.get (some t)) := by
  refine .bind (respects_getKernel (fun _ _ => rfl) fun k => ?_) fun ret => .bind ?_ fun _ => .pure _
  · split
    · refine .bind fuel_respects fun n => .bind (follow_respects _) fun p => ?_
      obtain ⟨prev, curr⟩ := p
      cases curr with
      | none => exact .pure _
      | some curr =>
        refine .bind (getTcb_respects curr) fun x => .bind ?_ fun _ => .bind ?_ fun _ => .pure _
        · cases prev with
          | none => exact modify_respects fun _ _ => rfl
          | some prev => exact setTcb_respects _
        · unfold Sleep.addRelative
          cases x.nextSleep with
          | none => exact .pure _
          | some u => exact setTcb_respects _
    · exact .pure _
  · cases ret with
    | none => exact .pure _
    | some t => exact setTcb_respects _

/-! ## 4. `signal` -/

theorem release_respects (s : SemPtr) (manner : UnblockManner) :
    Respects Kernel.forget (kSemaphore.release s manner) := by
  refine .bind (semaphoreGetHead_respects s) fun p => .bind (follow_respects p) fun t => ?_
  refine .bind (getTcb_respects t) fun x => .bind ?_ fun _ => .bind (setThread_respects _) fun _ =>
    .bind (emit_respects _) fun _ => schedulerPut_respects t
  split
  · exact .bind (sleepGet_respects t) fun _ => .pure _
  · exact .pure _

theorem signalLoop_respects (s : SemPtr) (n tokens : Nat) :
    Respects Kernel.forget (kSemaphore.signalLoop s n tokens) := by
  induction n generalizing tokens with
  | zero => exact .failure
  | succ n ih =>
    refine .bind (getSem_respects s) fun x => ?_
    cases x.blockedHead with
    | none => exact .pure _
    | some head =>
      refine if h : 0 < tokens then ?_ else ?_
      · dsimp only
        rw [if_pos h]
        refine .bind (getTcb_respects head) fun y => ?_
        split
        · exact .bind (setThread_respects _) fun _ => .bind (release_respects s _) fun _ => ih _
        · exact .bind (setThread_respects _) fun _ => ih _
      · dsimp only
        rw [if_neg h]
        exact .pure _

end Os1Kernel
