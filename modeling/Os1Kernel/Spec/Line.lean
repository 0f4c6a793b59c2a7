/-
# The waiters of a semaphore are a line

Those who block at a semaphore join a line at its end; `signal`, `signalAll` and `close` serve the
first, a timeout takes a waiter away from wherever he stands, and a wait that finds its tokens
passes only when the line is empty.

`Lib.WaitingLine` has these moves for lines of anything, and what follows from them about the
order.  `InLine` says that the queue of a semaphore is what the moves in its history lead to.  One
step adds one move at most, and the queue changes by the same move; the only case with an argument
is that of a wait that passes, where the value is not 0, so nobody waits (`WaitCall.queue_eq_nil`).
-/
import Os1Kernel.Lib.WaitingLine
import Os1Kernel.Spec.Buffer

namespace Os1Kernel

open WaitingLine

/-! ## 1. The moves -/

/-- What an event is for the line of `s`. -/
def Event.move (s : SemPtr) : Event → Option (Move Tid)
  | .blocked s' t _ => if s' = s then some (.join t) else none
  | .acquired s' t _ => if s' = s then some (.pass t) else none
  | .granted s' t | .dismissed s' t => if s' = s then some (.serve t) else none
  | .expired s' t => if s' = s then some (.leave t) else none
  | _ => none

def moves (s : SemPtr) (l : List Event) : List (Move Tid) := eventLog (Event.move s) l

theorem moves_cons (s : SemPtr) (e : Event) (l : List Event) :
    moves s (e :: l) = moves s l ++ (e.move s).toList :=
  eventLog_cons ..

/-- A waiter is served, by whomever he is released. -/
theorem UnblockManner.event_move (s s' : SemPtr) (t : Tid) (manner : UnblockManner) :
    (manner.event s t).move s' = if s = s' then some (.serve t) else none := by
  cases manner <;> rfl

namespace Sys

variable {a b : Sys} {t : Tid} {s : SemPtr}

/-! ## 2. The line -/

/-- The queue of `s` is the line behind all the moves so far. -/
def InLine (a : Sys) (s : SemPtr) : Prop := run [] (moves s a.history) = some (a.queue s)

/-- Who finds his tokens finds nobody waiting for them. -/
theorem WaitCall.queue_eq_nil {m : Nat} {ctx : Context} (hw : a.WaitCall s m ctx) (hi : a.Inv)
    (hv : m ≤ (a.sem s).value) : a.queue s = [] := by
  have hl := not_leaving_of hw.activity rfl
  refine List.eq_nil_iff_forall_not_mem.mpr fun t ht => ?_
  have hb := (hi.places.mem_queue t s).mp ht
  have ht := hi.waits.waitsAt t s hb
  cases hj : s.isJoinAll with
  | false =>
    have := ht.value
    have := hw.unit hj
    omega
  | true =>
    -- only the owner waits there, and he is running
    have hctx := ht.context
    rw [place_of_stay hl] at hctx
    cases hw with
    | joinAll | timedJoinAll =>
      have htr : t = a.running := by
        have hargs := hi.contexts.args t (hi.places.live t (Or.inr (Or.inl (by rw [hb]; simp)))).1
        cases hc : (a.thread t).context <;> rw [hc] at hctx hargs <;> cases hctx
        · obtain ⟨⟨n, hn⟩, -⟩ := hargs
          cases hn
        · rfl
        · rfl
      rw [htr, (hi.places.running_free hl).1] at hb
      cases hb
    | _ => cases hj

theorem InLine.step (h : ∀ s, a.InLine s) (hi : a.Inv) (hs : a.Step b) (s : SemPtr) :
    b.InLine s := by
  have hsame : b.queue s = a.queue s → moves s b.history = moves s a.history → b.InLine s :=
    fun h₁ h₂ => by
      rw [InLine, h₁, h₂]
      exact h s
  have hmove : ∀ {e q}, b.history = e :: a.history → b.queue s = q →
      run [] (moves s a.history ++ (e.move s).toList) = some q → b.InLine s := fun h₁ h₂ h₃ => by
    rwa [InLine, h₁, moves_cons, h₂]
  have hother : ∀ {e}, b.history = e :: a.history → b.queue s = a.queue s → e.move s = none →
      b.InLine s := fun h₁ h₂ h₃ => hsame h₂ (by
    rw [h₁, moves_cons, h₃]
    exact List.append_nil _)
  -- a waiter that is served was the first
  have hserve : ∀ {e s' t rest}, b.history = e :: a.history →
      (∀ s, Event.move s e = if s' = s then some (.serve t) else none) →
      a.queue s' = t :: rest → b.queue = (a.unblock s' t .regular).queue → b.InLine s :=
    fun {e s' t rest} h₁ h₂ h₃ h₄ => by
      by_cases he : s' = s
      · subst he
        refine hmove h₁ (q := rest) ?_ ?_
        · rw [h₄, Sys.unblock]
          simp [h₃]
        · rw [h₂, if_pos rfl]
          exact run_serve ((h s').trans (congrArg some h₃))
      · refine hother h₁ ?_ ((h₂ s).trans (if_neg he))
        rw [h₄]
        exact Function.update_of_ne (Ne.symm he) ..
  have hleave : ∀ {s' t}, (a.thread t).blockedAtSem = some s' →
      run [] (moves s a.history ++ (Event.move s (.expired s' t)).toList) =
        some ((a.unblock s' t .waitTimeout).queue s) := fun {s' t} hb => by
    by_cases he : s' = s
    · subst he
      rw [Sys.unblock, Event.move, if_pos rfl]
      simp only [Function.update_self]
      exact run_leave (h s') ((hi.places.mem_queue t s').mpr hb)
    · rw [Event.move, if_neg he, show (a.unblock s' t .waitTimeout).queue s = a.queue s from
        Function.update_of_ne (Ne.symm he) .., Option.toList_none, List.append_nil]
      exact h s
  cases hs with
  | @acquire s' m ctx hw ha hv =>
    by_cases he : s' = s
    · subst he
      have hnil := hw.queue_eq_nil hi hv
      refine hmove rfl hnil ?_
      rw [Event.move, if_pos rfl]
      exact run_pass ((h s').trans (congrArg some hnil))
    · exact hother rfl rfl (if_neg he)
  | @block s' m ctx o hw ha hv =>
    by_cases he : s' = s
    · subst he
      refine hmove rfl (Function.update_self ..) ?_
      rw [Event.move, if_pos rfl]
      refine run_join (h s') fun hm => ?_
      have hb := (hi.places.mem_queue _ _).mp hm
      rw [(hi.places.running_free (not_leaving_of hw.activity rfl)).1] at hb
      cases hb
    · exact hother rfl (Function.update_of_ne (Ne.symm he) ..) (if_neg he)
  | grant _ hq => exact hserve rfl (fun _ => rfl) hq rfl
  | release _ hq => exact hserve rfl (fun _ => UnblockManner.event_move ..) hq rfl
  | expire _ _ hb => exact hmove rfl rfl (hleave hb)
  | @timeoutZero _ _ s' hb =>
    have hl : moves s (Event.returned a.running TIMEOUT :: .expired s' a.running :: a.history) =
        moves s a.history ++ (Event.move s (.expired s' a.running)).toList := by
      rw [moves_cons, moves_cons]
      exact List.append_nil _
    exact (congrArg (run []) hl).trans (hleave hb)
  | _ =>
    refine hsame rfl ?_
    first
    | rfl
    | exact (moves_cons ..).trans (List.append_nil _)

end Sys

end Os1Kernel
