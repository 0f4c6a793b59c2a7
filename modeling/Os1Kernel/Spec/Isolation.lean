/-
# Threads that do not run

As long as a thread is not chosen, nothing happens to it but what the lists and the semaphores are
for: it is released, once, from where it waits; part of the tokens it waits for is handed over; a
message is written to its slot; a child of it finishes.  Everything else it finds as it left it
when it runs again, whatever the other threads do and however they end.

`Rests` is a relation between two states that are any number of steps apart.  It is reflexive and
transitive, which is the reason for its shape: a thread that was released cannot be released again
before it runs (`Freed.once`), so the two cases of `place` compose.  One step that does not choose
the thread is an instance of it (`Step.rests`), and the run is an induction (`Steps.rests`).

The fields that no other thread writes are compared all at once, as one record (`Thread.kept`).
-/
import Os1Kernel.Spec.Invariant

namespace Os1Kernel

/-- The fields of a thread that no other thread writes. -/
def Thread.kept (x : Thread) : (Mode × Option Tid × Bool × Bool × Bool × Context × Bool × Nat) ×
    (Option SemPtr × Option SemPtr × Option SemPtr × Option SemPtr) × Nat × Word × Word :=
  ((x.mode, x.parent, x.hasBody, x.userStack, x.systemStack, x.context, x.finished, x.exitStatus),
    (x.semJoin, x.semJoinAll, x.semSend, x.semReceive), x.timeSlice, x.a0, x.handle)

namespace Sys

variable {a b d : Sys} {t u : Tid}

/-! ## 1. The relation -/

/-- The thread is on the lists that it was on. -/
structure Still (a b : Sys) (t : Tid) : Prop where
  blocked : (b.thread t).blockedAtSem = (a.thread t).blockedAtSem
  manner : (b.thread t).unblockManner = (a.thread t).unblockManner
  tokens : (b.thread t).tokensNeeded ≤ (a.thread t).tokensNeeded
  asleep : t ∈ b.asleep ↔ t ∈ a.asleep
  ready : t ∈ b.ready ↔ t ∈ a.ready

/-- The thread waited, and has been made ready. -/
structure Freed (a b : Sys) (t : Tid) : Prop where
  waited : (a.thread t).blockedAtSem ≠ none ∨ t ∈ a.asleep
  ready : t ∈ b.ready
  blocked : (b.thread t).blockedAtSem = none
  asleep : t ∉ b.asleep

/-- What has happened to the thread, unless it has run. -/
structure Rests (a b : Sys) (t : Tid) : Prop where
  kept : (b.thread t).kept = (a.thread t).kept
  place : a.Still b t ∨ a.Freed b t
  message : ∃ l, b.history = l ++ a.history ∧
    ((b.thread t).message = (a.thread t).message ∨ ∃ u msg, .wrote t u msg ∈ l)

theorem Still.refl (a : Sys) (t : Tid) : a.Still a t := ⟨rfl, rfl, Nat.le_refl _, Iff.rfl, Iff.rfl⟩

theorem Still.trans (h : a.Still b t) (h' : b.Still d t) : a.Still d t :=
  ⟨h'.blocked.trans h.blocked, h'.manner.trans h.manner, h'.tokens.trans h.tokens,
    h'.asleep.trans h.asleep, h'.ready.trans h.ready⟩

/-- A thread is released once. -/
theorem Freed.once (h : a.Freed b t) : ¬ b.Freed d t := by
  intro h'
  rcases h'.waited with hb | ha
  · exact hb h.blocked
  · exact h.asleep ha

theorem Rests.refl (a : Sys) (t : Tid) : a.Rests a t :=
  ⟨rfl, Or.inl (.refl a t), [], rfl, Or.inl rfl⟩

theorem Rests.trans (h : a.Rests b t) (h' : b.Rests d t) : a.Rests d t := by
  refine ⟨h'.kept.trans h.kept, ?_, ?_⟩
  · rcases h.place with hs | hf <;> rcases h'.place with hs' | hf'
    · exact Or.inl (hs.trans hs')
    · refine Or.inr ⟨?_, hf'.ready, hf'.blocked, hf'.asleep⟩
      rw [← hs.blocked, ← hs.asleep]
      exact hf'.waited
    · exact Or.inr ⟨hf.waited, hs'.ready.mpr hf.ready, hs'.blocked.trans hf.blocked,
        fun ha => hf.asleep (hs'.asleep.mp ha)⟩
    · exact absurd hf' hf.once
  · obtain ⟨l, hl, hm⟩ := h.message
    obtain ⟨l', hl', hm'⟩ := h'.message
    refine ⟨l' ++ l, by rw [hl', hl, List.append_assoc], ?_⟩
    rcases hm' with he' | ⟨u, msg, hw⟩
    · rcases hm with he | ⟨u, msg, hw⟩
      · exact Or.inl (he'.trans he)
      · exact Or.inr ⟨u, msg, List.mem_append_right l' hw⟩
    · exact Or.inr ⟨u, msg, List.mem_append_left l hw⟩

/-! ## 2. Steps -/

/-- A step that does not touch the fields of `t` that say where it is. -/
theorem Still.of_fields (hthread : b.thread t = a.thread t) (hsleepers : b.asleep = a.asleep)
    (hready : b.ready = a.ready) : a.Still b t := by
  refine ⟨?_, ?_, ?_, ?_, ?_⟩
  · rw [hthread]
  · rw [hthread]
  · rw [hthread]
  · rw [hsleepers]
  · rw [hready]

/-- The update of another thread. -/
theorem update_other {g : Tid → Thread} {x : Thread} (h : t ≠ u) :
    Function.update g u x t = g t := Function.update_of_ne h ..

/-- The other thread is taken off its lists, and put on the ready list. -/
theorem Still.of_unblock {manner : UnblockManner} (h : t ≠ u)
    (hthread : b.thread = Function.update a.thread u
      { a.thread u with blockedAtSem := none, tokensNeeded := 0, unblockManner := manner })
    (hsleepers : b.asleep = (a.awake u).asleep) (hready : b.ready = a.ready ++ [u]) :
    a.Still b t := by
  have hsame : b.thread t = a.thread t := by
    rw [hthread]
    exact update_other h
  refine ⟨congrArg Thread.blockedAtSem hsame, congrArg Thread.unblockManner hsame,
    (congrArg Thread.tokensNeeded hsame).le, ?_, ?_⟩
  · rw [hsleepers, asleep_awake]
    simp [h]
  · rw [hready]
    simp [h]

theorem Freed.of_unblock {manner : UnblockManner} (hw : (a.thread t).blockedAtSem ≠ none)
    (hthread : b.thread = Function.update a.thread t
      { a.thread t with blockedAtSem := none, tokensNeeded := 0, unblockManner := manner })
    (hsleepers : b.asleep = (a.awake t).asleep) (hready : b.ready = a.ready ++ [t]) :
    a.Freed b t := by
  refine ⟨Or.inl hw, ?_, ?_, ?_⟩
  · rw [hready]
    simp
  · rw [hthread, Function.update_self]
  · rw [hsleepers, asleep_awake]
    simp

/-- The next thread is chosen, and it is not `t`. -/
theorem mem_ready_tail {l : List Tid} (hne : t ≠ l.headD u) : t ∈ l.tail ↔ t ∈ l := by
  cases l with
  | nil => exact Iff.rfl
  | cons v l =>
    have hv : t ≠ v := hne
    simp [hv]

/-- The update of a thread that changes none of the fields that say where it is. -/
theorem Still.of_update {x : Thread} (hthread : b.thread = Function.update a.thread u x)
    (hblocked : x.blockedAtSem = (a.thread u).blockedAtSem)
    (hmanner : x.unblockManner = (a.thread u).unblockManner)
    (htokens : x.tokensNeeded ≤ (a.thread u).tokensNeeded) (hsleepers : b.asleep = a.asleep)
    (hready : b.ready = a.ready) : a.Still b t := by
  by_cases htu : t = u
  · subst htu
    have hself : b.thread t = x := by rw [hthread, Function.update_self]
    refine ⟨?_, ?_, ?_, ?_, ?_⟩
    · rw [hself, hblocked]
    · rw [hself, hmanner]
    · rwa [hself]
    · rw [hsleepers]
    · rw [hready]
  · exact .of_fields (by rw [hthread, update_other htu]) hsleepers hready

theorem Step.stillOrFreed (hs : a.Step b) (hi : a.Inv) (ht : t ∈ a.threads) (hne : t ≠ a.running)
    (hne' : t ≠ b.running) : a.Still b t ∨ a.Freed b t := by
  have hother : ∀ {x : Thread}, Function.update a.thread a.running x t = a.thread t :=
    fun {x} => update_other hne
  cases hs with
  | tick =>
    refine Or.inl (.of_fields rfl ?_ rfl)
    simp only [asleep, List.map_map]
    rfl
  | @expire _ u _ _ s hb =>
    by_cases htu : t = u
    · subst htu
      exact Or.inr (.of_unblock (by rw [hb]; exact Option.some_ne_none s) rfl rfl rfl)
    · exact Or.inl (.of_unblock htu rfl rfl rfl)
  | @grant s _ _ u _ hq | @release s _ _ u _ hq =>
    by_cases htu : t = u
    · subst htu
      have hb := (hi.places.mem_queue t s).mp (by rw [hq]; exact List.mem_cons_self)
      exact Or.inr (.of_unblock (by rw [hb]; exact Option.some_ne_none s) rfl rfl rfl)
    · exact Or.inl (.of_unblock htu rfl rfl rfl)
  | @wake hact u rest hsl hb =>
    by_cases htu : t = u
    · subst htu
      refine Or.inr ⟨Or.inr ?_, ?_, hb, ?_⟩
      · rw [asleep, hsl]
        exact List.mem_cons_self
      · change t ∈ a.ready ++ [t]
        simp
      · change t ∉ (a.awake t).asleep
        rw [asleep_awake]
        simp
    · refine Or.inl ⟨rfl, rfl, Nat.le_refl _, ?_, ?_⟩
      · change t ∈ (a.awake u).asleep ↔ _
        rw [asleep_awake]
        simp [htu]
      · change t ∈ a.ready ++ [u] ↔ _
        simp [htu]
  | @preempt hb ctx =>
    refine Or.inl ⟨congrArg Thread.blockedAtSem hother, congrArg Thread.unblockManner hother,
      (congrArg Thread.tokensNeeded hother).le, Iff.rfl, (mem_ready_tail hne').trans ?_⟩
    rw [pushReady]
    split <;> simp [hne]
  | switch =>
    exact Or.inl ⟨congrArg Thread.blockedAtSem hother, congrArg Thread.unblockManner hother,
      (congrArg Thread.tokensNeeded hother).le, Iff.rfl, mem_ready_tail hne'⟩
  | @fallAsleep ctx n =>
    refine Or.inl ⟨rfl, rfl, Nat.le_refl _, ?_, Iff.rfl⟩
    exact asleep_fallAsleep.mem_iff.trans (by simp [hne])
  | timeoutZero =>
    refine Or.inl ⟨congrArg Thread.blockedAtSem hother, congrArg Thread.unblockManner hother,
      (congrArg Thread.tokensNeeded hother).le, ?_, Iff.rfl⟩
    change t ∈ (a.awake a.running).asleep ↔ _
    rw [asleep_awake]
    simp [hne]
  | part => exact Or.inl (.of_update rfl rfl rfl (Nat.sub_le ..) rfl rfl)
  | write | childLeaves | childSignals =>
    exact Or.inl (.of_update rfl rfl rfl (Nat.le_refl _) rfl rfl)
  | leave | acquire | block | tryFail | retire => exact Or.inl (.of_fields hother rfl rfl)
  | init hc hnew => exact Or.inl (.of_fields (update_other fun he => hnew (he ▸ ht)) rfl rfl)
  | @enlist hc u hnew =>
    have htu : t ≠ u := fun he => Nat.lt_irrefl _ (hnew u (he ▸ ht))
    refine Or.inl ⟨congrArg Thread.blockedAtSem hother, congrArg Thread.unblockManner hother,
      (congrArg Thread.tokensNeeded hother).le, Iff.rfl, ?_⟩
    change t ∈ (if _ then _ else _) ↔ _
    split <;> simp [htu]
  | _ => exact Or.inl (.of_fields rfl rfl rfl)

theorem Step.kept (hs : a.Step b) (ht : t ∈ a.threads) (hne : t ≠ a.running) :
    (b.thread t).kept = (a.thread t).kept := by
  cases hs with
  | init hc hnew =>
    exact congrArg Thread.kept (update_other fun he => hnew (he ▸ ht))
  | preempt | switch | leave | retire => exact congrArg Thread.kept (update_other hne)
  | _ => first | exact update_field Thread.kept (by simp only [Thread.kept]) t | rfl

theorem Step.slot (hs : a.Step b) (ht : t ∈ a.threads) : ∃ l, b.history = l ++ a.history ∧
    ((b.thread t).message = (a.thread t).message ∨ ∃ u msg, .wrote t u msg ∈ l) := by
  have hsame : (b.thread t).message = (a.thread t).message → ∃ l, b.history = l ++ a.history ∧
      ((b.thread t).message = (a.thread t).message ∨ ∃ u msg, .wrote t u msg ∈ l) := fun he => by
    obtain ⟨l, hl⟩ := hs.history
    exact ⟨l, hl, Or.inl he⟩
  cases hs with
  | init hc hnew => exact hsame (congrArg Thread.message (update_other fun he => hnew (he ▸ ht)))
  | @write _ u msg =>
    by_cases htu : t = u
    · subst htu
      exact ⟨[.wrote t a.running (a.string msg)], rfl, Or.inr ⟨_, _, List.mem_singleton_self _⟩⟩
    · exact hsame (congrArg Thread.message (update_other htu))
  | _ => exact hsame (by first | exact update_field Thread.message (by rfl) t | rfl)

/-- **Whoever does not run rests.** -/
theorem Step.rests (hs : a.Step b) (hi : a.Inv) (ht : t ∈ a.threads) (hne : t ≠ a.running)
    (hne' : t ≠ b.running) : a.Rests b t :=
  ⟨hs.kept ht hne, hs.stillOrFreed hi ht hne hne', hs.slot ht⟩

/-- Who runs is the same, or has been chosen. -/
theorem Step.running (hs : a.Step b) :
    b.running = a.running ∨ b.history = .chosen b.running :: a.history := by
  cases hs with
  | preempt | switch => exact Or.inr rfl
  | _ => exact Or.inl rfl

/-- **Until it is chosen, a thread rests.** -/
theorem Steps.rests (hs : Relation.ReflTransGen Step a b) (hi : a.Inv) (ht : t ∈ a.threads)
    (hne : t ≠ a.running) : ∃ l, b.history = l ++ a.history ∧
      (.chosen t ∈ l ∨ t ∈ b.threads ∧ t ≠ b.running ∧ a.Rests b t) := by
  have : b.Inv ∧ ∃ l, b.history = l ++ a.history ∧
      (.chosen t ∈ l ∨ t ∈ b.threads ∧ t ≠ b.running ∧ a.Rests b t) := by
    induction hs with
    | refl => exact ⟨hi, [], rfl, Or.inr ⟨ht, hne, .refl a t⟩⟩
    | @tail b d _ hs ih =>
      obtain ⟨hb, l, hl, h⟩ := ih
      obtain ⟨l', hl'⟩ := hs.history
      have hd : d.history = (l' ++ l) ++ a.history := by rw [hl', hl, List.append_assoc]
      refine ⟨hb.step hs, l' ++ l, hd, ?_⟩
      rcases h with hc | ⟨hmem, hrun, hrests⟩
      · exact Or.inl (List.mem_append_right l' hc)
      by_cases hchosen : t = d.running
      · -- it runs now, so it has been chosen
        refine Or.inl (List.mem_append_left l ?_)
        rcases hs.running with he | he
        · exact absurd (hchosen.trans he) hrun
        · rw [hl', ← List.singleton_append] at he
          rw [List.append_cancel_right he, hchosen]
          exact List.mem_singleton_self _
      · exact Or.inr ⟨hs.threads t hmem, hchosen, hrests.trans (hs.rests hb hmem hrun hchosen)⟩
  exact this.2

end Sys

end Os1Kernel
