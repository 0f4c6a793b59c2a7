/-
# What the history says about a semaphore

A semaphore is alive from the event that opened it to the one that closed it, and no other event is
about one that does not exist.  While it is alive, the value it was opened with and what it was
signalled are its stock and what was issued from it.

`Logged` is the first sentence, as an agreement of the `active` flag with two events.  `close`
notes its event before it has released the waiters and cleared the flag, hence the exception in
`dead`.  `Balanced` is the second one.  It is the sum over a history of `Step.stock`, which says
what one step does; it is stated for the semaphores that system calls open, where the number of
tokens is not known beforehand, and therefore with the bound that keeps the value from wrapping.
-/
import Os1Kernel.Spec.Tokens

namespace Os1Kernel

/-- The semaphore that an event is about. -/
def Event.sem? : Event → Option SemPtr
  | .opened s _ | .closed s | .signalled s _ | .acquired s _ _ | .blocked s _ _ | .granted s _
  | .dismissed s _ | .expired s _ => some s
  | _ => none

namespace Sys

variable {a b : Sys} {t : Tid} {s : SemPtr} {v : Nat}

/-! ## 1. Alive and dead -/

/-- The history agrees with which semaphores there are, and which of them are open. -/
structure Logged (a : Sys) : Prop where
  /-- No event is about a semaphore that does not exist. -/
  known : ∀ e ∈ a.history, ∀ s, e.sem? = some s → s ∈ a.sems
  active : ∀ s v, .opened s v ∈ a.history → .closed s ∉ a.history → (a.sem s).active = true
  dead : ∀ s, .closed s ∈ a.history →
    (a.sem s).active = false ∨ a.activity = .releasing s .onClose
  closing : ∀ s, a.activity = .releasing s .onClose → .closed s ∈ a.history

theorem Inv.mem_sems (hi : a.Inv) (hb : (a.thread t).blockedAtSem = some s) : s ∈ a.sems :=
  hi.alive.active_mem s (hi.waits.waitsAt t s hb).active

theorem Inv.head_sems (hi : a.Inv) {rest : List Tid} (hq : a.queue s = t :: rest) : s ∈ a.sems :=
  hi.mem_sems ((hi.places.mem_queue t s).mp (by simp [hq]))

/-- An event is about a semaphore that exists. -/
theorem Step.events (hs : a.Step b) (hi : a.Inv) : ∃ l, b.history = l ++ a.history ∧
    ∀ e ∈ l, ∀ s, e.sem? = some s → s ∈ b.sems := by
  have hone : ∀ {e}, b.history = e :: a.history → (∀ s, Event.sem? e = some s → s ∈ b.sems) →
      ∃ l, b.history = l ++ a.history ∧ ∀ e ∈ l, ∀ s, e.sem? = some s → s ∈ b.sems :=
    fun {e} he h => ⟨[e], he, by simpa using h⟩
  cases hs with
  | acquire _ ha | signal _ ha | close _ ha | block _ ha =>
    refine hone rfl ?_
    rintro _ ⟨⟩
    exact hi.alive.active_mem _ ha
  | grant _ hq =>
    refine hone rfl ?_
    rintro _ ⟨⟩
    exact hi.head_sems hq
  | @release _ m _ _ _ hq =>
    refine hone rfl ?_
    cases m <;> rintro _ ⟨⟩ <;> exact hi.head_sems hq
  | expire _ _ hb =>
    refine hone rfl ?_
    rintro _ ⟨⟩
    exact hi.mem_sems hb
  | timeoutZero _ hb =>
    refine ⟨[.returned a.running TIMEOUT, .expired _ a.running], rfl, ?_⟩
    simp only [List.forall_mem_cons, Event.sem?, Option.some.injEq, forall_eq']
    exact ⟨nofun, hi.mem_sems hb, by simp⟩
  | openSem =>
    refine hone rfl ?_
    rintro _ ⟨⟩
    simp
  | childSignals _ _ _ _ hb =>
    refine hone rfl ?_
    rintro _ ⟨⟩
    exact hi.mem_sems hb
  | _ => first | exact ⟨[], rfl, by simp⟩ | exact hone rfl nofun

/-- Where a semaphore comes to life. -/
theorem Step.opened (hs : a.Step b) (hi : a.Inv) (h : .opened s v ∈ b.history) :
    .opened s v ∈ a.history ∨ s ∉ a.sems ∧ a.activity = .none ∧ b.activity = .none ∧
      b.history = .opened s v :: a.history ∧ b.sem s = ⟨some a.running, v, true⟩ := by
  have hold : ∀ {e}, b.history = e :: a.history → (∀ s v, e ≠ .opened s v) →
      .opened s v ∈ a.history := fun he hne => by
    rw [he] at h
    exact (List.mem_cons.mp h).resolve_left fun he => hne s v he.symm
  cases hs with
  | @openSem hc s' v' hv hs' =>
    rcases List.mem_cons.mp h with he | h
    · cases he
      exact Or.inr ⟨openSem_fresh hi.names hs', hc.activity, hc.activity, rfl,
        Function.update_self ..⟩
    · exact Or.inl h
  | timeoutZero =>
    exact Or.inl ((List.mem_cons.mp ((List.mem_cons.mp h).resolve_left nofun)).resolve_left nofun)
  | @release _ m => exact Or.inl (hold rfl (by cases m <;> exact nofun))
  | _ => exact Or.inl (by first | exact h | exact hold rfl nofun)

/-- Where it is closed. -/
theorem Step.closed (hs : a.Step b) (h : .closed s ∈ b.history) : .closed s ∈ a.history ∨
    (a.sem s).active = true ∧ b.activity = .releasing s .onClose := by
  have hold : ∀ {e}, b.history = e :: a.history → (∀ s, e ≠ .closed s) →
      .closed s ∈ a.history := fun he hne => by
    rw [he] at h
    exact (List.mem_cons.mp h).resolve_left fun he => hne s he.symm
  cases hs with
  | close _ ha =>
    rcases List.mem_cons.mp h with he | h
    · cases he
      exact Or.inr ⟨ha, rfl⟩
    · exact Or.inl h
  | timeoutZero =>
    exact Or.inl ((List.mem_cons.mp ((List.mem_cons.mp h).resolve_left nofun)).resolve_left nofun)
  | @release _ m => exact Or.inl (hold rfl (by cases m <;> exact nofun))
  | _ => exact Or.inl (by first | exact h | exact hold rfl nofun)

/-- What a step does to the `active` flag of a semaphore that exists. -/
theorem Step.active (hs : a.Step b) (hi : a.Inv) (hm : s ∈ a.sems) :
    (b.sem s).active = (a.sem s).active ∨
      a.activity = .releasing s .onClose ∧ (b.sem s).active = false := by
  cases hs with
  | @openSem hc s' v hv hs' =>
    have hne : s ≠ s' := fun he => openSem_fresh hi.names hs' (he ▸ hm)
    exact Or.inl (congrArg Sem.active (Function.update_of_ne hne ..))
  | @releaseEnd s' m h =>
    by_cases he : s = s'
    · subst he
      cases m with
      | onClose => exact Or.inr ⟨h, by simp [setSem]⟩
      | regular | waitTimeout => exact Or.inl (by simp [setSem])
    · exact Or.inl (congrArg Sem.active (Function.update_of_ne he ..))
  | _ => exact Or.inl (by first | exact update_active (by rfl) s | rfl)

theorem Logged.step (h : a.Logged) (hi : a.Inv) (hs : a.Step b) : b.Logged := by
  obtain ⟨l, hl, hnew⟩ := hs.events hi
  have hmem : ∀ {e}, e ∈ a.history → e ∈ b.history := fun he => hl ▸ List.mem_append_right _ he
  refine ⟨fun e he s hes => ?_, fun s v ho hc => ?_, fun s hc => ?_, fun s hr => ?_⟩
  · rw [hl] at he
    rcases List.mem_append.mp he with he | he
    · exact hnew e he s hes
    · exact hs.sems s (h.known e he s hes)
  · rcases hs.opened hi ho with ho | ⟨-, -, -, -, hsem⟩
    · have hc' : .closed s ∉ a.history := fun hm => hc (hmem hm)
      rcases hs.active hi (h.known _ ho s rfl) with he | ⟨hr, -⟩
      · exact he.trans (h.active s v ho hc')
      · exact absurd (h.closing s hr) hc'
    · rw [hsem]
  · rcases hs.closed hc with hc | ⟨-, hr⟩
    · rcases hs.active hi (h.known _ hc s rfl) with he | ⟨-, hd⟩
      · rcases h.dead s hc with hd | hr
        · exact Or.inl (he.trans hd)
        · cases hs with
          | release _ hq => exact Or.inr hr
          | releaseEnd h' =>
            cases hr.symm.trans h'
            exact Or.inl (by simp [setSem])
          | _ h' =>
            first
            | exact Or.inr hr
            | cases hr.symm.trans h'
            | cases hr.symm.trans h'.activity
      · exact Or.inl hd
    · exact Or.inr hr
  · cases hs with
    | close =>
      cases hr
      exact List.mem_cons_self
    | _ => first | exact hmem (h.closing s hr) | cases hr

/-! ## 2. The balance of a semaphore -/

/-- The value that the semaphore of a system call was opened with, and its signals, are in its stock
or issued. -/
structure Balanced (a : Sys) : Prop where
  logged : a.Logged
  origins : a.Origins
  stock : ∀ n v, .opened (.opened n) v ∈ a.history → .closed (.opened n) ∉ a.history →
    v + a.times (Event.signals (.opened n)) < 2 ^ 64 →
    v + a.times (Event.signals (.opened n)) =
      a.stock (.opened n) + a.times (Event.issues (.opened n))

theorem Step.times_le (hs : a.Step b) (p : Event → Bool) : a.times p ≤ b.times p := by
  obtain ⟨l, hl⟩ := hs.history
  rw [times, times, hl, List.countP_append]
  omega

/-- Nothing has happened to a semaphore that does not exist. -/
theorem Logged.times_eq_zero (h : a.Logged) {p : Event → Bool}
    (hp : ∀ e, p e = true → e.sem? = some s) (hm : s ∉ a.sems) : a.times p = 0 :=
  List.countP_eq_zero.mpr fun e he hpe => hm (h.known e he s (hp e hpe))

theorem Event.issues_sem {e : Event} (h : e.issues s = true) : e.sem? = some s := by
  cases e <;> first | cases h | exact congrArg some (of_decide_eq_true h)

theorem Event.signals_sem {e : Event} (h : e.signals s = true) : e.sem? = some s := by
  cases e <;> first | cases h | exact congrArg some (of_decide_eq_true h)

theorem Balanced.step (h : a.Balanced) (hi : a.Inv) (hs : a.Step b) : b.Balanced := by
  refine ⟨h.logged.step hi hs, h.origins.step hs, fun n v ho hc hlt => ?_⟩
  rcases hs.opened hi ho with ho | ⟨hm, ha, hb, hh, hsem⟩
  · obtain ⟨l, hl⟩ := hs.history
    have hc' : .closed (.opened n) ∉ a.history := fun hm =>
      hc (hl ▸ List.mem_append_right _ hm)
    have hle := hs.times_le (Event.signals (.opened n))
    have hold := h.stock n v ho hc' (by omega)
    have hstep := hs.stock hi (s := .opened n) rfl (h.logged.active _ v ho hc')
      (fun m hr => ?_) (by omega)
    · omega
    · rcases h.origins.regular _ m hr with rfl | ⟨t, ht⟩
      · exact hc' (h.logged.closing _ hr)
      · cases ht
  · have hsignals := h.logged.times_eq_zero (fun _ => Event.signals_sem) hm
    have hissues := h.logged.times_eq_zero (fun _ => Event.issues_sem) hm
    rw [times_cons _ hh, times_cons _ hh, hsignals, hissues, Sys.stock, hsem, hb]
    rfl

end Sys

end Os1Kernel
