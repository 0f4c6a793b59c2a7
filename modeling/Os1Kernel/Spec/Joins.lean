/-
# Waiting for threads to finish

`semJoin` and `semJoinAll` never hold a token: the ones that are signalled go to waiters.  So
`join` never returns at once but on a thread that has finished, and as `TCB::finish` releases the
waiters of `semJoin` before it closes it, nobody is dismissed there.

`Spent` is the first sentence.  `semJoin` is only released with `signalAll`, which leaves the value
0.  `semJoinAll` is signalled by a child, but only while its parent waits there, and that wait
takes the token: `Spent.handing` says so of the token that is on the way.

`Joined` is the second one, as a condition on the events (`Event.joinsOk`): a waiter of `join B` is
granted only behind the `finish` of `B`, it times out or begins to wait only before, and it is
never dismissed.  It is proved for each event when it is noted, from the stage and the activity at
that time; as it is a condition on a suffix of the history it then holds for ever.
-/
import Os1Kernel.Spec.Children
import Os1Kernel.Spec.Records

namespace Os1Kernel

/-- `semJoin` and `semJoinAll` -/
def SemPtr.joins : SemPtr → Bool
  | .join _ | .joinAll _ => true
  | _ => false

/-- Who waits for a thread is released when this has finished, or by a timeout before. -/
def Event.joinsOk (l : List Event) : Event → Prop
  | .granted (.join t) _ => .finish t ∈ l
  | .dismissed (.join _) _ | .dismissed (.joinAll _) _ => False
  | .blocked (.join t) _ _ | .expired (.join t) _ => .finish t ∉ l
  | _ => True

namespace Sys

variable {a b : Sys} {t u : Tid} {s : SemPtr}

/-! ## 1. No tokens are left -/

/-- The semaphores that threads are joined at never keep a token. -/
structure Spent (a : Sys) : Prop where
  /-- There is no token in these semaphores. -/
  value : ∀ t ∈ a.threads, ∀ s ∈ SemPtr.own t, s.joins = true → (a.sem s).value = 0
  owes : ∀ s ∈ a.stage.owing, s.joins = false
  /-- A token is handed to a waiter of `semJoinAll`. -/
  handing : ∀ s n, a.activity = .handing s n → s.joins = true →
    n = 0 ∨ n = 1 ∧ s.isJoinAll = true ∧ a.queue s ≠ []

theorem joins_initial (h : s.joins = true) : s.initial = 0 := by
  cases s <;> first | rfl | cases h

theorem SignalCall.joins {stage : Stage} (h : a.SignalCall s stage) (hs : a.Spent) :
    s.joins = false := by
  cases h with
  | semSignal | slot => rfl
  | owed _ hst => exact hs.owes s (by rw [hst]; exact List.mem_cons_self)

theorem Spent.step (h : a.Spent) (hi : a.Inv) (hs : a.Step b) : b.Spent := by
  have hs' := hs
  refine ⟨fun t ht s hst hj => ?_, ?_, fun s n hl hj => ?_⟩
  · by_cases hta : t ∈ a.threads
    · have hold := h.value t hta s hst hj
      have hset : ∀ {s' x}, b.sem = Function.update a.sem s' x → (s = s' → x.value = 0) →
          (b.sem s).value = 0 := fun {s' x} hb hx => by
        by_cases he : s = s'
        · rw [hb, he, Function.update_self, hx he]
        · rw [hb, Function.update_of_ne he, hold]
      cases hs with
      | acquire =>
        refine hset rfl ?_
        rintro rfl
        exact (congrArg (· - _) hold).trans (Nat.zero_sub _)
      | block | releaseEnd => exact hset rfl fun _ => rfl
      | handEnd hl hq =>
        refine hset rfl ?_
        rintro rfl
        rcases h.handing s _ hl hj with rfl | ⟨rfl, -, hne⟩
        · show u64 ((a.sem s).value + 0) = 0
          rw [hold]
          rfl
        · exact absurd hq (not_or.mpr ⟨hne, Nat.one_ne_zero⟩)
      | openSem _ _ hn =>
        refine hset rfl ?_
        rintro rfl
        rw [SemPtr.mem_own] at hst
        rcases hn with rfl | ⟨u, hu, -, hnu, -⟩
        · cases hst
        · rw [SemPtr.mem_own] at hu
          exact absurd (Option.some.inj (hst.symm.trans hu) ▸ hta) hnu
      | _ => exact hold
    · have henl := hs.enlisted ht hta
      rw [henl.sem, henl.value s hst, joins_initial hj]
  · cases hs with
    | signal hc | skip hc =>
      cases hc with
      | semSignal | slot => exact fun _ hm => nomatch hm
      | owed _ hst => exact fun s hm => h.owes s (by rw [hst]; exact List.mem_cons_of_mem _ hm)
    | write => exact List.forall_mem_singleton.mpr rfl
    | putChar | getChar =>
      exact List.forall_mem_cons.mpr ⟨rfl, List.forall_mem_singleton.mpr rfl⟩
    | received => exact fun _ hm => nomatch hm
    | _ => first | exact h.owes | exact fun _ hm => nomatch hm
  · cases hs with
    | signal hc =>
      cases hl
      cases (hc.joins h).symm.trans hj
    | @childSignals ha hst p hp hf hb =>
      cases hl
      refine Or.inr ⟨rfl, rfl, ?_⟩
      exact List.ne_nil_of_mem ((hi.places.mem_queue p _).mpr hb)
    | @grant s' m ha u rest hq hn htok =>
      cases hl
      rcases h.handing _ _ ha hj with rfl | ⟨rfl, -⟩
      · cases hn
      · have := (hi.waits.waitsAt u _ ((hi.places.mem_queue u _).mp (hq ▸ List.mem_cons_self))).tokens
        exact Or.inl (by omega)
    | part =>
      cases hl
      exact Or.inl rfl
    | expire ha | wake ha | release ha => cases ha.symm.trans hl
    | _ => first | cases hl | exact h.handing s n hl hj

/-! ## 2. Who waits for a thread -/

/-- What the history says of the semaphores `semJoin`. -/
structure Joined (a : Sys) : Prop where
  regular : ∀ s, a.activity = .releasing s .regular → ∃ t, s = .join t ∧ .finish t ∈ a.history
  /-- When they are closed nobody waits there. -/
  closing : ∀ s, s.joins = true → a.activity = .releasing s .onClose → a.queue s = []
  /-- Every event was in order when it was noted. -/
  events : ∀ e l, e :: l <:+ a.history → e.joinsOk l

/-- A thread that is waited for has not finished. -/
theorem Mortal.awaited (h : a.Mortal) (hi : a.Inv) (hstage : a.stage.isFinishing = false)
    (hb : (a.thread u).blockedAtSem = some (.join t)) : .finish t ∉ a.history := fun hf => by
  obtain ⟨hm, hdead⟩ := h.ended t hf
  have hactive := (hi.waits.waitsAt u _ hb).active
  cases hfin : (a.thread t).finished with
  | true => cases hactive.symm.trans (hi.alive.own_dead t hm hfin _ (by simp [SemPtr.own]))
  | false => exact hdead ⟨hm, hfin, fun _ => hstage⟩

theorem place_argsOk (hi : a.Inv) (hu : u ∈ a.threads) : a.ArgsOk u (a.place u) := by
  by_cases hne : u = a.running
  · subst hne
    cases hact : a.activity with
    | leaving ctx o =>
      rw [place_leaving hact]
      exact (hi.contexts.leaving hact).2.1
    | _ =>
      rw [place, if_pos rfl, hact]
      exact hi.contexts.args _ hu
  · rw [place_of_ne hne]
    exact hi.contexts.args u hu

/-- Who waits for a thread has its handle, or is that thread. -/
theorem waiter_args (hi : a.Inv) (hb : (a.thread u).blockedAtSem = some s) :
    u ∈ a.threads ∧ a.ArgsOk u (a.place u) ∧ (a.place u).waitsAt u = some s := by
  have hmem := (hi.places.live u (Or.inr (Or.inl (by rw [hb]; nofun)))).1
  exact ⟨hmem, place_argsOk hi hmem, (hi.waits.waitsAt u s hb).context⟩

/-- Nobody waits for a thread that does not exist. -/
theorem queue_stranger (hi : a.Inv) (ht : t ∉ a.threads) (hs : s ∈ SemPtr.own t) :
    a.queue s = [] := by
  rw [List.eq_nil_iff_forall_not_mem]
  intro u hu
  obtain ⟨hmem, hargs, hw⟩ := waiter_args hi ((hi.places.mem_queue u s).mp hu)
  exact ht (hargs.owner hw hs hmem)

/-- A thread waits for its own children only. -/
theorem waits_joinAll (hi : a.Inv) (hb : (a.thread u).blockedAtSem = some (.joinAll t)) : u = t := by
  obtain ⟨-, hargs, hw⟩ := waiter_args hi hb
  cases hctx : a.place u with
  | semWait s =>
    rw [hctx] at hargs hw
    obtain ⟨⟨n, rfl⟩, -⟩ := hargs
    cases hw
  | joinAll | timedJoinAll =>
    rw [hctx] at hw
    exact SemPtr.joinAll.inj (Option.some.inj hw)
  | _ =>
    rw [hctx] at hw
    cases hw

theorem Joined.step (h : a.Joined) (hsp : a.Spent) (hr : a.Records) (hm : a.Mortal) (hi : a.Inv)
    (hs : a.Step b) : b.Joined := by
  refine ⟨fun s hl => ?_, fun s hj hl => ?_, fun e l hl => ?_⟩
  · have hold : a.activity = .releasing s .regular →
        ∃ t, s = .join t ∧ .finish t ∈ b.history := fun ha => by
      obtain ⟨t, rfl, hf⟩ := h.regular s ha
      obtain ⟨l, hl⟩ := hs.history
      exact ⟨t, rfl, hl ▸ List.mem_append_right _ hf⟩
    cases hs with
    | signalAll _ hst =>
      cases hl
      exact ⟨_, rfl, hm.finishing (by rw [hst]; rfl)⟩
    | _ => first | cases hl | exact hold hl
  · cases hs with
    | close hc =>
      cases hl
      cases hc with
      | semClose => cases hj
      | finish _ _ hown hne hq =>
        rw [SemPtr.mem_own] at hown
        cases s with
        | join t => exact hq (congrArg SemPtr.join (Option.some.inj hown))
        | joinAll t => exact absurd (congrArg SemPtr.joinAll (Option.some.inj hown)) hne
        | _ => cases hj
      | last ha =>
        refine List.eq_nil_iff_forall_not_mem.mpr fun u hu => ?_
        have hb := (hi.places.mem_queue u _).mp hu
        obtain rfl := waits_joinAll hi hb
        cases (hi.places.running_free (not_leaving_of ha rfl)).1.symm.trans hb
      | undo hc hown ht => exact queue_stranger (a := a) hi ht hown
    | release ha hq =>
      obtain ⟨rfl, rfl⟩ := Activity.releasing.inj (ha.symm.trans hl)
      cases hq.symm.trans (h.closing _ hj ha)
    | expire ha | wake ha => cases ha.symm.trans hl
    | _ => first | cases hl | exact h.closing s hj hl
  · have hold : e :: l <:+ a.history → e.joinsOk l := h.events e l
    cases hs with
    | block hw =>
      rcases List.suffix_cons_iff.mp hl with he | hl
      · cases he
        cases hw with
        | join hc ht hne hf => exact fun hfin => (hm.ended _ hfin).2 ⟨ht, hf, fun he => absurd he hne⟩
        | _ => trivial
      · exact hold hl
    | @expire ha u rest hs s hb =>
      rcases List.suffix_cons_iff.mp hl with he | hl
      · cases he
        cases s with
        | join t => exact hm.awaited hi (by rw [(hi.contexts.ticking ha).1]; rfl) hb
        | _ => trivial
      · exact hold hl
    | @timeoutZero ctx ha s hb =>
      rcases List.suffix_cons_iff.mp hl with he | hl
      · cases he
        trivial
      · rcases List.suffix_cons_iff.mp hl with he | hl
        · cases he
          cases s with
          | join t => exact hm.awaited hi (by rw [(hi.contexts.leaving ha).1]; rfl) hb
          | _ => trivial
        · exact hold hl
    | @grant s n ha u rest hq hn =>
      rcases List.suffix_cons_iff.mp hl with he | hl
      · cases he
        cases s with
        | join t =>
          rcases hsp.handing _ _ ha rfl with rfl | ⟨-, hj, -⟩
          · cases hn
          · cases hj
        | _ => trivial
      · exact hold hl
    | @release s m ha u rest hq =>
      rcases List.suffix_cons_iff.mp hl with he | hl
      · obtain ⟨rfl, rfl⟩ := List.cons.inj he
        cases m with
        | waitTimeout => exact absurd rfl (hr.manner _ _ ha)
        | regular =>
          obtain ⟨t, rfl, hf⟩ := h.regular s ha
          exact hf
        | onClose =>
          cases s with
          | join t | joinAll t => cases hq.symm.trans (h.closing _ rfl ha)
          | _ => trivial
      · exact hold hl
    | _ => first
      | exact hold hl
      | (rcases List.suffix_cons_iff.mp hl with he | hl
         · cases he
           trivial
         · exact hold hl)

/-- What holds of the threads that wait for others. -/
structure Accompanied (a : Sys) : Prop where
  records : a.Records
  mortal : a.Mortal
  counts : a.Counts
  spent : a.Spent
  joined : a.Joined

theorem Accompanied.step (h : a.Accompanied) (hi : a.Inv) (hs : a.Step b) :
    b.Accompanied where
  records := h.records.step hi hs
  mortal := h.mortal.step hi hs
  counts := h.counts.step hi h.mortal hs
  spent := h.spent.step hi hs
  joined := h.joined.step h.spent h.records h.mortal hi hs

end Sys

end Os1Kernel
