/-
# Joining a thread

`join` returns when the thread has finished, and always with 0; with a timeout it returns 0 if the
thread has finished in time and `TIMEOUT` otherwise.  That `semJoin` is closed is never seen.

Whether a call blocks is a matter of `finished`, which is set together with the `finish` of the
thread.  A call that blocks is a wait, and is ended once (`Results.Waits`).  What ends it is read off
the events at `semJoin` (`Sys.Joined`): a waiter is granted only behind the `finish` of the owner, it
times out only before, and it is never dismissed, because `finish` has emptied the queue when it
closes the semaphore.  By induction on the events since the call the result says which of the two
came first (`Ended.join`), and it is in `a0` when the caller goes on.
-/
import Os1Kernel.Results.Messages
import Os1Kernel.Results.Finish
import Os1Kernel.Results.Waits
import Os1Kernel.Spec.Joins

namespace Os1Kernel

variable {k : Kernel} {a : Sys} {A B t : Tid} {timeout : Option Nat} (raw : Tid → Message)
  (rawBuffer : BufferId → Vector UInt8 bufferLength)

/-! ## 1. The statement -/

/-- In these events since a call `B` finished, and before the last tick of the timeout. -/
def InTime (B : Tid) (timeout : Option Nat) (since : List Event) : Prop :=
  ∃ later earlier, since = later ++ .finish B :: earlier ∧
    ∀ n ∈ timeout, earlier.countP Event.isTick < n

/-- What the calls of `join` and `timedJoin` on `B` return, `A` being the caller. -/
structure Kernel.JoinsAgree (k : Kernel) (B : Tid) : Prop where
  finished : (k.tcb B).finished = true ↔ .finish B ∈ k.history
  /-- On a thread that has finished, they return 0 at once. -/
  late : ∀ A, k.running = some A → B ≠ A → (k.tcb B).finished = true →
    handleJoin B k = some (.done (.int 0), k) ∧
      ∀ n, handleTimedJoin B n k = some (.done (.int 0), k)
  /-- On a thread that has not, they block. -/
  early : ∀ A, k.running = some A → B ≠ A → (k.tcb B).finished = false →
    (k.enabled (.ecall (.join B)) = true → ∃ k' l, handleJoin B k = some (.switched, k') ∧
      k'.history = l ++ .blocked (.join B) A none :: k.history) ∧
    ∀ n, k.enabled (.ecall (.timedJoin B n)) = true → ∃ o k' l,
      handleTimedJoin B n.toNat k = some (o, k') ∧
      (n.toNat ≠ 0 ∧ o = .switched ∨ n.toNat = 0 ∧ o = .done (.int TIMEOUT)) ∧
      k'.history = l ++ .blocked (.join B) A (some n.toNat) :: k.history
  /-- A call that blocked is ended once, and returns the result of its end. -/
  waits : ∀ A timeout since before, k.history = since ++ .blocked (.join B) A timeout :: before →
    .finish B ∉ before ∧ k.Awaited A (.join B) timeout since
  /-- The result is 0 if `B` finished in time. -/
  results : ∀ A timeout manner since before,
    since ++ .blocked (.join B) A timeout :: before <:+ k.history →
    Ended A (.join B) timeout manner since →
    manner.result = 0 ∧ InTime B timeout since ∨
      manner.result = TIMEOUT ∧ timeout ≠ none ∧ ¬ InTime B timeout since
  /-- The value that a call returns which blocked. -/
  returns : ∀ A, k.running = some A → (k.tcb A).context = .join B → ∃ timeout since before k',
    k.history = since ++ .blocked (.join B) A timeout :: before ∧
    (∀ ret, .returned A ret ∉ since) ∧ step k .resume = some k' ∧
    (k'.Returned A (.int 0) ∧ InTime B timeout since ∨
      k'.Returned A (.int TIMEOUT) ∧ timeout ≠ none ∧ ¬ InTime B timeout since)
  /-- Nobody waits any more for a thread that has finished. -/
  released : .finish B ∈ k.history → k.blockedList (.join B) = []

/-! ## 2. The end of a wait -/

theorem InTime.cons {since : List Event} (h : InTime B timeout since) (e : Event) :
    InTime B timeout (e :: since) := by
  obtain ⟨later, earlier, rfl, hn⟩ := h
  exact ⟨e :: later, earlier, rfl, hn⟩

theorem countP_le {l l' : List Event} (h : l' <:+ l) :
    l'.countP Event.isTick ≤ l.countP Event.isTick := h.sublist.countP_le

theorem Ended.join {manner : UnblockManner} {since before : List Event}
    (h : Ended A (.join B) timeout manner since)
    (hok : ∀ e l, e :: l <:+ since ++ before → e.joinsOk l) (hbefore : .finish B ∉ before) :
    manner = .regular ∧ InTime B timeout since ∨
      manner = .waitTimeout ∧ timeout ≠ none ∧ ¬ InTime B timeout since ∧
        ∀ n ∈ timeout, n ≤ since.countP Event.isTick := by
  induction h with
  | @now e l hund he =>
    have hthis := hok e (l ++ before) (List.suffix_refl _)
    cases e with
    | granted s u =>
      cases manner with
      | regular =>
        obtain ⟨rfl, rfl, hlt⟩ := he
        refine Or.inl ⟨rfl, ?_⟩
        obtain ⟨l₁, l₂, rfl⟩ := List.append_of_mem ((List.mem_append.mp hthis).resolve_right hbefore)
        refine ⟨_ :: l₁, l₂, rfl, fun n hn => ?_⟩
        exact (countP_le ⟨l₁ ++ [.finish B], by simp⟩).trans_lt (hlt n hn)
      | _ => cases he
    | dismissed s u =>
      cases manner with
      | onClose =>
        obtain ⟨rfl, -, -⟩ := he
        cases hthis
      | _ => cases he
    | expired s u =>
      cases manner with
      | waitTimeout =>
        obtain ⟨rfl, rfl, rfl⟩ := he
        refine Or.inr ⟨rfl, nofun, ?_, ?_⟩
        · rintro ⟨later, earlier, he, -⟩
          have hm : .finish B ∈ Event.expired (.join B) u :: l := he ▸ by simp
          exact hthis (List.mem_append_left _ ((List.mem_cons.mp hm).resolve_left nofun))
        · rintro n ⟨⟩
          exact countP_le (List.suffix_cons _ _)
      | _ => cases he
    | _ => cases he
  | @since e l h he ih =>
    rcases ih fun e' l' hl => hok e' l' (hl.trans (List.suffix_cons _ _)) with
      ⟨rfl, hin⟩ | ⟨rfl, hne, hout, hle⟩
    · exact Or.inl ⟨rfl, hin.cons e⟩
    · refine Or.inr ⟨rfl, hne, ?_, fun n hn => (hle n hn).trans (countP_le (List.suffix_cons _ _))⟩
      rintro ⟨later, earlier, heq, hlt⟩
      cases later with
      | nil =>
        obtain ⟨-, rfl⟩ := List.cons.inj heq
        obtain ⟨n, rfl⟩ := Option.ne_none_iff_exists'.mp hne
        exact absurd (hlt n rfl) (Nat.not_lt.mpr (hle n rfl))
      | cons e' later =>
        obtain ⟨-, rfl⟩ := List.cons.inj heq
        exact hout ⟨later, earlier, rfl, hlt⟩

/-! ## 3. The start -/

theorem consoleReady_spent : (Sys.consoleReady raw rawBuffer).Spent where
  value t ht s hs hj := by
    rw [consoleReady_own_value raw rawBuffer ht hs, Sys.joins_initial hj]
  owes _ h := nomatch h
  handing _ _ h := nomatch h

theorem consoleReady_joined : (Sys.consoleReady raw rawBuffer).Joined where
  regular _ h := nomatch h
  closing _ _ h := nomatch h
  events e l h := by
    rcases consoleReady_events raw rawBuffer e (h.mem List.mem_cons_self) with
      ⟨s, v, rfl⟩ | ⟨u, p, x, rfl⟩ <;> trivial

theorem consoleReady_accompanied : (Sys.consoleReady raw rawBuffer).Accompanied where
  records := consoleReady_records raw rawBuffer
  mortal := consoleReady_mortal raw rawBuffer
  counts := consoleReady_counts raw rawBuffer
  spent := consoleReady_spent raw rawBuffer
  joined := consoleReady_joined raw rawBuffer

variable {raw rawBuffer}

theorem Reachable.accompanied (h : Reachable k) : ∃ a, Shows k a ∧ a.Accompanied := by
  obtain ⟨raw, rawBuffer, a, hsteps, hshow⟩ := h.shows
  exact ⟨a, hshow, hsteps.invariant (fun hi h hs => Sys.Accompanied.step h hi hs)
    (consoleReady_inv raw rawBuffer) (consoleReady_accompanied raw rawBuffer)⟩

/-! ## 4. The calls -/

/-- Between two steps, a thread has finished or `TCB::finish` has not begun for it. -/
theorem Shows.finished_iff (h : Shows k a) (hm : a.Mortal) (hB : B ∈ a.threads) :
    (k.tcb B).finished = true ↔ .finish B ∈ k.history := by
  rw [show (k.tcb B).finished = (a.thread B).finished from
    congrArg Thread.finished (h.rep.thread_apply B),
    show k.history = a.history from congrArg Core.history h.rep.core]
  refine ⟨hm.finished B hB, fun hf => ?_⟩
  by_contra hunf
  refine (hm.ended B hf).2 ⟨hB, by simpa using hunf, fun _ => ?_⟩
  rw [h.idle.stage]
  rfl

theorem join_late {r : Tid} (hr : k.running = some r) (hne : B ≠ r)
    (hf : (k.tcb B).finished = true) (wait : SemPtr → KernelM (Outcome Int)) :
    joinWith B wait k = some (.done (.int 0), k) := by
  simp [joinWith, getRunning, hr, hne, hf]

/-! ## 5. The result -/

/-- **Joins agree with the life of the thread they wait for.**  In every reachable state, for every
thread: its end is in the history exactly if it has finished, and each call of `join` and of
`timedJoin` for it returns at once, or blocks, and returns as the history since the call says. -/
theorem joins_agree (h : Reachable k) (hB : B ∈ k.tcbList) : k.JoinsAgree B := by
  obtain ⟨a, hshow, ha⟩ := h.accompanied
  have hi := hshow.inv
  have hhist : k.history = a.history := congrArg Core.history hshow.rep.core
  rw [hshow.tcbList_eq] at hB
  have hfin : (k.tcb B).finished = (a.thread B).finished :=
    congrArg Thread.finished (hshow.rep.thread_apply B)
  have hactive : (k.tcb B).finished = false → (a.sem (.join B)).active = true := fun hf =>
    hi.alive.own_active B hB (hfin ▸ hf) (fun _ => by rw [hshow.idle.stage]; rfl) _
      (SemPtr.mem_own.mpr rfl)
  have hvalue : (a.sem (.join B)).value < 1 := by
    rw [ha.spent.value B hB _ (SemPtr.mem_own.mpr rfl) rfl]
    exact Nat.one_pos
  -- how a call that blocked has been ended
  have hends : ∀ {A timeout manner since before},
      since ++ .blocked (.join B) A timeout :: before <:+ k.history →
      Ended A (.join B) timeout manner since → manner = .regular ∧ InTime B timeout since ∨
        manner = .waitTimeout ∧ timeout ≠ none ∧ ¬ InTime B timeout since := by
    intro A timeout manner since before hsuffix hend
    rw [hhist] at hsuffix
    have hok : ∀ e l, e :: l <:+ since ++ .blocked (.join B) A timeout :: before → e.joinsOk l :=
      fun e l hl => ha.joined.events e l (hl.trans hsuffix)
    have hbefore : .finish B ∉ .blocked (.join B) A timeout :: before := fun hm =>
      hok (.blocked (.join B) A timeout) before (List.suffix_append _ _)
        ((List.mem_cons.mp hm).resolve_left nofun)
    exact (hend.join hok hbefore).imp_right fun h => ⟨h.1, h.2.1, h.2.2.1⟩
  constructor
  · exact hshow.finished_iff ha.mortal hB
  · exact fun A hA hne hf => ⟨join_late hA hne hf _, fun n => join_late hA hne hf _⟩
  · intro A hA hne hf
    obtain rfl := Option.some.inj (hshow.rep.running.symm.trans hA)
    have hf' := hfin ▸ hf
    constructor
    · intro he
      obtain ⟨hc, -⟩ := hshow.calls he nofun
      have hjoin : Does (handleJoin B) k a _ := joinWith_waits hshow.toSim hc hB hne hf' fun hw =>
        wait_blocks hshow.toSim hw (hactive hf) hvalue
      obtain ⟨o, k', b, hm, -, hsim, x, rfl, ⟨rfl, -⟩, hmiss⟩ := hjoin
      obtain ⟨l, hl, -⟩ := hmiss.history
      refine ⟨k', l, hm, ?_⟩
      rw [show k'.history = b.history from congrArg Core.history hsim.rep.core, hl, hhist]
    · intro n he
      obtain ⟨hc, -⟩ := hshow.calls he nofun
      have hjoin : Does (handleTimedJoin B n.toNat) k a _ := joinWith_waits hshow.toSim hc hB hne hf'
        fun hw => timedWait_blocks hshow.toSim hw (hactive hf) hvalue rfl n.toNat_lt
      obtain ⟨o, k', b, hm, -, hsim, x, rfl, ⟨⟨hx, -⟩, hmiss⟩⟩ := hjoin
      obtain ⟨l, hl, -⟩ := hmiss.history
      refine ⟨x.word, k', l, hm, ?_, ?_⟩
      · rcases hx with ⟨hn, rfl⟩ | ⟨hn, rfl⟩
        · exact Or.inl ⟨hn, rfl⟩
        · exact Or.inr ⟨hn, rfl⟩
      · rw [show k'.history = b.history from congrArg Core.history hsim.rep.core, hl, hhist]
  · intro A timeout since before he
    refine ⟨ha.joined.events (.blocked (.join B) A timeout) before ⟨since, ?_⟩,
      hshow.awaited ha.records he⟩
    exact hhist ▸ he.symm
  · intro A timeout manner since before hsuffix hend
    rcases hends hsuffix hend with ⟨rfl, hin⟩ | ⟨rfl, hne, hout⟩
    · exact Or.inl ⟨rfl, hin⟩
    · exact Or.inr ⟨rfl, hne, hout⟩
  · intro A hA hctx
    obtain ⟨timeout, since, before, manner, he, hnot, hend, hresolves⟩ :=
      hshow.goesOn ha.records hA (by rw [hctx]; rfl)
    obtain ⟨k', hstep, hret, -⟩ := resume_wait hA (Or.inr ⟨B, hctx⟩) hresolves
    refine ⟨timeout, since, before, k', he, hnot, hstep, ?_⟩
    rcases hends ⟨[], he.symm⟩ hend with ⟨rfl, hin⟩ | ⟨rfl, hne, hout⟩
    · exact Or.inl ⟨hret, hin⟩
    · exact Or.inr ⟨hret, hne, hout⟩
  · intro hf
    rw [hshow.blockedList_eq, List.eq_nil_iff_forall_not_mem]
    intro t ht
    refine ha.mortal.awaited hi ?_ ((hi.places.mem_queue t _).mp ht) (hhist ▸ hf)
    rw [hshow.idle.stage]
    rfl

/-- `main` creates a thread and joins it, it finishes, and `main` joins it again. -/
def joinChild : List Act :=
  [.ecall (.threadCreate true false (.ok (zeroMessage 4))), .ecall (.join 4)] ++
  consoleSlices ++ [.resume, .ecall .threadExit] ++
  consoleSlices ++ [.resume, .ecall (.join 4)]

theorem joins_agree_run : ∃ k, runFromZero joinChild = some k ∧ k.JoinsAgree 4 := by
  obtain ⟨k₀, k, hboot, hrun, hk⟩ := exists_run joinChild (by decide +kernel)
  have he : (runFromZero joinChild).any (fun k => 4 ∈ k.tcbList) = true := by decide +kernel
  rw [hk] at he
  exact ⟨k, hk, joins_agree ⟨_, _, k₀, joinChild, hboot, hrun⟩ (of_decide_eq_true he)⟩

end Os1Kernel
