/-
# A message that was received

`receive` returns the address of the thread's only slot and gives the slot free in the same call, so
the message stays there only as long as no sender obtains the slot.

What a thread holds is read off the events: the message of its last `receive`, until it calls
`receive` again or finishes (`holding`).  That the slot contains what is held (`Kernel.InSlot`) is
kept by every step in which no sender copies its string to the slot.  There are two such steps
(`Kernel.overwrites`): a call of `send` whose wait comes back at once, and a sender that goes on
behind its wait.  A run without them keeps the message (`received_intact`), and one with a `send`
right behind the `receive` does not (`received_overwritten`).
-/
import Os1Kernel.Kernel.Frame
import Os1Kernel.Results.Messages

namespace Os1Kernel

open Simulation Run

variable {k k' : Kernel} {t : Tid} {raw : Tid → Message}
  {rawBuffer : BufferId → Vector UInt8 bufferLength}

/-! ## 1. The statement -/

/-- `t` asks for a message, or finishes. -/
def Event.asks (t : Tid) : Event → Bool
  | .acquired (.receive u) _ _ | .blocked (.receive u) _ _ | .finish u => u = t
  | _ => false

/-- The message that the last `receive` of `t` returned, unless `t` has asked for the next one or
finished since. -/
def holding (t : Tid) : List Event → Option CString
  | [] => none
  | e :: l => match e.receivedBy t with
    | some m => some m
    | none => if e.asks t then none else holding t l

/-- `t` reads the message that it holds. -/
structure Kernel.Intact (k : Kernel) (t : Tid) : Prop where
  /-- What `receive` returns is a pointer to the message that is held from then on. -/
  returns : ∀ act, k.receives t act = true → k.enabled act = true → ∃ k', step k act = some k' ∧
    (k'.Returned t (.message t) ∧ holding t k'.history = some (k'.string (.message t 0)) ∨
      (k'.tcb t).context = .receive)
  /-- The message is behind the pointer, and it is one that was sent. -/
  kept : ∀ m, holding t k.history = some m → k.string (.message t 0) = m ∧
    ∃ u msg, .wrote t u msg ∈ k.history ∧ m = CString.sent msg

/-- A call of `wait(1)` on this semaphore comes back at once. -/
def Kernel.waitReturns (k : Kernel) (s : SemPtr) : Bool :=
  !(k.sem s).active || 1 ≤ (k.sem s).value

/-- The step lets a sender write into the slot of `t`: one that finds the slot free, or one that
goes on behind its wait for it. -/
def Kernel.overwrites (k : Kernel) (t : Tid) : Act → Bool
  | .ecall (.send u _) => u = t && k.running ≠ some t && (k.tcb t).semSend.any k.waitReturns
  | .resume => k.running.any fun r => ((k.tcb r).context.sendsTo t).isSome
  | _ => false

/-! ## 2. A predicate of the events and the message -/

theorem holding_mem {l : List Event} {m : CString} (h : holding t l = some m) :
    .received t m ∈ l := by
  induction l with
  | nil => cases h
  | cons e l ih =>
    rw [holding] at h
    cases he : e.receivedBy t with
    | some m' =>
      rw [he] at h
      obtain rfl := Option.some.inj h
      cases e with
      | received u m =>
        by_cases hu : u = t
        · rw [Event.receivedBy, if_pos hu] at he
          cases he
          exact hu ▸ List.mem_cons_self
        · rw [Event.receivedBy, if_neg hu] at he
          cases he
      | _ => cases he
    | none =>
      rw [he] at h
      by_cases ha : e.asks t = true
      · rw [if_pos ha] at h
        cases h
      · rw [if_neg ha] at h
        exact List.mem_cons_of_mem _ (ih h)

/-- An event other than a return of `receive` leaves what is held, or ends it. -/
theorem holding_cons {e : Event} (he : e.receivedBy t = none) (l : List Event) :
    holding t (e :: l) = none ∨ holding t (e :: l) = holding t l := by
  rw [holding, he]
  by_cases ha : e.asks t = true
  · exact Or.inl (if_pos ha)
  · exact Or.inr (if_neg ha)

theorem quiet_receivedBy {e : Event} (he : e.quiet = true) : e.receivedBy t = none := by
  cases e <;> first | rfl | cases he

/-- What `t` holds is in its slot. -/
def Kernel.InSlot (t : Tid) (k : Kernel) : Prop :=
  ∀ m, holding t k.history = some m → (k.tcb t).message.text = m

/-- `t` holds nothing. -/
def Kernel.Free (t : Tid) (k : Kernel) : Prop := holding t k.history = none

theorem Kernel.InSlot.event (h : k.InSlot t) {e : Event} (he : e.receivedBy t = none) :
    Kernel.InSlot t { k with history := e :: k.history } := by
  intro m hm
  rcases holding_cons he k.history with hn | hn
  · cases hn.symm.trans hm
  · exact h m (hn.symm.trans hm)

theorem inSlot_stable (t : Tid) : Stable (Kernel.InSlot t) where
  tcb k u f hf h m hm := (congrArg Message.text (setTcb_message hf t)).trans (h m hm)
  other k k' hk h m hm := by
    rw [history_of_given hk] at hm
    rw [show k'.tcb = k.tcb from congrArg Prod.fst hk]
    exact h m hm
  event k e he h := h.event (quiet_receivedBy he)
  switch k u h := Kernel.InSlot.event (k := { k with running := some u, timeSliceCounter := 0 })
    (e := .chosen u) h rfl

theorem holding_none {e : Event} {l : List Event} (he : e.receivedBy t = none)
    (h : holding t l = none) : holding t (e :: l) = none :=
  (holding_cons he l).elim id fun hn => hn.trans h

theorem passing_receivedBy {e : Event} (he : e.passing = true) : e.receivedBy t = none := by
  cases e <;> first | rfl | cases he

/-! ## 3. One step -/

theorem setMsg_inSlot {u : Tid} (hu : t ≠ u) (msg : CString) :
    Keeps (Kernel.InSlot t) (setMsg u msg) := by
  refine setMsg_keeps (fun message => .write (fun k => setThread_apply k _ _) fun k h m hm => ?_)
    fun _ => .write (fun k => emit_apply k _) fun k h => h.event rfl
  exact (congrArg (fun x : TCB => x.message.text) (Function.update_of_ne hu ..)).trans (h m hm)

/-- A thread that holds nothing holds nothing behind a step that is no `receive`. -/
theorem step_free {act : Act} (h : k.Free t) (hact : ∀ r, k.receives r act = false)
    (hs : step k act = some k') : k'.Free t := by
  refine step_history (Q := fun _ l => holding t l = none)
    (fun _ e _ hnote => holding_none ?_) h hs
  cases e with
  | received =>
    obtain ⟨r, hr⟩ := hnote
    cases (hact r).symm.trans hr
  | _ => rfl

/-- A wait that does not come back at once switches. -/
theorem wait_switched {s : SemPtr} {ctx : Context} {x : Outcome Int}
    (hw : k.waitReturns s = false) (h : kSemaphore.wait s 1 ctx k = some (x, k')) :
    x = .switched := by
  simp only [Kernel.waitReturns, Bool.or_eq_false_iff, Bool.not_eq_false', decide_eq_false_iff_not]
    at hw
  unfold kSemaphore.wait at h
  rw [bind_apply, getSem_apply, Option.bind_some, if_neg (by simp [hw.1]), if_neg hw.2] at h
  obtain ⟨p, -, h⟩ := Option.bind_eq_some_iff.mp h
  obtain ⟨p', -, h⟩ := Option.bind_eq_some_iff.mp h
  cases h
  rfl

/-- A sender that blocks leaves the slot alone. -/
theorem handleSend_inSlot {msg : CharPtr} {x : Outcome Word} (h : k.InSlot t)
    (hw : k.overwrites t (.ecall (.send t msg)) = false)
    (hs : handleSend t msg k = some (x, k')) : k'.InSlot t := by
  have hP := inSlot_stable t
  unfold handleSend at hs
  rw [bind_apply, Option.bind_eq_some_iff] at hs
  obtain ⟨⟨r, k₁⟩, hr, hs⟩ := hs
  obtain ⟨hrun, rfl⟩ := getRunning_eq hr
  by_cases ht : t = r
  · rw [if_pos ht] at hs
    cases hs
    exact h
  rw [if_neg ht, bind_apply, getTcb_apply, Option.bind_some] at hs
  cases hsem : (k.tcb t).semSend with
  | none =>
    rw [hsem] at hs
    cases hs
  | some s =>
    rw [hsem, follow_some, pure_bind, bind_apply, Option.bind_eq_some_iff] at hs
    obtain ⟨⟨o, k₂⟩, ho, hs⟩ := hs
    have hreturns : k.waitReturns s = false := by
      simpa [Kernel.overwrites, hrun, hsem, Ne.symm ht] using hw
    obtain rfl := wait_switched hreturns ho
    cases hs
    exact wait_keeps hP _ _ _ _ _ h ho

theorem finish_event (u : Tid) : Keeps (Kernel.InSlot t) (emit (.finish u)) :=
  .write (fun k => emit_apply k _) fun _ h => h.event rfl

theorem timer_inSlot : Keeps (Kernel.InSlot t) handleTimer :=
  handleTimer_keeps (inSlot_stable t) (.write (fun k => emit_apply k _) fun _ h => h.event rfl)
    fun _ h => h

/-- What `receive` returns is in the slot. -/
theorem received_inSlot (u : Tid) (m : Message) :
    Keeps (fun c => Kernel.InSlot t c ∧ (c.tcb u).message = m) (emit (.received u m.text)) := by
  refine .write (fun k => emit_apply k _) fun k h => ⟨fun m' hm => ?_, h.2⟩
  by_cases hu : u = t
  · subst hu
    have hm' : some m.text = some m' := by simpa [holding, Event.receivedBy] using hm
    rw [← Option.some.inj hm']
    exact congrArg Message.text h.2
  · exact h.1.event (e := .received u m.text) (if_neg hu) m' hm

/-- A message that is held is not lost because another thread is created. -/
theorem create_inSlot {body space : Bool} {mem : CreateMem} (h : k.InSlot t)
    (hlt : ∀ m, holding t k.history = some m → t < k.IDCounter)
    (hs : step k (.ecall (.threadCreate body space mem)) = some k') : k'.InSlot t := by
  cases hh : holding t k.history with
  | none =>
    have hfree : k'.Free t := step_free hh (fun _ => rfl) hs
    exact fun m hm => nomatch hfree.symm.trans hm
  | some m =>
    have hID : Stable fun c : Kernel => t < c.IDCounter :=
      ⟨⟨fun _ _ _ _ h => h, fun k k' hk h => h.trans_eq (congrArg (fun p => p.2.1) hk).symm,
        fun _ _ _ h => h⟩, fun _ _ h => h⟩
    have hP : Stable fun c => t < c.IDCounter ∧ c.InSlot t := hID.and (inSlot_stable t)
    have hnew : Fresh (fun c => t < c.IDCounter ∧ c.InSlot t) (t + 1) := by
      refine ⟨fun _ h => h.1, fun _ h => ⟨Nat.lt_succ_of_lt h.1, h.2⟩, fun k u f hu _ h =>
        ⟨h.1, fun m hm => ?_⟩⟩
      have hne : t ≠ u := Nat.ne_of_lt hu
      exact (congrArg (fun x : TCB => x.message.text) (Function.update_of_ne hne ..)).trans
        (h.2 m hm)
    exact (ecall_keeps hP (.threadCreate body space mem) (handleThreadCreate_keeps hP
      (threadCreate_keeps hP hnew _ _ _ _ _ fun u p =>
        .write (fun k => emit_apply k _) fun k h => ⟨h.1, h.2.event rfl⟩)) ⟨hlt m hh, h⟩ hs).2

/-- **A step that lets no sender write into the slot keeps what is held in it.** -/
theorem step_inSlot {act : Act} (h : k.InSlot t)
    (hlt : ∀ m, holding t k.history = some m → t < k.IDCounter)
    (hc : (holding t k.history).isSome = true → k.overwrites t act = false)
    (hs : step k act = some k') : k'.InSlot t := by
  have hP := inSlot_stable t
  -- if nothing is held, whatever is written is not what is held
  have hempty : k'.Free t → k'.InSlot t := fun hf m hm => nomatch hf.symm.trans hm
  by_cases hsend : ∃ msg, act = .ecall (.send t msg) ∧ holding t k.history = none
  · obtain ⟨msg, rfl, hh⟩ := hsend
    exact hempty (step_free hh (fun _ => rfl) hs)
  by_cases hresume : ∃ r msg, act = .resume ∧ k.running = some r ∧
      (k.tcb r).context = .send t msg ∧ holding t k.history = none
  · obtain ⟨r, msg, rfl, hr, hctx, hh⟩ := hresume
    refine hempty (step_free hh (fun u => ?_) hs)
    refine Bool.eq_false_iff.mpr fun hu => ?_
    simp only [Kernel.receives, Bool.and_eq_true, decide_eq_true_eq] at hu
    obtain rfl := Option.some.inj (hr.symm.trans hu.1)
    cases hctx.symm.trans hu.2
  by_cases hcreate : ∃ body space mem, act = .ecall (.threadCreate body space mem)
  · obtain ⟨body, space, mem, rfl⟩ := hcreate
    exact create_inSlot h hlt hs
  refine step_keeps hP ⟨fun _ => timer_inSlot, fun u _ _ => finish_event u,
    fun _ u m _ => received_inSlot u m, fun _ _ _ _ => .write (fun k => emit_apply k _) fun _ h =>
      h.event rfl, fun _ _ => h, fun body space mem he => absurd ⟨body, space, mem, he⟩ hcreate, ?_, ?_⟩ h hs
  · rintro u msg x c' rfl hx
    by_cases hu : t = u
    · subst hu
      refine handleSend_inSlot h (hc ?_) hx
      by_contra hn
      exact hsend ⟨msg, rfl, Option.not_isSome_iff_eq_none.mp hn⟩
    · exact handleSend_keeps hP (setMsg_inSlot hu) k x c' h hx
  · rintro r u msg rfl hr hctx string
    refine setMsg_inSlot (fun hu => ?_) string
    subst hu
    have hover : k.overwrites t .resume = true := by
      simp [Kernel.overwrites, hr, hctx, Context.sendsTo]
    rw [hc ?_] at hover
    · cases hover
    · by_contra hn
      exact hresume ⟨r, msg, rfl, hr, hctx, Option.not_isSome_iff_eq_none.mp hn⟩

/-! ## 4. Every run -/

/-- What is received was sent, and to a thread that exists. -/
theorem Reachable.genuine (h : Reachable k) {m : CString} (hm : .received t m ∈ k.history) :
    t < k.IDCounter ∧ ∃ u msg, .wrote t u msg ∈ k.history ∧ m = CString.sent msg := by
  obtain ⟨raw, rawBuffer, a, hsteps, hsim, -⟩ := h.shows
  obtain ⟨hb, hmail, hgenuine⟩ := hsteps.invariant
    (P := fun a => a.Buffered ∧ a.Mailed ∧ a.Genuine)
    (fun hi hb hs => by
      have hmail := hb.2.1.step hi (hb.1.guarded hi) hb.1.origins hs
      exact ⟨hb.1.step hi hs, hmail, hb.2.2.step hi hb.1.origins hmail hs⟩)
    (consoleReady_inv raw rawBuffer)
    ⟨consoleReady_buffered raw rawBuffer, consoleReady_mailed raw rawBuffer, fun t m hm => by
      rcases consoleReady_events raw rawBuffer _ hm with ⟨_, _, h⟩ | ⟨_, _, _, h⟩ <;> cases h⟩
  have hhist : k.history = a.history := congrArg Core.history hsim.rep.core
  rw [hhist] at hm ⊢
  refine ⟨?_, hgenuine t m hm⟩
  rw [show k.IDCounter = a.IDCounter from congrArg Core.IDCounter hsim.rep.core]
  by_contra hn
  have ht : t ∉ a.threads := fun ht => hn (hsim.inv.names.threads_lt t ht)
  simpa [Event.mailOf] using hmail.strangers t ht _ hm

/-- Nobody has received anything when the machine starts. -/
theorem boot_free (h : boot raw rawBuffer = some k) : k.Free t := by
  refine boot_history (Q := fun _ l => holding t l = none) raw rawBuffer
    (fun _ _ _ he => holding_none (passing_receivedBy he)) (fun _ _ _ _ => holding_none rfl) ?_ h
  by_contra hn
  obtain ⟨m, hm⟩ := Option.ne_none_iff_exists'.mp hn
  rcases consoleReady_events raw rawBuffer _ (holding_mem hm) with ⟨_, _, h⟩ | ⟨_, _, _, h⟩ <;>
    cases h

theorem Reachable.step (h : Reachable k) {act : Act} (hs : Os1Kernel.step k act = some k') :
    Reachable k' := by
  obtain ⟨raw, rawBuffer, k₀, acts, hboot, hrun⟩ := h
  refine ⟨raw, rawBuffer, k₀, acts ++ [act], hboot, ?_⟩
  rw [run_append, hrun, Option.bind_some, run_cons, hs]
  rfl

/-- **A received message stays as long as no sender obtains the slot.**  In a run whose steps let
no sender write into the slot of `t` while `t` holds a message, what the pointer that `receive`
returned points to is, in every state, the message that was received. -/
theorem received_intact {k₀ : Kernel} {acts : List Act} (hboot : boot raw rawBuffer = some k₀)
    (hacts : AllSteps step (fun k act => (holding t k.history).isSome = true →
      k.overwrites t act = false) k₀ acts)
    (hrun : run step k₀ acts = some k) : k.Intact t := by
  have hreach : ∀ {k}, Reachable k → ∀ m, holding t k.history = some m →
      t < k.IDCounter ∧ ∃ u msg, .wrote t u msg ∈ k.history ∧ m = CString.sent msg :=
    fun hk m hm => hk.genuine (holding_mem hm)
  have hinv : Reachable k ∧ k.InSlot t := by
    refine run_invariant_of (P := fun k => Reachable k ∧ k.InSlot t) (fun k act k' h hc hs => ?_)
      ⟨⟨raw, rawBuffer, k₀, [], hboot, rfl⟩, fun m hm => ?_⟩ hacts hrun
    · refine ⟨h.1.step hs, step_inSlot h.2 (fun m hm => (hreach h.1 m hm).1) hc hs⟩
    · cases (boot_free hboot).symm.trans hm
  obtain ⟨_, _, a, -, hshow⟩ := hinv.1.shows
  refine ⟨fun act hr he => ?_, fun m hm => ⟨hinv.2 m hm, (hreach hinv.1 m hm).2⟩⟩
  obtain ⟨k', -, hstep, -⟩ := step_does hshow he
  refine ⟨k', hstep, ?_⟩
  rcases step_receive hr hstep t with ⟨hret, -, hhead, -⟩ | ⟨hc, -⟩
  · obtain ⟨l, hl⟩ := List.head?_eq_some_iff.mp hhead
    exact Or.inl ⟨hret, by rw [hl, holding, Event.receivedBy, if_pos rfl]; rfl⟩
  · exact Or.inr hc

/-- `main` sends "a" to a thread that it has created, which receives the message and is stopped by
the timer right there. -/
def oneMessage : List Act :=
  [.ecall (.threadCreate true false (.ok (zeroMessage 4))), .store fun p => [UInt8.ofNat (97 + p)],
    .ecall (.send 4 (.memory 0)), .ecall .threadDispatch] ++
  consoleSlices ++ [.resume, .ecall .receive, .timer, .timer, .resume]

theorem received_intact_run : ∃ k, runFromZero oneMessage = some k ∧ k.Intact 4 := by
  obtain ⟨k₀, k, hboot, hrun, hk⟩ := exists_run oneMessage (by decide +kernel)
  have he : (boot zeroMessage zeroBuffer).all (fun k₀ => AllSteps step (fun k act =>
      (holding 4 k.history).isSome = true → k.overwrites 4 act = false) k₀ oneMessage) = true := by
    decide +kernel
  rw [hboot] at he
  exact ⟨k, hk, received_intact hboot (of_decide_eq_true he) hrun⟩

/-- A thread that `main` has created receives "a" and is switched from before it runs again; `main`
sends it "b", which does not block, since `handleReceive` has given the slot back already. -/
theorem received_overwritten : ∃ k, Reachable k ∧ holding 4 k.history = some [97] ∧
    (k.tcb 4).a0 = .message 4 ∧ k.string (.message 4 0) = [98] ∧ ¬ k.Intact 4 := by
  obtain ⟨k₀, k, hboot, hrun, hk⟩ :=
    exists_run (oneMessage ++ [.ecall (.send 4 (.memory 1))]) (by decide +kernel)
  have he : (runFromZero (oneMessage ++ [.ecall (.send 4 (.memory 1))])).any (fun k =>
      holding 4 k.history = some [97] ∧ (k.tcb 4).a0 = .message 4 ∧
        k.string (.message 4 0) = [98]) = true := by decide +kernel
  rw [hk] at he
  obtain ⟨hheld, ha0, htext⟩ := of_decide_eq_true he
  refine ⟨k, ⟨_, _, k₀, _, hboot, hrun⟩, hheld, ha0, htext, fun h => ?_⟩
  have := (h.kept _ hheld).1
  rw [htext] at this
  cases this

end Os1Kernel
