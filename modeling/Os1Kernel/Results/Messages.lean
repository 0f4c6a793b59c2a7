/-
# Messages are handed over one by one

The slot of a thread that has not finished holds one message at most, and each that was written to
it is received once, in the order of the writes, whoever sends and wherever the threads are stopped.
The invariant is `Sys.Mailed` of `Spec.Message`: the slot is empty, or it holds the message written
last, according to which of `semSend` and `semReceive` has the one token.

What a message is, is settled by the steps that write and read it.  `handleSend` is called with a
pointer, and copies the string behind it when it has the slot: in the step of the call, or when the
sender goes on behind its wait.  What the string was at the call does not matter
(`message_forwarded`).  `handleReceive` returns the address of the slot, with the message in it.
Both are shown along the handlers (`handleSend_hands`, `handleReceive_hands`), with the rules of
`Kernel.Calls`.
-/
import Os1Kernel.Results.Semaphore
import Os1Kernel.Spec.Message

namespace Os1Kernel

open Simulation WaitingLine

variable {k k' : Kernel} {r t : Tid} {msg : CharPtr} (raw : Tid → Message)
  (rawBuffer : BufferId → Vector UInt8 bufferLength)

/-! ## 1. The statement -/

/-- The messages that were written to the slot of `t`, in this order. -/
def Kernel.sent (k : Kernel) (t : Tid) : List CString := eventLog (Event.sentTo t) k.history

/-- The messages that `t` received, in this order. -/
def Kernel.received (k : Kernel) (t : Tid) : List CString := eventLog (Event.receivedBy t) k.history

/-- The pointer with which a thread goes on in a `send` to `t`. -/
def Context.sendsTo (t : Tid) : Context → Option CharPtr
  | .send u msg => if u = t then some msg else none
  | _ => none

/-- The pointer that is passed to `t` in the step: by a call of `send`, or by one that goes on. -/
def Kernel.sends (k : Kernel) (t : Tid) : Act → Option CharPtr
  | .ecall (.send u msg) => if u = t ∧ k.running ≠ some t then some msg else none
  | .resume => k.running.bind fun r => (k.tcb r).context.sendsTo t
  | _ => none

/-- The step from `k` to `k'` copies the string behind `msg` to the slot of `t` and brings the
sender `r` back, or it copies nothing and leaves `r` blocked, with the pointer. -/
def Kernel.Sends (k : Kernel) (t r : Tid) (msg : CharPtr) (k' : Kernel) : Prop :=
  k'.received t = k.received t ∧
    (k'.running = some r ∧ (k'.tcb r).context = .body ∧
        k'.sent t = k.sent t ++ [(k.string msg).sent] ∨
      (k'.tcb r).context = .send t msg ∧ k'.sent t = k.sent t)

/-- The step from `k` to `k'` returns the address of the slot of `t`, with the message that is
received in it, or it leaves `t` blocked. -/
def Kernel.Receives (k : Kernel) (t : Tid) (k' : Kernel) : Prop :=
  k'.sent t = k.sent t ∧
    (k'.Returned t (.message t) ∧ k'.received t = k.received t ++ [k'.string (.message t 0)] ∨
      (k'.tcb t).context = .receive ∧ k'.received t = k.received t)

/-- The slot of `t` is a queue for one message; `slot` is what is in it. -/
structure Kernel.HandsOver (k : Kernel) (t : Tid) (slot : List CString) : Prop where
  /-- Every write found the slot empty, and every receive the message that was written last. -/
  run : BoundedQueue.run 1 [] (transfers t k.history) = some slot
  fifo : k.sent t = k.received t ++ slot
  /-- A send writes the string that its pointer points to when it has the slot. -/
  sends : ∀ r act msg, k.running = some r → k.sends t act = some msg → k.enabled act = true →
    ∃ k', step k act = some k' ∧ k.Sends t r msg k'
  /-- One that had blocked has the slot when it goes on. -/
  goesOn : ∀ r msg k', k.running = some r → (k.tcb r).context = .send t msg →
    step k .resume = some k' → k'.sent t = k.sent t ++ [(k.string msg).sent]
  receives : ∀ act, k.receives t act = true → k.enabled act = true →
    ∃ k', step k act = some k' ∧ k.Receives t k'
  /-- Nothing else writes to the slot, or receives from it. -/
  others : ∀ act k', k.sends t act = none → k.receives t act = false → step k act = some k' →
    k'.sent t = k.sent t ∧ k'.received t = k.received t
  holds : ∀ m ∈ slot, (k.tcb t).message.text = m
  /-- Whatever is sent next, the write ends within the array. -/
  bounded : ∀ msg : CString, ∃ m, setMsgFrom msg (msgLen + 1) 0 (k.tcb t).message = some m ∧
    m.text = msg.sent
  line : WaitingLine.run [] (moves (.send t) k.history) = some (k.blockedList (.send t))
  /-- No sender obtains the slot before one who blocked earlier. -/
  order : ∀ {x y l₁ l₂ l₃ l₄}, y ≠ x →
    moves (.send t) k.history = l₁ ++ .join x :: (l₂ ++ .join y :: (l₃ ++ .serve y :: l₄)) →
    .serve x ∈ l₂ ++ l₃ ∨ .leave x ∈ l₂ ++ l₃
  first : ∀ {x y l₁ l₂ l₃}, moves (.send t) k.history = l₁ ++ .join x :: (l₂ ++ .pass y :: l₃) →
    .serve x ∈ l₂ ∨ .leave x ∈ l₂

/-! ## 2. The start -/

theorem consoleReady_own_value (ht : t ∈ (Sys.consoleReady raw rawBuffer).threads) {s : SemPtr}
    (hs : s ∈ SemPtr.own t) : ((Sys.consoleReady raw rawBuffer).sem s).value = s.initial := by
  have hmem : (s, s.initial) ∈ ownValues t := by
    simp only [SemPtr.own, List.mem_cons, List.not_mem_nil, or_false] at hs
    rcases hs with rfl | rfl | rfl | rfl <;> simp [ownValues, SemPtr.initial]
  refine (consoleReady_sem raw rawBuffer (s, s.initial) ?_).2
  rw [consoleReady_threads] at ht
  simp only [List.mem_cons, List.not_mem_nil, or_false] at ht
  rcases ht with rfl | rfl <;> simp [hmem]

theorem consoleReady_mailed : (Sys.consoleReady raw rawBuffer).Mailed where
  handover t hl := by
    have htimes : ∀ {p : Event → Bool}, (∀ s v, p (.opened s v) = false) →
        (∀ t q x, p (.created t q x) = false) → (Sys.consoleReady raw rawBuffer).times p = 0 :=
      consoleReady_times raw rawBuffer
    refine ⟨?_, ?_, ?_, [], ?_, by simp⟩
    · rw [consoleReady_total, consoleReady_own_value raw rawBuffer hl.mem (by simp [SemPtr.own]),
        htimes (fun _ _ => rfl) fun _ _ _ => rfl, htimes (fun _ _ => rfl) fun _ _ _ => rfl]
      rfl
    · rw [consoleReady_total, consoleReady_own_value raw rawBuffer hl.mem (by simp [SemPtr.own]),
        htimes (fun _ _ => rfl) fun _ _ _ => rfl, htimes (fun _ _ => rfl) fun _ _ _ => rfl]
      rfl
    · rw [htimes (fun _ _ => rfl) fun _ _ _ => rfl,
        consoleReady_log raw rawBuffer (fun _ _ => rfl) fun _ _ _ => rfl, Sys.taking_of_not rfl]
      rfl
    · rw [transfers, consoleReady_log raw rawBuffer (fun _ _ => rfl) fun _ _ _ => rfl]
      rfl
  strangers t _ e he := by
    rcases consoleReady_events raw rawBuffer e he with ⟨s, v, rfl⟩ | ⟨t, p, x, rfl⟩ <;> rfl

/-! ## 3. What is copied and what is returned -/

/-- These messages were written to the slot of `t`, and these received from it. -/
def Mail (t : Tid) (sent received : List CString) (k : Kernel) : Prop :=
  k.sent t = sent ∧ k.received t = received

theorem Mail.cons {l l' : List CString} {e : Event} (h : Mail t l l' k)
    (hk : k'.history = e :: k.history) :
    Mail t (l ++ (e.sentTo t).toList) (l' ++ (e.receivedBy t).toList) k' := by
  refine ⟨?_, ?_⟩
  · rw [Kernel.sent, hk, eventLog_cons, ← h.1]
    rfl
  · rw [Kernel.received, hk, eventLog_cons, ← h.2]
    rfl

theorem Mail.quiet {l l' : List CString} {e : Event} (h : Mail t l l' k)
    (hk : k'.history = e :: k.history) (hs : e.sentTo t = none) (hr : e.receivedBy t = none) :
    Mail t l l' k' := by
  have h' := h.cons hk
  rwa [hs, hr, Option.toList_none, List.append_nil, List.append_nil] at h'

theorem mail_stable (t : Tid) (l l' : List CString) : Stable (Mail t l l') :=
  history_stable (Q := fun _ history =>
      eventLog (Event.sentTo t) history = l ∧ eventLog (Event.receivedBy t) history = l')
    fun _ e _ he h => by
      have hs : e.sentTo t = none := by cases e <;> first | rfl | cases he
      have hr : e.receivedBy t = none := by cases e <;> first | rfl | cases he
      rwa [eventLog_cons, eventLog_cons, hs, hr, Option.toList_none, List.append_nil,
        List.append_nil]

/-- What a message to `u` adds to what was written to the slot of `t`. -/
def mailTo (t u : Tid) (msg : CString) : List CString := if u = t then [msg] else []

theorem Mail.wrote {l l' : List CString} {u : Tid} {string : CString} (h : Mail t l l' k)
    (hk : k'.history = .wrote u r string :: k.history) :
    Mail t (l ++ mailTo t u string.sent) l' k' := by
  have h' := h.cons hk
  unfold mailTo
  by_cases hu : u = t
  · rw [Event.sentTo, if_pos hu] at h'
    rw [if_pos hu]
    exact ⟨h'.1, h'.2.trans (List.append_nil _)⟩
  · rw [Event.sentTo, if_neg hu] at h'
    rw [if_neg hu]
    exact ⟨h'.1, h'.2.trans (List.append_nil _)⟩

theorem Mail.received {l l' : List CString} {u : Tid} {text : CString} (h : Mail t l l' k)
    (hk : k'.history = .received u text :: k.history) :
    Mail t l (l' ++ mailTo t u text) k' := by
  have h' := h.cons hk
  unfold mailTo
  by_cases hu : u = t
  · rw [Event.receivedBy, if_pos hu] at h'
    rw [if_pos hu]
    exact ⟨h'.1.trans (List.append_nil _), h'.2⟩
  · rw [Event.receivedBy, if_neg hu] at h'
    rw [if_neg hu]
    exact ⟨h'.1.trans (List.append_nil _), h'.2⟩

/-- `setMsg` writes what the string holds. -/
theorem setMsg_mail {u : Tid} {string : CString} {l l' : List CString} (hr : k.running = some r)
    (h : Mail t l l' k) : Partially (setMsg u string) k fun _ k' =>
      k'.running = some r ∧ Mail t (l ++ mailTo t u string.sent) l' k' := by
  unfold setMsg
  refine .bind_eq (getTcb_apply k u) ?_
  refine .bind ((follow_keeps _).partially (P := fun k => k.running = some r ∧ Mail t l l' k)
    ⟨hr, h⟩) fun message k₁ h₁ => ?_
  refine .bind_eq (setThread_apply ..) (.bind_eq (getRunning_some h₁.1) ?_)
  exact .of_eq (emit_apply ..) ⟨h₁.1, h₁.2.wrote rfl⟩

section Hands

variable {u : Tid} {l l' : List CString} {S : Kernel → Prop}

/-- **The string is read behind the wait.** -/
theorem sendMessage_hands {string : CString} (hr : k.running = some r) (hs : k.string msg = string)
    (h : Mail t l l' k) : Partially (sendMessage u msg) k
      (Hands r (fun _ => Mail t (l ++ mailTo t u string.sent) l') S) := by
  have hP := (mail_stable t (l ++ mailTo t u string.sent) l').toQuiet.running r
  unfold sendMessage
  refine .bind_eq (getKernel_apply k) ?_
  rw [hs]
  refine .bind (setMsg_mail hr h) fun _ k₁ h₁ => .bind_eq (getTcb_apply k₁ u) ?_
  refine .bind ((follow_keeps _).partially (P := fun k => k.running = some r ∧
    Mail t (l ++ mailTo t u string.sent) l' k) h₁) fun _ k₂ h₂ => ?_
  exact .bind ((signal_keeps hP 1).partially h₂) fun _ k₃ h₃ => .of_eq rfl h₃

theorem handleSend_hands {string : CString} (hr : k.running = some r) (hs : k.string msg = string)
    (h : Mail t l l' k) (hne : u ≠ r) : Partially (handleSend u msg) k
      (Hands r (fun _ => Mail t (l ++ mailTo t u string.sent) l') fun k' =>
        Mail t l l' k' ∧ (k'.tcb r).context = .send u msg) := by
  have hP := (mail_stable t l l').and (string_stable msg string)
  unfold handleSend
  refine .bind_eq (getRunning_some hr) ?_
  rw [if_neg hne]
  refine .bind_eq (getTcb_apply k u) ?_
  refine .bind ((follow_keeps _).partially (P := fun k => k.running = some r ∧
    Mail t l l' k ∧ k.string msg = string) ⟨hr, h, hs⟩) fun s k₁ h₁ => ?_
  refine behindWait_hands (wait_hands hP h₁.1 h₁.2 1 _) rfl (fun k' h' => ⟨h'.1.1, h'.2⟩) ?_
  exact fun x k' hr' h' => sendMessage_hands hr' h'.2 h'.1

/-- `receive` has returned the address of the slot, with the message in it. -/
def HandedOver (t r : Tid) (l l' : List CString) (v : Word) (k : Kernel) : Prop :=
  v = .message r ∧ k.history.head? = some (.received r (k.tcb r).message.text) ∧
    Mail t l (l' ++ mailTo t r (k.tcb r).message.text) k

/-- **What is returned is the address of the slot, and the message is in it.** -/
theorem receiveMessage_hands (hr : k.running = some r) (h : Mail t l l' k) :
    Partially receiveMessage k (Hands r (HandedOver t r l l') S) := by
  have hP := ((mail_stable t l l').and (message_stable r (k.tcb r).message)).toQuiet.running r
  unfold receiveMessage
  refine .bind_eq (getRunning_some hr) (.bind_eq (getTcb_apply k r) ?_)
  refine .bind ((follow_keeps _).partially (P := fun k' => k'.running = some r ∧
    Mail t l l' k' ∧ (k'.tcb r).message = (k.tcb r).message) ⟨hr, h, rfl⟩) fun s k₁ h₁ => ?_
  refine .bind ((signal_keeps hP 1).partially h₁) fun _ k₂ ⟨hr₂, h₂, hm⟩ => ?_
  refine .bind_eq (emit_apply ..) (.of_eq rfl ⟨hr₂, rfl, ?_, ?_⟩)
  · exact congrArg (fun m : Message => some (Event.received r m.text)) hm.symm
  · change Mail t l (l' ++ mailTo t r (k₂.tcb r).message.text) _
    rw [hm]
    exact h₂.received rfl

theorem handleReceive_hands (hr : k.running = some r) (h : Mail t l l' k) :
    Partially handleReceive k (Hands r (HandedOver t r l l') fun k' =>
      Mail t l l' k' ∧ (k'.tcb r).context = .receive) := by
  unfold handleReceive
  refine .bind_eq (getRunning_some hr) (.bind_eq (getTcb_apply k r) ?_)
  refine .bind ((follow_keeps _).partially (P := fun k => k.running = some r ∧ Mail t l l' k)
    ⟨hr, h⟩) fun s k₁ h₁ => ?_
  exact behindWait_hands (wait_hands (mail_stable t l l') h₁.1 h₁.2 1 _) rfl (fun _ h' => h')
    fun x k' hr' h' => receiveMessage_hands hr' h'

end Hands

/-! ## 4. One step -/

/-- A step that sends writes what the pointer points to before it, or leaves the sender blocked. -/
theorem step_send {act : Act} {u : Tid} (hr : k.running = some r) (hs : k.sends u act = some msg)
    (h : step k act = some k') (t : Tid) :
    (k'.running = some r ∧ (k'.tcb r).context = .body ∧
        Mail t (k.sent t ++ mailTo t u (k.string msg).sent) (k.received t) k') ∨
      act ≠ .resume ∧ (k'.tcb r).context = .send u msg ∧ Mail t (k.sent t) (k.received t) k' := by
  have hmail : Mail t (k.sent t) (k.received t) k := ⟨rfl, rfl⟩
  cases act with
  | ecall call =>
    cases call with
    | send v p =>
      obtain ⟨⟨rfl, hne⟩, hp⟩ := Option.ite_none_right_eq_some.mp hs
      cases hp
      have hne' : v ≠ r := fun he => hne (he ▸ hr)
      rcases step_partially (.ecall (.send v msg))
        (leaveWith_hands (handleSend_hands hr rfl hmail hne')) h with ⟨x, k₁, hr₁, hm, rfl⟩ | hm
      · exact Or.inl ⟨hr₁, k₁.leave_context r _, hm⟩
      · exact Or.inr ⟨nofun, hm.2, hm.1⟩
    | _ => cases hs
  | resume =>
    left
    have hctx : (k.tcb r).context = .send u msg := by
      simp only [Kernel.sends, hr, Option.bind_some] at hs
      cases hc : (k.tcb r).context with
      | send v p =>
        rw [hc] at hs
        obtain ⟨rfl, hp⟩ := Option.ite_none_right_eq_some.mp hs
        cases hp
        rfl
      | _ =>
        rw [hc] at hs
        cases hs
    have hP := (mail_stable t (k.sent t) (k.received t)).and (string_stable msg (k.string msg))
    refine resume_partially (Q := fun k' => k'.running = some r ∧ (k'.tcb r).context = .body ∧
      Mail t (k.sent t ++ mailTo t u (k.string msg).sent) (k.received t) k') hr ?_ h
    rw [hctx]
    refine Partially.mono (behindEndWait_hands (S := fun _ => False) hP.toQuiet hr ⟨hmail, rfl⟩
      fun k₁ hr₁ h₁ => sendMessage_hands hr₁ h₁.2 h₁.1) fun _ k' h' => ?_
    obtain ⟨x, k₁, hr₁, hm, rfl⟩ := h'.resolve_right id
    exact ⟨hr₁, k₁.leave_context r _, hm⟩
  | _ => cases hs

/-- A step that receives returns the address of the slot, with the message in it, or leaves the
receiver blocked. -/
theorem step_receive {act : Act} (hr : k.receives r act = true) (h : step k act = some k')
    (t : Tid) : (k'.Returned r (.message r) ∧
        HandedOver t r (k.sent t) (k.received t) (.message r) k') ∨
      (k'.tcb r).context = .receive ∧ Mail t (k.sent t) (k.received t) k' := by
  have hmail : Mail t (k.sent t) (k.received t) k := ⟨rfl, rfl⟩
  have hback : ∀ {S : Kernel → Prop},
      k'.Behind r false (HandedOver t r (k.sent t) (k.received t)) S →
      (k'.Returned r (.message r) ∧
        HandedOver t r (k.sent t) (k.received t) (.message r) k') ∨ S k' := by
    rintro S (⟨v, k₁, hr₁, ⟨rfl, hhead, hm⟩, rfl⟩ | hS)
    · refine Or.inl ⟨Kernel.leave_returned hr₁ _, rfl, ?_, ?_⟩
      · rw [Kernel.leave_message]
        exact hhead
      · rw [Kernel.leave_message]
        exact hm
    · exact Or.inr hS
  cases act with
  | ecall call =>
    cases call with
    | receive =>
      have hrun : k.running = some r := of_decide_eq_true hr
      exact (hback (step_partially (.ecall .receive)
        (leaveWith_hands (handleReceive_hands hrun hmail)) h)).imp_right And.symm
    | _ => cases hr
  | resume =>
    simp only [Kernel.receives, Bool.and_eq_true, decide_eq_true_eq] at hr
    have hP := mail_stable t (k.sent t) (k.received t)
    refine Or.inl ((hback (S := fun _ => False) (resume_partially (Q := fun k' => k'.Behind r false
      (HandedOver t r (k.sent t) (k.received t)) fun _ => False) hr.1 ?_ h)).resolve_right id)
    rw [hr.2]
    exact behindEndWait_hands hP.toQuiet hr.1 hmail fun k₁ hr₁ h₁ => receiveMessage_hands hr₁ h₁
  | _ => cases hr

theorem mailTo_of_ne {t u : Tid} (h : u ≠ t) (msg : CString) : mailTo t u msg = [] := if_neg h

/-- **Nothing else writes to a slot or receives from it.** -/
theorem step_noMail {act : Act} (hs : k.sends t act = none) (hr : k.receives t act = false)
    (h : step k act = some k') : Mail t (k.sent t) (k.received t) k' := by
  have hmail : Mail t (k.sent t) (k.received t) k := ⟨rfl, rfl⟩
  by_cases hsend : ∃ u r msg, k.running = some r ∧ k.sends u act = some msg
  · obtain ⟨u, r, msg, hrun, hu⟩ := hsend
    have hne : u ≠ t := by
      rintro rfl
      cases hs.symm.trans hu
    have hm := step_send hrun hu h t
    rw [mailTo_of_ne hne, List.append_nil] at hm
    exact hm.elim (fun hm => hm.2.2) fun hm => hm.2.2
  by_cases hreceive : ∃ r, k.receives r act = true
  · obtain ⟨r, hu⟩ := hreceive
    have hne : r ≠ t := by
      rintro rfl
      cases hr.symm.trans hu
    have hm := step_receive hu h t
    rw [HandedOver, mailTo_of_ne hne, List.append_nil] at hm
    exact hm.elim (fun hm => hm.2.2.2) And.right
  have hP := mail_stable t (k.sent t) (k.received t)
  have hemit : ∀ {e : Event}, e.sentTo t = none → e.receivedBy t = none →
      Keeps (Mail t (k.sent t) (k.received t)) (emit e) := fun hs hr =>
    .write (fun k => emit_apply k _) fun _ h => h.quiet rfl hs hr
  refine step_keeps hP ⟨fun _ => handleTimer_keeps hP (hemit rfl rfl) fun _ h => h,
    fun u _ _ => hemit rfl rfl, fun r _ _ hu => absurd ⟨r, hu⟩ hreceive,
    fun b u c _ => hemit rfl rfl, fun _ _ => hmail, fun body space mem _ => ?_, ?_, ?_⟩ hmail h
  · exact threadCreate_keeps hP (n := 0)
      ⟨fun _ _ => Nat.zero_le _, fun _ h => h, fun _ _ _ _ _ h => h⟩ _ _ _ _ _ fun _ _ =>
      hemit rfl rfl
  · rintro u msg x c' rfl hx
    unfold handleSend at hx
    refine running_keeps (fun r hrun => ?_) hmail hx
    by_cases hu : u = r
    · rw [if_pos hu]
      exact .pure _
    · refine absurd ⟨u, r, msg, hrun, if_pos ⟨rfl, fun he => hu ?_⟩⟩ hsend
      exact (Option.some.inj (hrun.symm.trans he)).symm
  · rintro r u msg rfl hrun hctx
    refine absurd ⟨u, r, msg, hrun, ?_⟩ hsend
    simp [Kernel.sends, hrun, hctx, Context.sendsTo]

/-! ## 5. The result -/

/-- **No message is lost, repeated or overwritten on its way to a thread that has not finished.**
What was written to the slot of the thread is what it has received, in this order, and at most one
message more, which the slot holds; each `receive` returns the address of the one that it takes,
and each `send` writes what its pointer points to when it has obtained the slot. -/
theorem message_handsOver (h : Reachable k) (ht : t ∈ k.tcbList)
    (hf : (k.tcb t).finished = false) : ∃ slot, k.HandsOver t slot := by
  obtain ⟨raw, rawBuffer, a, hsteps, hsim, hidle⟩ := h.shows
  have hline := hsteps.invariant (P := fun a => ∀ s, a.InLine s)
    (fun hi hl hs => Sys.InLine.step hl hi hs) (consoleReady_inv raw rawBuffer)
    (consoleReady_inLine raw rawBuffer) (.send t)
  have hmail := (hsteps.invariant (P := fun a => a.Buffered ∧ a.Mailed)
    (fun hi hb hs => ⟨hb.1.step hi hs, hb.2.step hi (hb.1.guarded hi) hb.1.origins hs⟩)
    (consoleReady_inv raw rawBuffer)
    ⟨consoleReady_buffered raw rawBuffer, consoleReady_mailed raw rawBuffer⟩).2
  have hthread := hsim.rep.thread_apply t
  have hhist : k.history = a.history := congrArg Core.history hsim.rep.core
  have hmessage : (k.tcb t).message = (a.thread t).message := congrArg Thread.message hthread
  have hlives : a.Lives t := by
    refine ⟨hsim.tcbList_eq ▸ ht, (congrArg Thread.finished hthread).symm.trans hf, fun _ => ?_⟩
    rw [hidle.stage]
    rfl
  rw [Sys.InLine, ← hsim.blockedList_eq, ← hhist] at hline
  obtain ⟨slot, hrun, hholds⟩ := (hmail.handover t hlives).slot
  rw [← hhist] at hrun
  have hshow : Shows k a := ⟨hsim, hidle⟩
  refine ⟨slot, hrun, ?_, fun r act msg hr hs he => ?_, fun r msg k' hr hc hs => ?_,
    fun act hr he => ?_, fun act k' => step_noMail, by rwa [hmessage], fun msg => ?_, hline,
    fun hne he => ?_, fun he => ?_⟩
  · have := BoundedQueue.run_fifo hrun
    rwa [List.nil_append, puts_transfers, gets_transfers] at this
  · obtain ⟨k', -, hstep, -⟩ := step_does hshow he
    refine ⟨k', hstep, ?_⟩
    rcases step_send hr hs hstep t with ⟨hr', hc, hm⟩ | ⟨-, hc, hm⟩
    · exact ⟨hm.2, Or.inl ⟨hr', hc, hm.1.trans (by rw [mailTo, if_pos rfl])⟩⟩
    · exact ⟨hm.2, Or.inr ⟨hc, hm.1⟩⟩
  · have hsends : k.sends t .resume = some msg := by simp [Kernel.sends, hr, hc, Context.sendsTo]
    obtain ⟨-, -, hm⟩ := (step_send hr hsends hs t).resolve_right fun h => h.1 rfl
    exact hm.1.trans (by rw [mailTo, if_pos rfl])
  · obtain ⟨k', -, hstep, -⟩ := step_does hshow he
    refine ⟨k', hstep, ?_⟩
    rcases step_receive hr hstep t with ⟨hret, -, -, hm⟩ | ⟨hc, hm⟩
    · exact ⟨hm.1, Or.inl ⟨hret, hm.2.trans (by rw [mailTo, if_pos rfl]; rfl)⟩⟩
    · exact ⟨hm.1, Or.inr ⟨hc, hm.2⟩⟩
  · obtain ⟨m, hm⟩ := setMsgFrom_isSome msg (msgLen + 1) 0 (k.tcb t).message rfl (Nat.zero_le _)
    exact ⟨m, hm, setMsgFrom_text hm⟩
  · exact run_order (he ▸ hline) hne
  · exact run_first (he ▸ hline)

/-- `main` sends "a" to thread 4 and "c" to thread 5.  Thread 4 receives "a". -/
def twoMessages : List Act :=
  [.ecall (.threadCreate true false (.ok (zeroMessage 4))),
    .ecall (.threadCreate true false (.ok (zeroMessage 5))),
    .store fun p => [UInt8.ofNat (97 + p)], .ecall (.send 4 (.memory 0)),
    .ecall (.send 5 (.memory 2)), .ecall .threadDispatch] ++
  consoleSlices ++ [.resume, .ecall .receive]

theorem message_handsOver_run : ∃ k slot, runFromZero twoMessages = some k ∧
    k.HandsOver 5 slot := by
  obtain ⟨k₀, k, hboot, hrun, hk⟩ := exists_run twoMessages (by decide +kernel)
  have he : (runFromZero twoMessages).any (fun k => 5 ∈ k.tcbList ∧
    (k.tcb 5).finished = false) = true := by decide +kernel
  rw [hk] at he
  obtain ⟨ht, hf⟩ := of_decide_eq_true he
  obtain ⟨slot, hslot⟩ := message_handsOver ⟨_, _, k₀, twoMessages, hboot, hrun⟩ ht hf
  exact ⟨k, slot, hk, hslot⟩

/-- Thread 4 forwards to thread 5 the message that it has received, by the pointer that `receive`
gave it, and blocks.  `main` sends "b" to thread 4.  Thread 5 receives "c" and calls `receive` again,
thread 4 goes on in its call, and then thread 5 in its own. -/
def forwarding : List Act :=
  [.ecall (.send 5 (.message 4 0)), .resume, .timer, .timer, .resume, .ecall (.send 4 (.memory 1)),
    .ecall .threadDispatch] ++
  consoleSlices ++ [.resume, .ecall .receive, .ecall .receive, .resume, .ecall .threadDispatch] ++
  consoleSlices ++ [.resume, .ecall .threadDispatch, .resume, .ecall .threadDispatch] ++
  consoleSlices ++ [.resume]

/-- **What a blocked sender delivers is not what it passed.**  The pointer is to "a" when thread 4
calls `send`, and to "b" when its second message to be written is copied. -/
theorem message_forwarded : ∃ k₁ k₂, runFromZero twoMessages = some k₁ ∧
    k₁.running = some 4 ∧ k₁.string (.message 4 0) = [97] ∧
    Run.run step k₁ forwarding = some k₂ ∧ (k₂.tcb 5).finished = false ∧
    k₂.sent 5 = [[99], [98]] ∧ k₂.received 5 = [[99], [98]] := by
  have he : ((runFromZero twoMessages).bind fun k₁ => (Run.run step k₁ forwarding).map fun k₂ =>
      decide (k₁.running = some 4 ∧ k₁.string (.message 4 0) = [97] ∧
        (k₂.tcb 5).finished = false ∧ k₂.sent 5 = [[99], [98]] ∧
        k₂.received 5 = [[99], [98]])) = some true := by decide +kernel
  obtain ⟨k₁, hk₁, he⟩ := Option.bind_eq_some_iff.mp he
  obtain ⟨k₂, hk₂, he⟩ := Option.map_eq_some_iff.mp he
  obtain ⟨hr, hs, hf, hsent, hreceived⟩ := of_decide_eq_true he
  exact ⟨k₁, k₂, hk₁, hr, hs, hk₂, hf, hsent, hreceived⟩

end Os1Kernel
