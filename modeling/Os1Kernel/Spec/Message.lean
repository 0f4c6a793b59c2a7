/-
# Messages

`message` of a thread is a slot for one message.  A token of `semSend` stands for the empty slot
and one of `semReceive` for the full one; between them they are one token, wherever it is.  So what
was written to the slot and what was received from it is a run of a queue that holds at most one
message.

`Handover` has the two counts, for `semSend` and for `semReceive`: what is in all the places of
`Tokens.lean` and what has been used is what there was at first and what has been earned.  A write
uses a token of `semSend` and earns one of `semReceive`, and a receive the other way round, so a
sender that has the slot knows that the queue of written and not received messages is empty, and a
receiver that it has one element (`Handover.totals`).  This is all the ordering there is; it does
not matter how many senders there are and where they are stopped.

A handler that receives gives the slot free before it returns the message.  `taking` is the time
between the two, in which no other thread runs; so at the moment of the return `message` still is
what was written last, although from then on it need not be (`Results.Received`).

The first section is about the characters: the loop of `setMsg` copies up to the terminating zero,
at most `msgLen` of them, and ends with a zero inside the array.
-/
import Os1Kernel.Spec.Buffer
import Os1Kernel.Spec.Life

namespace Os1Kernel

/-! ## 1. `setMsg`

The loop copies character by character until the terminating zero or the end of the array.  What
the array then holds, read as a string, is what was sent, cut off; what stood in it before does not
matter. -/

/-- What `setMsg` takes over of the string it is given. -/
def CString.sent (msg : CString) : CString := (msg.takeWhile (· ≠ 0)).take msgLen

/-- What the loop of `setMsg` takes over from the `i`-th character on. -/
theorem sent_drop (msg : CString) {i : Nat} (hc : msg.getD i 0 ≠ 0 ∧ i < msgLen) :
    ((msg.drop i).takeWhile (· ≠ 0)).take (msgLen - i) =
      msg.getD i 0 :: ((msg.drop (i + 1)).takeWhile (· ≠ 0)).take (msgLen - (i + 1)) := by
  have hlt : i < msg.length := by
    by_contra hn
    refine hc.1 ?_
    rw [List.getD_eq_getElem?_getD, List.getElem?_eq_none (Nat.not_lt.mp hn)]
    rfl
  have hget : msg[i] = msg.getD i 0 := by
    rw [List.getD_eq_getElem?_getD, List.getElem?_eq_getElem hlt, Option.getD_some]
  rw [List.drop_eq_getElem_cons hlt, hget, List.takeWhile_cons_of_pos (by simpa using hc.1),
    show msgLen - i = msgLen - (i + 1) + 1 by omega, List.take_succ_cons]

theorem sent_stop (msg : CString) {i : Nat} (hc : ¬ (msg.getD i 0 ≠ 0 ∧ i < msgLen)) :
    ((msg.drop i).takeWhile (· ≠ 0)).take (msgLen - i) = [] := by
  by_cases hi : i < msgLen
  · have h0 : msg.getD i 0 = 0 := by
      by_contra hne
      exact hc ⟨hne, hi⟩
    by_cases hlt : i < msg.length
    · have hget : msg[i] = 0 := by
        rw [← h0, List.getD_eq_getElem?_getD, List.getElem?_eq_getElem hlt, Option.getD_some]
      rw [List.drop_eq_getElem_cons hlt, hget, List.takeWhile_cons_of_neg (by simp), List.take_nil]
    · rw [List.drop_eq_nil_of_le (Nat.not_lt.mp hlt)]
      simp
  · rw [Nat.sub_eq_zero_of_le (Nat.not_lt.mp hi), List.take_zero]

/-- The loop of `setMsg` leaves the characters before `i`, and behind them there is the rest of the
string. -/
theorem setMsgFrom_rest {msg : CString} {n i : Nat} {message m : Message}
    (h : setMsgFrom msg n i message = some m) :
    ∃ rest, m.toList = message.toList.take i ++ rest ∧
      rest.takeWhile (· ≠ 0) = ((msg.drop i).takeWhile (· ≠ 0)).take (msgLen - i) := by
  induction n generalizing i message with
  | zero => cases h
  | succ n ih =>
    by_cases hlt : i < msgLen + 1
    · have hlen : i < message.toList.length := by simpa using hlt
      rw [setMsgFrom, dif_pos hlt] at h
      by_cases hc : msg.getD i 0 ≠ 0 ∧ i < msgLen
      · rw [if_pos hc] at h
        obtain ⟨rest, hm, hrest⟩ := ih h
        refine ⟨msg.getD i 0 :: rest, ?_, ?_⟩
        · rw [hm, Vector.toList_set, List.take_add_one, List.take_set_of_le (Nat.le_refl i),
            List.getElem?_set_self hlen, Option.toList_some, List.append_assoc,
            List.singleton_append]
        · rw [List.takeWhile_cons_of_pos (by simpa using hc.1), hrest, sent_drop msg hc]
      · rw [if_neg hc] at h
        obtain rfl := Option.some.inj h
        refine ⟨0 :: message.toList.drop (i + 1), ?_, ?_⟩
        · rw [Vector.toList_set, List.set_eq_take_append_cons_drop, if_pos hlen]
        · rw [sent_stop msg hc, List.takeWhile_cons_of_neg (by simp)]
    · rw [setMsgFrom, dif_neg hlt] at h
      cases h

/-- **`setMsg` takes over the string up to its end or its 256th character.** -/
theorem setMsgFrom_text {msg : CString} {message m : Message}
    (h : setMsgFrom msg (msgLen + 1) 0 message = some m) : m.text = msg.sent := by
  obtain ⟨rest, hm, hrest⟩ := setMsgFrom_rest h
  rw [Message.text, hm, List.take_zero, List.nil_append, hrest]
  rfl

/-! ## 2. What the events say

A write puts a message into the slot, a receive takes it out, and `BoundedQueue.run 1` says whether
they alternate as they should. -/

/-- A message is written to the slot of `t`, or received from it. -/
def Event.transfer (t : Tid) : Event → Option (BoundedQueue.Op CString)
  | .wrote u _ msg => if u = t then some (.put (CString.sent msg)) else none
  | .received u msg => if u = t then some (.get msg) else none
  | _ => none

def transfers (t : Tid) (l : List Event) : List (BoundedQueue.Op CString) :=
  eventLog (Event.transfer t) l

/-- The message that is written to the slot of `t`. -/
def Event.sentTo (t : Tid) : Event → Option CString
  | .wrote u _ msg => if u = t then some (CString.sent msg) else none
  | _ => none

/-- The message that `t` receives. -/
def Event.receivedBy (t : Tid) : Event → Option CString
  | .received u msg => if u = t then some msg else none
  | _ => none

/-- Something happens to a slot. -/
def Event.isMail : Event → Bool
  | .wrote .. | .received .. | .signalled (.send _) _ => true
  | _ => false

def Stage.isTaking : Stage → Bool
  | .taking => true
  | _ => false

section Counts

open BoundedQueue

variable (t : Tid) (l : List Event)

theorem puts_transfers : puts (transfers t l) = eventLog (Event.sentTo t) l := by
  rw [puts, transfers, eventLog, List.filterMap_filterMap, eventLog]
  refine List.filterMap_congr fun e _ => ?_
  cases e with
  | wrote u | received u => by_cases hu : u = t <;> simp [Event.transfer, Event.sentTo, Op.in?, hu]
  | _ => rfl

theorem gets_transfers : gets (transfers t l) = eventLog (Event.receivedBy t) l := by
  rw [gets, transfers, eventLog, List.filterMap_filterMap, eventLog]
  refine List.filterMap_congr fun e _ => ?_
  cases e with
  | wrote u | received u =>
    by_cases hu : u = t <;> simp [Event.transfer, Event.receivedBy, Op.out?, hu]
  | _ => rfl

/-- A message that is written uses the empty slot and makes it full. -/
theorem length_sentTo : l.countP (Event.uses (.send t)) = (eventLog (Event.sentTo t) l).length ∧
    l.countP (Event.earns (.receive t)) = (eventLog (Event.sentTo t) l).length := by
  rw [length_eventLog]
  constructor <;> refine List.countP_congr fun e _ => ?_
  · cases e with
    | wrote u => by_cases hu : u = t <;> simp [Event.uses, Event.sentTo, hu]
    | signalled s => cases s <;> simp [Event.uses, Event.sentTo]
    | _ => simp [Event.uses, Event.sentTo]
  · cases e with
    | wrote u => by_cases hu : u = t <;> simp [Event.earns, Event.sentTo, hu]
    | signalled s => cases s <;> simp [Event.earns, Event.sentTo]
    | _ => simp [Event.earns, Event.sentTo]

/-- Who has emptied the slot has used the token of the full one. -/
theorem uses_receive : l.countP (Event.uses (.receive t)) = l.countP (Event.earns (.send t)) := by
  refine List.countP_congr fun e _ => ?_
  cases e with
  | signalled s => cases s <;> simp [Event.uses, Event.earns]
  | _ => simp [Event.uses, Event.earns]

end Counts

namespace Sys

variable {a b : Sys} {t : Tid} {s : SemPtr}

/-! ## 3. What a step does to the slots

A writer has a token of `semSend`, a reader one of `semReceive`, and of the two together there is
one.  So at the write the slot is empty, and at the read it is full. -/

/-- Between two calls, a semaphore to which nobody is on the way has all its tokens. -/
theorem total_eq_value (h : a.AtBody)
    (hready : ∀ u ∈ a.ready, (a.thread u).context.waitsAt u ≠ some s) :
    a.total s = (a.sem s).value := by
  have hway : a.onTheWay s = 0 := by
    refine List.countP_eq_zero.mpr fun u hu => ?_
    simpa [bound] using hready u hu
  rw [total, stock, transit, owed, hway, arriving_body h, h.activity, h.stage]
  rfl

/-- `t` has emptied its slot and is about to return the message. -/
def taking (a : Sys) (t : Tid) : Nat :=
  if a.stage.isTaking = true ∧ a.running = t then 1 else 0

theorem taking_of_not (h : a.stage.isTaking = false) : a.taking t = 0 := by
  simp [taking, h]

theorem taking_same (hstage : b.stage = a.stage) (hrun : b.running = a.running) (t : Tid) :
    b.taking t = a.taking t := by
  simp [taking, hstage, hrun]

theorem WaitCall.not_taking {m : Nat} {ctx : Context} (h : a.WaitCall s m ctx) :
    a.stage.isTaking = false := by
  cases h with
  | semWait h | join h | joinAll h | timedJoinAll h | send h | receive h | get h =>
    rw [h.stage]
    rfl
  | put _ hs | putMutex _ hs | getMutex _ hs =>
    rw [hs]
    rfl

theorem Leaves.not_taking (h : a.Leaves) : a.stage.isTaking = false := by
  cases h with
  | code hs | past hs | done hs =>
    rw [hs]
    rfl

/-- Nothing happens to any slot. -/
structure NoMail (a b : Sys) : Prop where
  history : ∃ l, (∀ e ∈ l, Event.isMail e = false) ∧ b.history = l ++ a.history
  message : ∀ u ∈ a.threads, (b.thread u).message = (a.thread u).message
  taking : ∀ u, b.taking u = a.taking u

theorem Step.mail (hs : a.Step b) (hi : a.Inv) (ho : a.Origins) : a.NoMail b ∨
    (∃ t msg message, a.activity = .none ∧ a.stage = .past (.send t msg) ∧
      setMsgFrom (a.string msg) (msgLen + 1) 0 (a.thread t).message = some message ∧
      b.stage = .owes [.receive t] ∧
      b.thread = Function.update a.thread t { a.thread t with message := message } ∧
      b.history = .wrote t a.running (a.string msg) :: a.history) ∨
    (a.stage = .past .receive ∧ b.stage = .taking ∧ b.running = a.running ∧ b.thread = a.thread ∧
      b.history = .signalled (.send a.running) 1 :: a.history) ∨
    a.activity = .none ∧ a.stage = .taking ∧ b.stage = .owes [] ∧ b.running = a.running ∧
      b.thread = a.thread ∧
      b.history = .received a.running (a.thread a.running).message.text :: a.history := by
  have hquiet : ∀ {e}, e.isMail = false → b.history = e :: a.history →
      ∃ l, (∀ e ∈ l, Event.isMail e = false) ∧ b.history = l ++ a.history :=
    fun {e} he h => ⟨[e], by simpa using he, h⟩
  have hnil : b.history = a.history →
      ∃ l, (∀ e ∈ l, Event.isMail e = false) ∧ b.history = l ++ a.history :=
    fun h => ⟨[], by simp, h⟩
  have hnone : a.stage.isTaking = false → b.stage.isTaking = false →
      ∀ u, b.taking u = a.taking u :=
    fun h₁ h₂ u => (taking_of_not h₂).trans (taking_of_not h₁).symm
  have hcode : ∀ {st}, a.stage = st → st.isTaking = false → a.stage.isTaking = false :=
    fun h₁ h₂ => h₁ ▸ h₂
  cases hs with
  | write h hst hm => exact Or.inr (Or.inl ⟨_, _, _, h, hst, hm, rfl, rfl, rfl⟩)
  | received h hst => exact Or.inr (Or.inr (Or.inr ⟨h, hst, rfl, rfl, rfl, rfl⟩))
  | @signal s stage hc =>
    cases hc with
    | slot _ hst => exact Or.inr (Or.inr (Or.inl ⟨hst, rfl, rfl, rfl, rfl⟩))
    | semSignal hc =>
      exact Or.inl ⟨hquiet rfl rfl, fun _ _ => rfl, hnone (hcode hc.stage rfl) rfl⟩
    | owed _ hst =>
      refine Or.inl ⟨hquiet ?_ rfl, fun _ _ => rfl, hnone (hcode hst rfl) rfl⟩
      cases s with
      | send u => exact absurd (by rw [hst]; exact List.mem_cons_self) (ho.owes u)
      | _ => rfl
  | @skip s stage hc hd =>
    cases hc with
    | slot hact hst =>
      -- the slot of a thread that runs is alive
      have hne := (hi.contexts.past hst).1
      have := hi.alive.own_active _ hi.alive.running_mem (hi.contexts.unfinished hact hne)
        (fun _ => by rw [hst]; rfl) (.send a.running) (by simp [SemPtr.own])
      rw [this] at hd
      cases hd
    | semSignal hc => exact Or.inl ⟨hnil rfl, fun _ _ => rfl, hnone (hcode hc.stage rfl) rfl⟩
    | owed _ hst => exact Or.inl ⟨hnil rfl, fun _ _ => rfl, hnone (hcode hst rfl) rfl⟩
  | @init _ u hnu =>
    refine Or.inl ⟨hnil rfl, fun v hv => ?_, taking_same rfl rfl⟩
    have hne : v ≠ u := fun he => hnu (he ▸ hv)
    exact congrArg Thread.message (Function.update_of_ne hne ..)
  | @release s m _ u =>
    refine Or.inl ⟨⟨[m.event s u], ?_, rfl⟩, fun v _ => update_field Thread.message (by rfl) v,
      taking_same rfl rfl⟩
    cases m <;> simp [UnblockManner.event, Event.isMail]
  | timeoutZero hl =>
    refine Or.inl ⟨⟨[.returned a.running TIMEOUT, .expired _ a.running], ?_, rfl⟩,
      fun v _ => update_field Thread.message (by rfl) v,
      hnone (hcode (hi.contexts.leaving hl).1 rfl) rfl⟩
    simp [Event.isMail]
  | preempt h =>
    exact Or.inl ⟨hquiet rfl rfl, fun v _ => update_field Thread.message (by rfl) v,
      hnone (hcode h.stage rfl) (hcode h.stage rfl)⟩
  | switch h =>
    have hst := hcode (hi.contexts.leaving h).1 rfl
    exact Or.inl ⟨hquiet rfl rfl, fun v _ => update_field Thread.message (by rfl) v,
      hnone hst hst⟩
  | leave _ hl =>
    exact Or.inl ⟨hnil rfl, fun v _ => update_field Thread.message (by rfl) v,
      hnone hl.not_taking rfl⟩
  | acquire hw =>
    exact Or.inl ⟨hquiet rfl rfl, fun v _ => update_field Thread.message (by rfl) v,
      hnone hw.not_taking rfl⟩
  | block hw =>
    exact Or.inl ⟨hquiet rfl rfl, fun v _ => update_field Thread.message (by rfl) v,
      hnone hw.not_taking rfl⟩
  | dead hw => exact Or.inl ⟨hnil rfl, fun _ _ => rfl, hnone hw.not_taking rfl⟩
  | endWait _ hst | putChar _ hst | getChar _ hst =>
    exact Or.inl ⟨hquiet rfl rfl, fun _ _ => rfl, hnone (hcode hst rfl) rfl⟩
  | putting h | finish h =>
    exact Or.inl ⟨hquiet rfl rfl, fun _ _ => rfl, hnone (hcode h.stage rfl) rfl⟩
  | noParent _ hst => exact Or.inl ⟨hnil rfl, fun _ _ => rfl, hnone (hcode hst rfl) rfl⟩
  | childLeaves _ hst | retire _ hst =>
    exact Or.inl ⟨hnil rfl, fun v _ => update_field Thread.message (by rfl) v,
      hnone (hcode hst rfl) rfl⟩
  | childSignals _ hst =>
    exact Or.inl ⟨hquiet rfl rfl, fun v _ => update_field Thread.message (by rfl) v,
      hnone (hcode hst rfl) rfl⟩
  | _ =>
    refine Or.inl ⟨?_, fun v _ => ?_, taking_same rfl rfl⟩
    · first | exact hnil rfl | exact hquiet rfl rfl
    · first | rfl | exact update_field Thread.message (by rfl) v

end Sys

/-! ## 4. The invariant -/

/-- The event is about the slot of `t`. -/
def Event.mailOf (t : Tid) : Event → Bool
  | .wrote u _ _ | .received u _ | .signalled (.send u) _ => u = t
  | _ => false

namespace Sys

variable {a b : Sys} {t : Tid} {s : SemPtr}

/-- The slot of `t` is empty, or `message` is the message it holds. -/
structure Handover (a : Sys) (t : Tid) : Prop where
  /-- The tokens of `semSend` are one, with those that writes have used. -/
  empty : a.total (.send t) + a.times (Event.uses (.send t)) =
    1 + a.times (Event.earns (.send t))
  /-- The tokens of `semReceive` are those that writes have earned. -/
  full : a.total (.receive t) + a.times (Event.uses (.receive t)) =
    a.times (Event.earns (.receive t))
  taken : a.times (Event.earns (.send t)) =
    (eventLog (Event.receivedBy t) a.history).length + a.taking t
  /-- The slot holds what was written and not received. -/
  slot : ∃ q, BoundedQueue.run 1 [] (transfers t a.history) = some q ∧
    ∀ m ∈ q, (a.thread t).message.text = m

/-- The slots of all threads that live, and none of the others has been used. -/
structure Mailed (a : Sys) : Prop where
  handover : ∀ t, a.Lives t → a.Handover t
  strangers : ∀ t ∉ a.threads, ∀ e ∈ a.history, Event.mailOf t e = false

theorem mailOf_quiet {e : Event} (h : e.isMail = false) (t : Tid) : e.mailOf t = false := by
  cases e with
  | signalled s => cases s <;> first | rfl | cases h
  | _ => first | rfl | cases h

theorem transfer_quiet {e : Event} (h : e.mailOf t = false) : e.transfer t = none := by
  cases e with
  | wrote | received => exact if_neg (of_decide_eq_false h)
  | _ => rfl

theorem receivedBy_quiet {e : Event} (h : e.mailOf t = false) : e.receivedBy t = none := by
  cases e with
  | received => exact if_neg (of_decide_eq_false h)
  | _ => rfl

theorem uses_quiet {e : Event} (h : e.mailOf t = false) :
    e.uses (.send t) = false ∧ e.uses (.receive t) = false := by
  cases e with
  | signalled s =>
    cases s with
    | send => simpa [Event.uses, Event.mailOf] using h
    | _ => simp [Event.uses]
  | wrote => simpa [Event.uses, Event.mailOf] using h
  | _ => simp [Event.uses]

theorem earns_quiet {e : Event} (h : e.mailOf t = false) :
    e.earns (.send t) = false ∧ e.earns (.receive t) = false := by
  cases e with
  | signalled s =>
    cases s with
    | send => simpa [Event.earns, Event.mailOf] using h
    | _ => simp [Event.earns]
  | wrote => simpa [Event.earns, Event.mailOf] using h
  | _ => simp [Event.earns]

/-- In between, the two semaphores of a slot have one token. -/
theorem Handover.totals (h : a.Handover t) {q : List CString}
    (hq : BoundedQueue.run 1 [] (transfers t a.history) = some q) :
    a.total (.send t) + a.total (.receive t) = 1 ∧
      a.total (.receive t) + a.taking t = q.length := by
  have hlen := congrArg List.length (BoundedQueue.run_fifo hq)
  rw [List.nil_append, List.length_append, puts_transfers, gets_transfers] at hlen
  have hempty := h.empty
  have hfull := h.full
  have htaken := h.taken
  simp only [times, length_sentTo, uses_receive] at hempty hfull htaken
  omega

/-- A token in the hands of the running thread. -/
theorem total_pos (h : s ∈ a.stage.inHand a.running) : 1 ≤ a.total s :=
  (List.one_le_count_iff.mpr h).trans inHand_le_total

theorem Handover.slot_step (h : a.Handover t) (hs : a.Step b) (hi : a.Inv) (ho : a.Origins)
    (hm : t ∈ a.threads) :
    (b.times (Event.earns (.send t)) =
      (eventLog (Event.receivedBy t) b.history).length + b.taking t) ∧
    ∃ q, BoundedQueue.run 1 [] (transfers t b.history) = some q ∧
      ∀ m ∈ q, (b.thread t).message.text = m := by
  obtain ⟨q, hq, hmsg⟩ := h.slot
  have htotals := h.totals hq
  have htaken := h.taken
  -- an event that is about another slot
  have hother : ∀ {e}, b.history = e :: a.history → Event.mailOf t e = false →
      b.taking t = a.taking t → (b.thread t).message = (a.thread t).message →
      b.times (Event.earns (.send t)) =
        (eventLog (Event.receivedBy t) b.history).length + b.taking t ∧
      ∃ q, BoundedQueue.run 1 [] (transfers t b.history) = some q ∧
        ∀ m ∈ q, (b.thread t).message.text = m := fun h₁ h₂ h₃ h₄ => by
    rw [times_cons _ h₁, (earns_quiet h₂).1, h₁, eventLog_cons, receivedBy_quiet h₂, h₃, h₄,
      transfers, eventLog_cons, transfer_quiet h₂, Option.toList_none, Option.toList_none,
      List.append_nil, List.append_nil]
    exact ⟨htaken, q, hq, hmsg⟩
  obtain ⟨⟨l, hl, hh⟩, hmessage, htaking⟩ | ⟨u, msg, message, hact, hst, hset, hst', hthread, hh⟩ |
    ⟨hst, hst', hrun, hthread, hh⟩ | ⟨-, hst, hst', -, hthread, hh⟩ := hs.mail hi ho
  · have hf : ∀ {β} {f : Event → Option β}, (∀ e : Event, e.mailOf t = false → f e = none) →
        eventLog f b.history = eventLog f a.history := fun hf => by
      rw [hh, eventLog_append, eventLog_eq_nil fun e he => hf e (mailOf_quiet (hl e he) t),
        List.append_nil]
    have hearns : b.times (Event.earns (.send t)) = a.times (Event.earns (.send t)) := by
      rw [times, hh, List.countP_append, List.countP_eq_zero.mpr fun e he => ?_, Nat.zero_add]
      · rfl
      · simp [(earns_quiet (mailOf_quiet (hl e he) t)).1]
    rw [hearns, hf fun _ => receivedBy_quiet, htaking, transfers, hf fun _ => transfer_quiet,
      hmessage t hm]
    exact ⟨htaken, q, hq, hmsg⟩
  · by_cases hu : u = t
    · subst hu
      -- the token of the empty slot is in the hands of the sender
      have hone := total_pos (a := a) (s := .send u) (by rw [hst]; simp [Stage.inHand])
      have hzero : a.taking u = 0 := taking_of_not (by rw [hst]; rfl)
      have hnil : q = [] := List.eq_nil_of_length_eq_zero (by omega)
      subst hnil
      refine ⟨?_, [(a.string msg).sent], ?_, ?_⟩
      · rw [times_cons _ hh, hh, eventLog_cons, taking_of_not (by rw [hst']; rfl), htaken, hzero]
        simp [Event.earns, Event.receivedBy]
      · rw [hh, transfers, eventLog_cons]
        simp only [Event.transfer, if_true, Option.toList_some]
        exact BoundedQueue.run_put hq Nat.zero_lt_one
      · rw [hthread, Function.update_self]
        simpa using setMsgFrom_text hset
    · refine hother hh (decide_eq_false hu) ?_ ?_
      · exact (taking_of_not (by rw [hst']; rfl)).trans (taking_of_not (by rw [hst]; rfl)).symm
      · rw [hthread, Function.update_of_ne (Ne.symm hu)]
  · by_cases hr : a.running = t
    · subst hr
      refine ⟨?_, q, ?_, ?_⟩
      · rw [times_cons _ hh, hh, eventLog_cons, htaken, taking_of_not (by rw [hst]; rfl)]
        simp [Event.earns, Event.receivedBy, taking, hst', hrun, Stage.isTaking]
      · rw [hh, transfers, eventLog_cons]
        exact (congrArg (BoundedQueue.run 1 []) (List.append_nil _)).trans hq
      · rw [hthread]
        exact hmsg
    · refine hother hh (decide_eq_false hr) ?_ (by rw [hthread])
      simp [taking, hst, hst', hrun, hr]
  · by_cases hr : a.running = t
    · subst hr
      have hone : a.taking a.running = 1 := by simp [taking, hst, Stage.isTaking]
      have hlen : q.length ≤ 1 := BoundedQueue.run_length hq (Nat.zero_le 1)
      obtain ⟨m, rfl⟩ := List.length_eq_one_iff.mp (le_antisymm hlen (by omega))
      have hm := hmsg m List.mem_cons_self
      refine ⟨?_, [], ?_, by simp⟩
      · rw [times_cons _ hh, hh, eventLog_cons, taking_of_not (by rw [hst']; rfl), htaken, hone]
        simp [Event.earns, Event.receivedBy]
      · rw [hh, transfers, eventLog_cons, hm]
        simp only [Event.transfer, if_true, Option.toList_some]
        exact BoundedQueue.run_get hq
    · refine hother hh (decide_eq_false hr) ?_ (by rw [hthread])
      simp [taking, hst', hr, Stage.isTaking]

theorem Handover.step (h : a.Handover t) (hs : a.Step b) (hi : a.Inv) (hg : a.Guarded)
    (ho : a.Origins) (hl : a.Lives t) : b.Handover t := by
  obtain ⟨q, hq, -⟩ := h.slot
  have htotals := h.totals hq
  have htotal : ∀ s ∈ SemPtr.own t, s.inner = true → a.total s ≤ 1 →
      b.total s + b.times (Event.uses s) + a.times (Event.earns s) =
        a.total s + a.times (Event.uses s) + b.times (Event.earns s) := fun s hs' hin hle => by
    refine hs.total hi hg hin (hl.active hi hs') (hl.not_releasing hi ho hs' ?_) ?_
    · rintro u rfl
      cases hin
    · unfold total at hle
      omega
  have hsend := htotal (.send t) (by simp [SemPtr.own]) rfl (by omega)
  have hreceive := htotal (.receive t) (by simp [SemPtr.own]) rfl (by omega)
  have hempty := h.empty
  have hfull := h.full
  obtain ⟨htaken, hslot⟩ := h.slot_step hs hi ho hl.mem
  exact ⟨by omega, by omega, htaken, hslot⟩

/-- The slot of a new thread is empty. -/
theorem Enlisted.handover (h : a.Enlisted b t) (hi : a.Inv) (hn : t ∉ a.threads)
    (hstrange : ∀ e ∈ a.history, Event.mailOf t e = false) : b.Handover t := by
  have htotal : ∀ s ∈ SemPtr.own t, b.total s = s.initial := fun s hs' => by
    rw [total_eq_value h.body fun u hu hw => ?_, h.sem]
    · exact h.value s hs'
    · rw [h.context] at hw
      rcases h.ready u hu with hu | rfl
      · have hu := (hi.places.live u (Or.inl hu)).1
        exact hn ((hi.contexts.args u hu).owner hw hs' hu)
      · rw [h.new] at hw
        cases hw
  have hquiet : ∀ e ∈ b.history, Event.mailOf t e = false := by
    obtain ⟨p, x, hh⟩ := h.history
    rw [hh, List.forall_mem_cons]
    exact ⟨rfl, hstrange⟩
  have hzero : ∀ {p : Event → Bool}, (∀ e, Event.mailOf t e = false → p e = false) →
      b.times p = 0 := fun hp =>
    List.countP_eq_zero.mpr fun e he => by simp [hp e (hquiet e he)]
  refine ⟨?_, ?_, ?_, [], ?_, by simp⟩
  · rw [htotal (.send t) (by simp [SemPtr.own]), hzero fun _ he => (uses_quiet he).1,
      hzero fun _ he => (earns_quiet he).1]
    rfl
  · rw [htotal (.receive t) (by simp [SemPtr.own]), hzero fun _ he => (uses_quiet he).2,
      hzero fun _ he => (earns_quiet he).2]
    rfl
  · rw [hzero fun _ he => (earns_quiet he).1,
      eventLog_eq_nil fun e he => receivedBy_quiet (hquiet e he),
      taking_of_not (by rw [h.body.stage]; rfl)]
    rfl
  · rw [transfers, eventLog_eq_nil fun e he => transfer_quiet (hquiet e he)]
    rfl

theorem Mailed.step (h : a.Mailed) (hi : a.Inv) (hg : a.Guarded) (ho : a.Origins)
    (hs : a.Step b) : b.Mailed := by
  refine ⟨fun t hl => ?_, fun t ht => ?_⟩
  · by_cases hm : t ∈ a.threads
    · have hla := hs.lives hi hm hl
      exact (h.handover t hla).step hs hi hg ho hla
    · exact (hs.enlisted hl.mem hm).handover hi hm (h.strangers t hm)
  · have hm : t ∉ a.threads := fun hm => ht (hs.threads t hm)
    have hrun : a.running ≠ t := fun he => hm (he ▸ hi.alive.running_mem)
    have hcons : ∀ {e}, b.history = e :: a.history → Event.mailOf t e = false →
        ∀ e ∈ b.history, Event.mailOf t e = false := fun h₁ h₂ => by
      rw [h₁, List.forall_mem_cons]
      exact ⟨h₂, h.strangers t hm⟩
    obtain ⟨⟨l, hl, hh⟩, -, -⟩ | ⟨u, msg, message, -, hst, -, -, -, hh⟩ | ⟨-, -, -, -, hh⟩ |
      ⟨-, -, -, -, -, hh⟩ := hs.mail hi ho
    · rw [hh]
      intro e he
      exact (List.mem_append.mp he).elim (fun he => mailOf_quiet (hl e he) t) (h.strangers t hm e)
    · refine hcons hh (decide_eq_false ?_)
      rintro rfl
      exact hm (hi.contexts.past hst).2.1
    · exact hcons hh (decide_eq_false hrun)
    · exact hcons hh (decide_eq_false hrun)

/-- What was received is what somebody sent. -/
def Genuine (a : Sys) : Prop := ∀ t m, .received t m ∈ a.history →
  ∃ u msg, .wrote t u msg ∈ a.history ∧ m = CString.sent msg

theorem Handover.genuine (h : a.Handover t) {m : CString} (hm : .received t m ∈ a.history) :
    ∃ u msg, .wrote t u msg ∈ a.history ∧ m = CString.sent msg := by
  obtain ⟨q, hq, -⟩ := h.slot
  have hfifo := BoundedQueue.run_fifo hq
  rw [List.nil_append, puts_transfers, gets_transfers] at hfifo
  have hmem : m ∈ eventLog (Event.sentTo t) a.history := by
    rw [hfifo]
    refine List.mem_append_left _ (List.mem_filterMap.mpr ⟨_, List.mem_reverse.mpr hm, ?_⟩)
    exact if_pos rfl
  obtain ⟨e, he, hsent⟩ := List.mem_filterMap.mp hmem
  cases e with
  | wrote u v msg =>
    by_cases hu : u = t
    · rw [Event.sentTo, if_pos hu] at hsent
      exact ⟨v, msg, hu ▸ List.mem_reverse.mp he, (Option.some.inj hsent).symm⟩
    · rw [Event.sentTo, if_neg hu] at hsent
      cases hsent
  | _ => cases hsent

theorem Genuine.step (h : a.Genuine) (hi : a.Inv) (ho : a.Origins) (hm : b.Mailed)
    (hs : a.Step b) : b.Genuine := by
  intro t m hmem
  obtain ⟨l, hl⟩ := hs.history
  have hold : .received t m ∈ a.history → ∃ u msg, .wrote t u msg ∈ b.history ∧
      m = CString.sent msg := fun hr => by
    obtain ⟨u, msg, hw, he⟩ := h t m hr
    exact ⟨u, msg, hl ▸ List.mem_append_right _ hw, he⟩
  obtain ⟨⟨l, hl, hh⟩, -, -⟩ | ⟨u, msg, message, -, -, -, -, -, hh⟩ | ⟨-, -, -, -, hh⟩ |
    ⟨hact, hst, hst', hrun, hthread, hh⟩ := hs.mail hi ho
  · rw [hh] at hmem
    exact hold ((List.mem_append.mp hmem).resolve_left fun he => nomatch hl _ he)
  · rw [hh] at hmem
    exact hold ((List.mem_cons.mp hmem).resolve_left nofun)
  · rw [hh] at hmem
    exact hold ((List.mem_cons.mp hmem).resolve_left nofun)
  · by_cases ht : t = a.running
    · -- who returns a message has not finished
      refine (hm.handover t ⟨hs.threads t (ht ▸ hi.alive.running_mem), ?_, fun _ => ?_⟩).genuine hmem
      · rw [hthread, ht]
        exact hi.contexts.unfinished hact (hi.contexts.taking hst)
      · rw [hst']
        rfl
    · rw [hh] at hmem
      refine hold ((List.mem_cons.mp hmem).resolve_left fun he => ?_)
      cases he
      exact ht rfl

end Sys

end Os1Kernel
