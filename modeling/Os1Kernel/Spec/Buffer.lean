/-
# The buffers of the console

What was stored in a `CharBuffer` and loaded from it is a run of a bounded queue, and the array
with its two positions holds that queue.

The positions are moved without a test.  That they never cross is a matter of the three semaphores:
`semPut` and `semGet` count the free and the used cells, with what is in transit between them and
the running threads (`Buffered.tokens`), and a thread stores or loads only with a token in its
hands.  So where a character is stored the queue is not full, and where one is loaded it is not
empty, by counting (`Buffered.queue_step`); the array then follows by `Lib.Ring`.

`mutex` has its token whenever it is asked for it: nobody is switched from while holding it,
because all of `kPut` and `kGet` runs with interrupts off and the one wait in between, at `mutex`
itself, never blocks.  The proof shows this, and does not assume it: whoever asks for the token
finds it in the value, because by the count it can be nowhere else (`Buffered.free`).

`InOrder` is about the order of the characters of one thread: what it was called with is what it
has stored and the one character that it still has in its hands, which is in its context or in the
stage of the handler (`pending`).
-/
import Os1Kernel.Lib.BoundedQueue
import Os1Kernel.Lib.Ring
import Os1Kernel.Spec.Tokens

namespace Os1Kernel

/-! ## 1. What the events say

Everything about a buffer is read off the events, by functions that pick what concerns it.  The
operations form a word that `BoundedQueue.run` plays over; the characters written and read are its
puts and gets. -/

/-- What `f` picks from the events, the first one first. -/
def eventLog {β : Type} (f : Event → Option β) (l : List Event) : List β := l.reverse.filterMap f

theorem eventLog_cons {β : Type} (f : Event → Option β) (e : Event) (l : List Event) :
    eventLog f (e :: l) = eventLog f l ++ (f e).toList := by
  rw [eventLog, List.reverse_cons, List.filterMap_append]
  cases he : f e <;> simp [eventLog, he]

theorem eventLog_append {β : Type} (f : Event → Option β) (l l' : List Event) :
    eventLog f (l ++ l') = eventLog f l' ++ eventLog f l := by
  simp [eventLog]

theorem eventLog_eq_nil {β : Type} {f : Event → Option β} {l : List Event}
    (h : ∀ e ∈ l, f e = none) : eventLog f l = [] :=
  List.filterMap_eq_nil_iff.mpr fun e he => h e (List.mem_reverse.mp he)

/-- The operation on the buffer `i`. -/
def Event.op (i : BufferId) : Event → Option (BoundedQueue.Op UInt8)
  | .stored j _ c => if j = i then some (.put c) else none
  | .loaded j _ c => if j = i then some (.get c) else none
  | _ => none

def operations (i : BufferId) (l : List Event) : List (BoundedQueue.Op UInt8) :=
  eventLog (Event.op i) l

/-- The character that is stored in the buffer `i`. -/
def Event.writes (i : BufferId) : Event → Option UInt8
  | .stored j _ c => if j = i then some c else none
  | _ => none

/-- The character that is loaded from the buffer `i`. -/
def Event.reads (i : BufferId) : Event → Option UInt8
  | .loaded j _ c => if j = i then some c else none
  | _ => none

/-- `t` called `kPut` or `uPut`. -/
def Event.puttingBy (i : BufferId) (t : Tid) : Event → Option UInt8
  | .putting j u c => if j = i ∧ u = t then some c else none
  | _ => none

/-- `t` stored a character. -/
def Event.storedBy (i : BufferId) (t : Tid) : Event → Option UInt8
  | .stored j u c => if j = i ∧ u = t then some c else none
  | _ => none

/-- Something happens to a buffer. -/
def Event.isChar : Event → Bool
  | .putting .. | .stored .. | .loaded .. => true
  | _ => false

/-- A thread began to wait at `s`. -/
def Event.blocks (s : SemPtr) : Event → Bool
  | .blocked s' _ _ => s' = s
  | _ => false

/-- The character that a thread in this context is going to store. -/
def Context.char (i : BufferId) : Context → List UInt8
  | .put j c | .putMutex j c => if j = i then [c] else []
  | _ => []

def Stage.char (i : BufferId) : Stage → List UInt8
  | .putting j c => if j = i then [c] else []
  | .past ctx => ctx.char i
  | _ => []

/-- The tokens that a semaphore of a buffer is opened with. -/
def SemPtr.capacity : SemPtr → Nat
  | .put _ => bufferLength
  | .mutex _ => 1
  | _ => 0

theorem Context.char_of_free {ctx : Context} {t : Tid} {i : BufferId} (h : ctx.waitsAt t = none) :
    ctx.char i = [] := by
  cases ctx <;> first | rfl | cases h

theorem Context.char_of_plain {ctx : Context} {i : BufferId} (h : ctx.plain = true) :
    ctx.char i = [] := by
  cases ctx <;> first | rfl | cases h

theorem SemPtr.inner_of_console {s : SemPtr} {i : BufferId} (h : s ∈ Sys.consoleSems i) :
    s.inner = true := by
  simp only [Sys.consoleSems, List.mem_cons, List.not_mem_nil, or_false] at h
  rcases h with rfl | rfl | rfl <;> rfl

section Counts

open BoundedQueue

variable (i : BufferId) (l : List Event)

theorem puts_operations : puts (operations i l) = eventLog (Event.writes i) l := by
  rw [puts, operations, eventLog, List.filterMap_filterMap, eventLog]
  refine List.filterMap_congr fun e _ => ?_
  cases e with
  | stored j _ c | loaded j _ c => by_cases hj : j = i <;> simp [Event.op, Event.writes, Op.in?, hj]
  | _ => rfl

theorem gets_operations : gets (operations i l) = eventLog (Event.reads i) l := by
  rw [gets, operations, eventLog, List.filterMap_filterMap, eventLog]
  refine List.filterMap_congr fun e _ => ?_
  cases e with
  | stored j _ c | loaded j _ c => by_cases hj : j = i <;> simp [Event.op, Event.reads, Op.out?, hj]
  | _ => rfl

theorem length_eventLog {β : Type} (f : Event → Option β) :
    (eventLog f l).length = l.countP fun e => (f e).isSome := by
  rw [eventLog, List.length_filterMap_eq_countP, List.countP_reverse]

/-- Every character that is stored uses a token of `semPut` and earns one for `semGet`. -/
theorem length_writes : l.countP (Event.uses (.put i)) = (eventLog (Event.writes i) l).length ∧
    l.countP (Event.earns (.get i)) = (eventLog (Event.writes i) l).length := by
  rw [length_eventLog]
  constructor <;> refine List.countP_congr fun e _ => ?_
  · cases e with
    | stored j => by_cases hj : j = i <;> simp [Event.uses, Event.writes, hj]
    | signalled s => cases s <;> simp [Event.uses, Event.writes]
    | _ => simp [Event.uses, Event.writes]
  · cases e with
    | stored j => by_cases hj : j = i <;> simp [Event.earns, Event.writes, hj]
    | signalled s => cases s <;> simp [Event.earns, Event.writes]
    | _ => simp [Event.earns, Event.writes]

/-- And every character that is loaded the other way round. -/
theorem length_reads : l.countP (Event.uses (.get i)) = (eventLog (Event.reads i) l).length ∧
    l.countP (Event.earns (.put i)) = (eventLog (Event.reads i) l).length := by
  rw [length_eventLog]
  constructor <;> refine List.countP_congr fun e _ => ?_
  · cases e with
    | loaded j => by_cases hj : j = i <;> simp [Event.uses, Event.reads, hj]
    | signalled s => cases s <;> simp [Event.uses, Event.reads]
    | _ => simp [Event.uses, Event.reads]
  · cases e with
    | loaded j => by_cases hj : j = i <;> simp [Event.earns, Event.reads, hj]
    | signalled s => cases s <;> simp [Event.earns, Event.reads]
    | _ => simp [Event.earns, Event.reads]

/-- Whoever holds `mutex` gives it back. -/
theorem uses_mutex : l.countP (Event.uses (.mutex i)) = l.countP (Event.earns (.mutex i)) := by
  refine List.countP_congr fun e _ => ?_
  cases e with
  | signalled s => cases s <;> simp [Event.uses, Event.earns]
  | _ => simp [Event.uses, Event.earns]

end Counts

namespace Sys

variable {a b : Sys} {t : Tid} {s : SemPtr} {i : BufferId}

/-! ## 2. Who waits at a semaphore, and who has waited there

A thread that has been released from a semaphore has the context of its wait until it goes on.
`Wants` does not tell it from one that is still blocked. -/

/-- `t` waits at `s`, or did so before it went on. -/
def Wants (a : Sys) (t : Tid) (s : SemPtr) : Prop :=
  (a.thread t).context.waitsAt t = some s ∨
    t = a.running ∧ ∃ ctx, a.activity.next = some ctx ∧ ctx.waitsAt t = some s

theorem Wants.of_place (h : (a.place t).waitsAt t = some s) : a.Wants t s := by
  unfold place at h
  split at h
  · next ht =>
    cases hn : a.activity.next with
    | none =>
      rw [hn] at h
      exact Or.inl h
    | some ctx =>
      rw [hn] at h
      exact Or.inr ⟨ht, ctx, hn, h⟩
  · exact Or.inl h

/-- A thread comes to a semaphore by a wait that does not find its tokens. -/
theorem Step.wants (hs : a.Step b) (ht : t ∈ b.threads) (h : b.Wants t s) : a.Wants t s ∨
    t = a.running ∧ ∃ m ctx, a.WaitCall s m ctx ∧ (a.sem s).value < m := by
  have hkeep : (b.thread t).context = (a.thread t).context →
      (b.thread t).context.waitsAt t = some s → a.Wants t s := fun he h => Or.inl (he ▸ h)
  -- unless the running thread is about to leave, it is the context that says it
  have hcontext : b.activity.next = none → (b.thread t).context.waitsAt t = some s := fun hn => by
    rcases h with h | ⟨-, ctx, hn', -⟩
    · exact h
    · rw [hn] at hn'
      cases hn'
  have hsame : b.activity.next = none → (b.thread t).context = (a.thread t).context →
      a.Wants t s := fun hn he => hkeep he (hcontext hn)
  have hnone : ∀ {act}, a.activity = act → act.next = none → a.activity.next = none :=
    fun h₁ h₂ => h₁ ▸ h₂
  cases hs with
  | @preempt hbody ctx hc =>
    have hw := hcontext (hnone hbody.activity rfl)
    refine Or.inl (hkeep (congrArg Thread.context (Function.update_of_ne ?_ ..)) hw)
    rintro rfl
    rw [choose_context] at hw
    rcases hc with rfl | rfl <;> cases hw
  | @switch ctx hl =>
    have hw := hcontext rfl
    by_cases htr : t = a.running
    · subst htr
      refine Or.inl (Or.inr ⟨rfl, ctx, by rw [hl]; rfl, ?_⟩)
      rwa [choose_context] at hw
    · exact Or.inl (hkeep (congrArg Thread.context (Function.update_of_ne htr ..)) hw)
  | sleep | retire =>
    rcases h with h | ⟨-, ctx, hn, h⟩
    · exact Or.inl (hkeep (by first | rfl | exact update_field Thread.context (by rfl) t) h)
    · cases hn
      cases h
  | fallAsleep hl =>
    refine Or.inl (h.imp id fun ⟨hr, ctx, hn, hc⟩ => ⟨hr, ctx, ?_, hc⟩)
    cases hn
    rw [hl]
    rfl
  | leave hn =>
    have hw := hcontext (hnone hn rfl)
    refine Or.inl (hkeep (congrArg Thread.context (Function.update_of_ne ?_ ..)) hw)
    rintro rfl
    simp [setThread, Context.waitsAt] at hw
  | @block s' m ctx _ hw ha hv =>
    rcases h with h | ⟨hr, ctx', hn, h⟩
    · exact Or.inl (hkeep (update_field Thread.context (by rfl) t) h)
    · cases hn
      obtain rfl : t = a.running := hr
      obtain rfl := Option.some.inj (hw.waitsAt.symm.trans h)
      exact Or.inr ⟨rfl, m, _, hw, hv⟩
  | @init hc u hnu =>
    have hne : t ≠ u := fun he => hnu (he ▸ ht)
    exact Or.inl (hsame (hnone hc.activity rfl) (congrArg Thread.context
      (Function.update_of_ne hne ..)))
  | acquire hc | tick hc | dead hc | tryFail hc | signal hc | skip hc | putting hc | allocate hc
  | store hc | openSem hc | enlist hc | finish hc | close hc =>
    refine Or.inl (hsame (by first | rfl | exact hnone hc.activity rfl) ?_)
    first | rfl | exact update_field Thread.context (by rfl) t
  | _ hc =>
    refine Or.inl (hsame (by first | rfl | exact hnone hc rfl) ?_)
    first | rfl | exact update_field Thread.context (by rfl) t

/-! ## 3. Characters that are being put

Between the call of `kPut` and the store of its character a thread may wait twice, and carries the
character in its context meanwhile. -/

/-- The character in the hands of `t`. -/
def pending (a : Sys) (i : BufferId) (t : Tid) : List UInt8 :=
  if t = a.running ∧ a.stage.isCode = false then a.stage.char i else (a.place t).char i

theorem pending_stage (h : a.stage.isCode = false) : a.pending i a.running = a.stage.char i :=
  if_pos ⟨rfl, h⟩

theorem pending_code (h : a.stage = .code) : a.pending i t = (a.place t).char i :=
  if_neg fun hc => by
    rw [h] at hc
    cases hc.2

theorem pending_of_ne (h : t ≠ a.running) : a.pending i t = (a.thread t).context.char i := by
  rw [pending, if_neg fun hc => h hc.1, place_of_ne h]

theorem pending_body (h : a.AtBody) : a.pending i a.running = [] := by
  rw [pending_code h.stage, place_of_stay (by rw [h.activity]; rfl), h.context]
  rfl

/-- The other threads keep theirs. -/
theorem Step.pending_of_ne (hs : a.Step b) (hi : a.Inv) (ht : t ∈ b.threads) (hne : t ≠ a.running) :
    b.pending i t = a.pending i t := by
  have hctx := hs.context ht hne
  have hsame : b.running = a.running → b.pending i t = a.pending i t := fun hr => by
    rw [Sys.pending_of_ne hne, Sys.pending_of_ne (hr ▸ hne), hctx]
  have hchosen : b.stage = .code → b.activity = .none → b.pending i t = a.pending i t :=
    fun hst hact => by
    rw [Sys.pending_of_ne hne, pending_code hst, place_of_stay (by rw [hact]; rfl), hctx]
  cases hs with
  | preempt h => exact hchosen h.stage h.activity
  | switch h => exact hchosen (hi.contexts.leaving h).1 rfl
  | _ => exact hsame rfl

theorem pending_same (hstage : b.stage = a.stage) (hrun : b.running = a.running)
    (hnext : b.activity.next = a.activity.next)
    (hctx : (b.thread a.running).context = (a.thread a.running).context) :
    b.pending i a.running = a.pending i a.running := by
  simp only [Sys.pending, Sys.place, hstage, hrun, hnext, hctx]

/-- A wait takes the character along. -/
theorem WaitCall.pending {m : Nat} {ctx : Context} (h : a.WaitCall s m ctx) :
    a.pending i a.running = ctx.char i := by
  cases h with
  | semWait h | join h | joinAll h | timedJoinAll h | send h | receive h | get h =>
    exact pending_body h.toAtBody
  | put _ hs | putMutex _ hs | getMutex _ hs =>
    rw [pending_stage (by rw [hs]; rfl), hs]
    rfl

theorem Leaves.pending (h : a.Leaves) (ha : a.activity = .none) : a.pending i a.running = [] := by
  cases h with
  | code hs hc =>
    rw [pending_code hs, place_of_stay (by rw [ha]; rfl)]
    exact Context.char_of_free hc
  | past hs hc =>
    rw [pending_stage (by rw [hs]; rfl), hs]
    exact Context.char_of_plain hc
  | done hs =>
    rw [pending_stage (by rw [hs]; rfl), hs]
    rfl

theorem SignalCall.pending {stage : Stage} (h : a.SignalCall s stage) (hstage : b.stage = stage)
    (hrun : b.running = a.running) (hnext : b.activity.next = none)
    (hctx : (b.thread a.running).context = (a.thread a.running).context) :
    b.pending i a.running = a.pending i a.running := by
  cases h with
  | semSignal h =>
    refine pending_same (hstage.trans h.stage.symm) hrun ?_ hctx
    rw [hnext, h.activity]
    rfl
  | owed _ hs | slot _ hs =>
    rw [pending_stage (by rw [hs]; rfl), ← hrun, pending_stage (by rw [hstage]; rfl), hs, hstage]
    rfl

/-- What a step does to the buffers. -/
theorem Step.console (hs : a.Step b) :
    (b.buffer = a.buffer ∧ ∃ l, (∀ e ∈ l, Event.isChar e = false) ∧ b.history = l ++ a.history) ∨
    (∃ j c, a.AtBody ∧ b.running = a.running ∧ b.buffer = a.buffer ∧ b.stage = .putting j c ∧
      b.history = .putting j a.running c :: a.history) ∨
    (∃ j c, a.stage = .past (.putMutex j c) ∧ b.running = a.running ∧
      b.stage = .owes [.mutex j, .get j] ∧ ∃ hw : (a.buffer j).pos_w < bufferLength,
        b.buffer = Function.update a.buffer j
          { a.buffer j with
            buffer := (a.buffer j).buffer.set (a.buffer j).pos_w c
            pos_w := ((a.buffer j).pos_w + 1) % bufferLength } ∧
        b.history = .stored j a.running c :: a.history) ∨
    ∃ j, a.stage = .past (.getMutex j) ∧ b.running = a.running ∧
      b.stage = .owes [.mutex j, .put j] ∧ ∃ hr : (a.buffer j).pos_r < bufferLength,
        b.buffer = Function.update a.buffer j
          { a.buffer j with pos_r := ((a.buffer j).pos_r + 1) % bufferLength } ∧
        b.history = .loaded j a.running (a.buffer j).buffer[(a.buffer j).pos_r] :: a.history := by
  cases hs with
  | putting h j c => exact Or.inr (Or.inl ⟨j, c, h.toAtBody, rfl, rfl, rfl, rfl⟩)
  | @putChar _ j c hs hw => exact Or.inr (Or.inr (Or.inl ⟨j, c, hs, rfl, rfl, hw, rfl, rfl⟩))
  | @getChar _ j hs hr => exact Or.inr (Or.inr (Or.inr ⟨j, hs, rfl, rfl, hr, rfl, rfl⟩))
  | timeoutZero =>
    exact Or.inl ⟨rfl, [.returned a.running TIMEOUT, .expired _ a.running], by simp [Event.isChar],
      rfl⟩
  | @release _ m _ t =>
    exact Or.inl ⟨rfl, [m.event _ t], by cases m <;> simp [UnblockManner.event, Event.isChar], rfl⟩
  | _ =>
    refine Or.inl ⟨rfl, ?_⟩
    first
    | exact ⟨[], by simp, rfl⟩
    | exact ⟨[_], by simp [Event.isChar], rfl⟩

/-- Unless a character is put or stored, the running thread keeps what it has in its hands. -/
theorem Step.pending_running (hs : a.Step b) (hi : a.Inv)
    (hput : ∀ j c, b.history ≠ .putting j a.running c :: a.history)
    (hstored : ∀ j c, b.history ≠ .stored j a.running c :: a.history) :
    b.pending i a.running = a.pending i a.running := by
  have hfrom : a.stage.isCode = false → a.pending i a.running = a.stage.char i := pending_stage
  have hpast : b.running = a.running → b.stage.isCode = false →
      b.pending i a.running = b.stage.char i := fun hr hc => hr ▸ pending_stage hc
  have hstay : b.stage = .code → b.activity.isLeaving = false →
      b.pending i a.running = (b.thread a.running).context.char i := fun hst hl => by
    rw [pending_code hst, place_of_stay hl]
  have hleave : ∀ {ctx o}, b.running = a.running → b.stage = .code → b.activity = .leaving ctx o →
      b.pending i a.running = ctx.char i := fun hr hst hl => by
    rw [← hr, pending_code hst, place_leaving hl]
  cases hs with
  | tick h | close h => exact pending_same rfl rfl (by rw [h.activity]; rfl) rfl
  | allocate | store | wake | tryFail | enlist | expire | openSem | release =>
    exact pending_same rfl rfl rfl (by first | rfl | exact update_field Thread.context (by rfl) _)
  | tickEnd h | signalAll h | fallAsleep h | grant h | part h | handEnd h | releaseEnd h =>
    exact pending_same rfl rfl (by rw [h]; rfl)
      (by first | rfl | exact update_field Thread.context (by rfl) _)
  | @init h t hnt =>
    have hne : a.running ≠ t := fun he => hnt (he ▸ hi.alive.running_mem)
    exact pending_same rfl rfl rfl (congrArg Thread.context (Function.update_of_ne hne ..))
  | @preempt h ctx hc =>
    rw [pending_body h, hstay h.stage (not_leaving_of h.activity rfl)]
    exact (congrArg _ (choose_context ctx)).trans (by rcases hc with rfl | rfl <;> rfl)
  | @switch ctx h =>
    have hst := (hi.contexts.leaving h).1
    rw [pending_code hst, place_leaving h, hstay hst rfl]
    exact congrArg _ (choose_context ctx)
  | sleep h =>
    rw [pending_body h.toAtBody]
    exact hleave rfl h.stage rfl
  | leave h hl =>
    rw [hl.pending h, hstay rfl (not_leaving_of h rfl)]
    simp [setThread, Context.char]
  | acquire h | dead h => exact (hpast rfl rfl).trans h.pending.symm
  | block h => exact (hleave rfl rfl rfl).trans h.pending.symm
  | timeoutZero h =>
    rw [pending_code (hi.contexts.leaving h).1, place_leaving h]
    exact hpast rfl rfl
  | endWait h hs =>
    rw [pending_code hs, place_of_stay (not_leaving_of h rfl)]
    exact hpast rfl rfl
  | signal h | skip h => exact h.pending rfl rfl (by first | rfl | rw [h.activity]; rfl) rfl
  | write _ hs | received _ hs | getChar _ hs | noParent _ hs | childLeaves _ hs
  | childSignals _ hs =>
    rw [hfrom (by rw [hs]; rfl), hs]
    exact hpast rfl rfl
  | finish h =>
    rw [pending_body h]
    exact hpast rfl rfl
  | retire _ hs =>
    rw [hfrom (by rw [hs]; rfl), hs]
    exact hleave rfl rfl rfl
  | putting => exact absurd rfl (hput _ _)
  | putChar => exact absurd rfl (hstored _ _)

/-- What a thread has put is what it has stored and what it has in its hands. -/
def InOrder (a : Sys) (i : BufferId) (t : Tid) : Prop :=
  eventLog (Event.puttingBy i t) a.history =
    eventLog (Event.storedBy i t) a.history ++ a.pending i t

theorem eventLog_quiet {β : Type} {f : Event → Option β} {l l' : List Event}
    (hf : ∀ e, e.isChar = false → f e = none) (hl : ∀ e ∈ l, Event.isChar e = false) :
    eventLog f (l ++ l') = eventLog f l' := by
  rw [eventLog_append, eventLog_eq_nil fun e he => hf e (hl e he), List.append_nil]

theorem puttingBy_quiet (e : Event) (h : e.isChar = false) : e.puttingBy i t = none := by
  cases e <;> first | rfl | cases h

theorem storedBy_quiet (e : Event) (h : e.isChar = false) : e.storedBy i t = none := by
  cases e <;> first | rfl | cases h

theorem op_quiet (e : Event) (h : e.isChar = false) : e.op i = none := by
  cases e <;> first | rfl | cases h

/-- Only the running thread puts and stores. -/
theorem Step.logs_of_ne (hs : a.Step b) (hne : t ≠ a.running) :
    eventLog (Event.puttingBy i t) b.history = eventLog (Event.puttingBy i t) a.history ∧
      eventLog (Event.storedBy i t) b.history = eventLog (Event.storedBy i t) a.history := by
  have hne := Ne.symm hne
  obtain ⟨-, l, hl, hh⟩ | ⟨j, c, -, -, -, -, hh⟩ | ⟨j, c, -, -, -, _, -, hh⟩ |
    ⟨j, -, -, -, _, -, hh⟩ := hs.console
  · rw [hh, eventLog_quiet puttingBy_quiet hl, eventLog_quiet storedBy_quiet hl]
    exact ⟨rfl, rfl⟩
  all_goals
    rw [hh, eventLog_cons, eventLog_cons]
    simp [Event.puttingBy, Event.storedBy, hne]

theorem InOrder.step (h : a.InOrder i t) (hs : a.Step b) (hi : a.Inv) (ht : t ∈ a.threads) :
    b.InOrder i t := by
  by_cases htr : t = a.running
  · subst htr
    obtain ⟨-, l, hl, hh⟩ | ⟨j, c, hbody, hr, -, hst, hh⟩ | ⟨j, c, hst, hr, hst', _, -, hh⟩ |
      ⟨j, -, -, -, _, -, hh⟩ := hs.console
    · have hne : ∀ e : Event, e.isChar = true → b.history ≠ e :: a.history := fun e he h => by
        have hle : l = [e] := List.append_cancel_right (hh.symm.trans h)
        rw [hl e (by rw [hle]; exact List.mem_singleton_self e)] at he
        cases he
      rw [InOrder, hs.pending_running hi (fun j c => hne _ rfl) (fun j c => hne _ rfl), hh,
        eventLog_quiet puttingBy_quiet hl, eventLog_quiet storedBy_quiet hl]
      exact h
    · have hp : b.pending i a.running = if j = i then [c] else [] := by
        rw [← hr, pending_stage (by rw [hst]; rfl), hst]
        rfl
      rw [InOrder, pending_body hbody, List.append_nil] at h
      rw [InOrder, hp, hh, eventLog_cons, eventLog_cons, h]
      by_cases hj : j = i <;> simp [Event.puttingBy, Event.storedBy, hj]
    · have hp : b.pending i a.running = [] := by
        rw [← hr, pending_stage (by rw [hst']; rfl), hst']
        rfl
      rw [InOrder, pending_stage (by rw [hst]; rfl), hst] at h
      rw [InOrder, hp, hh, eventLog_cons, eventLog_cons, h]
      by_cases hj : j = i <;>
        simp [Event.puttingBy, Event.storedBy, Stage.char, Context.char, hj]
    · rw [InOrder, hs.pending_running hi (by simp [hh]) (by simp [hh]), hh, eventLog_cons,
        eventLog_cons]
      simpa [Event.puttingBy, Event.storedBy, InOrder] using h
  · rw [InOrder, hs.pending_of_ne hi (hs.threads t ht) htr, (hs.logs_of_ne htr).1,
      (hs.logs_of_ne htr).2]
    exact h

/-! ## 4. The invariant -/

/-- What holds of the two buffers: every token is somewhere, the array holds what was stored and
not loaded, and the characters of each thread come in the order of its calls. -/
structure Buffered (a : Sys) : Prop where
  origins : a.Origins
  mutex : ∀ t ∈ a.threads, ∀ i, ¬ a.Wants t (.mutex i)
  /-- Nobody has ever waited for a mutex. -/
  quiet : ∀ i, ∀ e ∈ a.history, Event.blocks (.mutex i) e = false
  /-- The tokens of a buffer are as many as at the start, wherever they are. -/
  tokens : ∀ i, ∀ s ∈ consoleSems i,
    a.total s + a.times (Event.uses s) = s.capacity + a.times (Event.earns s)
  /-- The array holds what was stored and not loaded. -/
  queue : ∀ i, ∃ q, BoundedQueue.run bufferLength [] (operations i a.history) = some q ∧
    Ring.Holds (a.buffer i).buffer (a.buffer i).pos_r (a.buffer i).pos_w q
  order : ∀ t ∈ a.threads, ∀ i, a.InOrder i t
  strangers : ∀ t ∉ a.threads, ∀ i, eventLog (Event.puttingBy i t) a.history = [] ∧
    eventLog (Event.storedBy i t) a.history = []

/-- `semPut` counts the free cells, `semGet` the used ones, and there is one token of `mutex`. -/
theorem Buffered.totals (h : a.Buffered) {q : List UInt8}
    (hq : BoundedQueue.run bufferLength [] (operations i a.history) = some q) :
    a.total (.put i) + q.length = bufferLength ∧ a.total (.get i) = q.length ∧
      a.total (.mutex i) = 1 := by
  have hput := h.tokens i (.put i) (by simp [consoleSems])
  have hget := h.tokens i (.get i) (by simp [consoleSems])
  have hmutex := h.tokens i (.mutex i) (by simp [consoleSems])
  have hlen : (BoundedQueue.puts (operations i a.history)).length =
      (BoundedQueue.gets (operations i a.history)).length + q.length := by
    have := congrArg List.length (BoundedQueue.run_fifo hq)
    rwa [List.nil_append, List.length_append] at this
  rw [puts_operations, gets_operations] at hlen
  simp only [times, SemPtr.capacity, length_writes, length_reads, uses_mutex] at hput hget hmutex
  omega

/-- Whoever asks for `mutex` finds its token: nobody else has it in his hands or is on the way. -/
theorem Buffered.free (h : a.Buffered) (hi : a.Inv) {m : Nat} {ctx : Context}
    (hw : a.WaitCall (.mutex i) m ctx) : m ≤ (a.sem (.mutex i)).value := by
  obtain ⟨q, hq, -⟩ := h.queue i
  have htotal := (h.totals hq).2.2
  have hway : a.onTheWay (.mutex i) = 0 := by
    refine List.countP_eq_zero.mpr fun t ht => ?_
    have := h.mutex t (hi.places.live t (Or.inl ht)).1 i
    simp only [bound, decide_eq_true_eq]
    exact fun he => this (Or.inl he)
  have hhanded : a.activity.handed (.mutex i) = 0 := by
    rw [hw.activity]
    rfl
  have hhand : (a.stage.inHand a.running).count (.mutex i) = 0 := by
    cases hw with
    | putMutex _ hs | getMutex _ hs =>
      rw [hs]
      simp [Stage.inHand]
  have howed : a.owed (.mutex i) = 0 := by
    rw [owed, hw.owing]
    rfl
  rw [total, stock, transit, hway, hw.arriving, hhanded, hhand, howed] at htotal
  rw [hw.unit rfl]
  omega

theorem Buffered.guarded (h : a.Buffered) (hi : a.Inv) : a.Guarded where
  mutex t ht i he := h.mutex t ht i (Wants.of_place he)
  free _ _ _ hw := h.free hi hw
  owes := h.origins.owes

/-- A thread blocks where it does not find its tokens. -/
theorem Step.blocks (hs : a.Step b) (s : SemPtr) :
    (∃ l, (∀ e ∈ l, Event.blocks s e = false) ∧ b.history = l ++ a.history) ∨
      ∃ m ctx, a.WaitCall s m ctx ∧ (a.sem s).value < m := by
  cases hs with
  | @block s' m ctx _ hw _ hv =>
    by_cases hs : s' = s
    · subst hs
      exact Or.inr ⟨m, ctx, hw, hv⟩
    · exact Or.inl ⟨[_], by simp [Event.blocks, hs], rfl⟩
  | timeoutZero =>
    exact Or.inl ⟨[.returned a.running TIMEOUT, .expired _ a.running], by simp [Event.blocks], rfl⟩
  | @release _ m _ t =>
    exact Or.inl ⟨[m.event _ t], by cases m <;> simp [UnblockManner.event, Event.blocks], rfl⟩
  | _ =>
    refine Or.inl ?_
    first
    | exact ⟨[], by simp, rfl⟩
    | exact ⟨[_], by simp [Event.blocks], rfl⟩

/-- A thread that is new waits nowhere. -/
theorem Step.new_context (hs : a.Step b) (ht : t ∈ b.threads) (hn : t ∉ a.threads) :
    (a.thread t).context = .threadWrapper := by
  cases hs with
  | enlist hc hnew hlt hroom hx =>
    rcases List.mem_append.mp ht with ht | ht
    · exact absurd ht hn
    · obtain rfl := List.mem_singleton.mp ht
      exact hx.1
  | _ => exact absurd ht hn

theorem inHand_le_total : (a.stage.inHand a.running).count s ≤ a.total s := by
  unfold total transit
  omega

/-- A token of `semPut` in the hands of the running thread stands for a free cell, one of `semGet`
for a used one. -/
theorem Buffered.queue_step (h : a.Buffered) (hs : a.Step b) :
    ∃ q, BoundedQueue.run bufferLength [] (operations i b.history) = some q ∧
      Ring.Holds (b.buffer i).buffer (b.buffer i).pos_r (b.buffer i).pos_w q := by
  obtain ⟨q, hq, hring⟩ := h.queue i
  obtain ⟨hput, hget, -⟩ := h.totals hq
  have hsame : b.buffer i = a.buffer i → operations i b.history = operations i a.history →
      ∃ q, BoundedQueue.run bufferLength [] (operations i b.history) = some q ∧
        Ring.Holds (b.buffer i).buffer (b.buffer i).pos_r (b.buffer i).pos_w q := fun h₁ h₂ => by
    rw [h₁, h₂]
    exact ⟨q, hq, hring⟩
  obtain ⟨hb, l, hl, hh⟩ | ⟨j, c, -, -, hb, -, hh⟩ | ⟨j, c, hst, -, -, hw, hb, hh⟩ |
    ⟨j, hst, -, -, hr, hb, hh⟩ := hs.console
  · exact hsame (congrFun hb i) (by rw [hh, operations, eventLog_quiet op_quiet hl]; rfl)
  · refine hsame (congrFun hb i) ?_
    rw [hh, operations, eventLog_cons]
    exact List.append_nil _
  · by_cases hj : j = i
    · subst hj
      have hone : 1 ≤ a.total (.put j) := by
        refine le_trans ?_ inHand_le_total
        rw [hst]
        simp [Stage.inHand]
      have hlt : q.length < bufferLength := by omega
      refine ⟨q ++ [c], ?_, ?_⟩
      · rw [hh, operations, eventLog_cons]
        simp only [Event.op, if_true, Option.toList_some]
        exact BoundedQueue.run_put hq hlt
      · rw [hb, Function.update_self]
        exact hring.push hlt hw
    · refine hsame (by rw [hb, Function.update_of_ne (Ne.symm hj)]) ?_
      rw [hh, operations, eventLog_cons]
      simp [Event.op, hj, operations]
  · by_cases hj : j = i
    · subst hj
      have hone : 1 ≤ a.total (.get j) := by
        refine le_trans ?_ inHand_le_total
        rw [hst]
        simp [Stage.inHand]
      obtain ⟨c, q, rfl⟩ := List.exists_cons_of_length_pos (hget ▸ hone)
      obtain ⟨hc, hring⟩ := hring.pop
      rw [Vector.getElem?_eq_getElem hr, Option.some.injEq] at hc
      refine ⟨q, ?_, ?_⟩
      · rw [hh, operations, eventLog_cons, hc]
        simp only [Event.op, if_true, Option.toList_some]
        exact BoundedQueue.run_get hq
      · rw [hb, Function.update_self]
        exact hring
    · refine hsame (by rw [hb, Function.update_of_ne (Ne.symm hj)]) ?_
      rw [hh, operations, eventLog_cons]
      simp [Event.op, hj, operations]

theorem Buffered.tokens_step (h : a.Buffered) (hi : a.Inv) (hs : a.Step b)
    (hm : s ∈ consoleSems i) :
    b.total s + b.times (Event.uses s) = s.capacity + b.times (Event.earns s) := by
  obtain ⟨q, hq, hring⟩ := h.queue i
  have hlen := hring.length
  have htotals := h.totals hq
  have hlt : a.stock s < 2 ^ 64 := by
    have hle : a.stock s ≤ a.total s := by
      unfold total
      omega
    have h256 : a.total s ≤ 256 := by
      simp only [consoleSems, List.mem_cons, List.not_mem_nil, or_false] at hm
      unfold bufferLength at htotals hlen
      rcases hm with rfl | rfl | rfl <;> omega
    omega
  have hrel : ∀ m, a.activity ≠ .releasing s m := fun m he => by
    obtain ⟨hopened, hown⟩ := not_console hm
    rcases h.origins.regular s m he with rfl | ⟨t, rfl⟩
    · rcases hi.alive.releasing s he with ⟨n, hn⟩ | ⟨t, ht, -⟩
      · exact hopened n hn
      · exact hown t ht
    · exact hown t (by simp [SemPtr.own])
  have hstep := hs.total hi (h.guarded hi) (SemPtr.inner_of_console hm) (hi.console.active i s hm)
    hrel hlt
  have := h.tokens i s hm
  omega

theorem Buffered.step (h : a.Buffered) (hi : a.Inv) (hs : a.Step b) : b.Buffered where
  origins := h.origins.step hs
  mutex t ht i hw := by
    rcases hs.wants ht hw with hw | ⟨-, m, ctx, hcall, hv⟩
    · by_cases ha : t ∈ a.threads
      · exact h.mutex t ha i hw
      · rcases hw with hw | ⟨rfl, -⟩
        · rw [hs.new_context ht ha] at hw
          cases hw
        · exact ha hi.alive.running_mem
    · exact absurd (h.free hi hcall) (Nat.not_le.mpr hv)
  quiet i e he := by
    rcases hs.blocks (.mutex i) with ⟨l, hl, hh⟩ | ⟨m, ctx, hcall, hv⟩
    · rw [hh] at he
      exact (List.mem_append.mp he).elim (hl e) (h.quiet i e)
    · exact absurd (h.free hi hcall) (Nat.not_le.mpr hv)
  tokens i s hm := h.tokens_step hi hs hm
  queue i := h.queue_step hs
  order t ht i := by
    by_cases ha : t ∈ a.threads
    · exact (h.order t ha i).step hs hi ha
    · have hne : t ≠ a.running := fun he => ha (he ▸ hi.alive.running_mem)
      obtain ⟨hput, hstored⟩ := h.strangers t ha i
      rw [InOrder, (hs.logs_of_ne hne).1, (hs.logs_of_ne hne).2, hs.pending_of_ne hi ht hne,
        pending_of_ne hne, hs.new_context ht ha, hput, hstored]
      rfl
  strangers t ht i := by
    have ha : t ∉ a.threads := fun ha => ht (hs.threads t ha)
    have hne : t ≠ a.running := fun he => ha (he ▸ hi.alive.running_mem)
    rw [(hs.logs_of_ne hne).1, (hs.logs_of_ne hne).2]
    exact h.strangers t ha i

end Sys

end Os1Kernel
