/-
# The console buffer is a bounded queue

Whatever threads put and get, and wherever they are stopped, the characters that were stored in a
`CharBuffer` are those that were loaded and then those in its cells from `pos_r` up to `pos_w`.

The invariant is `Sys.Buffered` of `Spec.Buffer`: the free and the full cells are counted by the
tokens of `semPut` and `semGet`, wherever these tokens are, and `mutex` is never waited for, since
interrupts are off between its `wait` and its `signal`.  It says where characters are; that the
thread that calls `getc` or `uGet` is handed the one that was loaded for it is shown along the
handler itself (`kGet_hands`), with the rules of `Kernel.Calls`.
-/
import Os1Kernel.Kernel.Calls
import Os1Kernel.Refine.Boot
import Os1Kernel.Spec.Buffer

namespace Os1Kernel

open Simulation

variable {k k' : Kernel} {i : BufferId} {r t : Tid} (raw : Tid → Message)
  (rawBuffer : BufferId → Vector UInt8 bufferLength)

/-! ## 1. The statement -/

/-- The characters that were stored in the buffer, in this order. -/
def Kernel.written (k : Kernel) (i : BufferId) : List UInt8 := eventLog (Event.writes i) k.history

/-- The characters that were taken from the buffer, in this order. -/
def Kernel.taken (k : Kernel) (i : BufferId) : List UInt8 := eventLog (Event.reads i) k.history

/-- No character was taken behind `l`, and `r` is blocked in its get. -/
def TookNone (r : Tid) (i : BufferId) (l : List UInt8) (k : Kernel) : Prop :=
  k.taken i = l ∧ ((k.tcb r).context = .get i ∨ (k.tcb r).context = .getMutex i)

/-- The step from `k` to `k'` hands `r` the character that it takes from the buffer, or it takes none
and leaves `r` blocked. -/
def Kernel.Gets (k : Kernel) (i : BufferId) (r : Tid) (k' : Kernel) : Prop :=
  (∃ c : UInt8, k'.Returned r (.int c.toNat) ∧ k'.taken i = k.taken i ++ [c]) ∨
    TookNone r i (k.taken i) k'

/-- The buffer is a queue of at most `bufferLength` characters. -/
structure Kernel.IsQueue (k : Kernel) (i : BufferId) (unread : List UInt8) : Prop where
  pos : (k.buffer i).pos_w < bufferLength ∧ (k.buffer i).pos_r < bufferLength
  /-- Every put found a free cell, and every get the oldest unread character. -/
  run : BoundedQueue.run bufferLength [] (operations i k.history) = some unread
  cells : Ring.Holds (k.buffer i).buffer (k.buffer i).pos_r (k.buffer i).pos_w unread
  fifo : k.written i = k.taken i ++ unread
  length : unread.length ≤ bufferLength
  count : unread.length ≠ bufferLength → unread.length =
    ((k.buffer i).pos_w + (bufferLength - (k.buffer i).pos_r)) % bufferLength
  /-- Each thread's characters are stored in the order of its calls. -/
  order : ∀ t, eventLog (Event.storedBy i t) k.history <+: eventLog (Event.puttingBy i t) k.history
  /-- Nobody waits at `mutex`, nor ever did. -/
  mutex : (∀ t, (k.tcb t).blockedAtSem ≠ some (.mutex i)) ∧
    ∀ t n, .blocked (.mutex i) t n ∉ k.history
  /-- A get returns the character that it takes, or it blocks and takes none. -/
  returns : ∀ r act, k.running = some r → k.gets i act = true → k.enabled act = true →
    ∃ k', step k act = some k' ∧ k.Gets i r k'
  /-- Nothing else takes a character. -/
  others : ∀ act k', k.gets i act = false → step k act = some k' → k'.taken i = k.taken i

/-! ## 2. The start -/

theorem consoleReady_events : ∀ e ∈ (Sys.consoleReady raw rawBuffer).history,
    (∃ s v, e = .opened s v) ∨ ∃ t p x, e = .created t p x := by
  rw [consoleReady_history]
  simp [openings, ownValues, consoleValues]

theorem consoleReady_log {β : Type} {f : Event → Option β} (hopened : ∀ s v, f (.opened s v) = none)
    (hcreated : ∀ t p x, f (.created t p x) = none) :
    eventLog f (Sys.consoleReady raw rawBuffer).history = [] := by
  refine eventLog_eq_nil fun e he => ?_
  rcases consoleReady_events raw rawBuffer e he with ⟨s, v, rfl⟩ | ⟨t, p, x, rfl⟩
  · exact hopened s v
  · exact hcreated t p x

theorem consoleReady_times {p : Event → Bool} (hopened : ∀ s v, p (.opened s v) = false)
    (hcreated : ∀ t q x, p (.created t q x) = false) :
    (Sys.consoleReady raw rawBuffer).times p = 0 := by
  refine List.countP_eq_zero.mpr fun e he => ?_
  rcases consoleReady_events raw rawBuffer e he with ⟨s, v, rfl⟩ | ⟨t, q, x, rfl⟩
  · simp [hopened]
  · simp [hcreated]

theorem consoleReady_waits {t : Tid} (ht : t ∈ (Sys.consoleReady raw rawBuffer).threads) :
    ((Sys.consoleReady raw rawBuffer).thread t).context.waitsAt t = none := by
  rw [consoleReady_threads] at ht
  simp only [List.mem_cons, List.not_mem_nil, or_false] at ht
  rcases ht with rfl | rfl
  · rw [consoleReady_master]
    rfl
  · rw [consoleReady_idle]
    rfl

/-- All tokens are where they were put when the semaphore was opened. -/
theorem consoleReady_total (s : SemPtr) : (Sys.consoleReady raw rawBuffer).total s =
    ((Sys.consoleReady raw rawBuffer).sem s).value := by
  have harr : (Sys.consoleReady raw rawBuffer).arriving s = 0 :=
    Sys.arriving_free
      (consoleReady_waits raw rawBuffer (consoleReady_inv raw rawBuffer).alive.running_mem)
  rw [Sys.total, Sys.transit, harr]
  rfl

theorem consoleReady_capacity {s : SemPtr} (hs : s ∈ Sys.consoleSems i) :
    ((Sys.consoleReady raw rawBuffer).sem s).value = s.capacity := by
  have hmem : (s, s.capacity) ∈ consoleValues i := by
    simp only [Sys.consoleSems, List.mem_cons, List.not_mem_nil, or_false] at hs
    rcases hs with rfl | rfl | rfl <;> simp [consoleValues, SemPtr.capacity]
  refine (consoleReady_sem raw rawBuffer (s, s.capacity) ?_).2
  cases i <;> simp [hmem]

theorem consoleReady_buffered : (Sys.consoleReady raw rawBuffer).Buffered where
  origins := ⟨fun s m h => (nomatch h), fun t => List.not_mem_nil⟩
  mutex t ht i := by
    rintro (h | ⟨-, ctx, hn, -⟩)
    · rw [consoleReady_waits raw rawBuffer ht] at h
      cases h
    · cases hn
  quiet i e he := by
    rcases consoleReady_events raw rawBuffer e he with ⟨s, v, rfl⟩ | ⟨t, p, x, rfl⟩ <;> rfl
  tokens i s hs := by
    rw [consoleReady_total, consoleReady_capacity raw rawBuffer hs,
      consoleReady_times raw rawBuffer (fun _ _ => rfl) fun _ _ _ => rfl,
      consoleReady_times raw rawBuffer (fun _ _ => rfl) fun _ _ _ => rfl]
  queue i := by
    refine ⟨[], ?_, ?_⟩
    · rw [operations, consoleReady_log raw rawBuffer (fun _ _ => rfl) fun _ _ _ => rfl]
      rfl
    · cases i <;> exact Ring.Holds.nil (Nat.zero_lt_succ 255)
  order t ht i := by
    have hp : (Sys.consoleReady raw rawBuffer).pending i t = [] := by
      rw [Sys.pending_code rfl, Sys.place_of_stay rfl]
      exact Context.char_of_free (consoleReady_waits raw rawBuffer ht)
    rw [Sys.InOrder, hp, consoleReady_log raw rawBuffer (fun _ _ => rfl) fun _ _ _ => rfl,
      consoleReady_log raw rawBuffer (fun _ _ => rfl) fun _ _ _ => rfl]
    rfl
  strangers t _ i := by
    rw [consoleReady_log raw rawBuffer (fun _ _ => rfl) fun _ _ _ => rfl,
      consoleReady_log raw rawBuffer (fun _ _ => rfl) fun _ _ _ => rfl]
    exact ⟨rfl, rfl⟩

/-! ## 3. What a get returns -/

theorem taken_cons {e : Event} (h : k'.history = e :: k.history) :
    k'.taken i = k.taken i ++ (e.reads i).toList := by
  rw [Kernel.taken, h, eventLog_cons]
  rfl

theorem reads_quiet {e : Event} {l : List UInt8} {history : List Event} (he : e.reads i = none)
    (h : eventLog (Event.reads i) history = l) : eventLog (Event.reads i) (e :: history) = l := by
  rw [eventLog_cons, he, Option.toList_none, List.append_nil, h]

theorem taken_stable (i : BufferId) (l : List UInt8) : Stable fun k => k.taken i = l :=
  history_stable (Q := fun _ history => eventLog (Event.reads i) history = l) fun _ e _ he =>
    reads_quiet (by cases e <;> first | rfl | cases he)

/-- A result is the character that was taken behind `l`. -/
def Took (i : BufferId) (l : List UInt8) (v : Word) (k : Kernel) : Prop :=
  ∃ c : UInt8, v = .int c.toNat ∧ k.taken i = l ++ [c]

/-- The postcondition of a get by `r`, where `l` had been taken before. -/
abbrev Got (r : Tid) (i : BufferId) (l : List UInt8) : Outcome Word → Kernel → Prop :=
  Hands r (Took i l) (TookNone r i l)

theorem getChar_hands {l : List UInt8} (hr : k.running = some r) (hl : k.taken i = l) :
    Partially (CharBuffer.getChar i) k (Got r i l) := by
  unfold CharBuffer.getChar
  refine .bind (Q := fun c k => k.running = some r ∧ k.taken i = l ++ [c]) ?_ fun c k₁ h₁ => ?_
  · unfold CharBuffer.get
    refine .bind_eq (getKernel_apply k) ?_
    dsimp only
    split
    · refine .bind_eq (modify_apply ..) (.bind_eq (getRunning_some hr)
        (.bind_eq (emit_apply ..) (.of_eq rfl ⟨hr, ?_⟩)))
      rw [taken_cons (k := k) rfl, hl, Event.reads, if_pos rfl, Option.toList_some]
    · exact .of_none rfl
  · have hP := (taken_stable i (l ++ [c])).toQuiet.running r
    have hsignal : ∀ p : Option SemPtr, Keeps (fun k => k.running = some r ∧ k.taken i = l ++ [c])
        (follow p >>= fun s => kSemaphore.signal s 1) :=
      fun p => .bind (follow_keeps p) fun _ => signal_keeps hP 1
    refine .bind_eq (getKernel_apply k₁) ?_
    dsimp only
    rw [← bind_assoc]
    refine .bind ((hsignal _).partially h₁) fun _ k₂ h₂ => ?_
    rw [← bind_assoc]
    refine .bind ((hsignal _).partially h₂) fun _ k₃ h₃ => ?_
    exact .of_eq rfl ⟨h₃.1, c, rfl, h₃.2⟩

/-- A wait of a get, and the get behind it. -/
theorem getWait_hands {l : List UInt8} {p : Option SemPtr} {context : Context}
    {m : KernelM (Outcome Word)} {f : Outcome Int → KernelM (Outcome Word)}
    (hr : k.running = some r) (hl : k.taken i = l)
    (hctx : context = .get i ∨ context = .getMutex i)
    (hs : f .switched = pure .switched) (hf : ∀ x, f (.done x) = m)
    (hm : ∀ k', k'.running = some r → k'.taken i = l → Partially m k' (Got r i l)) :
    Partially (do f (← kSemaphore.wait (← follow p) 1 context)) k (Got r i l) := by
  have hP := taken_stable i l
  refine .bind ((follow_keeps p).partially (P := fun k => k.running = some r ∧ k.taken i = l)
    ⟨hr, hl⟩) fun s k₁ h₁ => ?_
  refine behindWait_hands (wait_hands hP h₁.1 h₁.2 1 context) hs (fun k' h => ⟨h.1, ?_⟩)
    fun x k' hr' hl' => hf x ▸ hm k' hr' hl'
  exact hctx.imp h.2.trans h.2.trans

theorem getLocked_hands {l : List UInt8} (hr : k.running = some r) (hl : k.taken i = l) :
    Partially (CharBuffer.getLocked i) k (Got r i l) := by
  unfold CharBuffer.getLocked
  refine .bind_eq (getKernel_apply k) ?_
  exact getWait_hands hr hl (Or.inr rfl) rfl (fun _ => rfl) fun _ => getChar_hands

/-- **A get returns the character that it takes.** -/
theorem kGet_hands {l : List UInt8} (hr : k.running = some r) (hl : k.taken i = l) :
    Partially (CharBuffer.kGet i) k (Got r i l) := by
  unfold CharBuffer.kGet
  refine .bind_eq (getKernel_apply k) ?_
  exact getWait_hands hr hl (Or.inl rfl) rfl (fun _ => rfl) fun _ => getLocked_hands

theorem step_returns {act : Act} (hr : k.running = some r) (hg : k.gets i act = true)
    (hs : step k act = some k') : k.Gets i r k' := by
  have hP := (taken_stable i (k.taken i)).toQuiet
  have hgets : k'.Behind r false (Took i (k.taken i)) (TookNone r i (k.taken i)) →
      k.Gets i r k' := fun h => by
    refine h.imp_left ?_
    rintro ⟨v, k₁, hr₁, ⟨c, rfl, hc⟩, rfl⟩
    exact ⟨c, Kernel.leave_returned hr₁ _, hc⟩
  refine hgets ?_
  cases act with
  | ecall call =>
    cases call with
    | getc =>
      obtain rfl : i = .input := of_decide_eq_true hg
      exact step_partially (.ecall .getc) (leaveWith_hands (kGet_hands hr rfl)) hs
    | _ => cases hg
  | uGet b =>
    obtain rfl : i = b := of_decide_eq_true hg
    exact step_partially (.uGet i) (leaveWith_hands (kGet_hands hr rfl)) hs
  | resume =>
    have hctx : (k.tcb r).context = .get i ∨ (k.tcb r).context = .getMutex i := by
      simpa [Kernel.gets, hr] using hg
    refine resume_partially (Q := fun k' => k'.Behind r false (Took i (k.taken i))
      (TookNone r i (k.taken i))) hr ?_ hs
    rcases hctx with hctx | hctx
    · rw [hctx]
      exact behindEndWait_hands hP hr rfl fun _ => getLocked_hands
    · rw [hctx]
      exact behindEndWait_hands hP hr rfl fun _ => getChar_hands
  | _ => cases hg

/-- **No other step takes a character.** -/
theorem step_takes_none {act : Act} (hg : k.gets i act = false) (hs : step k act = some k') :
    k'.taken i = k.taken i := by
  refine step_history (Q := fun _ history => eventLog (Event.reads i) history = k.taken i)
    (fun _ e _ hnote => reads_quiet ?_) rfl hs
  cases e with
  | loaded b t c =>
    refine if_neg ?_
    rintro rfl
    cases hg.symm.trans hnote
  | _ => rfl

/-! ## 4. The result -/

/-- **A console buffer is a bounded queue**, with any threads that put and get, in every reachable
state.  The array between the two positions holds what was written and not taken, oldest first, and
what `kGet`, `uGet` and `getc` return is what they take. -/
theorem charBuffer_isQueue (h : Reachable k) (i : BufferId) : ∃ unread, k.IsQueue i unread := by
  obtain ⟨raw, rawBuffer, a, hsteps, hsim, hidle⟩ := h.shows
  have hb := hsteps.invariant (fun hi hb hs => hb.step hi hs) (consoleReady_inv raw rawBuffer)
    (consoleReady_buffered raw rawBuffer)
  have hi := hsim.inv
  have hbuf : k.buffer = a.buffer := congrArg Core.buffer hsim.rep.core
  have hhist : k.history = a.history := congrArg Core.history hsim.rep.core
  obtain ⟨unread, hrun, hring⟩ := hb.queue i
  refine ⟨unread, ?_⟩
  constructor
  · rw [hbuf]
    exact ⟨hring.write_lt, hring.read⟩
  · rwa [hhist]
  · rwa [hbuf]
  · have hfifo := BoundedQueue.run_fifo hrun
    rw [List.nil_append, puts_operations, gets_operations] at hfifo
    rw [Kernel.written, Kernel.taken, hhist, hfifo]
  · exact hring.length
  · rw [hbuf]
    exact hring.length_eq
  · intro t
    rw [hhist]
    by_cases ht : t ∈ a.threads
    · exact ⟨a.pending i t, (hb.order t ht i).symm⟩
    · rw [(hb.strangers t ht i).2]
      exact List.nil_prefix
  · refine ⟨fun t hblocked => ?_, fun t n hm => ?_⟩
    · have hblocked' : (a.thread t).blockedAtSem = some (.mutex i) :=
        (congrArg Thread.blockedAtSem (hsim.rep.thread_apply t)).symm.trans hblocked
      have ht := (hi.places.live t (Or.inr (Or.inl (by rw [hblocked']; simp)))).1
      exact hb.mutex t ht i (Sys.Wants.of_place (hi.waits.waitsAt t _ hblocked').context)
    · rw [hhist] at hm
      simpa [Event.blocks] using hb.quiet i _ hm
  · intro r act hr hg he
    obtain ⟨k', -, hs, -⟩ := step_does ⟨hsim, hidle⟩ he
    exact ⟨k', hs, step_returns hr hg hs⟩
  · exact fun act k' => step_takes_none

/-- `main` waits for a character, the thread of the input puts one, and `main` has not taken it
yet. -/
def charArrives : List Act := [.ecall .getc, .resume, .uPut .input 65]

theorem charBuffer_isQueue_run : ∃ k unread, runFromZero charArrives = some k ∧
    k.IsQueue .input unread := by
  obtain ⟨k₀, k, hboot, hrun, hk⟩ := exists_run charArrives (by decide +kernel)
  obtain ⟨unread, hq⟩ := charBuffer_isQueue ⟨_, _, k₀, charArrives, hboot, hrun⟩ .input
  exact ⟨k, unread, hk, hq⟩

end Os1Kernel
