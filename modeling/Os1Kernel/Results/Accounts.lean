/-
# Nobody waits for what is there

Between two steps of the machine the tokens of a semaphore that only the kernel uses are in its
value, or with threads that have been released from it and have not gone on yet.  So a thread that
is blocked in `getc`, in `putc`, in `send` or in `receive` does not overlook the character, the
cell, the slot or the message it waits for: whatever of these there is belongs to a thread that is
ready or has just been chosen.

* The accounts are those of `Spec.Tokens`, where each token is in a value, with a thread on the
  way, or owed by a handler that is between its wait and its signal.  Between two steps no handler
  is, so the last kind vanishes.
* A semaphore at which somebody is blocked has the value zero (`Shows.value_of_blocked`), which
  leaves the threads on the way.
-/
import Os1Kernel.Results.Messages

namespace Os1Kernel

variable {k : Kernel} {a : Sys} {i : BufferId} {t : Tid} {s : SemPtr}

/-! ## 1. The statement -/

/-- The threads that have been released from `s`, or were not blocked there, and that will go on
behind the wait: they are ready, or run and have not gone on yet. -/
def Kernel.onTheWay (k : Kernel) (s : SemPtr) : Nat :=
  (k.running.toList ++ k.readyList).countP fun t => (k.tcb t).context.waitsAt t = some s

/-- The cells and the unread characters of a buffer are in the values of its semaphores or belong to
threads on the way. -/
structure Kernel.BufferAccounts (k : Kernel) (i : BufferId) (unread : Nat) : Prop where
  written : (k.written i).length = (k.taken i).length + unread
  chars : (k.sem (.get i)).value + k.onTheWay (.get i) = unread
  cells : (k.sem (.put i)).value + k.onTheWay (.put i) + unread = bufferLength
  mutex : (k.sem (.mutex i)).value = 1
  /-- While a thread is blocked in `getc`, every character is one that another thread will load. -/
  getters : k.blockedList (.get i) ≠ [] → k.onTheWay (.get i) = unread
  /-- While one is blocked in `putc`, every free cell is one that another thread will fill. -/
  putters : k.blockedList (.put i) ≠ [] → k.onTheWay (.put i) + unread = bufferLength

/-- The slot of a thread is in the values of its semaphores or belongs to a thread on the way. -/
structure Kernel.SlotAccounts (k : Kernel) (t : Tid) : Prop where
  slot : (k.sem (.send t)).value + k.onTheWay (.send t) +
    ((k.sem (.receive t)).value + k.onTheWay (.receive t)) = 1
  /-- While the thread is blocked in `receive`, the slot is empty, for the next sender or for one on
  the way. -/
  receiver : k.blockedList (.receive t) ≠ [] →
    (k.sem (.send t)).value + k.onTheWay (.send t) = 1
  /-- While a sender is blocked, the slot is full, or another sender is on the way to it. -/
  senders : k.blockedList (.send t) ≠ [] →
    (k.sem (.receive t)).value + k.onTheWay (.receive t) = 1 ∨ k.onTheWay (.send t) = 1

/-! ## 2. Tokens at rest -/

theorem Shows.onTheWay_eq (h : Shows k a) (s : SemPtr) :
    k.onTheWay s = a.onTheWay s + a.arriving s := by
  have hcontext : ∀ t, (k.tcb t).context = (a.thread t).context :=
    fun t => congrArg Thread.context (h.rep.thread_apply t)
  have harriving : a.arriving s = if a.bound s a.running = true then 1 else 0 := by
    rw [Sys.arriving, h.idle.stage, h.idle.activity]
    simp [Stage.isCode, Activity.isLeaving]
  rw [Kernel.onTheWay, h.rep.running, h.readyList_eq, Option.toList_some, List.singleton_append,
    List.countP_cons, harriving, Sys.onTheWay, Sys.bound, hcontext]
  refine congrArg (· + _) (List.countP_congr fun t _ => ?_)
  rw [Sys.bound, hcontext]

/-- Where the tokens are when the kernel is not at work. -/
theorem Shows.total_eq (h : Shows k a) (s : SemPtr) :
    (k.sem s).value + k.onTheWay s = a.total s := by
  rw [h.onTheWay_eq, Sys.total, Sys.stock, Sys.transit, Sys.owed, h.idle.activity, h.idle.stage,
    show (k.sem s).value = (a.sem s).value from congrArg Sem.value (h.rep.sem_apply s)]
  simp [Activity.handed, Stage.inHand, Stage.owing]

theorem Shows.value_of_blocked (h : Shows k a) (hne : k.blockedList s ≠ []) :
    (k.sem s).value = 0 := by
  obtain ⟨t, ht⟩ := List.exists_mem_of_ne_nil _ hne
  rw [h.blockedList_eq] at ht
  have hb := (h.inv.places.mem_queue t s).mp ht
  rw [show (k.sem s).value = (a.sem s).value from congrArg Sem.value (h.rep.sem_apply s)]
  exact (h.inv.waits.waitsAt t s hb).value

/-- Only a thread itself waits at its `semReceive`. -/
theorem waitsAt_receive {u : Tid} {ctx : Context} (hargs : a.ArgsOk u ctx)
    (h : ctx.waitsAt u = some (.receive t)) : u = t := by
  cases ctx with
  | semWait s =>
    obtain ⟨⟨n, rfl⟩, -⟩ := hargs
    cases h
  | receive =>
    cases h
    rfl
  | _ => cases h

/-- Whoever is blocked in `receive` is not on the way. -/
theorem Shows.onTheWay_receive (h : Shows k a) (hne : k.blockedList (.receive t) ≠ []) :
    k.onTheWay (.receive t) = 0 := by
  have hl : a.activity.isLeaving = false := by rw [h.idle.activity]; rfl
  obtain ⟨u, hu⟩ := List.exists_mem_of_ne_nil _ hne
  rw [h.blockedList_eq] at hu
  have hb := (h.inv.places.mem_queue u _).mp hu
  have hmem := (h.inv.places.live u (Or.inr (Or.inl (by rw [hb]; exact Option.some_ne_none _)))).1
  have hcontext := (h.inv.waits.waitsAt u _ hb).context
  rw [Sys.place_of_stay hl] at hcontext
  obtain rfl := waitsAt_receive (h.inv.contexts.args u hmem) hcontext
  refine List.countP_eq_zero.mpr fun v hv => ?_
  rw [h.rep.running, h.readyList_eq, Option.toList_some, List.singleton_append, List.mem_cons] at hv
  rw [show (k.tcb v).context = (a.thread v).context from
    congrArg Thread.context (h.rep.thread_apply v), decide_eq_true_eq]
  intro he
  -- it would be the blocked thread itself, which neither runs nor is ready
  rcases hv with rfl | hv
  · obtain rfl := waitsAt_receive (h.inv.contexts.args _ h.inv.alive.running_mem) he
    rw [(h.inv.places.running_free hl).1] at hb
    cases hb
  · obtain rfl := waitsAt_receive (h.inv.contexts.args v (h.inv.places.live v (Or.inl hv)).1) he
    rw [(h.inv.places.ready_awake v hv).1] at hb
    cases hb

/-! ## 3. The results -/

/-- **No wake-up is lost in a buffer.**  In every reachable state the characters and the free cells
of a buffer are in the values of its semaphores or with threads that have been released and have
not gone on yet; in particular, while a thread is blocked in `getc` the value of `semGet` is zero,
and all characters that are there belong to others who are on their way. -/
theorem charBuffer_accounts (h : Reachable k) (i : BufferId) :
    ∃ unread, k.BufferAccounts i unread := by
  obtain ⟨raw, rawBuffer, a, hsteps, hshow⟩ := h.shows
  have hb := hsteps.invariant (fun hi hb hs => Sys.Buffered.step hb hi hs)
    (consoleReady_inv raw rawBuffer) (consoleReady_buffered raw rawBuffer)
  have hhist : k.history = a.history := congrArg Core.history hshow.rep.core
  obtain ⟨q, hq, -⟩ := hb.queue i
  obtain ⟨hput, hget, hmutex⟩ := hb.totals hq
  have hfifo := congrArg List.length (BoundedQueue.run_fifo hq)
  rw [List.nil_append, puts_operations, gets_operations, List.length_append] at hfifo
  rw [← hshow.total_eq] at hput hget hmutex
  -- nobody waits at `mutex`, so nobody is on the way from it
  have hway : k.onTheWay (.mutex i) = 0 := by
    refine List.countP_eq_zero.mpr fun t ht => ?_
    rw [hshow.rep.running, hshow.readyList_eq, Option.toList_some, List.singleton_append,
      List.mem_cons] at ht
    have hmem : t ∈ a.threads := by
      rcases ht with rfl | ht
      · exact hshow.inv.alive.running_mem
      · exact (hshow.inv.places.live t (Or.inl ht)).1
    rw [show (k.tcb t).context = (a.thread t).context from
      congrArg Thread.context (hshow.rep.thread_apply t), decide_eq_true_eq]
    exact fun he => hb.mutex t hmem i (Or.inl he)
  refine ⟨q.length, ?_, hget, hput, ?_, fun hne => ?_, fun hne => ?_⟩
  · rw [Kernel.written, Kernel.taken, hhist, hfifo]
  · rwa [hway] at hmutex
  · have := hshow.value_of_blocked hne
    omega
  · have := hshow.value_of_blocked hne
    omega

/-- The thread of the input waits for a character that nobody has put yet. -/
def getsNothing : List Act := [.ecall .threadDispatch, .resume, .uGet .output]

theorem charBuffer_accounts_run : ∃ k unread, runFromZero getsNothing = some k ∧
    k.blockedList (.get .output) = [2] ∧ k.BufferAccounts .output unread := by
  obtain ⟨k₀, k, hboot, hrun, hk⟩ := exists_run getsNothing (by decide +kernel)
  have he : (runFromZero getsNothing).any (fun k => k.blockedList (.get .output) = [2]) = true := by
    decide +kernel
  rw [hk] at he
  obtain ⟨unread, h⟩ := charBuffer_accounts ⟨_, _, k₀, _, hboot, hrun⟩ .output
  exact ⟨k, unread, hk, of_decide_eq_true he, h⟩

/-- **No wake-up is lost at a slot.**  In particular the receiver and a sender do not wait for each
other: between them there is a sender on the way. -/
theorem message_accounts (h : Reachable k) (ht : t ∈ k.tcbList)
    (hf : (k.tcb t).finished = false) : k.SlotAccounts t := by
  obtain ⟨raw, rawBuffer, a, hsteps, hshow⟩ := h.shows
  have hmail := (hsteps.invariant (P := fun a => a.Buffered ∧ a.Mailed)
    (fun hi hb hs => ⟨hb.1.step hi hs, hb.2.step hi (hb.1.guarded hi) hb.1.origins hs⟩)
    (consoleReady_inv raw rawBuffer)
    ⟨consoleReady_buffered raw rawBuffer, consoleReady_mailed raw rawBuffer⟩).2
  have hlives : a.Lives t := by
    refine ⟨hshow.tcbList_eq ▸ ht, ?_, fun _ => ?_⟩
    · exact (congrArg Thread.finished (hshow.rep.thread_apply t)).symm.trans hf
    · rw [hshow.idle.stage]
      rfl
  have hhand := hmail.handover t hlives
  have hempty := hhand.empty
  have hfull := hhand.full
  rw [← hshow.total_eq] at hempty hfull
  simp only [Sys.times, length_sentTo, uses_receive] at hempty hfull
  have hslot : (k.sem (.send t)).value + k.onTheWay (.send t) +
      ((k.sem (.receive t)).value + k.onTheWay (.receive t)) = 1 := by omega
  refine ⟨hslot, fun hne => ?_, fun hne => ?_⟩
  · have hvalue := hshow.value_of_blocked hne
    have hway := hshow.onTheWay_receive hne
    omega
  · have := hshow.value_of_blocked hne
    omega

/-- `main` sends to a thread that it has created, which receives; the message is taken, and the next
`receive` blocks. -/
def receivesTwice : List Act :=
  [.ecall (.threadCreate true false (.ok (zeroMessage 4))), .ecall (.send 4 (.memory 0)),
    .ecall .threadDispatch] ++
  consoleSlices ++ [.resume, .ecall .receive, .ecall .receive]

theorem message_accounts_run : ∃ k, runFromZero receivesTwice = some k ∧
    k.blockedList (.receive 4) = [4] ∧ k.SlotAccounts 4 := by
  obtain ⟨k₀, k, hboot, hrun, hk⟩ := exists_run receivesTwice (by decide +kernel)
  have he : (runFromZero receivesTwice).any (fun k => k.blockedList (.receive 4) = [4] ∧
    4 ∈ k.tcbList ∧ (k.tcb 4).finished = false) = true := by decide +kernel
  rw [hk] at he
  obtain ⟨hblocked, ht, hf⟩ := of_decide_eq_true he
  exact ⟨k, hk, hblocked, message_accounts ⟨_, _, k₀, _, hboot, hrun⟩ ht hf⟩

end Os1Kernel
