/-
# Where the tokens are

A token that was given to a semaphore is in its value, in the hands of a `signal` that is at work,
or it was issued: to a thread that found it there, or to one that waited for it.  An issued token
of a semaphore of the kernel's own use is on the way to a thread that has not run yet, or in the
hands of the running one, until it is used; and a handler that has used one token still owes
another.

So there are five places a token of a semaphore can be in, and one number for each:

* `stock`, the value and what `signal` has left to hand over;
* `onTheWay`, the threads that were granted one and are ready;
* `arriving`, the running thread if it has been chosen with one and has not come further;
* `Stage.inHand`, what the handler at work holds;
* `owed`, what it still has to give.

`Step.stock`, `Step.transit` and `Step.owed` say what one step does to each of these places, by the
events that it notes, and `Step.total` adds them up: their sum grows by what the step earns and
shrinks by what it uses (`Event.earns`, `Event.uses`), and nothing else changes it.  This is a
balance for one step, for every semaphore of the kernel's own use at once; that the sum is constant
for a buffer, or one for a slot of a message, is read off it in `Buffer.lean` and `Message.lean`.
-/
import Os1Kernel.Spec.Invariant

namespace Os1Kernel

/-! ## 1. The places of a token

A token that was given is in the stock of the semaphore, in transit with a thread that it was
issued to, or owed by a handler that has used one and has not signalled yet. -/

/-- The semaphores that only the kernel uses. -/
def SemPtr.inner : SemPtr → Bool
  | .send _ | .receive _ | .put _ | .get _ | .mutex _ => true
  | .opened _ | .join _ | .joinAll _ => false

theorem SemPtr.inner_unit {s : SemPtr} (h : s.inner = true) : s.isJoinAll = false := by
  cases s <;> first | rfl | cases h

/-- What `signal` has left to hand over. -/
def Activity.handed (s : SemPtr) : Activity → Nat
  | .handing s' n => if s' = s then n else 0
  | _ => 0

/-- The tokens in the hands of the running thread `r`. -/
def Stage.inHand (r : Tid) : Stage → List SemPtr
  | .past (.put b _) => [.put b]
  | .past (.putMutex b _) => [.mutex b, .put b]
  | .past (.get b) => [.get b]
  | .past (.getMutex b) => [.mutex b, .get b]
  | .past (.send t _) => [.send t]
  | .past .receive => [.receive r]
  | _ => []

def Stage.owing : Stage → List SemPtr
  | .owes l => l
  | _ => []

def Stage.isCode : Stage → Bool
  | .code => true
  | _ => false

/-- A token is taken from the semaphore. -/
def Event.issues (s : SemPtr) : Event → Bool
  | .acquired s' _ _ | .granted s' _ => s' = s
  | _ => false

/-- A token is given to the semaphore. -/
def Event.signals (s : SemPtr) : Event → Bool
  | .signalled s' _ => s' = s
  | _ => false

/-- The handler at work has used a token of the semaphore. -/
def Event.uses (s : SemPtr) : Event → Bool
  | .stored b _ _ => .put b = s ∨ .mutex b = s
  | .loaded b _ _ => .get b = s ∨ .mutex b = s
  | .wrote t _ _ => .send t = s
  | .signalled (.send t) _ => .receive t = s
  | _ => false

/-- The handler at work owes the semaphore a token. -/
def Event.earns (s : SemPtr) : Event → Bool
  | .stored b _ _ => .mutex b = s ∨ .get b = s
  | .loaded b _ _ => .mutex b = s ∨ .put b = s
  | .wrote t _ _ => .receive t = s
  | .signalled (.send t) _ => .send t = s
  | _ => false

namespace Sys

variable {a b : Sys} {t : Tid} {s : SemPtr}

section Places

variable (a : Sys) (s : SemPtr)

/-- The tokens that are not issued. -/
def stock : Nat := (a.sem s).value + a.activity.handed s

/-- The thread goes on behind a wait at `s`. -/
def bound (t : Tid) : Bool := (a.thread t).context.waitsAt t = some s

/-- The tokens issued to threads that are ready. -/
def onTheWay : Nat := a.ready.countP (a.bound s)

/-- The running thread has been chosen, and not come further. -/
def arriving : Nat :=
  if a.stage.isCode = true ∧ a.activity.isLeaving = false ∧ a.bound s a.running = true then 1 else 0

/-- The tokens issued and not used. -/
def transit : Nat := a.onTheWay s + a.arriving s + (a.stage.inHand a.running).count s

def owed : Nat := a.stage.owing.count s

/-- How often this has happened. -/
def times (p : Event → Bool) : Nat := a.history.countP p

end Places

/-! ## 2. The stock

For a semaphore that was opened by a system call this is all there is to count: what was signalled
is in the stock or was issued.  The only place where the code adds is the end of `signal`, and it
adds modulo 2 to the 64th; hence the bounds. -/

theorem times_cons (p : Event → Bool) {e : Event} (h : b.history = e :: a.history) :
    b.times p = a.times p + if p e then 1 else 0 := by
  rw [times, h, List.countP_cons]
  rfl

/-- What a step does to the stock of a semaphore that is asked for single tokens, which is alive,
and whose waiters are not being released. -/
theorem Step.stock (hs : a.Step b) (hi : a.Inv) (hu : s.isJoinAll = false)
    (hact : (a.sem s).active = true) (hrel : ∀ m, a.activity ≠ .releasing s m)
    (hlt : a.stock s < 2 ^ 64) :
    b.stock s + b.times (Event.issues s) + a.times (Event.signals s) =
      a.stock s + a.times (Event.issues s) + b.times (Event.signals s) := by
  have hevent : ∀ e, b.history = e :: a.history →
      b.stock s + (if Event.issues s e then 1 else 0) =
        a.stock s + (if Event.signals s e then 1 else 0) →
      b.stock s + b.times (Event.issues s) + a.times (Event.signals s) =
        a.stock s + a.times (Event.issues s) + b.times (Event.signals s) := fun e he h => by
    rw [times_cons _ he, times_cons _ he]
    omega
  have hsame : (b.sem s).value = (a.sem s).value → b.activity.handed s = a.activity.handed s →
      b.times (Event.issues s) = a.times (Event.issues s) →
      b.times (Event.signals s) = a.times (Event.signals s) →
      b.stock s + b.times (Event.issues s) + a.times (Event.signals s) =
        a.stock s + a.times (Event.issues s) + b.times (Event.signals s) := fun h₁ h₂ h₃ h₄ => by
    unfold Sys.stock
    rw [h₁, h₂, h₃, h₄]
  have htokens : ∀ t, (a.thread t).blockedAtSem = some s → (a.thread t).tokensNeeded = 1 :=
    fun t hb => (hi.waits.waitsAt t s hb).unit hu
  cases hs with
  | @acquire s' m _ hw ha hv =>
    refine hevent _ rfl ?_
    by_cases he : s' = s
    · subst he
      obtain rfl := hw.unit hu
      simp only [Sys.stock, setSem, setThread, emit, Function.update_self, Event.issues,
        Event.signals, decide_true, if_true, Bool.false_eq_true, if_false]
      omega
    · simp [Sys.stock, setSem, setThread, emit, Function.update_of_ne (Ne.symm he), Event.issues,
        Event.signals, he]
  | @block s' m _ _ hw ha hv =>
    refine hsame ?_ (by rw [hw.activity]; rfl) rfl rfl
    by_cases he : s' = s
    · subst he
      obtain rfl := hw.unit hu
      simp only [setSem, enqueue, emit, Function.update_self]
      omega
    · simp [setSem, enqueue, emit, Function.update_of_ne (Ne.symm he)]
  | @signal s' _ hc =>
    refine hevent _ rfl ?_
    have ha := hc.activity
    by_cases he : s' = s
    · simp [Sys.stock, emit, Activity.handed, Event.issues, Event.signals, ha, he]
    · simp [Sys.stock, emit, Activity.handed, Event.issues, Event.signals, ha, he]
  | @childSignals ha _ p =>
    have he : SemPtr.joinAll p ≠ s := by
      rintro rfl
      cases hu
    refine hsame rfl ?_ rfl ?_
    · simp [ha, Activity.handed, he]
    · rw [times_cons (a := a) _ rfl]
      simp [Event.signals, he]
  | @grant s' n h t rest hq hn ht =>
    refine hevent _ rfl ?_
    by_cases he : s' = s
    · subst he
      have := htokens t ((hi.places.mem_queue t s').mp (by simp [hq]))
      simp only [Sys.stock, emit, unblock, Activity.handed, Event.issues, Event.signals, h, this,
        decide_true, if_true, Bool.false_eq_true, if_false]
      omega
    · simp [Sys.stock, emit, unblock, Activity.handed, Event.issues, Event.signals, h, he]
  | @part s' n h t rest hq hn ht =>
    refine hsame rfl ?_ rfl rfl
    by_cases he : s' = s
    · subst he
      have := htokens t ((hi.places.mem_queue t s').mp (by simp [hq]))
      omega
    · simp [Activity.handed, h, he]
  | @handEnd s' n h hq =>
    by_cases he : s' = s
    · subst he
      simp only [Sys.stock, h, Activity.handed, if_true] at hlt
      have hv : (Function.update a.sem s' { a.sem s' with
          value := u64 ((a.sem s').value + n) } s').value = (a.sem s').value + n := by
        rw [Function.update_self, u64_of_lt hlt]
      simp only [Sys.stock, setSem, Activity.handed, hv, h, if_true, times]
      omega
    · refine hsame ?_ ?_ rfl rfl
      · exact congrArg Sem.value (Function.update_of_ne (Ne.symm he) ..)
      · simp [Activity.handed, h, he]
  | @release s' m h t rest hq =>
    have he : s' ≠ s := fun he => hrel m (he ▸ h)
    refine hsame rfl rfl ?_ ?_ <;> rw [times_cons (a := a) _ rfl] <;> cases m <;>
      simp [UnblockManner.event, Event.issues, Event.signals, he]
  | @releaseEnd s' m h hq =>
    have he : s' ≠ s := fun he => hrel m (he ▸ h)
    exact hsame (congrArg Sem.value (Function.update_of_ne (Ne.symm he) ..)) (by rw [h]; rfl) rfl rfl
  | @openSem h s' v hv hn =>
    have he : s ≠ s' := fun he =>
      Step.openSem_fresh hi.names hn (he ▸ hi.alive.active_mem s hact)
    exact hsame (congrArg Sem.value (Function.update_of_ne he ..)) rfl rfl rfl
  | tick h => exact hsame rfl (by rw [h.activity]; rfl) rfl rfl
  | tickEnd h => exact hsame rfl (by rw [h]; rfl) rfl rfl
  | expire h | wake h => exact hsame rfl rfl rfl rfl
  | switch h | fallAsleep h | timeoutZero h => exact hsame rfl (by rw [h]; rfl) rfl rfl
  | sleep h | close h => exact hsame rfl (by rw [h.activity]; rfl) rfl rfl
  | retire h | signalAll h => exact hsame rfl (by rw [h]; rfl) rfl rfl
  | _ => exact hsame rfl rfl rfl rfl

/-! ## 3. Tokens in transit

A token is in transit from the step that issues it to the step that uses it.  In between its thread
may be ready, be chosen, or be at work; each way from one place to the next is one lemma. -/

/-- Only a thread that finishes releases waiters without closing the semaphore, and no handler
owes a token to the slot of a message. -/
structure Origins (a : Sys) : Prop where
  regular : ∀ s m, a.activity = .releasing s m → m = .onClose ∨ ∃ t, s = .join t
  owes : ∀ t, .send t ∉ a.stage.owing

theorem Origins.step (h : a.Origins) (hs : a.Step b) : b.Origins := by
  have hpop : ∀ {s' l}, a.stage = .owes (s' :: l) → ∀ t, .send t ∉ l := fun hst t hm =>
    h.owes t (by rw [hst]; exact List.mem_cons_of_mem _ hm)
  cases hs with
  | close h' =>
    refine ⟨fun s m hm => ?_, h.owes⟩
    cases hm
    exact Or.inl rfl
  | signalAll h' =>
    refine ⟨fun s m hm => ?_, h.owes⟩
    cases hm
    exact Or.inr ⟨_, rfl⟩
  | signal hc | skip hc =>
    refine ⟨fun s m hm => ?_, ?_⟩
    · first | cases hm | exact h.regular s m hm
    · cases hc with
      | semSignal | slot => exact fun t => List.not_mem_nil
      | owed _ hst => exact hpop hst
  | write | received | putChar | getChar =>
    refine ⟨h.regular, fun t => ?_⟩
    simp [Stage.owing]
  | _ =>
    refine ⟨fun s m hm => ?_, ?_⟩
    · first | exact h.regular s m hm | cases hm
    · first | exact h.owes | exact fun t => List.not_mem_nil

theorem arriving_body (h : a.AtBody) : a.arriving s = 0 := by
  simp [arriving, bound, h.context, Context.waitsAt]

theorem arriving_free (h : (a.thread a.running).context.waitsAt a.running = none) :
    a.arriving s = 0 := by
  simp [arriving, bound, h]

theorem arriving_stage (h : a.stage.isCode = false) : a.arriving s = 0 := by
  simp [arriving, h]

theorem arriving_leaving (h : a.activity.isLeaving = true) : a.arriving s = 0 := by
  simp [arriving, h]

theorem arriving_same (hstage : b.stage = a.stage)
    (hact : b.activity.isLeaving = a.activity.isLeaving) (hrun : b.running = a.running)
    (hctx : (b.thread a.running).context = (a.thread a.running).context) :
    b.arriving s = a.arriving s := by
  simp [arriving, bound, hstage, hact, hrun, hctx]

/-- A wait begins in the thread's own code or in the hands of a token of another semaphore. -/
theorem WaitCall.arriving {m : Nat} {s' : SemPtr} {ctx : Context} (h : a.WaitCall s' m ctx) :
    a.arriving s = 0 := by
  cases h with
  | semWait h | join h | joinAll h | timedJoinAll h | send h | receive h | get h =>
    exact arriving_body h.toAtBody
  | put _ hs | putMutex _ hs | getMutex _ hs => exact arriving_stage (by rw [hs]; rfl)

/-- A wait that finds its token has it in its hands, if it is one of the kernel's own. -/
theorem WaitCall.inHand {m : Nat} {s' : SemPtr} {ctx : Context} (h : a.WaitCall s' m ctx)
    (hin : s.inner = true) : ((Stage.past ctx).inHand a.running).count s =
      (a.stage.inHand a.running).count s + if s' = s then 1 else 0 := by
  have hopen : ∀ {s' : SemPtr}, s'.inner = false → s' ≠ s := by
    rintro _ h rfl
    rw [hin] at h
    cases h
  cases h with
  | semWait h | join h | joinAll h | timedJoinAll h =>
    rw [h.stage, if_neg (hopen rfl)]
    rfl
  | send h | receive h | get h =>
    rw [h.stage]
    simp [Stage.inHand, List.count_cons]
  | put _ hs | putMutex _ hs | getMutex _ hs =>
    rw [hs]
    simp [Stage.inHand, List.count_cons]

theorem inHand_timed {ctx : Context} (h : ctx.timed = true) (r : Tid) :
    (Stage.past ctx).inHand r = [] := by
  cases ctx <;> first | rfl | cases h

theorem inHand_plain {ctx : Context} (h : ctx.plain = true) (r : Tid) :
    (Stage.past ctx).inHand r = [] := by
  cases ctx <;> first | rfl | cases h

/-- A wait that was blocked has its token in its hands when it ends. -/
theorem inHand_waitsAt {s' : SemPtr} {ctx : Context} (h : ctx.waitsAt t = some s')
    (hs : ∀ s', ctx = .semWait s' → ∃ n, s' = .opened n) (hm : ∀ i, s' ≠ .mutex i)
    (hin : s.inner = true) :
    ((Stage.past ctx).inHand t).count s = if s' = s then 1 else 0 := by
  cases ctx with
  | semWait s'' =>
    obtain ⟨n, rfl⟩ := hs s'' rfl
    cases h
    rw [if_neg (by rintro rfl; cases hin)]
    rfl
  | join | joinAll | timedJoinAll =>
    cases h
    rw [if_neg (by rintro rfl; cases hin)]
    rfl
  | send | receive | put | get =>
    cases h
    simp [Stage.inHand, List.count_cons]
  | putMutex b | getMutex b =>
    cases h
    exact absurd rfl (hm b)
  | _ => cases h

theorem waitsAt_timed {ctx : Context} (h : ctx.timed = true)
    (hs : ∀ s', ctx = .semWait s' → ∃ n, s' = .opened n) (hw : ctx.waitsAt t = some s) :
    s.inner = false := by
  cases ctx with
  | semWait s' =>
    obtain ⟨n, rfl⟩ := hs s' rfl
    cases hw
    rfl
  | join | timedJoinAll =>
    cases hw
    rfl
  | _ => cases h

/-- What is needed for tokens in transit to be accounted for: nobody waits at a `mutex`, which has
its token whenever it is asked for it, and no handler owes a slot of a message. -/
structure Guarded (a : Sys) : Prop where
  mutex : ∀ t ∈ a.threads, ∀ i, (a.place t).waitsAt t ≠ some (.mutex i)
  free : ∀ i m ctx, a.WaitCall (.mutex i) m ctx → m ≤ (a.sem (.mutex i)).value
  owes : ∀ t, .send t ∉ a.stage.owing

theorem place_of_stay (h : a.activity.isLeaving = false) (t : Tid) :
    a.place t = (a.thread t).context := by
  unfold place Activity.next
  cases ha : a.activity with
  | leaving => simp [ha, Activity.isLeaving] at h
  | _ => simp

/-- Those who are ready will go on in the same context behind any step. -/
theorem Step.ready_context (hs : a.Step b) (hi : a.Inv) (ht : t ∈ a.ready) :
    (b.thread t).context = (a.thread t).context := by
  refine hs.context (hs.threads t (hi.places.live t (Or.inl ht)).1) ?_
  rintro rfl
  exact hi.places.running_ready ht

/-- The next thread of the queue `l` is chosen. -/
theorem Step.transit_chosen (hs : a.Step b) (hi : a.Inv) {l : List Tid} {ctx : Context}
    (hstage : a.stage = .code) (harr : a.arriving s = 0) (hself : (b.thread a.running).context = ctx)
    (hidle : a.running = a.idle → ctx.waitsAt a.idle = none)
    (hl : l = a.ready ∨ l = a.ready ++ [a.running] ∧ ctx.waitsAt a.running = none)
    (hready : b.ready = l.tail) (hrun : b.running = l.headD a.idle) (hb : b.stage = .code)
    (hact : b.activity = .none) : b.transit s = a.transit s := by
  have hsame : ∀ t ∈ a.ready, b.bound s t = a.bound s t := fun t ht => by
    unfold bound
    rw [hs.ready_context hi ht]
  have hfree : ∀ t, (b.thread t).context.waitsAt t = none → b.bound s t = false := fun t ht => by
    unfold bound
    rw [ht]
    rfl
  have hcount : l.countP (b.bound s) = a.onTheWay s := by
    have : a.ready.countP (b.bound s) = a.onTheWay s :=
      List.countP_congr fun t ht => by rw [hsame t ht]
    rcases hl with rfl | ⟨rfl, hw⟩
    · exact this
    · rw [List.countP_append, this, List.countP_singleton, hfree _ (hself ▸ hw),
        if_neg Bool.false_ne_true, Nat.add_zero]
  have hline : b.onTheWay s + b.arriving s = l.countP (b.bound s) := by
    unfold onTheWay arriving
    rw [hready, hrun, hb, hact]
    cases l with
    | nil =>
      have hi' : b.bound s a.idle = false := by
        refine hfree _ ?_
        by_cases he : a.running = a.idle
        · rw [← he, hself, he]
          exact hidle he
        · rw [hs.context (hs.threads _ hi.names.idle_mem) (Ne.symm he)]
          exact hi.contexts.idle.1
      simp [hi']
    | cons t l =>
      rw [List.countP_cons]
      simp [Stage.isCode, Activity.isLeaving]
  unfold transit
  rw [hline, hcount, harr, hstage, hb]
  rfl

/-- What a step does to the tokens in transit of a semaphore of the kernel's own. -/
theorem Step.transit (hs : a.Step b) (hi : a.Inv) (hg : a.Guarded) (hin : s.inner = true)
    (hact : (a.sem s).active = true) (hrel : ∀ m, a.activity ≠ .releasing s m) :
    b.transit s + b.times (Event.uses s) + a.times (Event.issues s) =
      a.transit s + a.times (Event.uses s) + b.times (Event.issues s) := by
  have hready : ∀ t ∈ a.ready, b.bound s t = a.bound s t := fun t ht => by
    unfold bound
    rw [hs.ready_context hi ht]
  have hcount : ∀ l : List Tid, b.ready = a.ready ++ l →
      b.onTheWay s = a.onTheWay s + l.countP (b.bound s) := fun l hl => by
    unfold onTheWay
    rw [hl, List.countP_append, List.countP_congr fun t ht => by rw [hready t ht]]
  have hmove : b.ready = a.ready → b.arriving s + (b.stage.inHand b.running).count s =
        a.arriving s + (a.stage.inHand a.running).count s →
      b.times (Event.uses s) = a.times (Event.uses s) →
      b.times (Event.issues s) = a.times (Event.issues s) →
      b.transit s + b.times (Event.uses s) + a.times (Event.issues s) =
        a.transit s + a.times (Event.uses s) + b.times (Event.issues s) := fun h₁ h₂ h₃ h₄ => by
    have := hcount [] (by rw [h₁, List.append_nil])
    rw [List.countP_nil] at this
    unfold Sys.transit
    rw [h₃, h₄]
    omega
  have hsame : b.ready = a.ready → b.arriving s = a.arriving s →
      (b.stage.inHand b.running).count s = (a.stage.inHand a.running).count s →
      b.times (Event.uses s) = a.times (Event.uses s) →
      b.times (Event.issues s) = a.times (Event.issues s) →
      b.transit s + b.times (Event.uses s) + a.times (Event.issues s) =
        a.transit s + a.times (Event.uses s) + b.times (Event.issues s) := fun h₁ h₂ h₃ =>
    hmove h₁ (by rw [h₂, h₃])
  have hevent : ∀ e, b.history = e :: a.history → b.ready = a.ready →
      b.arriving s + (b.stage.inHand b.running).count s + (if Event.uses s e then 1 else 0) =
        a.arriving s + (a.stage.inHand a.running).count s + (if Event.issues s e then 1 else 0) →
      b.transit s + b.times (Event.uses s) + a.times (Event.issues s) =
        a.transit s + a.times (Event.uses s) + b.times (Event.issues s) := fun e he h₁ h => by
    have := hcount [] (by rw [h₁, List.append_nil])
    rw [List.countP_nil] at this
    unfold Sys.transit
    rw [times_cons _ he, times_cons _ he]
    omega
  have hjoin : ∀ e t, b.history = e :: a.history → b.ready = a.ready ++ [t] →
      b.arriving s = a.arriving s → b.stage = a.stage → b.running = a.running →
      Event.uses s e = false → Event.issues s e = b.bound s t →
      b.transit s + b.times (Event.uses s) + a.times (Event.issues s) =
        a.transit s + a.times (Event.uses s) + b.times (Event.issues s) :=
    fun e t he h₁ h₂ h₃ h₄ h₅ h₆ => by
    have := hcount [t] h₁
    rw [List.countP_singleton] at this
    unfold Sys.transit
    rw [times_cons _ he, times_cons _ he, h₂, h₃, h₄, h₅, h₆, this, if_neg Bool.false_ne_true]
    omega
  have hctx : ∀ {c : Sys}, (∀ u, (c.thread u).context = (a.thread u).context) → ∀ u,
      c.bound s u = a.bound s u := fun h u => by
    unfold bound
    rw [h]
  have hblocked : ∀ {t s'}, a.activity.isLeaving = false →
      (a.thread t).blockedAtSem = some s' → (a.thread t).context.waitsAt t = some s' :=
    fun hl hb => by
    have := (hi.waits.waitsAt _ _ hb).context
    rwa [place_of_stay hl] at this
  have hs' := hs
  cases hs with
  | tick h | close h =>
    exact hsame rfl (arriving_same rfl (by rw [h.activity]; rfl) rfl rfl) rfl rfl rfl
  | allocate | openSem | store => exact hsame rfl rfl rfl rfl rfl
  | tickEnd h | handEnd h | releaseEnd h | signalAll h =>
    exact hsame rfl (arriving_same rfl (by rw [h]; rfl) rfl rfl) rfl rfl rfl
  | tryFail h =>
    exact hsame rfl (arriving_same rfl rfl rfl (update_field Thread.context (by rfl) _)) rfl rfl rfl
  | part h =>
    exact hsame rfl (arriving_same rfl (by rw [h]; rfl) rfl
      (update_field Thread.context (by rfl) _)) rfl rfl rfl
  | @expire h t rest hs s' hb =>
    refine hjoin _ t rfl rfl (arriving_same rfl rfl rfl (update_field Thread.context (by rfl) _))
      rfl rfl rfl ?_
    have hl : a.activity.isLeaving = false := by rw [h]; rfl
    have hasleep : t ∈ a.asleep := by simp [asleep, hs]
    have htimed := ((hi.waits.asleep t hasleep).resolve_left fun he => by
      rw [hb] at he
      cases he.1).2
    rw [place_of_stay hl] at htimed
    rw [hctx fun u => update_field Thread.context (by rfl) u, bound, hblocked hl hb]
    refine (decide_eq_false fun he => ?_).symm
    obtain rfl := Option.some.inj he
    have hargs := hi.contexts.args t (hi.places.live t (Or.inr (Or.inl (by rw [hb]; simp)))).1
    rw [waitsAt_timed htimed (fun s' hc => ?_) (hblocked hl hb)] at hin
    · cases hin
    · rw [hc] at hargs
      exact hargs.1
  | @wake h t rest hs hb =>
    refine hjoin _ t rfl rfl rfl rfl rfl rfl ?_
    have hl : a.activity.isLeaving = false := by rw [h]; rfl
    have hsleep := ((hi.waits.asleep t (by simp [asleep, hs])).resolve_right fun he => he.1 hb).2
    rw [place_of_stay hl] at hsleep
    have hb : a.bound s t = false := by
      rw [bound, hsleep]
      rfl
    exact hb.symm
  | @preempt h ctx hc =>
    have hfree : ∀ t, Context.waitsAt t ctx = none := fun t => by rcases hc with rfl | rfl <;> rfl
    rw [hs'.transit_chosen hi h.stage (arriving_body h) (choose_context _) (fun _ => hfree _)
      (l := (a.pushReady a.running).ready) ?_ rfl rfl h.stage h.activity]
    · rfl
    · unfold pushReady
      split
      · exact Or.inl rfl
      · exact Or.inr ⟨rfl, hfree _⟩
  | @switch ctx h =>
    obtain ⟨hst, -, hor⟩ := hi.contexts.leaving h
    rw [hs'.transit_chosen hi hst (arriving_leaving (by rw [h]; rfl)) (choose_context _) (fun he => ?_)
      (Or.inl rfl) rfl rfl hst rfl]
    · rfl
    · rcases hor with ⟨rfl, -⟩ | ⟨hne, -⟩
      · rfl
      · exact absurd he hne
  | sleep h =>
    exact hsame rfl ((arriving_leaving rfl).trans (arriving_body h.toAtBody).symm) rfl rfl rfl
  | fallAsleep h =>
    exact hsame rfl ((arriving_leaving rfl).trans (arriving_leaving (by rw [h]; rfl)).symm) rfl rfl rfl
  | leave h hl =>
    have hzero : a.arriving s = 0 ∧ (a.stage.inHand a.running).count s = 0 := by
      cases hl with
      | code hs hc => exact ⟨arriving_free hc, by rw [hs]; rfl⟩
      | past hs hc => exact ⟨arriving_stage (by rw [hs]; rfl), by rw [hs, inHand_plain hc]; rfl⟩
      | done hs => exact ⟨arriving_stage (by rw [hs]; rfl), by rw [hs]; rfl⟩
    refine hsame rfl ?_ hzero.2.symm rfl rfl
    rw [hzero.1]
    exact arriving_free (by simp [setThread, Context.waitsAt])
  | @acquire s' m ctx h ha hv =>
    refine hevent _ rfl rfl ?_
    rw [arriving_stage rfl, h.arriving, Nat.zero_add, Nat.zero_add]
    simp only [Event.uses, Event.issues, decide_eq_true_eq, Bool.false_eq_true, if_false,
      Nat.add_zero]
    exact h.inHand hin
  | @block s' m ctx _ h ha hv =>
    have hzero : (a.stage.inHand a.running).count s = 0 := by
      have hcall : ∀ {c : Sys}, c.Calls → c.stage.inHand c.running = [] := fun hc => by
        rw [hc.stage]
        rfl
      cases h with
      | semWait h | join h | joinAll h | timedJoinAll h | send h | receive h | get h =>
        rw [hcall h]
        rfl
      | put _ hs =>
        rw [hs]
        rfl
      | putMutex h hs => exact absurd (hg.free _ _ _ (.putMutex h hs)) (by omega)
      | getMutex h hs => exact absurd (hg.free _ _ _ (.getMutex h hs)) (by omega)
    exact hsame rfl ((arriving_leaving rfl).trans h.arriving.symm) hzero.symm rfl rfl
  | @timeoutZero ctx h s' hb =>
    have htimed := ((hi.waits.next ctx 0 h).resolve_left fun he => by
      rw [hb] at he
      cases he.1).2
    refine hsame rfl ((arriving_stage rfl).trans (arriving_leaving (by rw [h]; rfl)).symm)
      ((congrArg (List.count s) (inHand_timed htimed a.running)).trans ?_) rfl rfl
    rw [(hi.contexts.leaving h).1]
    rfl
  | @dead s' m ctx h ha =>
    have hne : s' ≠ s := by
      rintro rfl
      rw [hact] at ha
      cases ha
    exact hsame rfl ((arriving_stage rfl).trans h.arriving.symm)
      ((h.inHand hin).trans (by rw [if_neg hne, Nat.add_zero])) rfl rfl
  | @endWait h hs s' hc =>
    have hl : a.activity.isLeaving = false := by rw [h]; rfl
    have hmem := hi.alive.running_mem
    have hm : ∀ i, s' ≠ .mutex i := fun i he => by
      have := hg.mutex _ hmem i
      rw [place_of_stay hl, hc] at this
      exact this (congrArg some he)
    have hopen : ∀ s', (a.thread a.running).context = .semWait s' → ∃ n, s' = .opened n :=
      fun s' hs' => by
        have hargs := hi.contexts.args _ hmem
        rw [hs'] at hargs
        exact hargs.1
    refine hmove rfl ?_ rfl rfl
    have harriving : a.arriving s = if s' = s then 1 else 0 := by
      simp [arriving, bound, hs, hl, hc, Stage.isCode]
    rw [arriving_stage rfl, harriving, hs, Nat.zero_add]
    exact inHand_waitsAt hc hopen hm hin
  | @signal s' stage h ha =>
    refine hevent _ rfl rfl ?_
    cases h with
    | semSignal h =>
      rw [arriving_body h.toAtBody, arriving_free (by simp [emit, h.context, Context.waitsAt]), h.stage]
      simp [Stage.inHand, Event.uses, Event.issues]
    | @owed _ _ l hst =>
      have hne : ∀ t, s' ≠ .send t := fun t he => hg.owes t (by simp [hst, Stage.owing, he])
      rw [arriving_stage rfl, arriving_stage (by rw [hst]; rfl), hst]
      cases s' with
      | send t => exact absurd rfl (hne t)
      | _ => simp [Stage.inHand, Event.uses, Event.issues]
    | slot _ hst =>
      rw [arriving_stage rfl, arriving_stage (by rw [hst]; rfl), hst]
      simp [Stage.inHand, Event.uses, Event.issues, List.count_cons]
  | @skip s' stage h ha =>
    cases h with
    | semSignal h =>
      exact hsame rfl (arriving_same h.stage.symm rfl rfl rfl) (by rw [h.stage]) rfl rfl
    | owed _ hst =>
      exact hsame rfl ((arriving_stage rfl).trans (arriving_stage (by rw [hst]; rfl)).symm)
        (by rw [hst]; rfl) rfl rfl
    | slot hact' hst =>
      -- the slot of a thread that runs is alive
      have hne := (hi.contexts.past hst).1
      have := hi.alive.own_active _ hi.alive.running_mem (hi.contexts.unfinished hact' hne)
        (fun _ => by rw [hst]; rfl) (.send a.running) (by simp [SemPtr.own])
      rw [this] at ha
      cases ha
  | @grant s' n h t rest hq hn ht =>
    refine hjoin _ t rfl rfl (arriving_same rfl (by rw [h]; rfl) rfl
      (update_field Thread.context (by rfl) _)) rfl rfl rfl ?_
    rw [hctx fun u => update_field Thread.context (by rfl) u, bound,
      hblocked (by rw [h]; rfl) ((hi.places.mem_queue t s').mp (by simp [hq]))]
    simp [Event.issues]
  | @release s' m h t rest hq =>
    have hne : s' ≠ s := fun he => hrel m (he ▸ h)
    refine hjoin _ t rfl rfl (arriving_same rfl rfl rfl (update_field Thread.context (by rfl) _))
      rfl rfl (by cases m <;> rfl) ?_
    rw [hctx fun u => update_field Thread.context (by rfl) u, bound,
      hblocked (by rw [h]; rfl) ((hi.places.mem_queue t s').mp (by simp [hq]))]
    cases m <;> simp [Event.issues, UnblockManner.event, hne]
  | write h hs =>
    refine hevent _ rfl rfl ?_
    rw [arriving_stage rfl, arriving_stage (by rw [hs]; rfl), hs]
    simp [Stage.inHand, Event.uses, Event.issues, List.count_cons]
  | received h hs =>
    exact hsame rfl ((arriving_stage rfl).trans (arriving_stage (by rw [hs]; rfl)).symm)
      (by rw [hs]; rfl) rfl rfl
  | putting h =>
    exact hsame rfl ((arriving_stage rfl).trans (arriving_body h.toAtBody).symm)
      (by rw [h.stage]; rfl) rfl rfl
  | putChar h hs | getChar h hs =>
    refine hevent _ rfl rfl ?_
    rw [arriving_stage rfl, arriving_stage (by rw [hs]; rfl), hs]
    have hne : ∀ {s₁ s₂ : SemPtr}, s₁ ≠ s₂ → (if s₁ = s then 1 else 0) +
        (if s₂ = s then 1 else 0) = if s₁ = s ∨ s₂ = s then 1 else 0 := fun {s₁ s₂} hne => by
      by_cases h₁ : s₁ = s
      · simp [h₁, (h₁ ▸ hne).symm]
      · simp [h₁]
    simp only [Stage.inHand, Event.uses, Event.issues, List.count_cons, List.count_nil, beq_iff_eq,
      decide_eq_true_eq, Bool.false_eq_true, if_false, Nat.zero_add, Nat.add_zero]
    exact (hne (by simp)).symm
  | @init h t hnt =>
    have hne : a.running ≠ t := fun he => hnt (he ▸ hi.alive.running_mem)
    exact hsame rfl (arriving_same rfl rfl rfl
      (congrArg Thread.context (Function.update_of_ne hne ..))) rfl rfl rfl
  | @enlist h t hnew hlt hroom hx hp hsem =>
    have hfree : a.bound s t = false := by
      rw [bound, hx.1]
      rfl
    by_cases hbody : (a.thread t).hasBody = true
    · refine hjoin _ t rfl (if_pos hbody)
        (arriving_same rfl rfl rfl (update_field Thread.context (by rfl) _)) rfl rfl rfl ?_
      rw [hctx fun u => update_field Thread.context (by rfl) u, hfree]
      rfl
    · exact hsame (if_neg hbody)
        (arriving_same rfl rfl rfl (update_field Thread.context (by rfl) _)) rfl rfl rfl
  | finish h =>
    exact hsame rfl ((arriving_stage rfl).trans (arriving_body h).symm) (by rw [h.stage]; rfl)
      rfl rfl
  | noParent h hs | childLeaves h hs | childSignals h hs =>
    exact hsame rfl ((arriving_stage rfl).trans (arriving_stage (by rw [hs]; rfl)).symm)
      (by rw [hs]; rfl) rfl rfl
  | retire h hs =>
    exact hsame rfl ((arriving_leaving rfl).trans (arriving_stage (by rw [hs]; rfl)).symm)
      (by rw [hs]; rfl) rfl rfl

/-! ## 4. Tokens that are owed

The stage of a handler that has used its token lists the semaphores that it will still signal, and
each signal takes off the first of them. -/

theorem WaitCall.owing {m : Nat} {s' : SemPtr} {ctx : Context} (h : a.WaitCall s' m ctx) :
    a.stage.owing = [] := by
  cases h with
  | semWait h | join h | joinAll h | timedJoinAll h | send h | receive h | get h =>
    rw [h.stage]
    rfl
  | put _ hs | putMutex _ hs | getMutex _ hs =>
    rw [hs]
    rfl

theorem Leaves.owing (h : a.Leaves) : a.stage.owing = [] := by
  cases h with
  | code hs | past hs | done hs =>
    rw [hs]
    rfl

/-- What a step does to the tokens that are owed to a semaphore of the kernel's own. -/
theorem Step.owed (hs : a.Step b) (hi : a.Inv) (hg : a.Guarded) (hin : s.inner = true)
    (hact : (a.sem s).active = true) :
    b.owed s + b.times (Event.signals s) + a.times (Event.earns s) =
      a.owed s + a.times (Event.signals s) + b.times (Event.earns s) := by
  have hsame : b.stage.owing = a.stage.owing →
      b.times (Event.signals s) = a.times (Event.signals s) →
      b.times (Event.earns s) = a.times (Event.earns s) →
      b.owed s + b.times (Event.signals s) + a.times (Event.earns s) =
        a.owed s + a.times (Event.signals s) + b.times (Event.earns s) := fun h₁ h₂ h₃ => by
    unfold Sys.owed
    rw [h₁, h₂, h₃]
  have hevent : ∀ e, b.history = e :: a.history →
      b.stage.owing.count s + (if Event.signals s e then 1 else 0) =
        a.stage.owing.count s + (if Event.earns s e then 1 else 0) →
      b.owed s + b.times (Event.signals s) + a.times (Event.earns s) =
        a.owed s + a.times (Event.signals s) + b.times (Event.earns s) := fun e he h => by
    unfold Sys.owed
    rw [times_cons _ he, times_cons _ he]
    omega
  have hopen : ∀ s' : SemPtr, s'.inner = false → s' ≠ s := by
    rintro _ h rfl
    rw [hin] at h
    cases h
  cases hs with
  | @signal s' stage h ha =>
    refine hevent _ rfl ?_
    cases h with
    | @semSignal h n =>
      rw [h.stage]
      simp [Event.signals, Event.earns, Stage.owing, hopen (.opened n) rfl]
    | @owed _ _ l hst =>
      have hne : ∀ t, s' ≠ .send t := fun t he => hg.owes t (by simp [hst, Stage.owing, he])
      rw [hst]
      cases s' with
      | send t => exact absurd rfl (hne t)
      | _ => simp [Stage.owing, Event.signals, Event.earns, List.count_cons]
    | slot _ hst =>
      rw [hst]
      simp [Stage.owing, Event.signals, Event.earns]
  | @skip s' stage h ha =>
    cases h with
    | semSignal h => exact hsame (by rw [h.stage]) rfl rfl
    | owed _ hst =>
      have hne : s' ≠ s := by
        rintro rfl
        rw [hact] at ha
        cases ha
      unfold Sys.owed
      rw [hst]
      simp [Stage.owing, hne, times]
    | slot _ hst => exact hsame (by rw [hst]; rfl) rfl rfl
  | @childSignals _ hst p =>
    refine hevent _ rfl ?_
    rw [hst]
    simp [Stage.owing, Event.signals, Event.earns, hopen (.joinAll p) rfl]
  | write _ hst =>
    refine hevent _ rfl ?_
    rw [hst]
    simp [Stage.owing, Event.signals, Event.earns, List.count_cons]
  | @putChar _ i _ hst | @getChar _ i hst =>
    refine hevent _ rfl ?_
    rw [hst]
    by_cases hm : SemPtr.mutex i = s
    · subst hm
      simp [Stage.owing, Event.signals, Event.earns]
    · simp [Stage.owing, Event.signals, Event.earns, List.count_cons, hm]
  | @release s' m h =>
    refine hsame rfl ?_ ?_ <;> cases m <;> rfl
  | received _ hst | endWait _ hst | noParent _ hst | childLeaves _ hst | retire _ hst =>
    exact hsame (by rw [hst]; rfl) rfl rfl
  | leave _ hl => exact hsame hl.owing.symm rfl rfl
  | acquire h | block h | dead h => exact hsame h.owing.symm rfl rfl
  | timeoutZero h => exact hsame (by rw [(hi.contexts.leaving h).1]; rfl) rfl rfl
  | putting h | finish h => exact hsame (by rw [h.stage]; rfl) rfl rfl
  | _ => exact hsame rfl rfl rfl

/-! ## 5. All places together -/

/-- All the tokens of a semaphore, wherever they are. -/
def total (a : Sys) (s : SemPtr) : Nat := a.stock s + a.transit s + a.owed s

/-- **Tokens are neither lost nor made.** -/
theorem Step.total (hs : a.Step b) (hi : a.Inv) (hg : a.Guarded) (hin : s.inner = true)
    (hact : (a.sem s).active = true) (hrel : ∀ m, a.activity ≠ .releasing s m)
    (hlt : a.stock s < 2 ^ 64) :
    b.total s + b.times (Event.uses s) + a.times (Event.earns s) =
      a.total s + a.times (Event.uses s) + b.times (Event.earns s) := by
  have h₁ := hs.stock hi (SemPtr.inner_unit hin) hact hrel hlt
  have h₂ := hs.transit hi hg hin hact hrel
  have h₃ := hs.owed hi hg hin hact
  unfold Sys.total
  omega

end Sys

end Os1Kernel
