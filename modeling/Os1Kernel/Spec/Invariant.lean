/-
# The invariant

What holds in every state that can be reached: the five invariants of the modules before this one,
and three more.

* `Waits` says what a thread that waits has in common with what it waits for: its context belongs
  to the semaphore, the semaphore is alive and has no tokens to give, a sleeper is in a call that
  sleeps. That the value is 0 where somebody waits is what keeps a later call from overtaking.
* `Ticks` is about the numbers on the sleep list: they are sorted, fit into 64 bits, and nobody is
  due except while those who are due are being woken.
* `Classified` says that nobody is lost: a thread that is on no list runs, has finished, or was
  created without a body and is not meant to run.

`Inv` is their conjunction, `Inv.step` its preservation by every step.  The parts are proved one
after the other, each from the ones before it in the state before the step, and none needs a part
of the state behind the step that is proved later; so each is one case analysis over `Sys.Step`,
with a lemma for the steps that change what it is about and one for all others (`Waits.same`,
`Classified.same`).
-/
import Os1Kernel.Spec.Contexts

namespace Os1Kernel

/-- The context of a thread that is about to leave. -/
def Activity.next : Activity → Option Context
  | .leaving ctx _ => some ctx
  | _ => Option.none

/-- Only these semaphores are waited at with more than one token. -/
def SemPtr.isJoinAll : SemPtr → Bool
  | .joinAll _ => true
  | _ => false

namespace Sys

variable {a b : Sys} {t : Tid} {s : SemPtr}

/-! ## 1. The lists

`Places` is preserved by a case analysis over the steps, with a lemma for each way in which a
thread moves: released, put to sleep, woken, chosen. -/

theorem asleep_map : (a.sleepers.map fun p => (p.1, p.2 - 1)).map Prod.fst = a.asleep := by
  simp [asleep]

theorem unblock_self (s : SemPtr) (manner : UnblockManner) :
    ((a.unblock s t manner).thread t).blockedAtSem = none := by
  simp [Sys.unblock]

theorem enqueue_self (n : Nat) : ((a.enqueue s t n).thread t).blockedAtSem = some s := by
  simp [enqueue]

theorem enqueue_tokens (n : Nat) : ((a.enqueue s t n).thread t).tokensNeeded = n := by
  simp [enqueue]

/-- A waiter is on no other list than that of its semaphore. -/
theorem Places.queue_unblock (h : a.Places) (hb : (a.thread t).blockedAtSem = some s)
    (manner : UnblockManner) (s' : SemPtr) :
    (a.unblock s t manner).queue s' = (a.queue s').erase t := by
  show Function.update a.queue s _ s' = _
  by_cases hs : s' = s
  · rw [hs, Function.update_self]
  · rw [Function.update_of_ne hs, List.erase_of_not_mem]
    rw [h.mem_queue, hb]
    exact fun he => hs (Option.some.inj he).symm

/-- A waiter is released, whoever does it. -/
theorem Places.unblock (h : a.Places) (hl : a.activity.isLeaving = false)
    (hb : (a.thread t).blockedAtSem = some s) (manner : UnblockManner) (e : Event)
    (act : Activity) :
    Places { (a.unblock s t manner).emit e with ready := a.ready ++ [t], activity := act } := by
  refine h.freed hl (Or.inl ?_) rfl (h.queue_unblock hb manner) asleep_awake
    (unblock_self s manner) (fun u hu => ?_) rfl rfl rfl
    (fun u => update_field Thread.finished (by rfl) u)
  · rw [hb]
    simp
  · exact congrArg Thread.blockedAtSem (Function.update_of_ne hu _ _)

theorem not_leaving_of {act : Activity} (h : a.activity = act) (ha : act.isLeaving = false) :
    a.activity.isLeaving = false := h ▸ ha

theorem Places.step (h : a.Places) (hn : a.Names) (ha : a.Alive) (hc : a.Contexts)
    (hs : a.Step b) : b.Places := by
  cases hs with
  | tick hb =>
    exact h.same (not_leaving_of hb.activity rfl) rfl rfl asleep_map (fun _ => rfl) rfl rfl
      fun t _ ht hf => ⟨ht, hf⟩
  | expire hl hs hb => exact h.unblock (not_leaving_of hl rfl) hb _ _ _
  | @wake hl t rest hs hb =>
    have hm : t ∈ a.asleep := by simp [asleep, hs]
    have hnq : ∀ s, t ∉ a.queue s := by
      intro s hq
      rw [h.mem_queue, hb] at hq
      cases hq
    exact h.freed (not_leaving_of hl rfl) (Or.inr hm) rfl
      (fun s => (List.erase_of_not_mem (hnq s)).symm) asleep_awake hb (fun _ _ => rfl) rfl rfl rfl
      fun _ => rfl
  | preempt hb hctx =>
    by_cases hi : a.running = a.idle
    · exact h.chosen (Or.inl rfl) (by simp [choose, pushReady, hi]) rfl rfl
        (fun u => update_field Thread.blockedAtSem (by rfl) u) (by simp [choose, pushReady, hi]) rfl
        rfl fun u => update_field Thread.finished (by rfl) u
    · exact h.chosen
        (Or.inr ⟨rfl, not_leaving_of hb.activity rfl, ha.running_mem, hi, hc.unfinished hb.activity hi⟩)
        (by simp [choose, pushReady, hi]) rfl rfl
        (fun u => update_field Thread.blockedAtSem (by rfl) u) (by simp [choose, pushReady, hi]) rfl
        rfl fun u => update_field Thread.finished (by rfl) u
  | switch hl =>
    exact h.chosen (Or.inl rfl) (by rw [List.append_nil]; rfl) rfl rfl
      (fun u => update_field Thread.blockedAtSem (by rfl) u) (by rw [List.append_nil]; rfl) rfl rfl
      fun u => update_field Thread.finished (by rfl) u
  | fallAsleep hl =>
    exact h.slept hl ⟨ha.running_mem, ((hc.leaving hl).2.2.resolve_left fun he => by cases he.2)⟩
      rfl rfl asleep_fallAsleep rfl rfl rfl rfl rfl
  | block hw hact hv =>
    exact h.joined (not_leaving_of hw.activity rfl) (hw.live hc ha) rfl rfl rfl (enqueue_self _)
      (fun u hu => congrArg Thread.blockedAtSem (Function.update_of_ne hu _ _)) rfl rfl rfl
      (fun u => update_field Thread.finished (by rfl) u) rfl
  | @timeoutZero ctx hl s hb =>
    refine h.returned hl rfl (h.queue_unblock hb .waitTimeout) ?_ (unblock_self s .waitTimeout)
      (fun u hu => congrArg Thread.blockedAtSem (Function.update_of_ne hu _ _)) rfl rfl rfl
      (fun u => update_field Thread.finished (by rfl) u)
    have hna := h.leaving_awake _ _ hl
    exact asleep_awake.trans (List.filter_eq_self.mpr fun u hu =>
      decide_eq_true fun e => hna (e ▸ hu))
  | grant hl hq | release hl hq =>
    exact h.unblock (not_leaving_of hl rfl) ((h.mem_queue _ _).mp (by simp [hq])) _ _ _
  | @enlist hcall t hnew hlt hroom hx =>
    have hnt : t ∉ a.threads := fun ht => lt_irrefl t (hnew t ht)
    have hfree : ¬ (t ∈ a.ready ∨ (a.thread t).blockedAtSem ≠ none ∨ t ∈ a.asleep) :=
      fun hm => hnt (h.live t hm).1
    simp only [not_or, not_not] at hfree
    by_cases hbody : (a.thread t).hasBody = true
    · exact h.pushed (not_leaving_of hcall.activity rfl) ⟨hfree.2.1, hfree.2.2, hfree.1⟩
        (fun e => hnt (e ▸ ha.running_mem)) (if_pos hbody) rfl rfl
        (fun u => update_field Thread.blockedAtSem (by rfl) u) rfl rfl
        (fun u => update_field Thread.finished (by rfl) u) rfl
        ⟨fun e => hnt (e ▸ hn.idle_mem), hx.2.1⟩
    · exact h.same (not_leaving_of hcall.activity rfl) (if_neg hbody) rfl rfl
        (fun u => update_field Thread.blockedAtSem (by rfl) u) rfl rfl fun u _ hu hf =>
        ⟨List.mem_append_left _ hu, (update_field Thread.finished (by rfl) u).trans hf⟩
  | retire hact =>
    exact h.same (not_leaving_of hact rfl) rfl rfl rfl
      (fun u => update_field Thread.blockedAtSem (by rfl) u) rfl rfl fun t hne ht hf =>
      ⟨ht, (congrArg Thread.finished (Function.update_of_ne hne _ _)).trans hf⟩
  | @init hcall t hnt hlt x hx =>
    have hb : (a.thread t).blockedAtSem = none := by
      by_contra hb
      exact hnt (h.live t (Or.inr (Or.inl hb))).1
    refine h.same (not_leaving_of hcall.activity rfl) rfl rfl rfl
      (fun u => update_field Thread.blockedAtSem (hx.trans hb.symm) u) rfl rfl fun u _ hu hf =>
      ⟨hu, ?_⟩
    have hne : u ≠ t := fun e => hnt (e ▸ hu)
    exact (congrArg Thread.finished (Function.update_of_ne hne _ _)).trans hf
  | tickEnd hl | leave hl | endWait hl | part hl | handEnd hl | signalAll hl | releaseEnd hl
  | write hl | received hl | putChar hl | getChar hl | noParent hl | childLeaves hl
  | childSignals hl =>
    refine h.same (not_leaving_of hl rfl) rfl rfl rfl (fun u => ?_) rfl rfl fun t _ ht hf => ⟨ht, ?_⟩
    · first | exact update_field Thread.blockedAtSem (by rfl) u | rfl
    · first | exact (update_field Thread.finished (by rfl) _).trans hf | exact hf
  | sleep hl | acquire hl | dead hl | tryFail hl | signal hl | skip hl | close hl | allocate hl
  | openSem hl | finish hl | putting hl | store hl =>
    refine h.same (not_leaving_of hl.activity rfl) rfl rfl rfl (fun u => ?_) rfl rfl
      fun t _ ht hf => ⟨ht, ?_⟩
    · first | exact update_field Thread.blockedAtSem (by rfl) u | rfl
    · first | exact (update_field Thread.finished (by rfl) _).trans hf | exact hf

/-! ## 2. Waiting threads

A thread that is about to be switched from is on its list already, and its context is not yet the
one that it will go on in.  `place` is the context it will have: so what is said of a waiter holds
from the moment it joins the queue, and a switch changes nothing about it. -/

/-- The context in which a thread that is on a list will go on. -/
def place (a : Sys) (t : Tid) : Context :=
  if t = a.running then a.activity.next.getD (a.thread t).context else (a.thread t).context

theorem place_of_ne (h : t ≠ a.running) : a.place t = (a.thread t).context := if_neg h

theorem place_leaving {ctx : Context} {o : Option Nat} (h : a.activity = .leaving ctx o) :
    a.place a.running = ctx := by
  rw [place, if_pos rfl, h]
  rfl

/-- What is true of a thread that is blocked at a semaphore: the semaphore is open and has no
token, and the thread will go on behind a wait for this very semaphore. -/
structure WaitsAt (a : Sys) (t : Tid) (s : SemPtr) : Prop where
  active : (a.sem s).active = true
  value : (a.sem s).value = 0
  tokens : 1 ≤ (a.thread t).tokensNeeded
  /-- All other waits are for one token. -/
  unit : s.isJoinAll = false → (a.thread t).tokensNeeded = 1
  /-- It will go on behind this wait. -/
  context : (a.place t).waitsAt t = some s

/-- Everybody who is blocked or asleep is so by a call that says it. -/
structure Waits (a : Sys) : Prop where
  waitsAt : ∀ t s, (a.thread t).blockedAtSem = some s → a.WaitsAt t s
  /-- Who sleeps is in `time_sleep`, or in a wait with a timeout. -/
  asleep : ∀ t ∈ a.asleep, (a.thread t).blockedAtSem = none ∧ a.place t = .sleep ∨
    (a.thread t).blockedAtSem ≠ none ∧ (a.place t).timed = true
  /-- So is who is about to fall asleep. -/
  next : ∀ ctx n, a.activity = .leaving ctx (some n) →
    (a.thread a.running).blockedAtSem = none ∧ ctx = .sleep ∧ n ≠ 0 ∨
      (a.thread a.running).blockedAtSem ≠ none ∧ ctx.timed = true

/-- What can happen when the running thread is about to leave. -/
theorem Step.of_leaving (hs : a.Step b) : a.activity.isLeaving = false ∨
    (∃ ctx, a.activity = .leaving ctx none ∧ b = { a.choose ctx with activity := .none }) ∨
    (∃ ctx n, a.activity = .leaving ctx (some n) ∧ n ≠ 0 ∧
      b = { (a.fallAsleep a.running n).emit (.slept a.running n) with
            activity := .leaving ctx none }) ∨
    ∃ ctx s, a.activity = .leaving ctx (some 0) ∧ (a.thread a.running).blockedAtSem = some s ∧
      b = { ((a.unblock s a.running .waitTimeout).emit (.expired s a.running)).emit
              (.returned a.running TIMEOUT) with
            activity := .none, stage := .past ctx } := by
  cases hs with
  | switch h => exact Or.inr (Or.inl ⟨_, h, rfl⟩)
  | fallAsleep h h1 => exact Or.inr (Or.inr (Or.inl ⟨_, _, h, h1, rfl⟩))
  | timeoutZero h hb => exact Or.inr (Or.inr (Or.inr ⟨_, _, h, hb, rfl⟩))
  | tickEnd h | leave h | endWait h | part h | handEnd h | signalAll h | releaseEnd h | write h
  | received h | putChar h | getChar h | noParent h | childLeaves h | childSignals h | expire h
  | wake h | grant h | release h | retire h => exact Or.inl (not_leaving_of h rfl)
  | tick h | preempt h | sleep h | acquire h | block h | dead h | tryFail h | signal h | skip h
  | close h | allocate h | openSem h | init h | enlist h | finish h | putting h | store h =>
    exact Or.inl (not_leaving_of h.activity rfl)

/-- Who is on a list before and after a step will go on in the same context. -/
theorem Step.place (hs : a.Step b) (hp : a.Places) (hpb : b.Places)
    (ht : (a.thread t).blockedAtSem ≠ none ∨ t ∈ a.asleep)
    (ht' : (b.thread t).blockedAtSem ≠ none ∨ t ∈ b.asleep) : b.place t = a.place t := by
  have hmem := (hp.live t (Or.inr ht)).1
  have hctx := fun hne => hs.context (hs.threads t hmem) (t := t) hne
  have hnr : ∀ {c : Sys}, c.Places → c.activity.isLeaving = false →
      ((c.thread t).blockedAtSem ≠ none ∨ t ∈ c.asleep) → t ≠ c.running := by
    rintro c hc hl hm rfl
    obtain ⟨h1, h2⟩ := hc.running_free hl
    exact hm.elim (fun h => h h1) h2
  rcases hs.of_leaving with hl | ⟨ctx, hl, rfl⟩ | ⟨ctx, n, hl, -, rfl⟩ | ⟨ctx, s, hl, -, rfl⟩
  · have hne := hnr hp hl ht
    have hne' : t ≠ b.running := by
      by_cases hl' : b.activity.isLeaving = false
      · exact hnr hpb hl' ht'
      · cases hs with
        | preempt hb => exact absurd (not_leaving_of hb.activity rfl) hl'
        | switch => exact absurd rfl hl'
        | _ => exact hne
    rw [place_of_ne hne, place_of_ne hne', hctx hne]
  · have hne' := hnr hpb rfl ht'
    rw [place_of_ne hne']
    by_cases hne : t = a.running
    · subst hne
      rw [place_leaving hl]
      exact choose_context ctx
    · rw [place_of_ne hne]
      exact hctx hne
  · by_cases hne : t = a.running
    · subst hne
      rw [place_leaving hl]
      exact place_leaving rfl
    · rw [place_of_ne hne]
      exact place_of_ne hne
  · have hne' := hnr hpb rfl ht'
    rw [place_of_ne hne', place_of_ne (show t ≠ a.running from hne')]
    exact hctx hne'

/-- How the running thread comes to be about to sleep. -/
theorem Step.next (hs : a.Step b) {ctx : Context} {n : Nat}
    (hb : b.activity = .leaving ctx (some n)) :
    a.activity.isLeaving = false ∧ b.running = a.running ∧ n < 2 ^ 64 ∧
      (ctx = .sleep ∧ n ≠ 0 ∧ b.thread = a.thread ∨
        ctx.timed = true ∧ (b.thread b.running).blockedAtSem ≠ none) := by
  rcases hs.of_leaving with hl | ⟨_, -, rfl⟩ | ⟨_, _, -, -, rfl⟩ | ⟨_, _, -, -, rfl⟩
  · refine ⟨hl, ?_⟩
    have hne : a.activity ≠ .leaving ctx (some n) := by
      intro he
      rw [he] at hl
      cases hl
    cases hs with
    | sleep hc h1 hn =>
      cases hb
      exact ⟨rfl, hn, Or.inl ⟨rfl, Nat.one_le_iff_ne_zero.mp h1, rfl⟩⟩
    | block hw ha hv ht =>
      cases hb
      obtain ⟨htimed, hn⟩ := ht n rfl
      exact ⟨rfl, hn, Or.inr ⟨htimed, ne_of_eq_of_ne (enqueue_self _) (by simp)⟩⟩
    | _ => first | cases hb | exact absurd hb hne
  · cases hb
  · cases hb
  · cases hb

/-- A thread that stops waiting is not one that waits. -/
theorem update_blocked {g : Tid → Thread} {u : Tid} {x : Thread} (hx : x.blockedAtSem = none)
    (h : (Function.update g u x t).blockedAtSem = some s) :
    (g t).blockedAtSem = some s ∧ (Function.update g u x t).tokensNeeded = (g t).tokensNeeded := by
  by_cases hu : t = u
  · rw [hu, Function.update_self, hx] at h
    cases h
  · rw [Function.update_of_ne hu] at h ⊢
    exact ⟨h, rfl⟩

theorem Waits.next_step (hs : a.Step b) (hp : a.Places) {ctx : Context} {n : Nat}
    (hb : b.activity = .leaving ctx (some n)) :
    (b.thread b.running).blockedAtSem = none ∧ ctx = .sleep ∧ n ≠ 0 ∨
      (b.thread b.running).blockedAtSem ≠ none ∧ ctx.timed = true := by
  obtain ⟨hl, hrun, -, ⟨rfl, hn, hthread⟩ | ⟨htimed, hbl⟩⟩ := hs.next hb
  · rw [hthread, hrun]
    exact Or.inl ⟨(hp.running_free hl).1, rfl, hn⟩
  · exact Or.inr ⟨hbl, htimed⟩

/-- Nobody starts to wait, nobody who waits gets tokens, and semaphores with waiters stay as they
are. -/
theorem Waits.same (h : a.Waits) (hs : a.Step b) (hp : a.Places) (hpb : b.Places)
    (hat : ∀ t s, (b.thread t).blockedAtSem = some s → (a.thread t).blockedAtSem = some s ∧
      ((b.thread t).tokensNeeded = (a.thread t).tokensNeeded ∨
        s.isJoinAll = true ∧ 1 ≤ (b.thread t).tokensNeeded))
    (hsem : ∀ t s, (a.thread t).blockedAtSem = some s →
      (b.sem s).active = true ∧ (b.sem s).value = 0)
    (hasleep : ∀ t ∈ b.asleep, t ∈ a.asleep ∧
      (b.thread t).blockedAtSem = (a.thread t).blockedAtSem) : b.Waits := by
  refine ⟨fun t s hb => ?_, fun t ht => ?_, fun _ _ hb => Waits.next_step hs hp hb⟩
  · obtain ⟨ha, htok⟩ := hat t s hb
    have hplace := hs.place hp hpb (t := t) (Or.inl (by rw [ha]; simp)) (Or.inl (by rw [hb]; simp))
    have hw := h.waitsAt t s ha
    refine ⟨(hsem t s ha).1, (hsem t s ha).2, ?_, fun hj => ?_, hplace ▸ hw.context⟩
    · rcases htok with htok | ⟨-, htok⟩
      · exact htok ▸ hw.tokens
      · exact htok
    · rcases htok with htok | ⟨hj', -⟩
      · exact htok ▸ hw.unit hj
      · rw [hj] at hj'
        cases hj'
  · obtain ⟨hm, he⟩ := hasleep t ht
    rw [he, hs.place hp hpb (Or.inr hm) (Or.inr ht)]
    exact h.asleep t hm

/-- The running thread joins the waiters of `s`, which has fewer than the `m` tokens it wants. -/
theorem Waits.joined (h : a.Waits) (hs : a.Step b) (hp : a.Places) {ctx : Context}
    {o : Option Nat} {m : Nat} (hl : a.activity.isLeaving = false)
    (hactive : (a.sem s).active = true) (hv : (a.sem s).value < m)
    (hunit : s.isJoinAll = false → m = 1) (hctx : ctx.waitsAt a.running = some s)
    (hself : (b.thread a.running).blockedAtSem = some s)
    (htokens : (b.thread a.running).tokensNeeded = m - (a.sem s).value)
    (hat : ∀ t ≠ a.running, b.thread t = a.thread t)
    (hsem : b.sem = Function.update a.sem s { a.sem s with value := 0 })
    (hasleep : b.asleep = a.asleep) (hrun : b.running = a.running)
    (hact : b.activity = .leaving ctx o) : b.Waits := by
  obtain ⟨hnb, hna⟩ := hp.running_free hl
  have hplace : ∀ t ≠ a.running, b.place t = a.place t := by
    intro t ht
    rw [place_of_ne ht, place_of_ne (hrun ▸ ht), hat t ht]
  refine ⟨fun t s' hb => ?_, fun t ht => ?_, fun _ _ hb => Waits.next_step hs hp hb⟩
  · by_cases htr : t = a.running
    · subst htr
      obtain rfl := Option.some.inj (hself.symm.trans hb)
      refine ⟨by simp [hsem, hactive], by simp [hsem], by omega, fun hj => ?_, ?_⟩
      · have := hunit hj
        omega
      · rw [← hrun, place_leaving hact, hrun]
        exact hctx
    · rw [hat t htr] at hb
      obtain ⟨h1, h2, h3, h4, h5⟩ := h.waitsAt t s' hb
      rw [← hat t htr] at h3 h4
      rw [← hplace t htr] at h5
      refine ⟨?_, ?_, h3, h4, h5⟩
      · rw [hsem]
        exact (update_active (by rfl) s').trans h1
      · rw [hsem, Function.update_apply]
        split
        · rfl
        · exact h2
  · rw [hasleep] at ht
    have htr : t ≠ a.running := fun e => hna (e ▸ ht)
    rw [hplace t htr, hat t htr]
    exact h.asleep t ht

/-- The running thread, which is about to leave, falls asleep. -/
theorem Waits.slept (h : a.Waits) (hs : a.Step b) (hp : a.Places) (hpb : b.Places) {ctx : Context}
    {n : Nat} (hl : a.activity = .leaving ctx (some n)) (hthread : b.thread = a.thread)
    (hsem : b.sem = a.sem) (hasleep : ∀ t ∈ b.asleep, t = a.running ∨ t ∈ a.asleep)
    (hself : b.place a.running = ctx) : b.Waits := by
  refine ⟨fun t s hb => ?_, fun t ht => ?_, fun _ _ hb => Waits.next_step hs hp hb⟩
  · have ha : (a.thread t).blockedAtSem = some s := hthread ▸ hb
    have hplace := hs.place hp hpb (t := t) (Or.inl (by rw [ha]; simp)) (Or.inl (by rw [hb]; simp))
    obtain ⟨h1, h2, h3, h4, h5⟩ := h.waitsAt t s ha
    rw [← hplace] at h5
    rw [← hthread] at h3 h4
    rw [← hsem] at h1 h2
    exact ⟨h1, h2, h3, h4, h5⟩
  · rw [hthread]
    by_cases htr : t = a.running
    · subst htr
      rw [hself]
      exact (h.next ctx n hl).imp (fun he => ⟨he.1, he.2.1⟩) id
    · have hm := (hasleep t ht).resolve_left htr
      rw [hs.place hp hpb (Or.inr hm) (Or.inr ht)]
      exact h.asleep t hm

/-- Every wait but that of `joinAll` asks for one token. -/
theorem WaitCall.unit {m : Nat} {ctx : Context} (h : a.WaitCall s m ctx)
    (hs : s.isJoinAll = false) : m = 1 := by
  cases h with
  | joinAll | timedJoinAll => cases hs
  | _ => rfl

theorem Step.openSem_fresh (hn : a.Names) {v : Nat} (hs : s = .opened a.semIDCounter ∨
    ∃ t, s ∈ SemPtr.own t ∧ s ∉ a.sems ∧ t ∉ a.threads ∧ t < a.IDCounter ∧ v = s.initial) :
    s ∉ a.sems := by
  rcases hs with rfl | ⟨_, _, h, _⟩
  · exact fun hm => lt_irrefl _ (hn.opened_lt _ hm)
  · exact h

theorem Waits.step (h : a.Waits) (hn : a.Names) (hp : a.Places) (hpb : b.Places) (ha : a.Alive)
    (hs : a.Step b) : b.Waits := by
  have hsem : ∀ t s, (a.thread t).blockedAtSem = some s →
      (a.sem s).active = true ∧ (a.sem s).value = 0 :=
    fun t s hb => ⟨(h.waitsAt t s hb).active, (h.waitsAt t s hb).value⟩
  have hno : ∀ {s}, a.queue s = [] → ∀ t, (a.thread t).blockedAtSem ≠ some s := by
    intro s hq t hb
    rw [← hp.mem_queue, hq] at hb
    cases hb
  have hs' := hs
  cases hs with
  | @block s m ctx o hw hact hv ht =>
    exact h.joined hs' hp (not_leaving_of hw.activity rfl) hact hv hw.unit hw.waitsAt
      (enqueue_self _) (enqueue_tokens _) (fun t ht => Function.update_of_ne ht _ _) rfl rfl rfl rfl
  | @fallAsleep ctx n hl =>
    refine h.slept hs' hp hpb hl rfl rfl (fun t ht => ?_) (place_leaving rfl)
    exact List.mem_cons.mp (asleep_fallAsleep.mem_iff.mp ht)
  | @part s n hl t rest hq hn hlt =>
    have hb := (hp.mem_queue t s).mp (by simp [hq])
    have hw := h.waitsAt t s hb
    have hj : s.isJoinAll = true := by
      by_contra hj
      have := hw.unit (by simpa using hj)
      omega
    refine h.same hs' hp hpb (fun u s' hu => ?_) hsem fun u hu =>
      ⟨hu, update_field Thread.blockedAtSem (by rfl) u⟩
    have hu' := (update_field Thread.blockedAtSem (by rfl) u).symm.trans hu
    refine ⟨hu', ?_⟩
    by_cases hut : u = t
    · subst hut
      obtain rfl := Option.some.inj (hb.symm.trans hu')
      refine Or.inr ⟨hj, ?_⟩
      simp only [setThread, Function.update_self]
      omega
    · exact Or.inl (congrArg Thread.tokensNeeded (Function.update_of_ne hut _ _))
  | @acquire s m =>
    refine h.same hs' hp hpb (fun t s hb => ?_) (fun t s' hb => ?_) fun t ht => ⟨ht, ?_⟩
    · exact ⟨(update_field Thread.blockedAtSem (by rfl) t).symm.trans hb,
          Or.inl (update_field Thread.tokensNeeded (by rfl) t)⟩
    · refine ⟨(update_active (by rfl) s').trans (hsem t s' hb).1, ?_⟩
      have hv := (hsem t s' hb).2
      by_cases he : s' = s
      · subst he
        simp [emit, setThread, setSem, hv]
      · simp [emit, setThread, setSem, he, hv]
    · exact update_field Thread.blockedAtSem (by rfl) t
  | @handEnd s n hl hq =>
    refine h.same hs' hp hpb (fun t s hb => ⟨hb, Or.inl rfl⟩) (fun t s' hb => ?_)
      fun t ht => ⟨ht, rfl⟩
    refine ⟨(update_active (by rfl) s').trans (hsem t s' hb).1, ?_⟩
    have hv := (hsem t s' hb).2
    by_cases he : s' = s
    · subst he
      rcases hq with hq | rfl
      · exact absurd hb (hno hq t)
      · simp [setSem, hv, u64]
    · simp [setSem, he, hv]
  | @releaseEnd s manner hl hq =>
    refine h.same hs' hp hpb (fun t s hb => ⟨hb, Or.inl rfl⟩) (fun t s' hb => ?_)
      fun t ht => ⟨ht, rfl⟩
    have he : s' ≠ s := by
      rintro rfl
      exact hno hq t hb
    rw [show Sys.sem _ s' = a.sem s' from Function.update_of_ne he _ _]
    exact hsem t s' hb
  | @openSem hc s v hv hs =>
    refine h.same hs' hp hpb (fun t s hb => ⟨hb, Or.inl rfl⟩) (fun t s' hb => ?_)
      fun t ht => ⟨ht, rfl⟩
    have he : s' ≠ s := by
      rintro rfl
      exact Step.openSem_fresh hn hs (ha.active_mem s' (hsem t s' hb).1)
    rw [show Sys.sem _ s' = a.sem s' from Function.update_of_ne he _ _]
    exact hsem t s' hb
  | @expire hl t | @grant s n hl t | @release s m hl t | @timeoutZero ctx hl s =>
    refine h.same hs' hp hpb
      (fun u s hb => ⟨(update_blocked rfl hb).1, Or.inl (update_blocked rfl hb).2⟩) hsem
      fun u hu => ?_
    have hu' := List.mem_filter.mp (asleep_awake ▸ hu)
    exact ⟨hu'.1, congrArg Thread.blockedAtSem (Function.update_of_ne (of_decide_eq_true hu'.2) _ _)⟩
  | @wake hl t =>
    refine h.same hs' hp hpb (fun u s hb => ⟨hb, Or.inl rfl⟩) hsem fun u hu => ⟨?_, rfl⟩
    exact (List.mem_filter.mp (asleep_awake ▸ hu)).1
  | @init hc t hnt hlt x hx =>
    refine h.same hs' hp hpb
      (fun u s hb => ⟨(update_blocked hx hb).1, Or.inl (update_blocked hx hb).2⟩) hsem
      fun u hu => ⟨hu, ?_⟩
    have hne : u ≠ t := by
      rintro rfl
      exact hnt (hp.live u (Or.inr (Or.inr hu))).1
    exact congrArg Thread.blockedAtSem (Function.update_of_ne hne _ _)
  | tick =>
    exact h.same hs' hp hpb (fun t s hb => ⟨hb, Or.inl rfl⟩) hsem fun t ht =>
      ⟨asleep_map ▸ ht, rfl⟩
  | _ =>
    refine h.same hs' hp hpb (fun t s hb => ?_) hsem fun t ht => ⟨ht, ?_⟩
    · first
      | exact ⟨(update_field Thread.blockedAtSem (by rfl) t).symm.trans hb,
          Or.inl (update_field Thread.tokensNeeded (by rfl) t)⟩
      | exact ⟨hb, Or.inl rfl⟩
    · first | exact update_field Thread.blockedAtSem (by rfl) t | rfl

/-! ## 3. The numbers on the sleep list

A thread falls asleep with a timeout that is not zero, and is put where the order says.  A tick
takes one off everybody; those who are then at zero are woken before anything else happens, which
is what the activity `ticking` is for. -/

/-- The deadlines are in ascending order, and small enough for the differences to be `time_t`s. -/
structure Ticks (a : Sys) : Prop where
  sorted : a.sleepers.Pairwise fun p q => p.2 ≤ q.2
  lt : ∀ p ∈ a.sleepers, p.2 < 2 ^ 64
  /-- Nobody is due, except while those who are due are woken. -/
  pos : a.activity ≠ .ticking → ∀ p ∈ a.sleepers, 1 ≤ p.2
  next : ∀ ctx n, a.activity = .leaving ctx (some n) → n < 2 ^ 64

/-- Sleepers leave, nobody joins them. -/
theorem Ticks.sublist (h : a.Ticks) (hs : a.Step b) (hsub : b.sleepers.Sublist a.sleepers)
    (hpos : b.activity ≠ .ticking → ∀ p ∈ b.sleepers, 1 ≤ p.2) : b.Ticks :=
  ⟨h.sorted.sublist hsub, fun p hp => h.lt p (hsub.mem hp), hpos,
    fun _ _ hb => (hs.next hb).2.2.1⟩

theorem Ticks.step (h : a.Ticks) (hs : a.Step b) : b.Ticks := by
  have hs' := hs
  cases hs with
  | tick hb =>
    refine ⟨?_, ?_, fun hne => absurd rfl hne, fun _ _ hb => (hs'.next hb).2.2.1⟩
    · exact List.pairwise_map.mpr (h.sorted.imp fun hle => Nat.sub_le_sub_right hle 1)
    · intro p hp
      obtain ⟨q, hq, rfl⟩ := List.mem_map.mp hp
      have := h.lt q hq
      exact (Nat.sub_le _ _).trans_lt this
  | tickEnd hl hhead =>
    refine h.sublist hs' (List.Sublist.refl _) fun _ p hp => ?_
    have hp' : p ∈ a.sleepers := hp
    have hsorted := h.sorted
    cases hsl : a.sleepers with
    | nil =>
      rw [hsl] at hp'
      cases hp'
    | cons q l =>
      rw [hsl] at hp' hsorted hhead
      have hq := hhead q rfl
      rcases List.mem_cons.mp hp' with rfl | hm
      · omega
      · have := (List.pairwise_cons.mp hsorted).1 p hm
        omega
  | @fallAsleep ctx n hl h1 =>
    have hmem : ∀ p ∈ DeltaList.insertBy a.running n a.sleepers,
        p = (a.running, n) ∨ p ∈ a.sleepers := fun p hp => DeltaList.mem_insertBy.mp hp
    refine ⟨DeltaList.insertBy_sorted h.sorted, fun p hp => ?_, fun _ p hp => ?_,
      fun _ _ hb => (hs'.next hb).2.2.1⟩
    · rcases hmem p hp with rfl | hp
      · exact h.next ctx n hl
      · exact h.lt p hp
    · rcases hmem p hp with rfl | hp
      · exact Nat.one_le_iff_ne_zero.mpr h1
      · exact h.pos (by rw [hl]; simp) p hp
  | expire hl | wake hl =>
    exact h.sublist hs' (List.filter_sublist) fun hne => absurd hl hne
  | grant hl | timeoutZero hl =>
    exact h.sublist hs' (List.filter_sublist) fun _ p hp =>
      h.pos (by rw [hl]; simp) p (List.mem_of_mem_filter hp)
  | release hl =>
    exact h.sublist hs' (List.filter_sublist) fun _ p hp =>
      h.pos (by rw [hl]; simp) p (List.mem_of_mem_filter hp)
  | switch hl | part hl | handEnd hl | releaseEnd hl | signalAll hl | retire hl | childSignals hl =>
    exact h.sublist hs' (List.Sublist.refl _) fun _ => h.pos (by rw [hl]; simp)
  | sleep hc | block hc | signal hc | close hc =>
    exact h.sublist hs' (List.Sublist.refl _) fun _ => h.pos (by rw [hc.activity]; simp)
  | _ => exact h.sublist hs' (List.Sublist.refl _) h.pos

/-! ## 4. Nobody is lost

The list of cases is the list of all places where the kernel can find a thread again.  A step takes
a thread out of one only when it puts it into another; `leaving` says so of the thread that is
about to be switched from without being put on the ready list. -/

structure Classified (a : Sys) : Prop where
  all : ∀ t ∈ a.threads, t = a.idle ∨ t = a.running ∨ (a.thread t).finished = true ∨ t ∈ a.ready ∨
    (a.thread t).blockedAtSem ≠ none ∨ t ∈ a.asleep ∨
    -- created without a body
    (a.thread t).hasBody = false ∧ (a.thread t).context = .threadWrapper
  leaving : ∀ ctx, a.activity = .leaving ctx none → (a.thread a.running).finished = true ∨
    (a.thread a.running).blockedAtSem ≠ none ∨ a.running ∈ a.asleep

/-- Who is about to be switched from has finished or is on a list. -/
theorem Step.leaving_none (hs : a.Step b) {ctx : Context} (hb : b.activity = .leaving ctx none) :
    (b.thread b.running).finished = true ∨ (b.thread b.running).blockedAtSem ≠ none ∨
      b.running ∈ b.asleep := by
  rcases hs.of_leaving with hl | ⟨_, -, rfl⟩ | ⟨_, _, -, -, rfl⟩ | ⟨_, _, -, -, rfl⟩
  · have hne : a.activity ≠ .leaving ctx none := by
      intro he
      rw [he] at hl
      cases hl
    cases hs with
    | block => exact Or.inr (Or.inl (ne_of_eq_of_ne (enqueue_self _) (by simp)))
    | retire => exact Or.inl (by simp [setThread])
    | fallAsleep =>
      exact Or.inr (Or.inr (asleep_fallAsleep.mem_iff.mpr List.mem_cons_self))
    | _ => first | cases hb | exact absurd hb hne
  · cases hb
  · exact Or.inr (Or.inr (asleep_fallAsleep.mem_iff.mpr List.mem_cons_self))
  · cases hb

/-- Who leaves the waiters or the sleepers is made ready, or runs. -/
theorem Classified.same (h : a.Classified) (hs : a.Step b) (hthreads : b.threads = a.threads)
    (hrun : b.running = a.running)
    (hready : ∀ t ∈ a.ready, t ∈ b.ready)
    (hat : ∀ t, (a.thread t).blockedAtSem ≠ none →
      t = a.running ∨ t ∈ b.ready ∨ (b.thread t).blockedAtSem ≠ none)
    (hasleep : ∀ t ∈ a.asleep, t ∈ b.ready ∨ t ∈ b.asleep) : b.Classified := by
  refine ⟨fun t ht => ?_, fun _ => hs.leaving_none⟩
  have hfin : (a.thread t).finished = true → (b.thread t).finished = true := by
    intro hf
    rcases hs.finished ht with he | ⟨-, -, he⟩
    · exact he.trans hf
    · exact he
  have hfix := hs.fixed ht
  simp only [Thread.fixed, Prod.mk.injEq] at hfix
  rw [hs.idle, hrun]
  by_cases htr : t = a.running
  · exact Or.inr (Or.inl htr)
  rw [hfix.2.1, hs.context ht htr]
  rcases h.all t (hthreads ▸ ht) with h | h | h | h | h | h | h
  · exact Or.inl h
  · exact Or.inr (Or.inl h)
  · exact Or.inr (Or.inr (Or.inl (hfin h)))
  · exact Or.inr (Or.inr (Or.inr (Or.inl (hready t h))))
  · rcases hat t h with h | h | h
    · exact Or.inr (Or.inl h)
    · exact Or.inr (Or.inr (Or.inr (Or.inl h)))
    · exact Or.inr (Or.inr (Or.inr (Or.inr (Or.inl h))))
  · rcases hasleep t h with h | h
    · exact Or.inr (Or.inr (Or.inr (Or.inl h)))
    · exact Or.inr (Or.inr (Or.inr (Or.inr (Or.inr (Or.inl h)))))
  · exact Or.inr (Or.inr (Or.inr (Or.inr (Or.inr (Or.inr h)))))

/-- The next thread is chosen, and this one is on a list or has finished. -/
theorem Classified.chosen (h : a.Classified) (hs : a.Step b) {l : List Tid}
    (hthreads : b.threads = a.threads) (hrun : b.running = (a.ready ++ l).headD a.idle)
    (hready : b.ready = (a.ready ++ l).tail)
    (hat : ∀ t, (b.thread t).blockedAtSem = (a.thread t).blockedAtSem)
    (hasleep : b.asleep = a.asleep)
    (hself : a.running = a.idle ∨ (a.thread a.running).finished = true ∨ a.running ∈ l ∨
      (a.thread a.running).blockedAtSem ≠ none ∨ a.running ∈ a.asleep) : b.Classified := by
  refine ⟨fun t ht => ?_, fun _ => hs.leaving_none⟩
  have hfin : (a.thread t).finished = true → (b.thread t).finished = true := by
    intro hf
    rcases hs.finished ht with he | ⟨-, -, he⟩
    · exact he.trans hf
    · exact he
  have hfix := hs.fixed ht
  simp only [Thread.fixed, Prod.mk.injEq] at hfix
  have hmem : ∀ t ∈ a.ready ++ l, t = b.running ∨ t ∈ b.ready := by
    intro t ht
    rw [hrun, hready]
    cases hl : a.ready ++ l with
    | nil =>
      rw [hl] at ht
      cases ht
    | cons u l =>
      rw [hl] at ht
      exact List.mem_cons.mp ht
  rw [hs.idle, hat, hasleep, hfix.2.1]
  have hall := h.all t (hthreads ▸ ht)
  by_cases htr : t = a.running
  · rw [← htr] at hself
    rcases hself with h | h | h | h
    · exact Or.inl h
    · exact Or.inr (Or.inr (Or.inl (hfin h)))
    · rcases hmem t (List.mem_append_right _ h) with h | h
      · exact Or.inr (Or.inl h)
      · exact Or.inr (Or.inr (Or.inr (Or.inl h)))
    · rcases h with h | h
      · exact Or.inr (Or.inr (Or.inr (Or.inr (Or.inl h))))
      · exact Or.inr (Or.inr (Or.inr (Or.inr (Or.inr (Or.inl h)))))
  · rw [hs.context ht htr]
    rcases hall with h | h | h | h | h
    · exact Or.inl h
    · exact absurd h htr
    · exact Or.inr (Or.inr (Or.inl (hfin h)))
    · rcases hmem t (List.mem_append_left _ h) with h | h
      · exact Or.inr (Or.inl h)
      · exact Or.inr (Or.inr (Or.inr (Or.inl h)))
    · exact Or.inr (Or.inr (Or.inr (Or.inr h)))

/-- A thread that is released is ready, and nobody else leaves a list. -/
theorem Classified.released (h : a.Classified) (hs : a.Step b) (hthreads : b.threads = a.threads)
    (hrun : b.running = a.running) (hready : b.ready = a.ready ++ [t])
    (hat : ∀ u ≠ t, (b.thread u).blockedAtSem = (a.thread u).blockedAtSem)
    (hasleep : b.asleep = a.asleep.filter (· ≠ t)) : b.Classified := by
  refine h.same hs hthreads hrun (fun u hu => ?_) (fun u hu => ?_) (fun u hu => ?_)
  · rw [hready]
    exact List.mem_append_left _ hu
  · by_cases hut : u = t
    · exact Or.inr (Or.inl (by simp [hready, hut]))
    · exact Or.inr (Or.inr (by rwa [hat u hut]))
  · by_cases hut : u = t
    · exact Or.inl (by simp [hready, hut])
    · exact Or.inr (by simp [hasleep, hu, hut])

theorem Classified.step (h : a.Classified) (hp : a.Places) (hs : a.Step b) : b.Classified := by
  have hs' := hs
  cases hs with
  | tick hb =>
    refine h.same hs' rfl rfl (fun _ ht => ht) (fun _ ht => Or.inr (Or.inr ht))
      fun t ht => Or.inr ?_
    show t ∈ (a.sleepers.map _).map Prod.fst
    rwa [asleep_map]
  | expire | grant | release =>
    exact h.released hs' rfl rfl rfl
      (fun u hu => congrArg Thread.blockedAtSem (Function.update_of_ne hu _ _)) asleep_awake
  | wake => exact h.released hs' rfl rfl rfl (fun _ _ => rfl) asleep_awake
  | preempt hb =>
    by_cases hi : a.running = a.idle
    · exact h.chosen (l := []) hs' rfl (by simp [choose, pushReady, hi])
        (by simp [choose, pushReady, hi]) (fun u => update_field Thread.blockedAtSem (by rfl) u) rfl
        (Or.inl hi)
    · exact h.chosen (l := [a.running]) hs' rfl (by simp [choose, pushReady, hi])
        (by simp [choose, pushReady, hi]) (fun u => update_field Thread.blockedAtSem (by rfl) u) rfl
        (Or.inr (Or.inr (Or.inl (by simp))))
  | switch hl =>
    exact h.chosen (l := []) hs' rfl (by simp [choose]) (by simp [choose])
      (fun u => update_field Thread.blockedAtSem (by rfl) u) rfl
      (Or.inr ((h.leaving _ hl).imp id Or.inr))
  | fallAsleep hl =>
    exact h.same hs' rfl rfl (fun _ ht => ht) (fun _ ht => Or.inr (Or.inr ht))
      fun t ht => Or.inr (asleep_fallAsleep.mem_iff.mpr (List.mem_cons_of_mem _ ht))
  | block =>
    refine h.same hs' rfl rfl (fun _ ht => ht) (fun t ht => ?_) fun _ ht => Or.inr ht
    by_cases htr : t = a.running
    · exact Or.inl htr
    · exact Or.inr (Or.inr (ne_of_eq_of_ne
        (congrArg Thread.blockedAtSem (Function.update_of_ne htr _ _)) ht))
  | timeoutZero hl =>
    have hna := hp.leaving_awake _ _ hl
    refine h.same hs' rfl rfl (fun _ ht => ht) (fun t ht => ?_) fun t ht => Or.inr ?_
    · by_cases htr : t = a.running
      · exact Or.inl htr
      · exact Or.inr (Or.inr (ne_of_eq_of_ne
          (congrArg Thread.blockedAtSem (Function.update_of_ne htr _ _)) ht))
    · have htr : t ≠ a.running := fun e => hna (e ▸ ht)
      show t ∈ (a.awake a.running).asleep
      rw [asleep_awake]
      exact List.mem_filter.mpr ⟨ht, decide_eq_true htr⟩
  | @init hc t hnt hlt x hx =>
    refine h.same hs' rfl rfl (fun _ ht => ht) (fun u hu => Or.inr (Or.inr ?_))
      fun _ ht => Or.inr ht
    have hne : u ≠ t := by
      rintro rfl
      exact hnt (hp.live u (Or.inr (Or.inl hu))).1
    exact ne_of_eq_of_ne (congrArg Thread.blockedAtSem (Function.update_of_ne hne _ _)) hu
  | @enlist hc t hnew hlt hroom hx =>
    refine ⟨fun u hu => ?_, fun _ => hs'.leaving_none⟩
    have hfix := hs'.fixed hu
    simp only [Thread.fixed, Prod.mk.injEq] at hfix
    rw [hfix.2.1, show (Sys.thread _ u).context = (a.thread u).context from
        update_field Thread.context (by rfl) u,
      show (Sys.thread _ u).finished = (a.thread u).finished from
        update_field Thread.finished (by rfl) u,
      show (Sys.thread _ u).blockedAtSem = (a.thread u).blockedAtSem from
        update_field Thread.blockedAtSem (by rfl) u]
    have hready : ∀ v ∈ a.ready, v ∈ if (a.thread t).hasBody then a.ready ++ [t] else a.ready := by
      intro v hv
      split
      · exact List.mem_append_left _ hv
      · exact hv
    rcases List.mem_append.mp hu with hu | hu
    · exact (h.all u hu).imp id (Or.imp id (Or.imp id (Or.imp (hready u) id)))
    · obtain rfl := List.mem_singleton.mp hu
      cases hbody : (a.thread u).hasBody with
      | true => exact Or.inr (Or.inr (Or.inr (Or.inl (by simp))))
      | false => exact Or.inr (Or.inr (Or.inr (Or.inr (Or.inr (Or.inr ⟨rfl, hx.1⟩)))))
  | _ =>
    refine h.same hs' rfl rfl (fun _ ht => ht) (fun t ht => Or.inr (Or.inr ?_))
      fun _ ht => Or.inr ht
    first
    | exact ne_of_eq_of_ne (update_field Thread.blockedAtSem (by rfl) t) ht
    | exact ht

/-! ## 5. Everything together -/

/-- The invariant.  The parts are kept one by one, but not independently: a step lemma above takes
the parts that it needs as hypotheses, and here they come together. -/
structure Inv (a : Sys) : Prop where
  places : a.Places
  names : a.Names
  alive : a.Alive
  console : a.Console
  contexts : a.Contexts
  waits : a.Waits
  ticks : a.Ticks
  classified : a.Classified

/-- **Every step keeps the invariant.** -/
theorem Inv.step (h : a.Inv) (hs : a.Step b) : b.Inv := by
  have hp := h.places.step h.names h.alive h.contexts hs
  exact
    { places := hp
      names := h.names.step h.alive.running_mem hs
      alive := h.alive.step h.names h.places hs
      console := h.console.step h.alive hs
      contexts := h.contexts.step h.names h.places h.alive h.console hs
      waits := h.waits.step h.names h.places hp h.alive hs
      ticks := h.ticks.step hs
      classified := h.classified.step h.places hs }

end Sys

end Os1Kernel
