/-
# Contexts

The context of a thread, and what the running thread is in the middle of, make sense: handles are
those of threads and semaphores that exist, the idle thread never waits, and no thread but the idle
one is chosen when it has finished.

There are three places where the kernel remembers what it is doing, and a predicate for each:

* the context of a suspended thread, with the handles that its call was made with (`ArgsOk`);
* the stage of the handler that is at work, which belongs to a call that the running thread may
  make (`StageOk`): a handler behind a wait is one of a thread that is not the idle one and has not
  finished;
* the loop that is running (`ActivityOk`), which is part of such a handler, or of a timer
  interrupt.

They are one invariant because a handler moves between the three: `wait` leaves its stage as the
context of the thread, and the thread takes it up from there when it goes on.  `Contexts.same`
covers the steps that stay within a handler, `Contexts.chosen` those that switch.
-/
import Os1Kernel.Spec.Objects

namespace Os1Kernel

namespace Sys

variable {a b : Sys} {t : Tid} {s : SemPtr}

/-! ## 1. The invariant

A handle in a context is that of a thread or of a semaphore that exists; a stage in the middle of a
handler says the same of the handles that are still needed. -/

/-- The handles in a context. -/
def ArgsOk (a : Sys) (t : Tid) : Context → Prop
  | .semWait s => (∃ n, s = .opened n) ∧ s ∈ a.sems
  | .join u | .send u _ => u ∈ a.threads ∧ u ≠ t
  | _ => True

theorem ArgsOk.mono {ctx : Context} (h : a.ArgsOk t ctx) (ht : ∀ u ∈ a.threads, u ∈ b.threads)
    (hs : ∀ s ∈ a.sems, s ∈ b.sems) : b.ArgsOk t ctx := by
  cases ctx with
  | semWait s => exact ⟨h.1, hs s h.2⟩
  | join u => exact ⟨ht u h.1, h.2⟩
  | send u msg => exact ⟨ht u h.1, h.2⟩
  | _ => exact trivial

/-- The handler that is at work belongs to a system call of a thread that may make it. -/
def StageOk (a : Sys) : Prop :=
  match a.stage with
  | .past ctx => a.running ≠ a.idle ∧ a.ArgsOk a.running ctx
  | .owes l => a.running ≠ a.idle ∧ ∀ s ∈ l, s ∈ a.sems
  | .taking | .putting .. => a.running ≠ a.idle
  | .code | .finishing | .left => True

def ActivityOk (a : Sys) : Prop :=
  match a.activity with
  | .ticking => a.stage = .code ∧ (a.thread a.running).context = .body
  | .leaving ctx timeout => a.stage = .code ∧ a.ArgsOk a.running ctx ∧
    (ctx = .finish ∧ timeout = .none ∨
      a.running ≠ a.idle ∧ (a.thread a.running).finished = false)
  | .none | .handing .. | .releasing .. => True

/-- Where the code of each thread goes on, and where the kernel is.  A suspended handler holds
pointers to what it works on; that these still exist is what makes its second half succeed. -/
structure Contexts (a : Sys) : Prop where
  /-- What a suspended call still holds exists. -/
  args : ∀ t ∈ a.threads, a.ArgsOk t (a.thread t).context
  stage : a.StageOk
  activity : a.ActivityOk
  /-- The idle thread makes no call that could block. -/
  idle : (a.thread a.idle).context.waitsAt a.idle = none ∧ (a.thread a.idle).context ≠ .sleep
  /-- Only the idle thread runs when it has finished. -/
  finished : (a.thread a.running).finished = true →
    a.running = a.idle ∨ a.activity.isLeaving = true

theorem Contexts.unfinished (h : a.Contexts) (ha : a.activity = .none) (hi : a.running ≠ a.idle) :
    (a.thread a.running).finished = false := by
  by_contra hf
  rcases h.finished (by simpa using hf) with he | hl
  · exact hi he
  · exact not_leaving ha hl

theorem Contexts.past (h : a.Contexts) {ctx : Context} (hs : a.stage = .past ctx) :
    a.running ≠ a.idle ∧ a.ArgsOk a.running ctx := by
  have := h.stage
  rwa [StageOk, hs] at this

theorem Contexts.owes (h : a.Contexts) {l : List SemPtr} (hs : a.stage = .owes l) :
    a.running ≠ a.idle ∧ ∀ s ∈ l, s ∈ a.sems := by
  have := h.stage
  rwa [StageOk, hs] at this

theorem Contexts.taking (h : a.Contexts) (hs : a.stage = .taking) : a.running ≠ a.idle := by
  have := h.stage
  rwa [StageOk, hs] at this

theorem Contexts.putting (h : a.Contexts) {b : BufferId} {c : UInt8}
    (hs : a.stage = .putting b c) : a.running ≠ a.idle := by
  have := h.stage
  rwa [StageOk, hs] at this

theorem Contexts.ticking (h : a.Contexts) (ha : a.activity = .ticking) :
    a.stage = .code ∧ (a.thread a.running).context = .body := by
  have := h.activity
  rwa [ActivityOk, ha] at this

theorem Contexts.leaving (h : a.Contexts) {ctx : Context} {o : Option Nat}
    (ha : a.activity = .leaving ctx o) : a.stage = .code ∧ a.ArgsOk a.running ctx ∧
      (ctx = .finish ∧ o = .none ∨ a.running ≠ a.idle ∧ (a.thread a.running).finished = false) := by
  have := h.activity
  rwa [ActivityOk, ha] at this

/-- The context of a wait has the handles it was called with. -/
theorem WaitCall.argsOk {m : Nat} {ctx : Context} (h : a.WaitCall s m ctx) (hc : a.Contexts) :
    a.running ≠ a.idle ∧ a.ArgsOk a.running ctx := by
  cases h with
  | semWait h hs => exact ⟨h.not_idle, ⟨_, rfl⟩, hs⟩
  | join h ht hne => exact ⟨h.not_idle, ht, hne⟩
  | send h ht hne => exact ⟨h.not_idle, ht, hne⟩
  | joinAll h | timedJoinAll h | receive h | get h => exact ⟨h.not_idle, trivial⟩
  | put _ hs => exact ⟨hc.putting hs, trivial⟩
  | putMutex _ hs | getMutex _ hs => exact ⟨(hc.past hs).1, trivial⟩

/-- The running thread can be put on a list. -/
theorem WaitCall.live {m : Nat} {ctx : Context} (h : a.WaitCall s m ctx) (hc : a.Contexts)
    (ha : a.Alive) : a.running ∈ a.threads ∧ a.running ≠ a.idle ∧
      (a.thread a.running).finished = false :=
  ⟨ha.running_mem, (h.argsOk hc).1, hc.unfinished h.activity (h.argsOk hc).1⟩

theorem Step.context (hs : a.Step b) (ht : t ∈ b.threads) (hne : t ≠ a.running) :
    (b.thread t).context = (a.thread t).context := by
  cases hs with
  | init h hnt =>
    have hne : t ≠ _ := fun e => hnt (e.subst ht)
    exact congrArg Thread.context (Function.update_of_ne hne _ _)
  | preempt | switch | leave => exact congrArg Thread.context (Function.update_of_ne hne _ _)
  | _ => first | exact update_field Thread.context (by rfl) t | rfl

/-! ## 2. Preservation

Contexts change where the running thread leaves or goes on, and the stage within its handler; the
rest is that what exists goes on existing. -/

theorem stageOk_code (h : a.stage = .code) : a.StageOk := by
  rw [StageOk, h]
  trivial

theorem activityOk_none (h : a.activity = .none) : a.ActivityOk := by
  rw [ActivityOk, h]
  trivial

theorem activityOk_ticking (h : a.activity = .ticking)
    (hb : a.stage = .code ∧ (a.thread a.running).context = .body) : a.ActivityOk := by
  rwa [ActivityOk, h]

theorem activityOk_releasing {manner : UnblockManner} (h : a.activity = .releasing s manner) :
    a.ActivityOk := by
  rw [ActivityOk, h]
  trivial

theorem stageOk_owes {l : List SemPtr} (h : a.stage = .owes l)
    (hb : a.running ≠ a.idle ∧ ∀ s ∈ l, s ∈ a.sems) : a.StageOk := by
  rwa [StageOk, h]

theorem Contexts.same (h : a.Contexts) (hn : a.Names) (hthreads : ∀ t ∈ a.threads, t ∈ b.threads)
    (hnew : ∀ t ∈ b.threads, t ∈ a.threads ∨ (b.thread t).context = .threadWrapper)
    (hsems : ∀ s ∈ a.sems, s ∈ b.sems) (hrun : b.running = a.running) (hidle : b.idle = a.idle)
    (hctx : ∀ t ∈ a.threads, (b.thread t).context = (a.thread t).context ∨
      (b.thread t).context = .body)
    (hfin : (b.thread a.running).finished = true →
      (a.thread a.running).finished = true ∧ a.activity.isLeaving = false ∨
        b.activity.isLeaving = true)
    (hstage : b.StageOk) (hact : b.ActivityOk) : b.Contexts := by
  refine ⟨fun t ht => ?_, hstage, hact, ?_, ?_⟩
  · rcases hnew t ht with ht | hw
    · rcases hctx t ht with hc | hc
      · rw [hc]
        exact (h.args t ht).mono hthreads hsems
      · rw [hc]
        trivial
    · rw [hw]
      trivial
  · rw [hidle]
    rcases hctx _ hn.idle_mem with hc | hc
    · rw [hc]
      exact h.idle
    · rw [hc]
      exact ⟨rfl, by decide⟩
  · rw [hrun, hidle]
    intro hf
    rcases hfin hf with ⟨hf, hl⟩ | hl
    · refine Or.inl ((h.finished hf).resolve_right ?_)
      rw [hl]
      decide
    · exact Or.inr hl

/-- The next thread is chosen, and this one will go on in the context `ctx`. -/
theorem Contexts.chosen (h : a.Contexts) {ctx : Context}
    (hargs : a.ArgsOk a.running ctx)
    (hidle' : a.running = a.idle → ctx.waitsAt a.idle = none ∧ ctx ≠ .sleep)
    (hready : ∀ t ∈ b.threads, t = b.running → t ≠ a.idle → (a.thread t).finished = false)
    (hthreads : b.threads = a.threads) (hsems : b.sems = a.sems) (hidle : b.idle = a.idle)
    (hself : (b.thread a.running).context = ctx)
    (hctx : ∀ t ≠ a.running, (b.thread t).context = (a.thread t).context)
    (hfin : ∀ t, (b.thread t).finished = (a.thread t).finished) (hb : b.running ∈ b.threads)
    (hstage : b.stage = .code) (hact : b.activity = .none) : b.Contexts := by
  refine ⟨fun t ht => ?_, stageOk_code hstage, activityOk_none hact, ?_, ?_⟩
  · have hmono : ∀ {ctx}, a.ArgsOk t ctx → b.ArgsOk t ctx := fun ho =>
      ho.mono (fun u hu => hthreads ▸ hu) (fun s hs => hsems ▸ hs)
    by_cases htr : t = a.running
    · subst htr
      rw [hself]
      exact hmono hargs
    · rw [hctx t htr]
      exact hmono (h.args t (hthreads ▸ ht))
  · rw [hidle]
    by_cases hi : a.running = a.idle
    · rw [← hi, hself, hi]
      exact hidle' hi
    · rw [hctx _ (Ne.symm hi)]
      exact h.idle
  · rw [hidle, hfin]
    intro hf
    by_contra hne
    rw [not_or] at hne
    rw [hready _ hb rfl hne.1] at hf
    cases hf

theorem choose_context (ctx : Context) : ((a.choose ctx).thread a.running).context = ctx := by
  simp [choose]

theorem Contexts.step (h : a.Contexts) (hn : a.Names) (hp : a.Places) (ha : a.Alive)
    (hcon : a.Console) (hs : a.Step b) : b.Contexts := by
  have hb := ha.step hn hp hs
  have hfree : ∀ {l : List Tid}, (∀ t ∈ l, (a.thread t).finished = false) →
      ∀ t, t = l.headD a.idle → t ≠ a.idle → (a.thread t).finished = false := by
    rintro l hl t rfl hne
    cases l with
    | nil => exact absurd rfl hne
    | cons t l => exact hl t List.mem_cons_self
  have hready : ∀ t ∈ a.ready, (a.thread t).finished = false :=
    fun t ht => (hp.live t (Or.inl ht)).2.2
  cases hs with
  | preempt hbody hc =>
    refine h.chosen ?_ ?_ ?_ rfl rfl rfl (choose_context _)
      (fun t ht => congrArg Thread.context (Function.update_of_ne ht _ _))
      (fun t => update_field Thread.finished (by rfl) t) hb.running_mem hbody.stage hbody.activity
    · rcases hc with rfl | rfl <;> trivial
    · rintro -
      rcases hc with rfl | rfl <;> exact ⟨rfl, by decide⟩
    · refine fun t _ => hfree ?_ t
      intro t ht
      simp only [pushReady] at ht
      split at ht
      · exact hready t ht
      · next hi =>
        rcases List.mem_append.mp ht with ht | ht
        · exact hready t ht
        · rw [List.mem_singleton.mp ht]
          exact h.unfinished hbody.activity hi
  | switch hl =>
    obtain ⟨hst, hargs, hor⟩ := h.leaving hl
    refine h.chosen hargs ?_ ?_ rfl rfl rfl (choose_context _)
      (fun t ht => congrArg Thread.context (Function.update_of_ne ht _ _))
      (fun t => update_field Thread.finished (by rfl) t) hb.running_mem hst rfl
    · intro hi
      rcases hor with ⟨rfl, -⟩ | ⟨hne, -⟩
      · exact ⟨rfl, by decide⟩
      · exact absurd hi hne
    · exact fun t _ => hfree hready t
  | tick hbody =>
    exact h.same hn (fun _ ht => ht) (fun _ ht => Or.inl ht) (fun _ hs => hs) rfl rfl
      (fun _ _ => Or.inl rfl) (fun hf => Or.inl ⟨hf, by rw [hbody.activity]; rfl⟩)
      (stageOk_code hbody.stage) ⟨hbody.stage, hbody.context⟩
  | expire hl | wake hl =>
    obtain ⟨hst, hc⟩ := h.ticking hl
    refine h.same hn (fun _ ht => ht) (fun _ ht => Or.inl ht) (fun _ hs => hs) rfl rfl
      (fun t _ => Or.inl ?_) (fun hf => Or.inl ⟨?_, by rw [hl]; rfl⟩) (stageOk_code hst) ?_
    · first | exact update_field Thread.context (by rfl) t | rfl
    · first | exact (update_field Thread.finished (by rfl) _).symm.trans hf | exact hf
    · refine activityOk_ticking hl ⟨hst, Eq.trans ?_ hc⟩
      first | exact update_field Thread.context (by rfl) _ | rfl
  | sleep hc =>
    exact h.same hn (fun _ ht => ht) (fun _ ht => Or.inl ht) (fun _ hs => hs) rfl rfl
      (fun _ _ => Or.inl rfl) (fun _ => Or.inr rfl) (stageOk_code hc.stage)
      ⟨hc.stage, trivial, Or.inr ⟨hc.not_idle, h.unfinished hc.activity hc.not_idle⟩⟩
  | fallAsleep hl =>
    obtain ⟨hst, hargs, hor⟩ := h.leaving hl
    refine h.same hn (fun _ ht => ht) (fun _ ht => Or.inl ht) (fun _ hs => hs) rfl rfl
      (fun _ _ => Or.inl rfl) (fun _ => Or.inr rfl) (stageOk_code hst) ⟨hst, hargs, Or.inr ?_⟩
    exact hor.resolve_left fun he => by cases he.2
  | block hw ha hv =>
    refine h.same hn (fun _ ht => ht) (fun _ ht => Or.inl ht) (fun _ hs => hs) rfl rfl
      (fun t _ => Or.inl (update_field Thread.context (by rfl) t)) (fun _ => Or.inr rfl) trivial
      ⟨rfl, (hw.argsOk h).2, Or.inr ⟨(hw.argsOk h).1, ?_⟩⟩
    exact (update_field Thread.finished (by rfl) _).trans (h.unfinished hw.activity (hw.argsOk h).1)
  | timeoutZero hl =>
    obtain ⟨hst, hargs, hor⟩ := h.leaving hl
    have hr := hor.resolve_left fun he => by cases he.2
    refine h.same hn (fun _ ht => ht) (fun _ ht => Or.inl ht) (fun _ hs => hs) rfl rfl
      (fun t _ => Or.inl (update_field Thread.context (by rfl) t)) (fun hf => ?_) ⟨hr.1, hargs⟩
      (activityOk_none rfl)
    have hf' := (update_field Thread.finished (by rfl) a.running).symm.trans hf
    rw [hr.2] at hf'
    cases hf'
  | retire ha hs hc =>
    exact h.same hn (fun _ ht => ht) (fun _ ht => Or.inl ht) (fun _ hs => hs) rfl rfl
      (fun t _ => Or.inl (update_field Thread.context (by rfl) t)) (fun _ => Or.inr rfl) trivial
      ⟨rfl, trivial, Or.inl ⟨rfl, rfl⟩⟩
  | leave hl =>
    refine h.same hn (fun _ ht => ht) (fun _ ht => Or.inl ht) (fun _ hs => hs) rfl rfl
      (fun t _ => ?_) (fun hf => Or.inl ⟨?_, by rw [hl]; rfl⟩) trivial (activityOk_none hl)
    · by_cases ht : t = a.running
      · exact Or.inr (by simp [ht, setThread])
      · exact Or.inl (congrArg Thread.context (Function.update_of_ne ht _ _))
    · exact (update_field Thread.finished (by rfl) _).symm.trans hf
  | enlist hc hnew hlt hroom hx =>
    refine h.same hn (fun _ ht => List.mem_append_left _ ht) (fun t ht => ?_) (fun _ hs => hs) rfl
      rfl (fun t _ => Or.inl (update_field Thread.context (by rfl) t))
      (fun hf => Or.inl ⟨(update_field Thread.finished (by rfl) _).symm.trans hf, ?_⟩)
      (stageOk_code hc.stage) (activityOk_none hc.activity)
    · refine (List.mem_append.mp ht).imp id fun ht => ?_
      obtain rfl := List.mem_singleton.mp ht
      exact (update_field Thread.context (by rfl) _).trans hx.1
    · rw [hc.activity]
      rfl
  | openSem hc =>
    exact h.same hn (fun _ ht => ht) (fun _ ht => Or.inl ht)
      (fun _ hs => List.mem_append_left _ hs) rfl rfl (fun _ _ => Or.inl rfl)
      (fun hf => Or.inl ⟨hf, by rw [hc.activity]; rfl⟩) (stageOk_code hc.stage)
      (activityOk_none hc.activity)
  | init hc hnt =>
    refine h.same hn (fun _ ht => ht) (fun _ ht => Or.inl ht) (fun _ hs => hs) rfl rfl
      (fun t ht => Or.inl ?_) (fun hf => Or.inl ⟨?_, by rw [hc.activity]; rfl⟩)
      (stageOk_code hc.stage) (activityOk_none hc.activity)
    · have hne : t ≠ _ := fun e => hnt (e.subst ht)
      exact congrArg Thread.context (Function.update_of_ne hne _ _)
    · have hne : a.running ≠ _ := fun e => hnt (e.subst ha.running_mem)
      exact (congrArg Thread.finished (Function.update_of_ne hne _ _)).symm.trans hf
  | acquire hw | dead hw =>
    refine h.same hn (fun _ ht => ht) (fun _ ht => Or.inl ht) (fun _ hs => hs) rfl rfl
      (fun t _ => Or.inl ?_) (fun hf => Or.inl ⟨?_, by rw [hw.activity]; rfl⟩) (hw.argsOk h)
      (activityOk_none hw.activity)
    · first | exact update_field Thread.context (by rfl) t | rfl
    · first | exact (update_field Thread.finished (by rfl) _).symm.trans hf | exact hf
  | tryFail hc =>
    exact h.same hn (fun _ ht => ht) (fun _ ht => Or.inl ht) (fun _ hs => hs) rfl rfl
      (fun t _ => Or.inl (update_field Thread.context (by rfl) t))
      (fun hf => Or.inl ⟨(update_field Thread.finished (by rfl) _).symm.trans hf,
        by rw [hc.activity]; rfl⟩) (stageOk_code hc.stage) (activityOk_none hc.activity)
  | putting hc =>
    exact h.same hn (fun _ ht => ht) (fun _ ht => Or.inl ht) (fun _ hs => hs) rfl rfl
      (fun _ _ => Or.inl rfl) (fun hf => Or.inl ⟨hf, by rw [hc.activity]; rfl⟩) hc.not_idle
      (activityOk_none hc.activity)
  | endWait hact hs hc =>
    refine h.same hn (fun _ ht => ht) (fun _ ht => Or.inl ht) (fun _ hs => hs) rfl rfl
      (fun t _ => Or.inl rfl) (fun hf => Or.inl ⟨hf, by rw [hact]; rfl⟩)
      ⟨fun hi => ?_, h.args _ ha.running_mem⟩ (activityOk_none hact)
    have hi' : a.running = a.idle := hi
    rw [hi', h.idle.1] at hc
    cases hc
  | signal hc =>
    refine h.same hn (fun _ ht => ht) (fun _ ht => Or.inl ht) (fun _ hs => hs) rfl rfl
      (fun t _ => Or.inl rfl) (fun hf => Or.inl ⟨hf, by rw [hc.activity]; rfl⟩) ?_ trivial
    cases hc with
    | semSignal => trivial
    | owed _ hs => exact ⟨(h.owes hs).1, fun s hsl => (h.owes hs).2 s (List.mem_cons_of_mem _ hsl)⟩
    | slot _ hs => exact (h.past hs).1
  | skip hc =>
    refine h.same hn (fun _ ht => ht) (fun _ ht => Or.inl ht) (fun _ hs => hs) rfl rfl
      (fun t _ => Or.inl rfl) (fun hf => Or.inl ⟨hf, by rw [hc.activity]; rfl⟩) ?_
      (activityOk_none hc.activity)
    cases hc with
    | semSignal => trivial
    | owed _ hs => exact ⟨(h.owes hs).1, fun s hsl => (h.owes hs).2 s (List.mem_cons_of_mem _ hsl)⟩
    | slot _ hs => exact (h.past hs).1
  | write hact hs =>
    refine h.same hn (fun _ ht => ht) (fun _ ht => Or.inl ht) (fun _ hs => hs) rfl rfl
      (fun t _ => Or.inl (update_field Thread.context (by rfl) t))
      (fun hf => Or.inl ⟨(update_field Thread.finished (by rfl) _).symm.trans hf,
        by rw [hact]; rfl⟩) ?_ (activityOk_none hact)
    obtain ⟨hi, ht, -⟩ := h.past hs
    refine stageOk_owes rfl ⟨hi, fun s hsl => ?_⟩
    rw [List.mem_singleton.mp hsl]
    exact hn.own_mem _ ht _ (by simp [SemPtr.own])
  | received hact hs =>
    exact h.same hn (fun _ ht => ht) (fun _ ht => Or.inl ht) (fun _ hs => hs) rfl rfl
      (fun t _ => Or.inl rfl) (fun hf => Or.inl ⟨hf, by rw [hact]; rfl⟩)
      (stageOk_owes rfl ⟨h.taking hs, by simp⟩) (activityOk_none hact)
  | @putChar hact i _ hs | @getChar hact i hs =>
    refine h.same hn (fun _ ht => ht) (fun _ ht => Or.inl ht) (fun _ hs => hs) rfl rfl
      (fun t _ => Or.inl rfl) (fun hf => Or.inl ⟨hf, by rw [hact]; rfl⟩)
      (stageOk_owes rfl ⟨(h.past hs).1, fun s hsl => ?_⟩) (activityOk_none hact)
    refine ha.active_mem s (hcon.active i s ?_)
    simp only [consoleSems, List.mem_cons, List.not_mem_nil, or_false] at hsl ⊢
    grind
  | finish hbody =>
    exact h.same hn (fun _ ht => ht) (fun _ ht => Or.inl ht) (fun _ hs => hs) rfl rfl
      (fun t _ => Or.inl rfl) (fun hf => Or.inl ⟨hf, by rw [hbody.activity]; rfl⟩) trivial
      (activityOk_none hbody.activity)
  | noParent hact | childLeaves hact | childSignals hact =>
    refine h.same hn (fun _ ht => ht) (fun _ ht => Or.inl ht) (fun _ hs => hs) rfl rfl
      (fun t _ => Or.inl ?_) (fun hf => Or.inl ⟨?_, by rw [hact]; rfl⟩) trivial ?_
    · first | exact update_field Thread.context (by rfl) t | rfl
    · first | exact (update_field Thread.finished (by rfl) _).symm.trans hf | exact hf
    · first | exact activityOk_none hact | exact trivial
  | close hc | allocate hc | store hc =>
    refine h.same hn (fun _ ht => ht) (fun _ ht => Or.inl ht) (fun _ hs => hs) rfl rfl
      (fun t _ => Or.inl rfl) (fun hf => Or.inl ⟨hf, by rw [hc.activity]; rfl⟩) h.stage ?_
    first | exact trivial | exact activityOk_none hc.activity
  | signalAll hact | tickEnd hact =>
    exact h.same hn (fun _ ht => ht) (fun _ ht => Or.inl ht) (fun _ hs => hs) rfl rfl
      (fun t _ => Or.inl rfl) (fun hf => Or.inl ⟨hf, by rw [hact]; rfl⟩) h.stage trivial
  | grant hl | part hl | handEnd hl | release hl | releaseEnd hl =>
    refine h.same hn (fun _ ht => ht) (fun _ ht => Or.inl ht) (fun _ hs => hs) rfl rfl
      (fun t _ => Or.inl ?_) (fun hf => Or.inl ⟨?_, by rw [hl]; rfl⟩) h.stage ?_
    · first | exact update_field Thread.context (by rfl) t | rfl
    · first | exact (update_field Thread.finished (by rfl) _).symm.trans hf | exact hf
    · first | exact trivial | exact activityOk_releasing hl

end Sys

end Os1Kernel
