/-
# Every thread is in exactly one situation

Between two steps of the machine a thread runs, is on the ready list once, waits, or has finished,
and exactly one of these; `blockedAtSem` and `sleeps` say on which lists it is; and every list is a
chain that ends at its tail.

* That a thread is in at most one situation, and that the lists have no repetitions, is the
  invariant `Places` of the abstract system, carried over by the representation relation.
* That it is in at least one is different: a thread could be on no list at all.  This is a part of
  the invariant of its own (`classified`), which has one more case, a thread that has been created
  without a start routine and has never run.
* So the statement is for runs that create none of these; there the invariant `Bodies` says that
  only `main` has no body, and `main` runs from the start (section 2).
-/
import Os1Kernel.Kernel.Frame
import Os1Kernel.Refine.Boot

namespace Os1Kernel

open Linked Simulation

variable {c k : Kernel} {a b : Sys} {t : Tid} {s : SemPtr} {raw : Tid → Message}
  {rawBuffer : BufferId → Vector UInt8 bufferLength}

/-! ## 1. The statement -/

inductive Situation
  | running
  | ready
  | waiting
  | finished

/-- The thread is in this situation. -/
def Kernel.situated (k : Kernel) (t : Tid) : Situation → Prop
  | .running => k.running = some t
  | .ready => k.readyList.count t = 1
  | .waiting => ((k.tcb t).blockedAtSem ≠ none ∨ (k.tcb t).sleeps = true) ∧
    k.running ≠ some t ∧ t ∉ k.readyList
  | .finished => (k.tcb t).finished = true ∧ t ∉ k.readyList ∧ (∀ s, t ∉ k.blockedList s) ∧
    t ∉ k.sleepList

/-- The situation of each thread, and how the fields and the lists of the kernel show it. -/
structure Kernel.Exclusive (k : Kernel) : Prop where
  situation : ∀ t ∈ k.tcbList, k.idle ≠ some t → ∃! situation, k.situated t situation
  blocked : ∀ t s, (k.tcb t).blockedAtSem = some s ↔
    (k.blockedList s).count t = 1 ∧ ∀ s', s' ≠ s → t ∉ k.blockedList s'
  sleeps : ∀ t, (k.tcb t).sleeps = true ↔ k.sleepList.count t = 1
  readyQueue : IsQueue (fun t => (k.tcb t).nextReady) k.readyHead k.readyTail k.readyList ∧
    k.readyList.Nodup
  blockedQueue : ∀ s, IsQueue (fun t => (k.tcb t).nextSemBlocked) (k.sem s).blockedHead
    (k.sem s).blockedTail (k.blockedList s) ∧ (k.blockedList s).Nodup
  sleepChain : Chain (fun t => (k.tcb t).nextSleep) k.sleepHead k.sleepList ∧ k.sleepList.Nodup

/-- The step creates no thread without a start routine. -/
def Act.withRoutine : Act → Bool
  | .ecall (.threadCreate start_routine ..) => start_routine
  | _ => true

/-! ## 2. Threads without a body -/

/-- Only `main` has been created without a body. -/
def Kernel.Bodies (k : Kernel) : Prop := ∀ t p, .created t p false ∈ k.history → t = 0

/-- Whatever is noted but the creation of a thread without a body. -/
theorem bodies_cons {e : Event} {l : List Event} (he : ∀ t p, e ≠ .created t p false)
    (h : ∀ t p, .created t p false ∈ l → t = 0) : ∀ t p, .created t p false ∈ e :: l → t = 0 :=
  fun t p hm => h t p ((List.mem_cons.mp hm).resolve_left fun hc => he t p hc.symm)

theorem step_bodies {act : Act} (hact : act.withRoutine = true) (h : k.Bodies) {k' : Kernel}
    (hs : step k act = some k') : k'.Bodies := by
  refine step_history (Q := fun _ l => ∀ t p, Event.created t p false ∈ l → t = 0)
    (fun i e l he => bodies_cons ?_) h hs
  rintro t p rfl
  obtain ⟨space, mem, rfl⟩ := he
  cases hact

/-- The thread that was created without a body. -/
def Event.bodiless : Event → Option Tid
  | .created t _ false => some t
  | _ => none

theorem consoleReady_bodiless :
    (Sys.consoleReady raw rawBuffer).history.filterMap Event.bodiless = [0] := rfl

/-- `main` creates no other thread without a body. -/
theorem boot_bodies (h : boot raw rawBuffer = some k) : k.Bodies := by
  refine boot_history (Q := fun _ l => ∀ t p, Event.created t p false ∈ l → t = 0) raw rawBuffer
    (fun i e l he => bodies_cons (by rintro t p rfl; cases he))
    (fun _ _ _ _ => bodies_cons nofun) (fun t p hm => ?_) h
  have : t ∈ (Sys.consoleReady raw rawBuffer).history.filterMap Event.bodiless :=
    List.mem_filterMap.mpr ⟨_, hm, rfl⟩
  rwa [consoleReady_bodiless, List.mem_singleton] at this

namespace Sys

/-- The creation of each thread is in the history, and `main` runs. -/
structure Bodied (a : Sys) : Prop where
  created : ∀ t ∈ a.threads, ∃ p, .created t p (a.thread t).hasBody ∈ a.history
  master : (a.thread 0).context ≠ .threadWrapper
  leaving : ∀ ctx o, a.activity = .leaving ctx o → ctx ≠ .threadWrapper

theorem WaitCall.ne_threadWrapper {m : Nat} {ctx : Context} (h : a.WaitCall s m ctx) :
    ctx ≠ .threadWrapper := by
  cases h <;> nofun

theorem Bodied.step (h : a.Bodied) (h0 : 0 ∈ a.threads) (hs : a.Step b) :
    b.Bodied := by
  have hfix : ∀ t ∈ b.threads, (b.thread t).hasBody = (a.thread t).hasBody := fun t ht =>
    congrArg (fun x => x.2.1) (hs.fixed ht)
  have hcreated : ∀ t ∈ a.threads, ∃ p, .created t p (b.thread t).hasBody ∈ b.history := by
    intro t ht
    obtain ⟨p, hp⟩ := h.created t ht
    obtain ⟨l, hl⟩ := hs.history
    rw [hfix t (hs.threads t ht), hl]
    exact ⟨p, List.mem_append_right _ hp⟩
  refine ⟨fun t ht => ?_, ?_, ?_⟩
  · by_cases hta : t ∈ a.threads
    · exact hcreated t hta
    rw [hfix t ht]
    cases hs with
    | enlist =>
      obtain rfl := List.mem_singleton.mp ((List.mem_append.mp ht).resolve_left hta)
      exact ⟨_, List.mem_cons_self⟩
    | _ => exact absurd ht hta
  · by_cases hr : 0 = a.running
    swap
    · rw [hs.context (hs.threads 0 h0) hr]
      exact h.master
    have hself : ∀ {x : Thread}, x.context ≠ .threadWrapper →
        (Function.update a.thread a.running x 0).context ≠ .threadWrapper := by
      intro x hx
      rwa [← hr, Function.update_self]
    cases hs with
    | preempt hb hc => exact hself (by rcases hc with rfl | rfl <;> nofun)
    | switch hl => exact hself (h.leaving _ _ hl)
    | leave => exact hself nofun
    | @init hc t hnt =>
      have hne : 0 ≠ t := fun e => hnt (e ▸ h0)
      rw [show Sys.thread _ 0 = a.thread 0 from Function.update_of_ne hne _ _]
      exact h.master
    | _ =>
      refine ne_of_eq_of_ne ?_ h.master
      first | exact update_field Thread.context (by rfl) 0 | rfl
  · intro ctx o ho
    cases hs with
    | sleep => cases ho; nofun
    | block hw => cases ho; exact hw.ne_threadWrapper
    | retire => cases ho; nofun
    | fallAsleep hl => cases ho; exact h.leaving _ _ hl
    | _ => first | cases ho | exact h.leaving ctx o ho

theorem consoleReady_bodied : (consoleReady raw rawBuffer).Bodied where
  created t ht := by
    rw [consoleReady_threads] at ht
    simp only [List.mem_cons, List.not_mem_nil, or_false] at ht
    rw [consoleReady_history]
    rcases ht with rfl | rfl
    · exact ⟨none, by simp [consoleReady_master, masterThread, newThread]⟩
    · exact ⟨some 0, by simp [consoleReady_idle, idleThread, newThread]⟩
  master := by
    rw [consoleReady_master]
    simp
  leaving _ _ h := by cases h

/-- `main` is always there. -/
theorem Steps.bodied (hs : (consoleReady raw rawBuffer).Steps a) : 0 ∈ a.threads ∧ a.Bodied := by
  refine Steps.invariant (P := fun a => 0 ∈ a.threads ∧ a.Bodied) (fun _ h hs => ?_)
    (consoleReady_inv raw rawBuffer) ⟨List.mem_cons_self, consoleReady_bodied⟩ hs
  exact ⟨hs.threads 0 h.1, h.2.step h.1 hs⟩

end Sys

/-! ## 3. The situations -/

/-- The situations in the transition system. -/
def Sys.situated (a : Sys) (t : Tid) : Situation → Prop
  | .running => t = a.running
  | .ready => t ∈ a.ready
  | .waiting => (a.thread t).blockedAtSem ≠ none ∨ t ∈ a.asleep
  | .finished => (a.thread t).finished = true

theorem Sys.Inv.situation_unique (h : a.Inv) (ha : a.activity = .none) (hi : t ≠ a.idle)
    {x y : Situation} (hx : a.situated t x) (hy : a.situated t y) : x = y := by
  have hrun : t = a.running → t ∉ a.ready ∧
      ¬ ((a.thread t).blockedAtSem ≠ none ∨ t ∈ a.asleep) ∧ (a.thread t).finished = false := by
    rintro rfl
    obtain ⟨hb, hs⟩ := h.free ha
    exact ⟨h.places.running_ready, by simp [hb, hs], h.contexts.unfinished ha hi⟩
  have hready : t ∈ a.ready → ¬ ((a.thread t).blockedAtSem ≠ none ∨ t ∈ a.asleep) := by
    intro ht
    obtain ⟨hb, hs⟩ := h.places.ready_awake t ht
    simp [hb, hs]
  have hlive : t ∈ a.ready ∨ ((a.thread t).blockedAtSem ≠ none ∨ t ∈ a.asleep) →
      ¬ (a.thread t).finished = true := by
    intro ht hf
    rw [(h.places.live t ht).2.2] at hf
    cases hf
  cases x <;> cases y <;> simp only [Sys.situated] at hx hy <;> grind

theorem Shows.situated_iff (h : Shows k a) (t : Tid) (x : Situation) :
    k.situated t x ↔ a.situated t x := by
  have hp := h.inv.places
  have hx := h.rep.thread_apply t
  have hfin : (k.tcb t).finished = (a.thread t).finished := congrArg Thread.finished hx
  have hat : (k.tcb t).blockedAtSem = (a.thread t).blockedAtSem := congrArg Thread.blockedAtSem hx
  cases x with
  | running =>
    show k.running = some t ↔ t = a.running
    rw [h.rep.running, Option.some_inj, eq_comm]
  | ready =>
    show k.readyList.count t = 1 ↔ t ∈ a.ready
    rw [h.readyList_eq]
    exact ⟨fun hc => List.count_pos_iff.mp (by omega), List.count_eq_one_of_mem hp.ready_nodup⟩
  | waiting =>
    simp only [Kernel.situated, Sys.situated, hat, h.rep.sleeps_eq t, h.rep.running, h.readyList_eq,
      decide_eq_true_eq]
    refine ⟨And.left, fun hw => ⟨hw, ?_, fun hr => ?_⟩⟩
    · intro hr
      obtain rfl := Option.some.inj hr
      obtain ⟨hb, hs⟩ := h.inv.free h.idle.activity
      exact hw.elim (fun hn => hn hb) hs
    · obtain ⟨hb, hs⟩ := hp.ready_awake t hr
      exact hw.elim (fun hn => hn hb) hs
  | finished =>
    simp only [Kernel.situated, Sys.situated, hfin, h.readyList_eq, h.sleepList_eq,
      h.blockedList_eq]
    refine ⟨And.left, fun hf => ?_⟩
    have hlive : ∀ {l : Prop}, (l → t ∈ a.ready ∨ (a.thread t).blockedAtSem ≠ none ∨
        t ∈ a.asleep) → ¬ l := by
      intro l hl ht
      rw [(hp.live t (hl ht)).2.2] at hf
      cases hf
    refine ⟨hf, hlive Or.inl, fun s => hlive fun ht => Or.inr (Or.inl ?_),
      hlive fun ht => Or.inr (Or.inr ht)⟩
    rw [(hp.mem_queue t s).mp ht]
    nofun

/-- Every thread is in some situation. -/
theorem Sys.Inv.situation_exists (h : a.Inv) (ht : t ∈ a.threads) (hi : t ≠ a.idle)
    (hb : (a.thread t).hasBody = false → (a.thread t).context ≠ .threadWrapper) :
    ∃ x, a.situated t x := by
  rcases h.classified.all t ht with h | h | h | h | h | h | ⟨h, hc⟩
  · exact absurd h hi
  · exact ⟨.running, h⟩
  · exact ⟨.finished, h⟩
  · exact ⟨.ready, h⟩
  · exact ⟨.waiting, Or.inl h⟩
  · exact ⟨.waiting, Or.inr h⟩
  · exact absurd hc (hb h)

theorem Shows.exclusive (h : Shows k a) (hmain : a.Bodied) (hk : k.Bodies) : k.Exclusive := by
  have hp := h.inv.places
  have hat : ∀ t, (k.tcb t).blockedAtSem = (a.thread t).blockedAtSem :=
    fun t => congrArg Thread.blockedAtSem (h.rep.thread_apply t)
  constructor
  · intro t ht hi
    rw [h.tcbList_eq] at ht
    have hi' : t ≠ a.idle := fun e => hi (h.rep.idle.trans (congrArg some e.symm))
    obtain ⟨x, hx⟩ := h.inv.situation_exists ht hi' fun hbody => by
      obtain ⟨p, hcr⟩ := hmain.created t ht
      rw [hbody, ← congrArg Core.history h.rep.core] at hcr
      rw [hk t p hcr]
      exact hmain.master
    refine ⟨x, (h.situated_iff t x).mpr hx, fun y hy => ?_⟩
    exact h.inv.situation_unique h.idle.activity hi' ((h.situated_iff t y).mp hy) hx
  · intro t s
    simp only [hat, h.blockedList_eq, ← hp.mem_queue]
    constructor
    · intro ht
      refine ⟨List.count_eq_one_of_mem (hp.queue_nodup s) ht, fun s' hs hm => hs ?_⟩
      rw [hp.mem_queue] at ht hm
      exact Option.some.inj (hm.symm.trans ht)
    · exact fun hc => List.count_pos_iff.mp (by omega)
  · intro t
    rw [h.rep.sleeps_eq, h.sleepList_eq, decide_eq_true_eq]
    exact ⟨List.count_eq_one_of_mem hp.asleep_nodup, fun hc => List.count_pos_iff.mp (by omega)⟩
  · rw [h.readyList_eq]
    exact ⟨h.rep.ready, hp.ready_nodup⟩
  · intro s
    rw [h.blockedList_eq]
    exact ⟨h.rep.queue s, hp.queue_nodup s⟩
  · rw [h.sleepList_eq]
    exact ⟨h.rep.asleep, hp.asleep_nodup⟩

/-! ## 4. Every run -/

/-- **In every reachable state every thread but the idle one is in exactly one situation**, if each
thread was created with a start routine; its fields say which, and the lists are well formed. -/
theorem exclusive_situations {k₀ : Kernel} {acts : List Act} (hboot : boot raw rawBuffer = some k₀)
    (hacts : ∀ act ∈ acts, act.withRoutine = true) (hrun : Run.run step k₀ acts = some k) :
    k.Exclusive := by
  obtain ⟨k₁, a₁, hk₁, hs₁, hshow₁⟩ := boot_shows raw rawBuffer
  obtain rfl := Option.some.inj (hboot.symm.trans hk₁)
  obtain ⟨a, hs, hshow⟩ := run_shows hshow₁ hrun
  refine hshow.exclusive (Sys.Steps.bodied (hs₁.trans hs)).2 ?_
  exact Run.run_invariant_of (fun _ _ _ h hc hs => step_bodies hc h hs) (boot_bodies hboot)
    (Run.allSteps_of_forall hacts _) hrun

/-- `main` creates a thread and waits with a timeout, and another thread runs. -/
def timedWaiter : List Act :=
  [.ecall (.threadCreate true false (.ok (zeroMessage 0))), .ecall (.semOpen 0 true),
    .ecall (.semTimedWait 26 5), .resume]

theorem exclusive_situations_run : ∃ k, runFromZero timedWaiter = some k ∧ k.Exclusive := by
  obtain ⟨k₀, k, hboot, hrun, hk⟩ := exists_run timedWaiter (by decide +kernel)
  exact ⟨k, hk, exclusive_situations hboot (by decide) hrun⟩

end Os1Kernel
