/-
# Who is on which list

A thread is on the ready list, on the waiters' list of one semaphore, among the sleepers, or on
none of them; only the last two go together.  `Places` states this for the transition system, with
the exception the steps make for the thread that is about to be switched from: it is still running
and already on its list.

The field `blockedAtSem` and the queues say the same thing twice, in the kernel as here, and
`mem_queue` is the equivalence: it is what lets a release look at the head of a queue and know that
the thread is blocked nowhere else, and `Sleep::onTick` look at the thread and find it in the
queue.

Every step changes the lists in one of six ways, and there is one preservation lemma for each:

* not at all (`Places.same`);
* a waiter or sleeper is made ready (`Places.freed`);
* the running thread joins the waiters (`Places.joined`), falls asleep (`Places.slept`), or leaves
  the waiters again because its timeout is zero (`Places.returned`);
* it makes way for the next one (`Places.chosen`);
* a new thread is made ready (`Places.pushed`).

`Invariant.lean` says which step is which of these; no other proof takes the lists apart.
-/
import Os1Kernel.Spec.System

namespace Os1Kernel

namespace Sys

variable {a b : Sys} {t : Tid} {s : SemPtr}

/-! ## 1. The sleepers without their ticks -/

theorem asleep_awake : (a.awake t).asleep = a.asleep.filter (· ≠ t) := by
  simp only [asleep, awake, List.filter_map]
  rfl

theorem asleep_fallAsleep {n : Nat} : (a.fallAsleep t n).asleep.Perm (t :: a.asleep) := by
  simp only [asleep, fallAsleep]
  exact DeltaList.insertBy_perm.map _

/-! ## 2. The invariant -/

/-- A thread runs, is ready, or waits, one of these at most, and it knows where it waits.  The
exception is the running thread, which stands on the list that it is about to wait in before it is
switched from; `running_free` and `leaving_awake` say when that is. -/
structure Places (a : Sys) : Prop where
  ready_nodup : a.ready.Nodup
  queue_nodup : ∀ s, (a.queue s).Nodup
  asleep_nodup : a.asleep.Nodup
  /-- Who is in the queue of a semaphore knows it, and nobody else thinks so. -/
  mem_queue : ∀ t s, t ∈ a.queue s ↔ (a.thread t).blockedAtSem = some s
  /-- Who is ready does not wait for anything. -/
  ready_awake : ∀ t ∈ a.ready, (a.thread t).blockedAtSem = none ∧ t ∉ a.asleep
  running_ready : a.running ∉ a.ready
  /-- Nor does who runs, unless it is about to leave. -/
  running_free : a.activity.isLeaving = false →
    (a.thread a.running).blockedAtSem = none ∧ a.running ∉ a.asleep
  /-- Who is about to fall asleep does not sleep yet. -/
  leaving_awake : ∀ ctx n, a.activity = .leaving ctx (some n) → a.running ∉ a.asleep
  /-- Whoever is on a list is an unfinished thread, and not the idle one. -/
  live : ∀ t, t ∈ a.ready ∨ (a.thread t).blockedAtSem ≠ none ∨ t ∈ a.asleep →
    t ∈ a.threads ∧ t ≠ a.idle ∧ (a.thread t).finished = false

/-! ## 3. Preservation -/

/-- The lists stay, and threads other than the running one stay alive. -/
theorem Places.same (h : a.Places) (hl : a.activity.isLeaving = false)
    (hready : b.ready = a.ready) (hqueue : b.queue = a.queue) (hasleep : b.asleep = a.asleep)
    (hat : ∀ t, (b.thread t).blockedAtSem = (a.thread t).blockedAtSem)
    (hrun : b.running = a.running) (hidle : b.idle = a.idle)
    (hlive : ∀ t, t ≠ a.running → t ∈ a.threads → (a.thread t).finished = false →
      t ∈ b.threads ∧ (b.thread t).finished = false) : b.Places := by
  obtain ⟨hnb, hna⟩ := h.running_free hl
  constructor
  · rw [hready]
    exact h.ready_nodup
  · rw [hqueue]
    exact h.queue_nodup
  · rw [hasleep]
    exact h.asleep_nodup
  · intro t s
    rw [hqueue, hat]
    exact h.mem_queue t s
  · rw [hready, hasleep]
    intro t ht
    rw [hat]
    exact h.ready_awake t ht
  · rw [hready, hrun]
    exact h.running_ready
  · rw [hasleep, hrun, hat]
    exact fun _ => ⟨hnb, hna⟩
  · rw [hasleep, hrun]
    exact fun _ _ _ => hna
  · rw [hready, hasleep]
    intro t ht
    rw [hat] at ht
    have htr : t ≠ a.running := by
      rintro rfl
      rcases ht with ht | ht | ht
      · exact h.running_ready ht
      · exact ht hnb
      · exact hna ht
    obtain ⟨hm, hi, hf⟩ := h.live t ht
    obtain ⟨hm', hf'⟩ := hlive t htr hm hf
    exact ⟨hm', hidle ▸ hi, hf'⟩

/-- A waiter or sleeper is taken off both its lists and made ready. -/
theorem Places.freed (h : a.Places) (hl : a.activity.isLeaving = false)
    (ht : (a.thread t).blockedAtSem ≠ none ∨ t ∈ a.asleep)
    (hready : b.ready = a.ready ++ [t])
    (hqueue : ∀ s, b.queue s = (a.queue s).erase t)
    (hasleep : b.asleep = a.asleep.filter (· ≠ t))
    (hself : (b.thread t).blockedAtSem = none)
    (hat : ∀ u, u ≠ t → (b.thread u).blockedAtSem = (a.thread u).blockedAtSem)
    (hrun : b.running = a.running) (hidle : b.idle = a.idle) (hthreads : b.threads = a.threads)
    (hfin : ∀ u, (b.thread u).finished = (a.thread u).finished) : b.Places := by
  have hnr : t ∉ a.ready := fun hm => by
    obtain ⟨h1, h2⟩ := h.ready_awake t hm
    rcases ht with ht | ht
    · exact ht h1
    · exact h2 ht
  have htr : t ≠ a.running := by
    rintro rfl
    obtain ⟨h1, h2⟩ := h.running_free hl
    rcases ht with ht | ht
    · exact ht h1
    · exact h2 ht
  have hlive := h.live t (Or.inr ht)
  obtain ⟨hnb, hna⟩ := h.running_free hl
  constructor
  · rw [hready]
    exact List.nodup_append.mpr ⟨h.ready_nodup, List.nodup_singleton t, by grind⟩
  · intro s
    rw [hqueue]
    exact (h.queue_nodup s).erase t
  · rw [hasleep]
    exact h.asleep_nodup.filter _
  · intro u s
    rw [hqueue, (h.queue_nodup s).mem_erase_iff, h.mem_queue]
    by_cases hu : u = t
    · simp [hu, hself]
    · simp [hu, hat u hu]
  · rw [hready, hasleep]
    intro u hu
    rcases List.mem_append.mp hu with hu | hu
    · have hut : u ≠ t := fun e => hnr (e ▸ hu)
      obtain ⟨h1, h2⟩ := h.ready_awake u hu
      exact ⟨(hat u hut).trans h1, fun hm => h2 (List.mem_of_mem_filter hm)⟩
    · obtain rfl := List.mem_singleton.mp hu
      exact ⟨hself, by simp⟩
  · rw [hready, hrun]
    have := h.running_ready
    grind
  · rw [hasleep, hrun, hat _ (Ne.symm htr)]
    exact fun _ => ⟨hnb, fun hm => hna (List.mem_of_mem_filter hm)⟩
  · rw [hasleep, hrun]
    exact fun _ _ _ hm => hna (List.mem_of_mem_filter hm)
  · rw [hready, hasleep, hidle, hthreads]
    intro u hu
    rw [hfin]
    by_cases hut : u = t
    · rw [hut]
      exact hlive
    · rw [hat u hut] at hu
      refine h.live u ?_
      simp only [List.mem_append, List.mem_singleton, hut, or_false, List.mem_filter] at hu
      rcases hu with hu | hu | hu
      · exact Or.inl hu
      · exact Or.inr (Or.inl hu)
      · exact Or.inr (Or.inr hu.1)

/-- The running thread joins the waiters of a semaphore. -/
theorem Places.joined (h : a.Places) (hl : a.activity.isLeaving = false)
    (hlive : a.running ∈ a.threads ∧ a.running ≠ a.idle ∧ (a.thread a.running).finished = false)
    (hready : b.ready = a.ready)
    (hqueue : b.queue = Function.update a.queue s (a.queue s ++ [a.running]))
    (hasleep : b.asleep = a.asleep) (hself : (b.thread a.running).blockedAtSem = some s)
    (hat : ∀ u, u ≠ a.running → (b.thread u).blockedAtSem = (a.thread u).blockedAtSem)
    (hrun : b.running = a.running) (hidle : b.idle = a.idle) (hthreads : b.threads = a.threads)
    (hfin : ∀ u, (b.thread u).finished = (a.thread u).finished)
    (hact : b.activity.isLeaving = true) : b.Places := by
  obtain ⟨hnb, hna⟩ := h.running_free hl
  have hnq : ∀ s, a.running ∉ a.queue s := by
    intro s hm
    rw [h.mem_queue, hnb] at hm
    cases hm
  have hne : ∀ u ∈ a.ready, u ≠ a.running := fun u hu e => h.running_ready (e ▸ hu)
  constructor
  · rw [hready]
    exact h.ready_nodup
  · intro s'
    rw [hqueue, Function.update_apply]
    split
    · exact List.nodup_append.mpr ⟨h.queue_nodup s, List.nodup_singleton _, by grind⟩
    · exact h.queue_nodup s'
  · rw [hasleep]
    exact h.asleep_nodup
  · intro u s'
    rw [hqueue, Function.update_apply]
    have := h.mem_queue u s'
    have := hnq s'
    by_cases hu : u = a.running
    · subst hu
      rw [hself]
      grind
    · rw [hat u hu]
      grind
  · rw [hready, hasleep]
    intro u hu
    rw [hat u (hne u hu)]
    exact h.ready_awake u hu
  · rw [hready, hrun]
    exact h.running_ready
  · rw [hact]
    intro hf
    cases hf
  · rw [hasleep, hrun]
    exact fun _ _ _ => hna
  · rw [hready, hasleep, hidle, hthreads]
    intro u hu
    rw [hfin]
    by_cases hur : u = a.running
    · rw [hur]
      exact hlive
    · rw [hat u hur] at hu
      exact h.live u hu

/-- The running thread, which is about to leave, falls asleep. -/
theorem Places.slept (h : a.Places) {ctx : Context} {n : Nat}
    (hl : a.activity = .leaving ctx (some n))
    (hlive : a.running ∈ a.threads ∧ a.running ≠ a.idle ∧ (a.thread a.running).finished = false)
    (hready : b.ready = a.ready) (hqueue : b.queue = a.queue)
    (hasleep : b.asleep.Perm (a.running :: a.asleep)) (hthread : b.thread = a.thread)
    (hrun : b.running = a.running) (hidle : b.idle = a.idle) (hthreads : b.threads = a.threads)
    (hact : b.activity = .leaving ctx none) : b.Places := by
  have hna := h.leaving_awake ctx n hl
  have hmem : ∀ u, u ∈ b.asleep ↔ u = a.running ∨ u ∈ a.asleep := by
    intro u
    rw [hasleep.mem_iff, List.mem_cons]
  constructor
  · rw [hready]
    exact h.ready_nodup
  · rw [hqueue]
    exact h.queue_nodup
  · exact hasleep.nodup_iff.mpr (List.nodup_cons.mpr ⟨hna, h.asleep_nodup⟩)
  · rw [hqueue, hthread]
    exact h.mem_queue
  · rw [hready, hthread]
    intro u hu
    obtain ⟨h1, h2⟩ := h.ready_awake u hu
    have hur : u ≠ a.running := fun e => h.running_ready (e ▸ hu)
    exact ⟨h1, by simp [hmem, hur, h2]⟩
  · rw [hready, hrun]
    exact h.running_ready
  · rw [hact]
    intro hf
    cases hf
  · rw [hact]
    intro _ _ hf
    cases hf
  · rw [hready, hidle, hthreads, hthread]
    intro u hu
    rw [hmem] at hu
    by_cases hur : u = a.running
    · rw [hur]
      exact hlive
    · exact h.live u (by simpa [hur] using hu)

/-- The running thread, which was about to leave, stays. -/
theorem Places.returned (h : a.Places) {ctx : Context} {n : Nat}
    (hl : a.activity = .leaving ctx (some n))
    (hready : b.ready = a.ready) (hqueue : ∀ s, b.queue s = (a.queue s).erase a.running)
    (hasleep : b.asleep = a.asleep) (hself : (b.thread a.running).blockedAtSem = none)
    (hat : ∀ u, u ≠ a.running → (b.thread u).blockedAtSem = (a.thread u).blockedAtSem)
    (hrun : b.running = a.running) (hidle : b.idle = a.idle) (hthreads : b.threads = a.threads)
    (hfin : ∀ u, (b.thread u).finished = (a.thread u).finished) : b.Places := by
  have hna := h.leaving_awake ctx n hl
  have hne : ∀ u ∈ a.ready, u ≠ a.running := fun u hu e => h.running_ready (e ▸ hu)
  constructor
  · rw [hready]
    exact h.ready_nodup
  · intro s
    rw [hqueue]
    exact (h.queue_nodup s).erase _
  · rw [hasleep]
    exact h.asleep_nodup
  · intro u s
    rw [hqueue, (h.queue_nodup s).mem_erase_iff, h.mem_queue]
    by_cases hu : u = a.running
    · simp [hu, hself]
    · simp [hu, hat u hu]
  · rw [hready, hasleep]
    intro u hu
    rw [hat u (hne u hu)]
    exact h.ready_awake u hu
  · rw [hready, hrun]
    exact h.running_ready
  · rw [hasleep, hrun]
    exact fun _ => ⟨hself, hna⟩
  · rw [hasleep, hrun]
    exact fun _ _ _ => hna
  · rw [hready, hasleep, hidle, hthreads]
    intro u hu
    rw [hfin]
    by_cases hur : u = a.running
    · subst hur
      rcases hu with hu | hu | hu
      · exact absurd hu h.running_ready
      · exact absurd hself hu
      · exact absurd hu hna
    · rw [hat u hur] at hu
      exact h.live u hu

/-- The next thread is chosen; `pre` is what `Scheduler::put` has added to the ready list. -/
theorem Places.chosen (h : a.Places) {pre : List Tid}
    (hpre : pre = [] ∨ pre = [a.running] ∧ a.activity.isLeaving = false ∧
      a.running ∈ a.threads ∧ a.running ≠ a.idle ∧ (a.thread a.running).finished = false)
    (hready : b.ready = (a.ready ++ pre).tail) (hqueue : b.queue = a.queue)
    (hasleep : b.asleep = a.asleep)
    (hat : ∀ u, (b.thread u).blockedAtSem = (a.thread u).blockedAtSem)
    (hrun : b.running = (a.ready ++ pre).headD a.idle) (hidle : b.idle = a.idle)
    (hthreads : b.threads = a.threads)
    (hfin : ∀ u, (b.thread u).finished = (a.thread u).finished) : b.Places := by
  -- the ready list with its addition satisfies what the invariant says about it
  have hnd : (a.ready ++ pre).Nodup := by
    rcases hpre with rfl | ⟨rfl, -, -⟩
    · simpa using h.ready_nodup
    · have := h.running_ready
      exact List.nodup_append.mpr ⟨h.ready_nodup, List.nodup_singleton _, by grind⟩
  have hfree : ∀ u ∈ a.ready ++ pre, (a.thread u).blockedAtSem = none ∧ u ∉ a.asleep := by
    intro u hu
    rcases List.mem_append.mp hu with hu | hu
    · exact h.ready_awake u hu
    · rcases hpre with rfl | ⟨rfl, hl, -⟩
      · cases hu
      · obtain rfl := List.mem_singleton.mp hu
        exact h.running_free hl
  have hlive : ∀ u ∈ a.ready ++ pre, u ∈ a.threads ∧ u ≠ a.idle ∧ (a.thread u).finished = false := by
    intro u hu
    rcases List.mem_append.mp hu with hu | hu
    · exact h.live u (Or.inl hu)
    · rcases hpre with rfl | ⟨rfl, -, hlive⟩
      · cases hu
      · obtain rfl := List.mem_singleton.mp hu
        exact hlive
  have hidle_free : (a.thread a.idle).blockedAtSem = none ∧ a.idle ∉ a.asleep := by
    constructor
    · by_contra hb
      exact (h.live a.idle (Or.inr (Or.inl hb))).2.1 rfl
    · intro hm
      exact (h.live a.idle (Or.inr (Or.inr hm))).2.1 rfl
  have hchosen : (a.thread b.running).blockedAtSem = none ∧ b.running ∉ a.asleep := by
    rw [hrun]
    cases hl : a.ready ++ pre with
    | nil => exact hidle_free
    | cons u l => exact hfree u (by simp [hl])
  constructor
  · rw [hready]
    exact hnd.tail
  · rw [hqueue]
    exact h.queue_nodup
  · rw [hasleep]
    exact h.asleep_nodup
  · intro u s
    rw [hqueue, hat]
    exact h.mem_queue u s
  · rw [hready, hasleep]
    intro u hu
    rw [hat]
    exact hfree u (List.mem_of_mem_tail hu)
  · rw [hready, hrun]
    cases hl : a.ready ++ pre with
    | nil => simp
    | cons u l =>
      rw [hl] at hnd
      exact (List.nodup_cons.mp hnd).1
  · rw [hasleep, hat]
    exact fun _ => hchosen
  · rw [hasleep]
    exact fun _ _ _ => hchosen.2
  · rw [hready, hasleep, hidle, hthreads]
    intro u hu
    rw [hfin]
    rw [hat] at hu
    rcases hu with hu | hu
    · exact hlive u (List.mem_of_mem_tail hu)
    · exact h.live u (Or.inr hu)

/-- A thread that is on no list is made ready. -/
theorem Places.pushed (h : a.Places) (hl : a.activity.isLeaving = false)
    (hfree : (a.thread t).blockedAtSem = none ∧ t ∉ a.asleep ∧ t ∉ a.ready)
    (htr : t ≠ a.running) (hready : b.ready = a.ready ++ [t]) (hqueue : b.queue = a.queue)
    (hasleep : b.asleep = a.asleep)
    (hat : ∀ u, (b.thread u).blockedAtSem = (a.thread u).blockedAtSem)
    (hrun : b.running = a.running) (hidle : b.idle = a.idle)
    (hfin : ∀ u, (b.thread u).finished = (a.thread u).finished)
    (hthreads : b.threads = a.threads ++ [t])
    (hlive : t ≠ a.idle ∧ (a.thread t).finished = false) : b.Places := by
  obtain ⟨hnb, hna⟩ := h.running_free hl
  constructor
  · rw [hready]
    exact List.nodup_append.mpr ⟨h.ready_nodup, List.nodup_singleton t, by grind⟩
  · rw [hqueue]
    exact h.queue_nodup
  · rw [hasleep]
    exact h.asleep_nodup
  · intro u s
    rw [hqueue, hat]
    exact h.mem_queue u s
  · rw [hready, hasleep]
    intro u hu
    rw [hat]
    rcases List.mem_append.mp hu with hu | hu
    · exact h.ready_awake u hu
    · obtain rfl := List.mem_singleton.mp hu
      exact ⟨hfree.1, hfree.2.1⟩
  · rw [hready, hrun]
    have := h.running_ready
    grind
  · rw [hasleep, hrun, hat]
    exact fun _ => ⟨hnb, hna⟩
  · rw [hasleep, hrun]
    exact fun _ _ _ => hna
  · rw [hready, hasleep, hidle, hthreads]
    intro u hu
    rw [hfin]
    rw [hat] at hu
    by_cases hut : u = t
    · subst hut
      exact ⟨by simp, hlive⟩
    · obtain ⟨h1, h2⟩ := h.live u (by simpa [hut] using hu)
      exact ⟨by simp [h1], h2⟩

end Sys

end Os1Kernel
