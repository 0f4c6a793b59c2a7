/-
# The kernel does not fail, and refines its specification

`Sys` says what the kernel is for without a pointer.  Behind the links of a state of the machine
there is a state of `Sys`, and the states that a run passes through are states of one run of
`Sys`.  And no step that is enabled fails: in no state does the kernel follow a null pointer, leave
an array or stay in a loop.

The proofs are in `Os1Kernel.Refine`.  This file states what they amount to without the relation
that they use: `Represents` names each field and each list of the machine, read back along its
links, and the differences of the sleep list as the sums they stand for.

The assumptions are in the steps: a call names threads and semaphores that exist, `thread_create`
has memory for the `TCB` itself, a semaphore without memory is not constructed, and an exception is
the `TCB::finish` at the end of its branch in `handleSupervisorTrap`.  What that branch prints
before is the subject of `Os1Kernel.Interrupts.PrintLock`.
-/
import Os1Kernel.Results.Sleep

namespace Os1Kernel

variable {k : Kernel} {a : Sys} {t : Tid} {raw : Tid → Message}
  {rawBuffer : BufferId → Vector UInt8 bufferLength}

/-! ## 1. The statement -/

/-- What is behind the links.  The sleep list has the differences where `a` has the ticks that
remain. -/
structure Kernel.Represents (k : Kernel) (a : Sys) : Prop where
  core : k.toCore = a.toCore
  running : k.running = some a.running
  idle : k.idle = some a.idle
  thread : ∀ t, (k.tcb t).toThread = a.thread t
  sem : ∀ s, (k.sem s).toSem = a.sem s
  ready : k.readyList = a.ready
  blocked : ∀ s, k.blockedList s = a.queue s
  sleepers : k.sleepList.map (fun t => (t, k.upTo t)) = a.sleepers
  threads : k.tcbList = a.threads
  sems : k.semList = a.sems
  /-- Between two steps the kernel is not at work. -/
  atRest : a.activity = .none ∧ a.stage = .code

/-! ## 2. The relation -/

/-- The sleep list, with the sums of its differences. -/
theorem Shows.sleepers_eq (h : Shows k a) :
    k.sleepList.map (fun t => (t, k.upTo t)) = a.sleepers := by
  rw [h.sleepList_eq, Sys.asleep, List.map_map]
  have hid : ∀ p ∈ a.sleepers, ((fun t => (t, k.upTo t)) ∘ Prod.fst) p = p := by
    intro p hp
    rw [Function.comp_apply, h.upTo hp]
  rw [List.map_congr_left hid, List.map_id']

theorem Shows.represents (h : Shows k a) : k.Represents a where
  core := h.rep.core
  running := h.rep.running
  idle := h.rep.idle
  thread := h.rep.thread_apply
  sem := h.rep.sem_apply
  ready := h.readyList_eq
  blocked := h.blockedList_eq
  sleepers := h.sleepers_eq
  threads := h.tcbList_eq
  sems := h.semList_eq
  atRest := ⟨h.idle.activity, h.idle.stage⟩

/-! ## 3. The results -/

/-- **A run of the kernel is a run of its specification.**  Each of its states represents a state
of `Sys`, and from one of these to the next there are only steps of `Sys`. -/
theorem run_refines {k₀ : Kernel} {acts : List Act} (hboot : boot raw rawBuffer = some k₀)
    (hrun : Run.run step k₀ acts = some k) : ∃ f : Nat → Sys,
    (Sys.consoleReady raw rawBuffer).Steps (f 0) ∧
      (∀ n < acts.length, (f n).Steps (f (n + 1))) ∧
      ∀ n ≤ acts.length, ∃ c, Run.run step k₀ (acts.take n) = some c ∧ c.Represents (f n) := by
  obtain ⟨k₁, a, hk, hstart, hshow⟩ := boot_shows raw rawBuffer
  obtain rfl := Option.some.inj (hboot.symm.trans hk)
  obtain ⟨f, hf, hchain, hstates⟩ := Run.run_matches (R := Shows) (S := Sys.Steps)
    (fun c a act c' h hs => step_shows h hs) hshow hrun
  refine ⟨f, hf ▸ hstart, hchain, fun n hn => ?_⟩
  obtain ⟨c, hc, hshow'⟩ := hstates n hn
  exact ⟨c, hc, hshow'.represents⟩

/-- **The kernel never fails.**  It starts, in every state there is a step to take, and every step
that is enabled succeeds: it follows no null pointer, leaves no array and stays in no loop. -/
theorem kernel_total : (∀ raw rawBuffer, ∃ k, boot raw rawBuffer = some k) ∧
    ∀ k, Reachable k → (∃ act, k.enabled act = true) ∧
      ∀ act, k.enabled act = true → ∃ k', step k act = some k' ∧ Reachable k' := by
  refine ⟨fun raw rawBuffer => ?_, fun k h => ⟨?_, fun act he => ?_⟩⟩
  · obtain ⟨k, -, hk, -⟩ := boot_shows raw rawBuffer
    exact ⟨k, hk⟩
  · -- the running thread is in its own code, where the timer can interrupt it, or behind a switch
    obtain ⟨-, -, a, -, hshow⟩ := h.shows
    by_cases hc : (k.tcb a.running).context = .body
    · exact ⟨.timer, by simp [Kernel.enabled, hshow.rep.running, hc]⟩
    · exact ⟨.resume, by simp [Kernel.enabled, hshow.rep.running, hc]⟩
  · obtain ⟨-, -, a, -, hshow⟩ := h.shows
    obtain ⟨k', -, hs, -⟩ := step_does hshow he
    obtain ⟨raw, rawBuffer, k₀, acts, hboot, hrun⟩ := h
    refine ⟨k', hs, raw, rawBuffer, k₀, acts ++ [act], hboot, ?_⟩
    rw [Run.run_append, hrun, Option.bind_some, Run.run_cons, hs]
    rfl

/-- A thread is created, sleeps and is woken. -/
def createsAndSleeps : List Act :=
  [.ecall (.threadCreate true false (.ok (zeroMessage 4))), .ecall (.timeSleep 1), .resume, .timer]

theorem run_refines_run : ∃ k₀ k, boot zeroMessage zeroBuffer = some k₀ ∧
    Run.run step k₀ createsAndSleeps = some k ∧ ∃ f : Nat → Sys,
      (Sys.consoleReady zeroMessage zeroBuffer).Steps (f 0) ∧
        (∀ n < 4, (f n).Steps (f (n + 1))) ∧
        ∀ n ≤ 4, ∃ c, Run.run step k₀ (createsAndSleeps.take n) = some c ∧
          c.Represents (f n) := by
  obtain ⟨k₀, k, hboot, hrun, -⟩ := exists_run createsAndSleeps (by decide +kernel)
  exact ⟨k₀, k, hboot, hrun, run_refines hboot hrun⟩

theorem kernel_total_run : ∃ k k', runFromZero createsAndSleeps = some k ∧
    step k .timer = some k' ∧ Reachable k' := by
  obtain ⟨k₀, k, hboot, hrun, hk⟩ := exists_run createsAndSleeps (by decide +kernel)
  have he : (runFromZero createsAndSleeps).any (fun k => k.enabled .timer) = true := by
    decide +kernel
  rw [hk] at he
  obtain ⟨k', hs, hr⟩ := (kernel_total.2 k ⟨_, _, k₀, _, hboot, hrun⟩).2 .timer he
  exact ⟨k, k', hk, hs, hr⟩

end Os1Kernel
