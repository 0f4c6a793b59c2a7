/-
# A thread finishes once

What is proved here, for every run in which the idle thread does not finish: a thread that has
finished is not chosen again, `TCB::finish` does not run for it again, and its parent's counter is
the number of children that have not finished.

The idle thread is the exception, and the code lets it finish: `Scheduler::get` chooses it whenever
nobody is ready, also when it has finished, and the body it was created with, `Scheduler::spin`,
returns.  `finishes_again` is such a run.

* `Idles` is the condition as an invariant: the idle thread has not finished.  Only its own
  `thread_exit` ends this, and every other step keeps it (section 2).
* What the history then says about choices and finishes is an invariant of the abstract system,
  `Sys.Mortal` and `Sys.Counts` of `Spec.Life` and `Spec.Children`; sections 3 and 4 carry it over
  to the machine.
-/
import Os1Kernel.Results.Received
import Os1Kernel.Spec.Children

namespace Os1Kernel

open Simulation Run

variable {k k' : Kernel} {i p t : Tid} (raw : Tid → Message)
  (rawBuffer : BufferId → Vector UInt8 bufferLength)

/-! ## 1. The statement -/

/-- The children that a thread has created. -/
def Kernel.children (k : Kernel) (p : Tid) : List Tid :=
  k.tcbList.filter fun t => (k.tcb t).parent = some p

/-- What holds of all threads as long as the idle thread has not finished. -/
structure Kernel.FinishesOnce (k : Kernel) : Prop where
  /-- After its `TCB::finish` a thread is not chosen, and does not finish again. -/
  final : ∀ t, Final t k.history
  finished : ∀ t ∈ k.tcbList, (k.tcb t).finished = true → .finish t ∈ k.history
  running : ∀ r, k.running = some r → (k.tcb r).finished = false
  /-- Each child has been taken off its parent if it has finished, and only once. -/
  counted : ∀ p ∈ k.tcbList, (k.tcb p).finished = false →
    (k.tcb p).numOfActiveChildren = (k.children p).countP fun t => !(k.tcb t).finished
  bound : ∀ p ∈ k.tcbList, (k.tcb p).numOfActiveChildren ≤ (k.children p).length

/-- The body of the idle thread returns, and `threadWrapper` calls `thread_exit`. -/
def Kernel.idleExits (k : Kernel) : Act → Bool
  | .ecall .threadExit => k.running = k.idle
  | _ => false

/-! ## 2. The idle thread has not finished -/

/-- `i` is the idle thread, and has not finished. -/
def Kernel.Idles (i : Tid) (k : Kernel) : Prop := k.idle = some i ∧ .finish i ∉ k.history

theorem idles_cons {e : Event} {j : Option Tid} {l : List Event} (he : e ≠ .finish i)
    (h : j = some i ∧ .finish i ∉ l) : j = some i ∧ .finish i ∉ e :: l :=
  ⟨h.1, fun hm => (List.mem_cons.mp hm).elim (fun heq => he heq.symm) h.2⟩

theorem step_enabled {act : Act} (h : step k act = some k') : k.enabled act = true := by
  unfold step at h
  split at h
  · assumption
  · cases h

/-- A step other than its `thread_exit`: it is the running thread that a step finishes, and the idle
thread raises no exception. -/
theorem step_idles {act : Act} (h : k.Idles i) (hc : k.idleExits act = false)
    (hs : step k act = some k') : k'.Idles i := by
  have he := step_enabled hs
  refine step_history (Q := fun j l => j = some i ∧ Event.finish i ∉ l)
    (fun j e l hnote => idles_cons ?_) h hs
  rintro rfl
  obtain ⟨hr, hf⟩ := hnote
  cases act with
  | ecall call =>
    cases call with
    | threadExit => simp [Kernel.idleExits, hr, h.1] at hc
    | _ => cases hf
  | exception => simp [Kernel.enabled, hr, h.1] at he
  | _ => cases hf

/-! ## 3. The start -/

theorem consoleReady_unfinished : .finish t ∉ (Sys.consoleReady raw rawBuffer).history := fun h => by
  rcases consoleReady_events raw rawBuffer _ h with ⟨_, _, h⟩ | ⟨_, _, _, h⟩ <;> cases h

theorem consoleReady_mortal : (Sys.consoleReady raw rawBuffer).Mortal where
  ended t h := absurd h (consoleReady_unfinished raw rawBuffer)
  finishing h := nomatch h
  finished t ht hf := by
    rw [consoleReady_threads] at ht
    simp only [List.mem_cons, List.not_mem_nil, or_false] at ht
    rcases ht with rfl | rfl
    · rw [consoleReady_master] at hf
      cases hf
    · rw [consoleReady_idle] at hf
      cases hf
  final t _ l₁ l₂ h := absurd (h ▸ by simp) (consoleReady_unfinished raw rawBuffer (t := t))

theorem consoleReady_counts : (Sys.consoleReady raw rawBuffer).Counts := by
  intro p hp _
  rw [consoleReady_threads] at hp
  simp only [List.mem_cons, List.not_mem_nil, or_false] at hp
  rcases hp with rfl | rfl
  · have hchildren : (Sys.consoleReady raw rawBuffer).children 0 = 1 := by
      simp [Sys.children, consoleReady_threads, consoleReady_master, consoleReady_idle, masterThread,
        idleThread, newThread, Sys.present, show (Sys.consoleReady raw rawBuffer).stage = .code from
        rfl, Stage.isLeft]
    exact ⟨fun _ => hchildren.symm, hchildren.symm.le.trans Sys.children_le⟩
  · have hchildren : (Sys.consoleReady raw rawBuffer).offspring 1 = 0 := by
      simp [Sys.offspring, consoleReady_threads, consoleReady_master, consoleReady_idle, masterThread,
        idleThread, newThread]
    have hle : (Sys.consoleReady raw rawBuffer).children 1 ≤ _ := Sys.children_le
    exact ⟨fun _ => (Nat.le_zero.mp (hchildren ▸ hle)).symm, hchildren ▸ le_refl 0⟩

theorem boot_idles (h : boot raw rawBuffer = some k) : k.Idles 1 :=
  boot_history (Q := fun j l => j = some 1 ∧ Event.finish 1 ∉ l) raw rawBuffer
    (fun _ _ _ he => idles_cons (by rintro rfl; cases he)) (fun _ _ _ _ => idles_cons nofun)
    ⟨rfl, consoleReady_unfinished raw rawBuffer⟩ h

/-! ## 4. Every run -/

variable {raw rawBuffer} {a : Sys}

theorem Sim.children (h : Sim k a) (p : Tid) :
    k.children p = a.threads.filter fun t => (a.thread t).parent = some p := by
  rw [Kernel.children, h.tcbList_eq]
  refine List.filter_congr fun t _ => ?_
  rw [show (k.tcb t).parent = (a.thread t).parent from congrArg Thread.parent (h.rep.thread_apply t)]

theorem Sim.children_length (h : Sim k a) (p : Tid) : (k.children p).length = a.offspring p := by
  rw [h.children, Sys.offspring, List.countP_eq_length_filter]

theorem Sim.children_unfinished (h : Sim k a) (hst : a.stage.isLeft = false) (p : Tid) :
    ((k.children p).countP fun t => !(k.tcb t).finished) = a.children p := by
  rw [h.children, List.countP_filter, Sys.children]
  refine List.countP_congr fun t _ => ?_
  rw [show (k.tcb t).finished = (a.thread t).finished from
    congrArg Thread.finished (h.rep.thread_apply t), Sys.present, hst, Bool.and_comm]
  simp

theorem Reachable.counts (h : Reachable k) : ∃ a, Shows k a ∧ a.Mortal ∧ a.Counts := by
  obtain ⟨raw, rawBuffer, a, hsteps, hshow⟩ := h.shows
  refine ⟨a, hshow, ?_⟩
  exact hsteps.invariant (P := fun a => a.Mortal ∧ a.Counts)
    (fun hi h hs => ⟨h.1.step hi hs, h.2.step hi h.1 hs⟩) (consoleReady_inv raw rawBuffer)
    ⟨consoleReady_mortal raw rawBuffer, consoleReady_counts raw rawBuffer⟩

/-- **As long as the body of the idle thread does not return, every thread finishes once.**  In
every state of such a run a thread that has finished has not been chosen since, and the counter of
a thread that lives is the number of its children that have not finished. -/
theorem finishes_once {k₀ : Kernel} {acts : List Act} (hboot : boot raw rawBuffer = some k₀)
    (hacts : AllSteps step (fun k act => k.idleExits act = false) k₀ acts)
    (hrun : run step k₀ acts = some k) : k.FinishesOnce := by
  have hidles : k.Idles 1 := run_invariant_of (fun _ _ _ h hc hs => step_idles h hc hs)
    (boot_idles raw rawBuffer hboot) hacts hrun
  obtain ⟨a, hshow, hm, hcounts⟩ := Reachable.counts ⟨raw, rawBuffer, k₀, acts, hboot, hrun⟩
  have hhist : k.history = a.history := congrArg Core.history hshow.rep.core
  have hidle : .finish a.idle ∉ a.history := by
    rw [Option.some.inj (hshow.rep.idle.symm.trans hidles.1), ← hhist]
    exact hidles.2
  have hfin : ∀ t, (k.tcb t).finished = (a.thread t).finished := fun t =>
    congrArg Thread.finished (hshow.rep.thread_apply t)
  have hnum : ∀ t, (k.tcb t).numOfActiveChildren = (a.thread t).numOfActiveChildren := fun t =>
    congrArg Thread.numOfActiveChildren (hshow.rep.thread_apply t)
  constructor
  · intro t
    rw [hhist]
    exact hm.final t fun he => he ▸ hidle
  · intro t ht hf
    rw [hhist]
    exact hm.finished t (hshow.tcbList_eq ▸ ht) ((hfin t).symm.trans hf)
  · intro r hr
    obtain rfl := Option.some.inj (hshow.rep.running.symm.trans hr)
    rw [hfin]
    by_contra hf
    have hf : (a.thread a.running).finished = true := by simpa using hf
    rcases hshow.inv.contexts.finished hf with he | hl
    · exact hidle (hm.finished _ hshow.inv.names.idle_mem (he ▸ hf))
    · exact Sys.not_leaving hshow.idle.activity hl
  · intro p hp hf
    rw [hnum, hshow.children_unfinished (by rw [hshow.idle.stage]; rfl)]
    exact (hcounts p (hshow.tcbList_eq ▸ hp) fun _ => hidle).exact ((hfin p).symm.trans hf)
  · intro p hp
    rw [hnum, hshow.children_length]
    exact (hcounts p (hshow.tcbList_eq ▸ hp) fun _ => hidle).bound

/-- `main` creates a thread, which finishes when its turn has come. -/
def childFinishes : List Act :=
  [.ecall (.threadCreate true false (.ok (zeroMessage 4))), .ecall .threadDispatch] ++
  consoleSlices ++ [.resume, .ecall .threadExit, .resume]

theorem finishes_once_run : ∃ k, runFromZero childFinishes = some k ∧ k.FinishesOnce := by
  obtain ⟨k₀, k, hboot, hrun, hk⟩ := exists_run childFinishes (by decide +kernel)
  have he : (boot zeroMessage zeroBuffer).all (fun k₀ =>
      AllSteps step (fun k act => k.idleExits act = false) k₀ childFinishes) = true := by
    decide +kernel
  rw [hboot] at he
  exact ⟨k, hk, finishes_once hboot (of_decide_eq_true he) hrun⟩

/-- `main` prints that the kernel has started, creates the thread of `userMain` and joins it. -/
def mainStarts : List Act :=
  ([75, 101, 114, 110, 101, 108, 32, 115, 116, 97, 114, 116, 101, 100, 10, 10].map fun c =>
    Act.ecall (.putc c)) ++
  [.ecall (.threadCreate true false (.ok (zeroMessage 0))), .ecall (.join 4)]

/-- The thread of the input puts the characters that arrive, and nobody reads them, until its buffer
is full; the thread of the output takes what `main` has printed, and waits for more; and `userMain`
sleeps. -/
def everybodyWaits : List Act :=
  .resume :: List.replicate 257 (.uPut .input 97) ++
  .resume :: List.replicate 17 (.uGet .output) ++ [.resume, .ecall (.timeSleep 100)]

/-- Nobody is ready, and the idle thread finishes five times. -/
def idleOnly : List Act :=
  mainStarts ++ everybodyWaits ++ (List.replicate 5 [.resume, .ecall .threadExit]).flatten

/-- With everybody else waiting, the idle thread returns from `Scheduler::spin` and finishes, and
`Scheduler::get` chooses it again; each time `threadWrapper` calls `thread_exit`, and `TCB::finish`
takes one more child off the counter of `main`, which goes round. -/
theorem finishes_again : ∃ k, Reachable k ∧ k.idle = some 1 ∧ k.running = some 1 ∧
    (k.tcb 1).finished = true ∧ k.history.countP (fun e => e = .finish 1) = 5 ∧
    (k.tcb 0).numOfActiveChildren = 2 ^ 64 - 1 ∧ ¬ k.FinishesOnce := by
  obtain ⟨k₀, k, hboot, hrun, hk⟩ := exists_run idleOnly (by decide +kernel)
  have he : (runFromZero idleOnly).any (fun k => k.idle = some 1 ∧ k.running = some 1 ∧
      (k.tcb 1).finished = true ∧ k.history.countP (fun e => e = .finish 1) = 5 ∧
      (k.tcb 0).numOfActiveChildren = 2 ^ 64 - 1) = true := by decide +kernel
  rw [hk] at he
  obtain ⟨hidle, hrunning, hfin, hcount, hnum⟩ := of_decide_eq_true he
  refine ⟨k, ⟨_, _, k₀, _, hboot, hrun⟩, hidle, hrunning, hfin, hcount, hnum, fun h => ?_⟩
  rw [h.running 1 hrunning] at hfin
  cases hfin

end Os1Kernel
