/-
# What the kernel's lists gain in a step

Threads and semaphores stay on the lists of all threads and of all semaphores, and a thread keeps
its body.  A step that puts a thread on the list is a `thread_create`, with the body that was asked
for.

The first part is read off the abstract system, where the lists only ever grow.  For the second the
history is used: it has one event for every creation, and the only code that writes this event is
`TCB::threadCreate`, so an event that a step adds has been written by the call that the step is
(`step_createdIn`).
-/
import Os1Kernel.Results.JoinAll

namespace Os1Kernel

open Simulation

variable {k k' : Kernel} {a b : Sys} {t : Tid} {act : Act}

/-! ## 1. Only `thread_create` puts threads on the list -/

/-- A thread is created with the body that it has. -/
theorem Sys.Step.created_body (hs : a.Step b) {p : Option Tid} {x : Bool}
    (h : .created t p x ∈ b.history) :
    .created t p x ∈ a.history ∨ (b.thread t).hasBody = x := by
  cases hs with
  | @enlist hc u hnew hlt hroom hx =>
    rcases List.mem_cons.mp h with he | h
    · cases he
      exact Or.inr (Sys.update_field Thread.hasBody (by rfl) t)
    · exact Or.inl h
  | timeoutZero =>
    exact Or.inl ((List.mem_cons.mp ((List.mem_cons.mp h).resolve_left nofun)).resolve_left nofun)
  | @release s m =>
    refine Or.inl ((List.mem_cons.mp h).resolve_left fun he => ?_)
    cases m <;> cases he
  | _ => exact Or.inl (by first | exact h | exact (List.mem_cons.mp h).resolve_left nofun)

/-- The history says which threads have a body. -/
def Sys.Embodied (a : Sys) : Prop :=
  ∀ t p x, .created t p x ∈ a.history → (a.thread t).hasBody = x

theorem Sys.Embodied.step (h : a.Embodied) (hr : a.Registered) (hs : a.Step b) : b.Embodied := by
  intro t p x hc
  rcases hs.created_body hc with hold | hnew
  · have hfixed := hs.fixed (hs.threads t (hr.created t p x hold).1)
    exact (congrArg (fun x => x.2.1) hfixed).trans (h t p x hold)
  · exact hnew

theorem consoleReady_embodied (raw : Tid → Message)
    (rawBuffer : BufferId → Vector UInt8 bufferLength) :
    (Sys.consoleReady raw rawBuffer).Embodied := by
  intro t p x hc
  have hcreated : (t = 1 ∧ p = some 0 ∧ x = true) ∨ t = 0 ∧ p = none ∧ x = false := by
    simpa [consoleReady_history, openings, ownValues, consoleValues] using hc
  rcases hcreated with ⟨rfl, -, rfl⟩ | ⟨rfl, -, rfl⟩
  · rw [consoleReady_idle]
    rfl
  · rw [consoleReady_master]
    rfl

/-- A state between two steps, with what has been created. -/
theorem Reachable.embodied (h : Reachable k) : ∃ a, Shows k a ∧ a.Registered ∧ a.Embodied := by
  obtain ⟨raw, rawBuffer, a, hsteps, hshow⟩ := h.shows
  exact ⟨a, hshow, hsteps.invariant (P := fun a => a.Registered ∧ a.Embodied)
    (fun hi h hs => ⟨h.1.step hi hs, h.2.step h.1 hs⟩) (consoleReady_inv raw rawBuffer)
    ⟨consoleReady_registered raw rawBuffer, consoleReady_embodied raw rawBuffer⟩⟩

/-- Every thread that has been created satisfies `L`. -/
def Kernel.CreatedIn (L : Tid → Option Tid → Bool → Prop) (k : Kernel) : Prop :=
  ∀ t p x, .created t p x ∈ k.history → L t p x

variable {L : Tid → Option Tid → Bool → Prop}

theorem step_createdIn (hL : ∀ body space mem, act = .ecall (.threadCreate body space mem) →
    ∀ t p, L t p body) (h : k.CreatedIn L) (hs : step k act = some k') : k'.CreatedIn L := by
  refine step_history (Q := fun _ l => ∀ t p x, Event.created t p x ∈ l → L t p x)
    (fun i e l hnote h t p x hm => ?_) h hs
  rcases List.mem_cons.mp hm with rfl | hm
  · obtain ⟨space, mem, he⟩ := hnote
    exact hL x space mem he t p
  · exact h t p x hm

/-- Threads and semaphores stay on their lists, and a thread keeps its body. -/
structure Grows (k k' : Kernel) : Prop where
  threads : ∀ t ∈ k.tcbList, t ∈ k'.tcbList
  sems : ∀ s ∈ k.semList, s ∈ k'.semList
  hasBody : ∀ t ∈ k.tcbList, (k'.tcb t).hasBody = (k.tcb t).hasBody

theorem Grows.body (h : Grows k k') :
    ∀ t ∈ k.tcbList, (k'.tcb t).hasBody = true → (k.tcb t).hasBody = true :=
  fun t ht hb => (h.hasBody t ht).symm.trans hb

theorem Sys.Steps.grows (hs : a.Steps b) : (∀ t ∈ a.threads, t ∈ b.threads) ∧
    (∀ s ∈ a.sems, s ∈ b.sems) ∧ ∀ t ∈ a.threads, (b.thread t).hasBody = (a.thread t).hasBody := by
  induction hs with
  | refl => exact ⟨fun _ h => h, fun _ h => h, fun _ _ => rfl⟩
  | tail _ hs ih =>
    obtain ⟨hthreads, hsems, hbody⟩ := ih
    refine ⟨fun t ht => hs.threads t (hthreads t ht), fun s h => hs.sems s (hsems s h),
      fun t ht => ?_⟩
    exact (congrArg (fun x => x.2.1) (hs.fixed (hs.threads t (hthreads t ht)))).trans (hbody t ht)

theorem Shows.hasBody (h : Shows k a) (t : Tid) : (k.tcb t).hasBody = (a.thread t).hasBody :=
  congrArg Thread.hasBody (h.rep.thread_apply t)

theorem Shows.grows (h : Shows k a) (h' : Shows k' b) (hs : a.Steps b) : Grows k k' := by
  obtain ⟨hthreads, hsems, hbody⟩ := hs.grows
  refine ⟨fun t ht => ?_, fun s h₁ => ?_, fun t ht => ?_⟩
  · rw [h.tcbList_eq] at ht
    rw [h'.tcbList_eq]
    exact hthreads t ht
  · rw [h.semList_eq] at h₁
    rw [h'.semList_eq]
    exact hsems s h₁
  · rw [h.tcbList_eq] at ht
    rw [h.hasBody, h'.hasBody]
    exact hbody t ht

theorem step_grows (hk : Reachable k) (hs : step k act = some k') : Grows k k' := by
  obtain ⟨-, -, a, -, ha⟩ := hk.shows
  obtain ⟨b, hsteps, hb⟩ := step_shows ha hs
  exact ha.grows hb hsteps

/-- A new thread on the list has the body that was asked for. -/
theorem step_new (hk : Reachable k) (hs : step k act = some k') (ht : t ∈ k'.tcbList)
    (hn : t ∉ k.tcbList) : ∃ space mem,
      act = .ecall (.threadCreate (k'.tcb t).hasBody space mem) := by
  obtain ⟨a, ha, hreg, -⟩ := hk.embodied
  obtain ⟨b, hb, hreg', hbody⟩ := (hk.step hs).embodied
  have hcreated : k.CreatedIn fun t _ _ => t ∈ k.tcbList := fun t p x hm => by
    rw [congrArg Core.history ha.rep.core] at hm
    rw [ha.tcbList_eq]
    exact (hreg.created t p x hm).1
  have hin := step_createdIn (L := fun t _ x => t ∈ k.tcbList ∨
      ∃ space mem, act = .ecall (.threadCreate x space mem)) (fun body space mem he _ _ =>
    Or.inr ⟨space, mem, he⟩) (fun t p x hm => Or.inl (hcreated t p x hm)) hs
  rw [hb.tcbList_eq] at ht
  obtain ⟨x, hx⟩ := hreg'.born t ht
  rw [hb.hasBody, hbody t _ x hx]
  rw [← congrArg Core.history hb.rep.core] at hx
  exact (hin t _ x hx).resolve_left hn

end Os1Kernel
