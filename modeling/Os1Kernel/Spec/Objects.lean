/-
# Threads and semaphores as objects

Which objects exist and which of them are alive.

* `Names` is about identities: no two objects share one, a thread's pointers lead to its own four
  semaphores and to its parent, which is older.  Objects are only added, with numbers that have not
  been used, so every part of it is kept by counting upwards.
* `Alive` is about the `active` flag of a semaphore and the `finished` flag of its owner, which
  agree except while `TCB::finish` is at work.  It closes the four semaphores one by one and sets
  the flag last, so for the running thread the agreement is suspended while `Stage.isFinishing`.
* `Console` is about the two `CharBuffer`s, whose semaphores nobody closes and whose positions stay
  within the array.

The first section has the frame facts that every later invariant starts from: what no step changes
in a thread that exists.  They are proved once by cases over `Sys.Step`, and from then on a proof
about a field that is set only at creation cites `Step.fixed` and does not look at the steps.
-/
import Os1Kernel.Spec.Places

namespace Os1Kernel

/-- The fields of a thread that are set once, when it is created. -/
def Thread.fixed (x : Thread) : Option Tid × Bool × Option SemPtr × Option SemPtr ×
    Option SemPtr × Option SemPtr :=
  (x.parent, x.hasBody, x.semJoin, x.semJoinAll, x.semSend, x.semReceive)

/-- `TCB::finish` is at work. -/
def Stage.isFinishing : Stage → Bool
  | .finishing | .left => true
  | _ => false

namespace Sys

variable {a b : Sys} {t : Tid} {s : SemPtr}

/-! ## 1. What a step leaves alone

Threads and semaphores stay on their lists, and a field that only the constructor writes stays as
it is.  These are facts about single steps, and need no invariant. -/

/-- A field that the update of one thread does not touch. -/
theorem update_field {β : Type*} {g : Tid → Thread} {x : Thread} (φ : Thread → β)
    (h : φ x = φ (g t)) (u : Tid) : φ (Function.update g t x u) = φ (g u) := by
  rw [Function.update_apply]
  split
  · next hu => rw [hu, h]
  · rfl

theorem Step.fixed (hs : a.Step b) (ht : t ∈ b.threads) :
    (b.thread t).fixed = (a.thread t).fixed := by
  cases hs with
  | init h hnt =>
    have hne : t ≠ _ := fun e => hnt (e.subst ht)
    exact congrArg Thread.fixed (Function.update_of_ne hne _ _)
  | _ => first | exact update_field Thread.fixed (by simp only [Thread.fixed]) t | rfl

/-- Only `TCB::finish` marks a thread finished, and nothing takes the mark away. -/
theorem Step.finished (hs : a.Step b) (ht : t ∈ b.threads) :
    (b.thread t).finished = (a.thread t).finished ∨
      t = a.running ∧ a.stage = .left ∧ (b.thread t).finished = true := by
  cases hs with
  | init h hnt =>
    have hne : t ≠ _ := fun e => hnt (e.subst ht)
    exact Or.inl (congrArg Thread.finished (Function.update_of_ne hne _ _))
  | retire h hs =>
    by_cases htr : t = a.running
    · exact Or.inr ⟨htr, hs, by simp [htr, setThread]⟩
    · exact Or.inl (congrArg Thread.finished (Function.update_of_ne htr _ _))
  | _ => exact Or.inl (by first | exact update_field Thread.finished (by rfl) t | rfl)

theorem Step.threads (hs : a.Step b) : ∀ t ∈ a.threads, t ∈ b.threads := by
  cases hs with
  | enlist => exact fun t ht => List.mem_append_left _ ht
  | _ => exact fun t ht => ht

theorem Step.idle (hs : a.Step b) : b.idle = a.idle := by
  cases hs <;> rfl

theorem Step.sems (hs : a.Step b) : ∀ s ∈ a.sems, s ∈ b.sems := by
  cases hs with
  | openSem => exact fun t ht => List.mem_append_left _ ht
  | _ => exact fun t ht => ht

/-- The history only grows. -/
theorem Step.history (hs : a.Step b) : ∃ h, b.history = h ++ a.history := by
  cases hs with
  | timeoutZero _ hb => exact ⟨[.returned a.running TIMEOUT, .expired _ a.running], rfl⟩
  | _ => first | exact ⟨[], rfl⟩ | exact ⟨[_], rfl⟩

/-! ## 2. Identities -/

/-- Who there is.  Each thread, and each semaphore of the system call, is named by a number that
was new when it was created, so the lists have no repetitions, and what is to be created is not
there yet. -/
structure Names (a : Sys) : Prop where
  threads_nodup : a.threads.Nodup
  threads_lt : ∀ t ∈ a.threads, t < a.IDCounter
  sems_nodup : a.sems.Nodup
  opened_lt : ∀ n, .opened n ∈ a.sems → n < a.semIDCounter
  /-- A thread's semaphores are as old as the thread. -/
  own_lt : ∀ s ∈ a.sems, ∀ t, s ∈ SemPtr.own t → t < a.IDCounter
  own_mem : ∀ t ∈ a.threads, ∀ s ∈ SemPtr.own t, s ∈ a.sems
  /-- The pointers of a thread are to its own semaphores. -/
  pointers : ∀ t ∈ a.threads, (a.thread t).semJoin = some (.join t) ∧
    (a.thread t).semJoinAll = some (.joinAll t) ∧ (a.thread t).semSend = some (.send t) ∧
    (a.thread t).semReceive = some (.receive t)
  /-- The threads are a tree. -/
  parent : ∀ t ∈ a.threads, ∀ p, (a.thread t).parent = some p → p ∈ a.threads ∧ p < t
  idle_mem : a.idle ∈ a.threads
  sems_length : a.sems.length ≤ a.semIDCounter
  threads_length : a.threads.length ≤ 2 ^ 58

theorem Names.same (h : a.Names) (hthreads : b.threads = a.threads) (hsems : b.sems = a.sems)
    (hid : a.IDCounter ≤ b.IDCounter) (hsid : b.semIDCounter = a.semIDCounter)
    (hidle : b.idle = a.idle) (hfix : ∀ t ∈ b.threads, (b.thread t).fixed = (a.thread t).fixed) :
    b.Names := by
  simp only [hthreads, Thread.fixed, Prod.mk.injEq] at hfix
  constructor
  · exact hthreads ▸ h.threads_nodup
  · rw [hthreads]
    exact fun t ht => (h.threads_lt t ht).trans_le hid
  · exact hsems ▸ h.sems_nodup
  · rw [hsems, hsid]
    exact h.opened_lt
  · rw [hsems]
    exact fun s hs t ht => (h.own_lt s hs t ht).trans_le hid
  · rw [hthreads, hsems]
    exact h.own_mem
  · rw [hthreads]
    intro t ht
    obtain ⟨-, -, h1, h2, h3, h4⟩ := hfix t ht
    rw [h1, h2, h3, h4]
    exact h.pointers t ht
  · rw [hthreads]
    intro t ht
    rw [(hfix t ht).1]
    exact h.parent t ht
  · rw [hthreads, hidle]
    exact h.idle_mem
  · rw [hsems, hsid]
    exact h.sems_length
  · rw [hthreads]
    exact h.threads_length

theorem Names.step (h : a.Names) (hr : a.running ∈ a.threads) (hs : a.Step b) : b.Names := by
  have hfix : ∀ t ∈ b.threads, (b.thread t).fixed = (a.thread t).fixed := fun t ht => hs.fixed ht
  cases hs with
  | allocate => exact h.same rfl rfl (Nat.le_succ _) rfl rfl hfix
  | openSem hc hv hs =>
    rename_i s v
    have hnew : s ∉ a.sems ∧ (∀ n, s = .opened n → n < a.semIDCounter + 1) ∧
        ∀ t, s ∈ SemPtr.own t → t < a.IDCounter := by
      rcases hs with rfl | ⟨t, ht, hns, -, hlt, -⟩
      · refine ⟨fun hm => lt_irrefl _ (h.opened_lt _ hm), ?_, ?_⟩
        · rintro n ⟨⟩
          exact Nat.lt_succ_self _
        · intro t ht
          simp [SemPtr.own] at ht
      · refine ⟨hns, ?_, ?_⟩
        · rintro n rfl
          simp [SemPtr.own] at ht
        · intro u hu
          rw [SemPtr.mem_own] at ht hu
          obtain rfl := Option.some.inj (ht.symm.trans hu)
          exact hlt
    refine { h with sems_nodup := ?_, opened_lt := ?_, own_lt := ?_, own_mem := ?_,
                    sems_length := ?_ }
    · exact List.nodup_append.mpr ⟨h.sems_nodup, List.nodup_singleton s, by grind⟩
    · intro n hn
      rcases List.mem_append.mp hn with hn | hn
      · exact (h.opened_lt n hn).trans (Nat.lt_succ_self _)
      · exact hnew.2.1 n (List.mem_singleton.mp hn).symm
    · intro s' hs'
      rcases List.mem_append.mp hs' with hs' | hs'
      · exact h.own_lt s' hs'
      · obtain rfl := List.mem_singleton.mp hs'
        exact hnew.2.2
    · exact fun t ht s' hs' => List.mem_append_left _ (h.own_mem t ht s' hs')
    · rw [List.length_append, List.length_singleton]
      exact Nat.succ_le_succ h.sems_length
  | enlist hc hnew hlt hroom hx hp hs =>
    rename_i t
    simp only [Thread.fixed, Prod.mk.injEq] at hfix
    have hmem : ∀ {u}, u ∈ a.threads ++ [t] → u ∈ a.threads ∨ u = t := by
      intro u hu
      simpa using hu
    refine { threads_nodup := ?_, threads_lt := ?_, own_mem := ?_, pointers := ?_,
             parent := ?_, idle_mem := List.mem_append_left _ h.idle_mem,
             sems_nodup := h.sems_nodup, opened_lt := h.opened_lt, own_lt := h.own_lt,
             sems_length := h.sems_length, threads_length := ?_ }
    · refine List.nodup_append.mpr ⟨h.threads_nodup, List.nodup_singleton t, ?_⟩
      rintro u hu v hv rfl
      exact absurd (hnew u hu) (by simp [List.mem_singleton.mp hv])
    · intro u hu
      rcases hmem hu with hu | rfl
      · exact h.threads_lt u hu
      · exact hlt
    · intro u hu s hsu
      rcases hmem hu with hu | rfl
      · exact h.own_mem u hu s hsu
      · exact (hs s hsu).1
    · intro u hu
      obtain ⟨-, -, h1, h2, h3, h4⟩ := hfix u hu
      rw [h1, h2, h3, h4]
      rcases hmem hu with hu | rfl
      · exact h.pointers u hu
      · exact hp
    · intro u hu p hpu
      rw [(hfix u hu).1] at hpu
      rcases hmem hu with hu | rfl
      · obtain ⟨h1, h2⟩ := h.parent u hu p hpu
        exact ⟨List.mem_append_left _ h1, h2⟩
      · rw [hx.2.2.1] at hpu
        obtain rfl := Option.some.inj hpu
        exact ⟨List.mem_append_left _ hr, hnew _ hr⟩
    · rw [List.length_append, List.length_singleton]
      exact hroom
  | _ => exact h.same rfl rfl le_rfl rfl rfl hfix

/-! ## 3. Life and death

`TCB::finish` takes several steps, during which the semaphores of the running thread are closed one
after the other while it is still unfinished.  So "open" is said of those that have not begun to
finish, and "closed" of those that have ended. -/

theorem not_leaving (h : a.activity = .none) : ¬ a.activity.isLeaving = true := by
  rw [h]
  decide

theorem AtBody.isFinishing (h : a.AtBody) : a.stage.isFinishing = false := by rw [h.stage]; rfl

theorem WaitCall.isFinishing {m : Nat} {ctx : Context} (h : a.WaitCall s m ctx) :
    a.stage.isFinishing = false := by
  cases h with
  | put _ hs | putMutex _ hs | getMutex _ hs => rw [hs]; rfl
  | semWait h | join h | joinAll h | timedJoinAll h | send h | receive h | get h =>
    exact h.isFinishing

theorem SignalCall.isFinishing {stage : Stage} (h : a.SignalCall s stage) :
    stage.isFinishing = a.stage.isFinishing := by
  cases h with
  | semSignal h => exact h.isFinishing.symm
  | owed _ hs | slot _ hs => rw [hs]; rfl

theorem Leaves.isFinishing (h : a.Leaves) : a.stage.isFinishing = false := by
  cases h with
  | code hs | past hs | done hs => rw [hs]; rfl

theorem update_active {g : SemPtr → Sem} {x : Sem} (h : x.active = (g s).active) (s' : SemPtr) :
    (Function.update g s x s').active = (g s').active := by
  rw [Function.update_apply]
  split
  · next hs => rw [hs, h]
  · rfl

/-- Which semaphores are open.  Those of a thread are closed by its own `TCB::finish` only, one
after the other, so that in between the stage says how far it has come. -/
structure Alive (a : Sys) : Prop where
  running_mem : a.running ∈ a.threads
  active_mem : ∀ s, (a.sem s).active = true → s ∈ a.sems
  /-- The semaphores of a thread are open until `TCB::finish` begins for it. -/
  own_active : ∀ t ∈ a.threads, (a.thread t).finished = false →
    (t = a.running → a.stage.isFinishing = false) → ∀ s ∈ SemPtr.own t, (a.sem s).active = true
  /-- When it has ended they are closed. -/
  own_dead : ∀ t ∈ a.threads, (a.thread t).finished = true →
    ∀ s ∈ SemPtr.own t, (a.sem s).active = false
  /-- Only the system call, `TCB::finish` and a failed creation close a semaphore. -/
  releasing : ∀ s, a.activity = .releasing s .onClose → (∃ n, s = .opened n) ∨
    ∃ t, s ∈ SemPtr.own t ∧ (t ∈ a.threads → t = a.running ∧ a.stage.isFinishing = true)
  leaving : a.activity.isLeaving = true → a.stage.isFinishing = false

theorem Alive.same (h : a.Alive) (hthreads : b.threads = a.threads) (hrun : b.running = a.running)
    (hsems : ∀ s ∈ a.sems, s ∈ b.sems) (hactive : ∀ s, (b.sem s).active = (a.sem s).active)
    (hfin : ∀ t ∈ a.threads, (b.thread t).finished = (a.thread t).finished)
    (hstage : b.stage.isFinishing = a.stage.isFinishing)
    (hrel : ∀ s, b.activity = .releasing s .onClose → a.activity = .releasing s .onClose)
    (hleave : b.activity.isLeaving = true → b.stage.isFinishing = false) : b.Alive := by
  constructor
  · rw [hthreads, hrun]
    exact h.running_mem
  · intro s hs
    rw [hactive] at hs
    exact hsems s (h.active_mem s hs)
  · rw [hthreads, hrun, hstage]
    intro t ht hf hr s hs
    rw [hactive]
    exact h.own_active t ht ((hfin t ht).symm.trans hf) hr s hs
  · rw [hthreads]
    intro t ht hf s hs
    rw [hactive]
    exact h.own_dead t ht ((hfin t ht).symm.trans hf) s hs
  · rw [hthreads, hrun, hstage]
    exact fun s hs => h.releasing s (hrel s hs)
  · exact hleave

/-- The next thread is chosen. -/
theorem Alive.chosen (h : a.Alive) (hrun : b.running ∈ a.threads) (hthreads : b.threads = a.threads)
    (hsems : b.sems = a.sems) (hsem : b.sem = a.sem)
    (hfin : ∀ t ∈ a.threads, (b.thread t).finished = (a.thread t).finished)
    (hstage : a.stage.isFinishing = false) (hact : b.activity = .none) : b.Alive := by
  constructor
  · exact hthreads ▸ hrun
  · rw [hsem, hsems]
    exact h.active_mem
  · rw [hthreads, hsem]
    intro t ht hf _
    exact h.own_active t ht ((hfin t ht).symm.trans hf) fun _ => hstage
  · rw [hthreads, hsem]
    exact fun t ht hf => h.own_dead t ht ((hfin t ht).symm.trans hf)
  · rw [hact]
    intro s hs
    cases hs
  · rw [hact]
    intro hl
    cases hl

theorem Alive.step (h : a.Alive) (hn : a.Names) (hp : a.Places) (hs : a.Step b) : b.Alive := by
  have hhead : ∀ l : List Tid, (∀ t ∈ l, t ∈ a.threads) → l.headD a.idle ∈ a.threads := by
    intro l hl
    cases l with
    | nil => exact hn.idle_mem
    | cons t l => exact hl t List.mem_cons_self
  have hready : ∀ t ∈ a.ready, t ∈ a.threads := fun t ht => (hp.live t (Or.inl ht)).1
  cases hs with
  | preempt hb =>
    refine h.chosen (hhead _ ?_) rfl rfl rfl
      (fun t _ => update_field Thread.finished (by rfl) t) hb.isFinishing hb.activity
    intro t ht
    simp only [pushReady] at ht
    split at ht
    · exact hready t ht
    · rcases List.mem_append.mp ht with ht | ht
      · exact hready t ht
      · exact List.mem_singleton.mp ht ▸ h.running_mem
  | switch hl =>
    exact h.chosen (hhead _ hready) rfl rfl rfl
      (fun t _ => update_field Thread.finished (by rfl) t) (h.leaving (by rw [hl]; rfl)) rfl
  | openSem hc hv hs =>
    rename_i s v
    have hne : ∀ t ∈ a.threads, s ∉ SemPtr.own t := by
      intro t ht hst
      rcases hs with rfl | ⟨u, hu, -, hnu, -⟩
      · simp [SemPtr.own] at hst
      · rw [SemPtr.mem_own] at hst hu
        obtain rfl := Option.some.inj (hu.symm.trans hst)
        exact hnu ht
    have hsem : ∀ t ∈ a.threads, ∀ s' ∈ SemPtr.own t,
        Function.update a.sem s ⟨some a.running, v, true⟩ s' = a.sem s' :=
      fun t ht s' hs' => Function.update_of_ne (fun e => hne t ht (e.subst hs')) _ _
    refine { h with active_mem := ?_, own_active := ?_, own_dead := ?_ }
    · intro s' hs'
      by_cases he : s' = s
      · exact he ▸ List.mem_append_right _ List.mem_cons_self
      · have ha : (Function.update a.sem s ⟨some a.running, v, true⟩ s').active = true := hs'
        rw [Function.update_of_ne he] at ha
        exact List.mem_append_left _ (h.active_mem s' ha)
    · intro t ht hf hr s' hs'
      have := h.own_active t ht hf hr s' hs'
      rw [← hsem t ht s' hs'] at this
      exact this
    · intro t ht hf s' hs'
      have := h.own_dead t ht hf s' hs'
      rw [← hsem t ht s' hs'] at this
      exact this
  | close hc ha =>
    refine { h with releasing := ?_, leaving := fun hl => (by cases hl) }
    rintro s ⟨⟩
    cases hc with
    | semClose => exact Or.inl ⟨_, rfl⟩
    | finish _ hs hown =>
      have hf : a.stage.isFinishing = true := by rw [hs]; rfl
      exact Or.inr ⟨_, hown, fun _ => ⟨rfl, hf⟩⟩
    | last _ hs =>
      have hf : a.stage.isFinishing = true := by rw [hs]; rfl
      exact Or.inr ⟨a.running, by simp [SemPtr.own], fun _ => ⟨rfl, hf⟩⟩
    | undo _ hown ht => exact Or.inr ⟨_, hown, fun hm => absurd hm ht⟩
  | releaseEnd hr hq =>
    rename_i s manner
    have hle : ∀ s', ((a.setSem s fun x => { x with
        value := 0, active := x.active && manner ≠ .onClose }).sem s').active = true →
        (a.sem s').active = true := by
      intro s' ha
      simp only [setSem, Function.update_apply] at ha
      split at ha
      · next he =>
        rw [he]
        exact (Bool.and_eq_true_iff.mp ha).1
      · exact ha
    refine { running_mem := h.running_mem, active_mem := ?_, own_active := ?_, own_dead := ?_,
             releasing := fun s hs => (by cases hs), leaving := fun hl => (by cases hl) }
    · exact fun s' hs' => h.active_mem s' (hle s' hs')
    · intro t ht hf htr s' hs'
      have ha := h.own_active t ht hf htr s' hs'
      have hne : s' = s → manner ≠ .onClose := by
        rintro rfl rfl
        rcases h.releasing _ hr with ⟨n, rfl⟩ | ⟨u, hu, hut⟩
        · simp [SemPtr.own] at hs'
        · rw [SemPtr.mem_own] at hs' hu
          obtain rfl := Option.some.inj (hs'.symm.trans hu)
          obtain ⟨h1, h2⟩ := hut ht
          have h3 : a.stage.isFinishing = false := htr h1
          rw [h2] at h3
          cases h3
      show (Function.update a.sem s _ s').active = true
      rw [Function.update_apply]
      split
      · next he => simpa [← he, ha] using hne he
      · exact ha
    · intro t ht hf s' hs'
      by_contra hb
      have := h.own_dead t ht hf s' hs'
      rw [hle s' (by simpa using hb)] at this
      cases this
  | enlist hc hnew hlt hroom hx hp hs =>
    rename_i t
    have hfin : ∀ u, (Function.update a.thread a.running { a.thread a.running with
        numOfActiveChildren := u64 ((a.thread a.running).numOfActiveChildren + 1) } u).finished =
          (a.thread u).finished := fun u => update_field Thread.finished (by rfl) u
    refine { h with running_mem := List.mem_append_left _ h.running_mem, own_active := ?_,
                    own_dead := ?_, releasing := ?_ }
    · intro u hu hf hr
      rcases List.mem_append.mp hu with hu | hu
      · exact h.own_active u hu ((hfin u).symm.trans hf) hr
      · obtain rfl := List.mem_singleton.mp hu
        exact fun s hsu => (hs s hsu).2.1
    · intro u hu hf
      replace hf : (a.thread u).finished = true := (hfin u).symm.trans hf
      rcases List.mem_append.mp hu with hu | hu
      · exact h.own_dead u hu hf
      · obtain rfl := List.mem_singleton.mp hu
        rw [hx.2.1] at hf
        cases hf
    · intro s hs
      have : a.activity = .releasing s .onClose := hs
      rw [hc.activity] at this
      cases this
  | finish hb =>
    refine { h with own_active := ?_, releasing := ?_, leaving := ?_ }
    · intro t ht hf htr
      exact h.own_active t ht hf fun _ => hb.isFinishing
    · intro s hs
      have : a.activity = .releasing s .onClose := hs
      rw [hb.activity] at this
      cases this
    · intro hl
      have : a.activity.isLeaving = true := hl
      rw [hb.activity] at this
      cases this
  | retire ha hs hc =>
    have hfin : ∀ t ≠ a.running, ∀ x : Thread, (Function.update a.thread a.running x t).finished =
        (a.thread t).finished :=
      fun t ht x => congrArg Thread.finished (Function.update_of_ne ht x a.thread)
    refine { h with own_active := ?_, own_dead := ?_, releasing := fun s hs => (by cases hs),
                    leaving := fun _ => rfl }
    · intro t ht hf _
      by_cases htr : t = a.running
      · subst htr
        simp [setThread] at hf
      · exact h.own_active t ht ((hfin t htr _).symm.trans hf) fun e => absurd e htr
    · intro t ht hf
      by_cases htr : t = a.running
      · subst htr
        exact hc
      · exact h.own_dead t ht ((hfin t htr _).symm.trans hf)
  | init hc hnt =>
    refine h.same rfl rfl (fun _ hs => hs) (fun _ => rfl) (fun t ht => ?_) rfl (fun _ hs => hs)
      h.leaving
    have hne : t ≠ _ := fun e => hnt (e.subst ht)
    exact congrArg Thread.finished (Function.update_of_ne hne _ _)
  | leave _ hl =>
    exact h.same rfl rfl (fun _ hs => hs) (fun _ => rfl)
      (fun t _ => update_field Thread.finished (by rfl) t) hl.isFinishing.symm
      (fun _ hs => hs) (fun _ => rfl)
  | acquire hw | dead hw | block hw =>
    refine h.same rfl rfl (fun _ hs => hs) (fun s => ?_) (fun t _ => ?_) hw.isFinishing.symm
      (fun s hs => ?_) (fun _ => rfl)
    · first | exact update_active (by rfl) s | rfl
    · first | exact update_field Thread.finished (by rfl) t | rfl
    · first | exact hs | cases hs
  | signal hc | skip hc =>
    refine h.same rfl rfl (fun _ hs => hs) (fun _ => rfl) (fun _ _ => rfl) hc.isFinishing
      (fun s hs => ?_) (fun hl => ?_)
    · first | exact hs | cases hs
    · first | cases hl | exact absurd hl (not_leaving hc.activity)
  | noParent ha hs | childLeaves ha hs | childSignals ha hs | endWait ha hs | write ha hs
  | received ha hs | putChar ha hs | getChar ha hs =>
    refine h.same rfl rfl (fun _ hs => hs) (fun _ => rfl) (fun t _ => ?_) ?_ (fun s hs => ?_)
      (fun hl => ?_)
    · first | exact update_field Thread.finished (by rfl) t | rfl
    · rw [hs]; rfl
    · first | exact hs | cases hs
    · first | cases hl | exact absurd hl (not_leaving ha)
  | putting hc =>
    exact h.same rfl rfl (fun _ hs => hs) (fun _ => rfl) (fun _ _ => rfl) hc.isFinishing.symm
      (fun _ hs => hs) (fun _ => rfl)
  | timeoutZero hl =>
    exact h.same rfl rfl (fun _ hs => hs) (fun _ => rfl)
      (fun t _ => update_field Thread.finished (by rfl) t) (h.leaving (by rw [hl]; rfl)).symm
      (fun _ hs => by cases hs) (fun _ => rfl)
  | sleep hc =>
    exact h.same rfl rfl (fun _ hs => hs) (fun _ => rfl) (fun _ _ => rfl) rfl
      (fun _ hs => by cases hs) (fun _ => hc.isFinishing)
  | fallAsleep hl =>
    exact h.same rfl rfl (fun _ hs => hs) (fun _ => rfl) (fun _ _ => rfl) rfl
      (fun _ hs => by cases hs) (fun _ => h.leaving (by rw [hl]; rfl))
  | _ =>
    refine h.same rfl rfl (fun _ hs => hs) (fun s => ?_) (fun t _ => ?_) rfl (fun s hs => ?_)
      (fun hl => ?_)
    · first | exact update_active (by rfl) s | rfl
    · first | exact update_field Thread.finished (by rfl) t | rfl
    · first | exact hs | cases hs
    · first | exact h.leaving hl | cases hl

/-! ## 4. The console

Nothing closes these semaphores: they are neither a thread's own nor opened by a call. -/

/-- The semaphores of a `CharBuffer`. -/
def consoleSems (b : BufferId) : List SemPtr := [.put b, .get b, .mutex b]

/-- The two buffers of the console: their semaphores are never closed, their pointers never change,
and the positions stay inside the array. -/
structure Console (a : Sys) : Prop where
  active : ∀ b, ∀ s ∈ consoleSems b, (a.sem s).active = true
  pointers : ∀ b, (a.buffer b).semPut = some (.put b) ∧ (a.buffer b).semGet = some (.get b) ∧
    (a.buffer b).mutex = some (.mutex b)
  pos : ∀ b, (a.buffer b).pos_w < bufferLength ∧ (a.buffer b).pos_r < bufferLength

theorem not_console {b : BufferId} (hs : s ∈ consoleSems b) :
    (∀ n, s ≠ .opened n) ∧ ∀ t, s ∉ SemPtr.own t := by
  simp only [consoleSems, List.mem_cons, List.not_mem_nil, or_false] at hs
  rcases hs with rfl | rfl | rfl <;> exact ⟨fun n => by simp, fun t => by simp [SemPtr.own]⟩

/-- A step that changes at most one of the buffers, and its positions within their bounds. -/
theorem Console.same (h : a.Console) (hactive : ∀ s, (b.sem s).active = (a.sem s).active)
    (hbuf : ∀ i, (b.buffer i).semPut = (a.buffer i).semPut ∧
      (b.buffer i).semGet = (a.buffer i).semGet ∧ (b.buffer i).mutex = (a.buffer i).mutex)
    (hpos : ∀ i, (b.buffer i).pos_w < bufferLength ∧ (b.buffer i).pos_r < bufferLength) :
    b.Console := by
  refine ⟨fun i s hs => ?_, fun i => ?_, hpos⟩
  · rw [hactive]
    exact h.active i s hs
  · obtain ⟨h1, h2, h3⟩ := hbuf i
    rw [h1, h2, h3]
    exact h.pointers i

theorem Console.step (h : a.Console) (ha : a.Alive) (hs : a.Step b) : b.Console := by
  cases hs with
  | openSem hc hv hs =>
    refine { h with active := fun i s' hs' => ?_ }
    show (Function.update a.sem _ _ s').active = true
    rw [Function.update_apply]
    split
    · rfl
    · exact h.active i s' hs'
  | releaseEnd hr hq =>
    rename_i s manner
    refine { h with active := fun i s' hs' => ?_ }
    have hact := h.active i s' hs'
    have hne : s' = s → manner ≠ .onClose := by
      rintro rfl rfl
      obtain ⟨h1, h2⟩ := not_console hs'
      rcases ha.releasing _ hr with ⟨n, hn⟩ | ⟨t, ht, -⟩
      · exact h1 n hn
      · exact h2 t ht
    show (Function.update a.sem s _ s').active = true
    rw [Function.update_apply]
    split
    · next he => simpa [← he, hact] using hne he
    · exact hact
  | putChar ha hs hw =>
    rename_i b c
    refine h.same (fun _ => rfl) (fun i => ?_) (fun i => ?_)
    · simp only [Function.update_apply]
      split <;> simp [*]
    · have := h.pos i
      simp only [Function.update_apply]
      split
      · next he => exact ⟨Nat.mod_lt _ (by decide), by simpa [he] using this.2⟩
      · exact this
  | getChar ha hs hw =>
    rename_i b
    refine h.same (fun _ => rfl) (fun i => ?_) (fun i => ?_)
    · simp only [Function.update_apply]
      split <;> simp [*]
    · have := h.pos i
      simp only [Function.update_apply]
      split
      · next he => exact ⟨by simpa [he] using this.1, Nat.mod_lt _ (by decide)⟩
      · exact this
  | _ =>
    refine h.same (fun s => ?_) (fun _ => ⟨rfl, rfl, rfl⟩) h.pos
    first | exact update_active (by rfl) s | rfl

end Sys

end Os1Kernel
