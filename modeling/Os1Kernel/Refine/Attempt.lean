/-
# What one attempt to create a thread leaves behind

`TCB::threadCreate` under every answer of the allocator.  With memory for everything the thread is
appended to the lists; otherwise the semaphores that could be created stay on the list of all
semaphores, closed, and nothing else does.

`Refine.Creation` shows that the attempt follows steps of the abstract system, whatever happens.
Here its outcome is computed: which semaphores were created (`CreateMem.created`, in the order of
the constructor), in which order they are closed again (`CreateMem.closing`), and that nothing but
these and the thread under construction has changed (`Attempt`).

* The answers are data (`CreateMem`), and the constructor does not stop at the first that is
  negative: every allocation is tried, and only then does it look at what is missing.
* Nobody waits at the new semaphores.  So closing one is the assignment of `active` alone (`shut`),
  and the loop of `signalAll` ends at once.
* The order of closing is not the order of creation, but closing different semaphores commutes, and
  all of them are closed in the end (`shutAll_closed`).

`threadCreate_fails` and `threadCreate_succeeds` are the results.
-/
import Os1Kernel.Refine.Boot

namespace Os1Kernel

open Linked Simulation

variable {c : Kernel} {a b d : Sys} {t u : Tid} {s : SemPtr} {p : Option Tid}

/-! ## 1. The semaphores of the constructor -/

/-- The semaphore that the constructor creates if there is memory. -/
def SemPtr.ifMem (s : SemPtr) (mem : Bool) : Option SemPtr := if mem then some s else none

/-- The semaphores that the constructor gets memory for, in its order. -/
def CreateMem.created (mem : CreateMem) (t : Tid) : List SemPtr :=
  (SemPtr.ifMem (.join t) mem.semJoin).toList ++
    ((SemPtr.ifMem (.joinAll t) mem.semJoinAll).toList ++
      ((SemPtr.ifMem (.send t) mem.semSend).toList ++
        (SemPtr.ifMem (.receive t) mem.semReceive).toList))

/-- The stacks that the thread needs are there. -/
def CreateMem.stacks (mem : CreateMem) (body space : Bool) : Bool :=
  !body || ((space || mem.userStack) && mem.systemStack)

def CreateMem.sems (mem : CreateMem) : Bool :=
  mem.semSend && mem.semReceive && mem.semJoin && mem.semJoinAll

/-- There is memory for everything. -/
def CreateMem.enough (mem : CreateMem) (body space : Bool) : Bool :=
  mem.stacks body space && mem.sems

theorem mem_ifMem {mem : Bool} {s' : SemPtr} (h : s' ∈ (SemPtr.ifMem s mem).toList) : s' = s := by
  cases mem with
  | true => exact List.mem_singleton.mp h
  | false => cases h

theorem CreateMem.created_own {mem : CreateMem} (h : s ∈ mem.created t) : s ∈ SemPtr.own t := by
  simp only [created, List.mem_append] at h
  rcases h with h | h | h | h <;> simp [mem_ifMem h, SemPtr.own]

theorem CreateMem.created_of_sems {mem : CreateMem} (h : mem.sems = true) :
    mem.created t = SemPtr.own t := by
  simp only [sems, Bool.and_eq_true] at h
  simp [created, SemPtr.ifMem, SemPtr.own, h.1.1.1, h.1.1.2, h.1.2, h.2]

/-! ## 2. What is left alone -/

/-- From `a` to `b` the thread `t` was worked on, and the semaphores `l` were created. -/
structure Attempt (t : Tid) (l : List SemPtr) (a b : Sys) : Prop where
  running : b.running = a.running
  idle : b.idle = a.idle
  ready : b.ready = a.ready
  sleepers : b.sleepers = a.sleepers
  queue : b.queue = a.queue
  threads : b.threads = a.threads
  others : ∀ u ≠ t, b.thread u = a.thread u
  sems : b.sems = a.sems ++ l
  IDCounter : a.IDCounter ≤ b.IDCounter
  semIDCounter : b.semIDCounter = a.semIDCounter + l.length
  sem : ∀ s ∉ SemPtr.own t, b.sem s = a.sem s

variable {l l' : List SemPtr}

theorem Attempt.trans (h : Attempt t l a b) (h' : Attempt t l' b d) : Attempt t (l ++ l') a d where
  running := h'.running.trans h.running
  idle := h'.idle.trans h.idle
  ready := h'.ready.trans h.ready
  sleepers := h'.sleepers.trans h.sleepers
  queue := h'.queue.trans h.queue
  threads := h'.threads.trans h.threads
  others u hu := (h'.others u hu).trans (h.others u hu)
  sems := by rw [h'.sems, h.sems, List.append_assoc]
  IDCounter := h.IDCounter.trans h'.IDCounter
  semIDCounter := by rw [h'.semIDCounter, h.semIDCounter, List.length_append, Nat.add_assoc]
  sem s hs := (h'.sem s hs).trans (h.sem s hs)

theorem Attempt.refl (t : Tid) (a : Sys) : Attempt t [] a a :=
  ⟨rfl, rfl, rfl, rfl, rfl, rfl, fun _ _ => rfl, (List.append_nil _).symm, Nat.le_refl _, rfl,
    fun _ _ => rfl⟩

theorem Attempt.setThread (a : Sys) (t : Tid) (f : Thread → Thread) :
    Attempt t [] a (a.setThread t f) :=
  { Attempt.refl t a with others := fun _ hu => Function.update_of_ne hu .. }

theorem Attempt.setSem (a : Sys) (hs : s ∈ SemPtr.own t) (f : Sem → Sem) :
    Attempt t [] a (a.setSem s f) := by
  refine { Attempt.refl t a with sem := fun s' hs' => Function.update_of_ne ?_ .. }
  rintro rfl
  exact hs' hs

theorem Attempt.opened (a : Sys) (p : Option Tid) (v : Nat) (hs : s ∈ SemPtr.own t) :
    Attempt t [s] a (a.opened p s v) :=
  { Attempt.setSem a hs fun _ => { creator := p, value := v, active := true } with
    sems := rfl
    semIDCounter := rfl }

/-- A semaphore nobody waits at is closed. -/
def Sys.shut (a : Sys) (s : SemPtr) : Sys :=
  if (a.sem s).active then
    (a.emit (.closed s)).setSem s fun x => { x with value := 0, active := false }
  else a

theorem Attempt.shut (a : Sys) (hs : s ∈ SemPtr.own t) : Attempt t [] a (a.shut s) := by
  unfold Sys.shut
  split
  · exact { Attempt.setSem a hs fun x => { x with value := 0, active := false } with }
  · exact Attempt.refl t a

/-- Closing a semaphore opens no other. -/
theorem shut_closed {s' : SemPtr} (h : s = s' ∨ (a.sem s).active = false) :
    ((a.shut s').sem s).active = false := by
  unfold Sys.shut
  split
  · next hact =>
    by_cases he : s = s'
    · subst he
      exact congrArg Sem.active (Function.update_self s _ a.sem)
    · exact (congrArg Sem.active (Function.update_of_ne he _ a.sem)).trans (h.resolve_left he)
  · next hact =>
    rcases h with rfl | h
    · exact Bool.eq_false_of_not_eq_true hact
    · exact h

/-- Semaphores nobody waits at are closed, one after the other. -/
def Sys.shutAll (a : Sys) (l : List SemPtr) : Sys := l.foldl Sys.shut a

theorem shutAll_append (a : Sys) (l l' : List SemPtr) :
    a.shutAll (l ++ l') = (a.shutAll l).shutAll l' := List.foldl_append

theorem Attempt.shutAll (a : Sys) (hl : ∀ s ∈ l, s ∈ SemPtr.own t) :
    Attempt t [] a (a.shutAll l) := by
  induction l generalizing a with
  | nil => exact Attempt.refl t a
  | cons s l ih =>
    rw [List.forall_mem_cons] at hl
    exact (Attempt.shut a hl.1).trans (ih _ hl.2)

theorem shut_thread (a : Sys) (s : SemPtr) : (a.shut s).thread = a.thread := by
  unfold Sys.shut
  split <;> rfl

theorem shutAll_thread (a : Sys) (l : List SemPtr) : (a.shutAll l).thread = a.thread := by
  induction l generalizing a with
  | nil => rfl
  | cons s l ih => exact (ih _).trans (shut_thread a s)

theorem shutAll_closed (h : s ∈ l ∨ (a.sem s).active = false) :
    ((a.shutAll l).sem s).active = false := by
  induction l generalizing a with
  | nil => exact h.resolve_left List.not_mem_nil
  | cons s' l ih =>
    rw [List.mem_cons, or_assoc, or_left_comm] at h
    exact ih (h.imp_right shut_closed)

/-- A semaphore is created if there is memory. -/
def Sys.openIf (a : Sys) (s : SemPtr) (v : Nat) (mem : Bool) : Sys :=
  if mem then a.opened (some a.running) s v else a

theorem Attempt.openIf (a : Sys) (v : Nat) (mem : Bool) (hs : s ∈ SemPtr.own t) :
    Attempt t (s.ifMem mem).toList a (a.openIf s v mem) := by
  cases mem with
  | true => exact Attempt.opened a _ v hs
  | false => exact Attempt.refl t a

theorem openIf_sems {s' : SemPtr} (h : s' ∉ a.sems) (hne : s' ≠ s) (v : Nat) (mem : Bool) :
    s' ∉ (a.openIf s v mem).sems := by
  cases mem with
  | true => exact fun hm => (List.mem_append.mp hm).elim h fun hm => hne (List.mem_singleton.mp hm)
  | false => exact h

theorem openIf_queue (a : Sys) (s : SemPtr) (v : Nat) (mem : Bool) :
    (a.openIf s v mem).queue = a.queue := by
  cases mem <;> rfl

/-! ## 3. The code -/

theorem signalAllLoop_nil (h : (c.sem s).blockedHead = none) (manner : UnblockManner) (n : Nat) :
    kSemaphore.signalAllLoop s manner (n + 1) c = some ((), c) := by
  rw [kSemaphore.signalAllLoop, bind_apply, getSem_apply, Option.bind_some, h]
  rfl

/-- `close` of a semaphore nobody waits at. -/
theorem close_shut (h : Rep c a) (hq : a.queue s = []) :
    ∃ x, Yields Rep (kSemaphore.close s) c x (a.shut s) := by
  have hact : (c.sem s).active = (a.sem s).active := congrArg Sem.active (h.sem_apply s)
  unfold kSemaphore.close Sys.shut
  cases ha : (a.sem s).active with
  | false => exact ⟨_, Yields.bind_eq (getSem_apply c s) (by rw [hact, ha]; exact Yields.pure h)⟩
  | true =>
    refine ⟨0, Yields.bind_eq (getSem_apply c s) ?_⟩
    rw [hact, ha, if_pos rfl]
    have hhead : (c.sem s).blockedHead = none := (hq ▸ h.queue s).chain
    have hloop := signalAllLoop_nil (c := { c with history := .closed s :: c.history }) hhead
      .onClose c.IDCounter
    have hset := (((h.emit (.closed s)).setSem s fun x => { x with value := 0 }).setSem s fun x =>
      { x with active := false })
    refine Yields.bind_eq (emit_apply ..) ?_
    rw [kSemaphore.signalAll, bind_assoc]
    refine Yields.bind_eq (getSem_apply ..) ?_
    rw [show Sem.active _ = true from hact.trans ha]
    simp only [Bool.not_true, Bool.false_eq_true, if_false, if_true, bind_assoc, pure_bind]
    refine Yields.bind_eq (fuel_apply ..) (Yields.bind_eq hloop (Yields.bind_eq (setSem_apply ..)
      (Yields.bind_eq (setSem_apply ..) (Yields.pure ?_))))
    simpa [Sys.setSem] using hset

/-- `if (sem) sem->close()` -/
theorem closeIf_shut {o : Option SemPtr} (h : Rep c a) (hq : ∀ s ∈ o, a.queue s = []) :
    Yields Rep (TCB.closeIf o) c () (a.shutAll o.toList) := by
  cases o with
  | none => exact Yields.pure h
  | some s =>
    obtain ⟨x, hx⟩ := close_shut h (hq s rfl)
    exact hx.bind fun c' h' => Yields.pure h'

/-- The four semaphores of a thread under construction. -/
theorem closeOwn_shut {o₁ o₂ o₃ o₄ : Option SemPtr} (h : Rep c a)
    (hown : ∀ s ∈ o₁.toList ++ (o₂.toList ++ (o₃.toList ++ o₄.toList)), s ∈ SemPtr.own t)
    (hq : ∀ s ∈ SemPtr.own t, a.queue s = []) :
    Yields Rep (do
      TCB.closeIf o₁
      TCB.closeIf o₂
      TCB.closeIf o₃
      TCB.closeIf o₄) c () (a.shutAll (o₁.toList ++ (o₂.toList ++ (o₃.toList ++ o₄.toList)))) := by
  simp only [List.mem_append, Option.mem_toList] at hown
  have hqueue : ∀ {l : List SemPtr}, (∀ s ∈ l, s ∈ SemPtr.own t) → ∀ s ∈ SemPtr.own t,
      (a.shutAll l).queue s = [] := fun hl s hs => by
    rw [(Attempt.shutAll a hl).queue]
    exact hq s hs
  have h₁ : ∀ s ∈ o₁.toList, s ∈ SemPtr.own t := fun s hs =>
    hown s (Or.inl (Option.mem_toList.mp hs))
  have h₂ : ∀ s ∈ o₁.toList ++ o₂.toList, s ∈ SemPtr.own t := fun s hs =>
    (List.mem_append.mp hs).elim (h₁ s) fun hs => hown s (Or.inr (Or.inl (Option.mem_toList.mp hs)))
  have h₃ : ∀ s ∈ o₁.toList ++ o₂.toList ++ o₃.toList, s ∈ SemPtr.own t := fun s hs =>
    (List.mem_append.mp hs).elim (h₂ s) fun hs =>
      hown s (Or.inr (Or.inr (Or.inl (Option.mem_toList.mp hs))))
  rw [← List.append_assoc, ← List.append_assoc, shutAll_append]
  refine (closeIf_shut h fun s hs => hq s (hown s (Or.inl hs))).bind fun c₁ hr₁ =>
    (closeIf_shut hr₁ fun s hs => hqueue h₁ s (hown s (Or.inr (Or.inl hs)))).bind fun c₂ hr₂ => ?_
  rw [← shutAll_append] at hr₂
  refine (closeIf_shut hr₂ fun s hs => hqueue h₂ s (hown s (Or.inr (Or.inr (Or.inl hs))))).bind
    fun c₃ hr₃ => ?_
  rw [← shutAll_append] at hr₃
  exact closeIf_shut hr₃ fun s hs => hqueue h₃ s (hown s (Or.inr (Or.inr (Or.inr hs))))

/-- `kSemaphoreCreate`, whatever memory there is. -/
theorem semaphoreCreate_openIf (h : Rep c a) (hnew : s ∉ a.sems) (hq : a.queue s = []) (v : Nat)
    (mem : Bool) : Yields Rep (kSemaphore.kSemaphoreCreate s v mem) c (s.ifMem mem)
      (a.openIf s v mem) := by
  cases mem with
  | true => exact semaphoreCreate_yields h hnew hq v
  | false => exact Yields.pure h

/-! ## 4. The constructor -/

/-- What the constructor has made of the thread `t`. -/
structure Constructed (t : Tid) (body space : Bool) (mem : CreateMem) (b : Sys) : Prop where
  lt : t < b.IDCounter
  parent : (b.thread t).parent = some b.running
  finished : (b.thread t).finished = !mem.enough body space
  semSend : (b.thread t).semSend = SemPtr.ifMem (.send t) mem.semSend
  semReceive : (b.thread t).semReceive = SemPtr.ifMem (.receive t) mem.semReceive
  semJoin : (b.thread t).semJoin = SemPtr.ifMem (.join t) mem.semJoin
  semJoinAll : (b.thread t).semJoinAll = SemPtr.ifMem (.joinAll t) mem.semJoinAll
  closed : mem.enough body space = false → ∀ s ∈ mem.created t, (b.sem s).active = false

/-- The constructor creates the semaphores of `t`. -/
def Sys.openOwn (a : Sys) (t : Tid) (mem : CreateMem) : Sys :=
  (((a.openIf (.join t) 0 mem.semJoin).openIf (.joinAll t) 0 mem.semJoinAll).openIf (.send t) 1
    mem.semSend).openIf (.receive t) 0 mem.semReceive

theorem Attempt.openOwn (a : Sys) (t : Tid) (mem : CreateMem) :
    Attempt t (mem.created t) a (a.openOwn t mem) := by
  have h₁ := Attempt.openIf a 0 mem.semJoin (s := .join t) (t := t) (by simp [SemPtr.own])
  have h₂ := Attempt.openIf (a.openIf (.join t) 0 mem.semJoin) 0 mem.semJoinAll (s := .joinAll t)
    (t := t) (by simp [SemPtr.own])
  have h₃ := Attempt.openIf ((a.openIf (.join t) 0 mem.semJoin).openIf (.joinAll t) 0
    mem.semJoinAll) 1 mem.semSend (s := .send t) (t := t) (by simp [SemPtr.own])
  exact h₁.trans (h₂.trans (h₃.trans (Attempt.openIf _ 0 _ (by simp [SemPtr.own]))))

theorem isNone_ifMem (s : SemPtr) (mem : Bool) : (s.ifMem mem).isNone = !mem := by
  cases mem <;> rfl

/-- The test at the end of the constructor. -/
theorem fails_eq (body space : Bool) (mem : CreateMem) :
    ((body && (!(space || (body && !space && mem.userStack)) || !(body && mem.systemStack))) ||
      !mem.semSend || !mem.semReceive || !mem.semJoin || !mem.semJoinAll) =
      !mem.enough body space := by
  unfold CreateMem.enough CreateMem.stacks CreateMem.sems
  cases body <;> cases space <;> cases mem.userStack <;> cases mem.systemStack <;>
    cases mem.semSend <;> cases mem.semReceive <;> cases mem.semJoin <;> cases mem.semJoinAll <;> rfl

/-- The semaphores of a thread under construction, in the order in which they are closed again. -/
def CreateMem.closing (mem : CreateMem) (t : Tid) : List SemPtr :=
  (SemPtr.ifMem (.send t) mem.semSend).toList ++
    ((SemPtr.ifMem (.receive t) mem.semReceive).toList ++
      ((SemPtr.ifMem (.join t) mem.semJoin).toList ++
        (SemPtr.ifMem (.joinAll t) mem.semJoinAll).toList))

theorem mem_closing {mem : CreateMem} : s ∈ mem.closing t ↔ s ∈ mem.created t := by
  simp only [CreateMem.closing, CreateMem.created, List.mem_append]
  tauto

theorem Attempt.closing (a : Sys) (t : Tid) (mem : CreateMem) :
    Attempt t [] a (a.shutAll (mem.closing t)) :=
  Attempt.shutAll a fun _ hs => CreateMem.created_own (mem_closing.mp hs)

/-- The fields of a new thread are set, in a state that differs from one of a run only in that
thread's semaphores. -/
theorem Rep.fields (h : Rep c b) (hi : a.Inv) (ht : t ∉ a.threads) (hab : Attempt t l a b)
    {f : TCB → TCB} (hrel : (f (c.tcb t)).timeSleepRelative = 0)
    (hsleeps : (f (c.tcb t)).sleeps = false) (hnext : (f (c.tcb t)).nextTCB = none) :
    Rep (c.setTcb t f) (b.setThread t fun _ => (f (c.tcb t)).toThread) := by
  have hlive := hi.places.live t
  refine ⟨h.toLinks.construct ?_ (fun s => ?_) ?_ (hab.threads ▸ ht) hrel hsleeps hnext, h.running,
    h.idle⟩
  · rw [hab.ready]
    exact fun hm => ht (hlive (Or.inl hm)).1
  · rw [hab.queue]
    intro hm
    have hb := (hi.places.mem_queue t s).mp hm
    exact ht (hlive (Or.inr (Or.inl (by rw [hb]; nofun)))).1
  · rw [Sys.asleep, hab.sleepers]
    exact fun hm => ht (hlive (Or.inr (Or.inr hm))).1

/-- The fields that the constructor sets before it looks at what is missing. -/
def CreateMem.thread (mem : CreateMem) (body : Bool) (mode : Mode) (space : Bool) (timeSlice : Nat)
    (parent : Option Tid) (t : Tid) (old : Thread) : Thread :=
  { newThread body mode space timeSlice parent t mem.raw old with
    userStack := body && !space && mem.userStack
    systemStack := body && mem.systemStack
    semJoin := SemPtr.ifMem (.join t) mem.semJoin
    semJoinAll := SemPtr.ifMem (.joinAll t) mem.semJoinAll
    semSend := SemPtr.ifMem (.send t) mem.semSend
    semReceive := SemPtr.ifMem (.receive t) mem.semReceive
    message := mem.raw }

/-- The constructor, whatever memory there is. -/
theorem construct_attempt (h : Rep c a) (hi : a.Inv) (ht : a.IDCounter = t) (body : Bool)
    (mode : Mode) (space : Bool) (n : Nat) (mem : CreateMem) :
    ∃ d, Yields Rep (TCB.construct body mode space n mem) c t d ∧
      Attempt t (mem.created t) a d ∧ Constructed t body space mem d := by
  have hid : c.IDCounter = t := (congrArg Core.IDCounter h.core).trans ht
  have hnew : ∀ s ∈ SemPtr.own t, s ∉ a.sems := fun s hs hm =>
    lt_irrefl _ (ht ▸ hi.names.own_lt s hm _ hs)
  have hq : ∀ s ∈ SemPtr.own t, a.queue s = [] := fun s hs => hi.queue_nil (hnew s hs)
  have hlive : t ∉ a.threads := fun hm => lt_irrefl _ (ht ▸ hi.names.threads_lt t hm)
  obtain ⟨a₁, ha₁⟩ : ∃ a₁, a₁ = { a with IDCounter := a.IDCounter + 1 } := ⟨_, rfl⟩
  have h₁ : Rep { c with IDCounter := c.IDCounter + 1 } a₁ := ha₁ ▸ h.allocate
  have hnew₁ : ∀ s ∈ SemPtr.own t, s ∉ a₁.sems := ha₁ ▸ hnew
  have hq₁ : ∀ s ∈ SemPtr.own t, a₁.queue s = [] := ha₁ ▸ hq
  have hown : SemPtr.own t = [.join t, .joinAll t, .send t, .receive t] := rfl
  rw [hown] at hnew₁ hq₁
  simp only [List.forall_mem_cons] at hnew₁ hq₁
  obtain ⟨hn₁, hn₂, hn₃, hn₄, -⟩ := hnew₁
  obtain ⟨hq₁, hq₂, hq₃, hq₄, -⟩ := hq₁
  obtain ⟨c₂, e₂, h₂⟩ := semaphoreCreate_openIf h₁ hn₁ hq₁ 0 mem.semJoin
  obtain ⟨c₃, e₃, h₃⟩ := semaphoreCreate_openIf (s := .joinAll t) h₂
    (openIf_sems hn₂ (by simp) _ _) (by rwa [openIf_queue]) 0 mem.semJoinAll
  obtain ⟨c₄, e₄, h₄⟩ := semaphoreCreate_openIf (s := .send t) h₃
    (openIf_sems (openIf_sems hn₃ (by simp) _ _) (by simp) _ _)
    (by rwa [openIf_queue, openIf_queue]) 1 mem.semSend
  obtain ⟨c₅, e₅, h₅⟩ := semaphoreCreate_openIf (s := .receive t) h₄
    (openIf_sems (openIf_sems (openIf_sems hn₄ (by simp) _ _) (by simp) _ _) (by simp) _ _)
    (by rwa [openIf_queue, openIf_queue, openIf_queue]) 0 mem.semReceive
  obtain ⟨b, hb⟩ : ∃ b, b = a₁.openOwn t mem := ⟨_, rfl⟩
  have hb₅ : Rep c₅ b := hb ▸ h₅
  have hab : Attempt t (mem.created t) a b := by
    have h₀ : Attempt t [] a a₁ := ha₁ ▸ { Attempt.refl t a with IDCounter := Nat.le_succ _ }
    exact hb ▸ h₀.trans (Attempt.openOwn a₁ t mem)
  -- the fields are set
  have hset := hb₅.fields hi hlive hab (f := fun y =>
    { mem.thread body mode space n c.running t y.toThread with
      nextTCB := none, nextReady := none, sleeps := false, timeSleepRelative := 0,
      nextSleep := none, nextSemBlocked := none }) rfl rfl rfl
  obtain ⟨c₆, hc₆⟩ : ∃ c₆, c₆ = c₅.setTcb t fun y =>
    { mem.thread body mode space n c.running t y.toThread with
      nextTCB := none, nextReady := none, sleeps := false, timeSleepRelative := 0,
      nextSleep := none, nextSemBlocked := none } := ⟨_, rfl⟩
  rw [← hc₆] at hset
  have hcode : ∀ {d}, Yields Rep (if (!mem.enough body space) = true then do
      setThread t fun x => { x with userStack := false, systemStack := false, finished := true }
      TCB.closeIf (SemPtr.ifMem (.send t) mem.semSend)
      TCB.closeIf (SemPtr.ifMem (.receive t) mem.semReceive)
      TCB.closeIf (SemPtr.ifMem (.join t) mem.semJoin)
      TCB.closeIf (SemPtr.ifMem (.joinAll t) mem.semJoinAll)
    else
      setThread t fun x => { x with message := x.message.set msgLen 0 (by decide) }) c₆ () d →
      Yields Rep (TCB.construct body mode space n mem) c t d := by
    intro d hd
    unfold TCB.construct
    refine Yields.bind_eq (getKernel_apply c) ?_
    rw [hid]
    refine Yields.bind_eq rfl (Yields.bind_eq e₂ (Yields.bind_eq e₃ (Yields.bind_eq e₄
      (Yields.bind_eq e₅ (Yields.bind_eq (setTcb_apply ..) ?_)))))
    rw [hc₆] at hd
    simp only [isNone_ifMem, fails_eq]
    exact hd.bind fun c' h' => Yields.pure h'
  obtain ⟨x, hx⟩ : ∃ x, x = mem.thread body mode space n c.running t (c₅.tcb t).toThread := ⟨_, rfl⟩
  rw [show (TCB.toThread _) = x from hx.symm] at hset
  have hd := hab.trans (Attempt.setThread b t fun _ => x)
  rw [List.append_nil] at hd
  have hlt : t < b.IDCounter := by
    have h₀ : t < a₁.IDCounter := by
      rw [ha₁]
      exact ht ▸ Nat.lt_succ_self _
    exact h₀.trans_le (hb ▸ Attempt.openOwn a₁ t mem).IDCounter
  have hself : ∀ f : Thread → Thread, ((b.setThread t fun _ => x).setThread t f).thread t = f x :=
    fun f => (Function.update_self ..).trans (congrArg f (Function.update_self ..))
  have hparent : x.parent = some b.running := by
    rw [hx, hab.running, ← h.running]
    rfl
  cases hen : mem.enough body space with
  | true =>
    have hd' := hd.trans (Attempt.setThread _ t fun x => { x with message := x.message.set msgLen 0 })
    rw [List.append_nil] at hd'
    refine ⟨_, hcode ?_, hd', ?_⟩
    · rw [hen, Bool.not_true, if_neg Bool.false_ne_true]
      exact Yields.of_eq (setThread_apply ..) (hset.setThread t fun x =>
        { x with message := x.message.set msgLen 0 })
    · refine ⟨hlt, ?_, ?_, ?_, ?_, ?_, ?_, fun hne => absurd (hen.symm.trans hne) (by simp)⟩ <;>
        rw [hself]
      · exact hparent
      · rw [hen, hx]
        rfl
      all_goals rw [hx]; rfl
  | false =>
    have hset' := hset.setThread t fun x =>
      { x with userStack := false, systemStack := false, finished := true }
    have hd' := hd.trans (Attempt.setThread _ t fun x =>
      { x with userStack := false, systemStack := false, finished := true })
    have hq' : ∀ s ∈ SemPtr.own t, Sys.queue _ s = [] := fun s hs => by
      rw [hd'.queue]
      exact hq s hs
    have hshut := Attempt.closing ((b.setThread t fun _ => x).setThread t fun x =>
      { x with userStack := false, systemStack := false, finished := true }) t mem
    have hall := closeOwn_shut hset' (fun s (hs : s ∈ mem.closing t) => CreateMem.created_own (mem_closing.mp hs)) hq'
    refine ⟨_, hcode ?_, by simpa using hd'.trans hshut, ?_⟩
    · rw [hen, Bool.not_false, if_pos rfl]
      exact Yields.bind_eq (setThread_apply ..) hall
    · have hthread := shutAll_thread ((b.setThread t fun _ => x).setThread t fun x =>
        { x with userStack := false, systemStack := false, finished := true }) (mem.closing t)
      refine ⟨hlt.trans_le hshut.IDCounter, ?_, ?_, ?_, ?_, ?_, ?_,
        fun _ s hs => shutAll_closed (Or.inl (mem_closing.mpr hs))⟩ <;> rw [hthread, hself]
      · rw [hshut.running]
        exact hparent
      · rw [hen]
        rfl
      all_goals rw [hx]; rfl

/-! ## 5. The destructor, and `TCB::threadCreate` -/

/-- The destructor of a thread whose construction failed. -/
theorem destruct_attempt {mem : CreateMem} {body space : Bool} (h : Rep c b) (hi : a.Inv)
    (ht : t ∉ a.threads) (hab : Attempt t (mem.created t) a b)
    (hb : Constructed t body space mem b) (hq : ∀ s ∈ SemPtr.own t, b.queue s = []) :
    Yields Rep (TCB.destruct t) c () (b.shutAll (mem.closing t)) := by
  have hlive := hi.places.live t
  have hna : t ∉ b.asleep := by
    rw [Sys.asleep, hab.sleepers]
    exact fun hm => ht (hlive (Or.inr (Or.inr hm))).1
  have hsleeps : (c.tcb t).sleeps = false := by
    rw [h.sleeps_eq]
    exact decide_eq_false hna
  have hrep := h.fields hi ht hab (f := fun x => { x with
    nextTCB := none, nextReady := none, nextSleep := none, nextSemBlocked := none })
    (h.awake t hna) hsleeps rfl
  have hsame : (b.setThread t fun _ => (c.tcb t).toThread) = b := by
    rw [h.thread_apply, Sys.setThread, Function.update_eq_self]
  rw [hsame] at hrep
  unfold TCB.destruct
  refine Yields.bind_eq (setTcb_apply ..) (Yields.bind_eq (getTcb_apply ..) ?_)
  rw [hrep.thread_apply, hb.semSend, hb.semReceive, hb.semJoin, hb.semJoinAll]
  exact closeOwn_shut hrep (fun s (hs : s ∈ mem.closing t) =>
    CreateMem.created_own (mem_closing.mp hs)) hq

variable {mem : CreateMem} {body space : Bool}

/-- Something is missing: only closed semaphores are left. -/
theorem threadCreate_fails (h : Rep c a) (hi : a.Inv) (ht : a.IDCounter = t) (mode : Mode) (n : Nat)
    (hen : mem.enough body space = false) :
    ∃ d, Yields Rep (TCB.threadCreate body mode space n true mem) c none d ∧
      Attempt t (mem.created t) a d ∧ ∀ s ∈ mem.created t, (d.sem s).active = false := by
  obtain ⟨b, hcode, hab, hb⟩ := construct_attempt h hi ht body mode space n mem
  have hlive : t ∉ a.threads := fun hm => lt_irrefl _ (ht ▸ hi.names.threads_lt t hm)
  have hq : ∀ s ∈ SemPtr.own t, b.queue s = [] := fun s hs => by
    rw [hab.queue]
    exact hi.queue_nil fun hm => lt_irrefl _ (ht ▸ hi.names.own_lt s hm _ hs)
  refine ⟨_, ?_, by simpa using hab.trans (Attempt.closing b t mem),
    fun s hs => shutAll_closed (Or.inr (hb.closed hen s hs))⟩
  unfold TCB.threadCreate
  refine hcode.bind fun c₁ h₁ => Yields.bind_eq (getTcb_apply ..) ?_
  rw [h₁.thread_apply, hb.finished, hen, Bool.not_false, if_pos rfl]
  exact (destruct_attempt h₁ hi hlive hab hb hq).bind fun c₂ h₂ => Yields.pure h₂

/-- Nothing is missing: the thread is on the lists. -/
theorem threadCreate_succeeds (h : Rep c a) (hi : a.Inv) (ht : a.IDCounter = t) (mode : Mode)
    (n : Nat) (hen : mem.enough body space = true) :
    ∃ d, Yields Rep (TCB.threadCreate body mode space n true mem) c (some t) d ∧
      d.running = a.running ∧ d.threads = a.threads ++ [t] ∧
      d.ready = (if body then a.ready ++ [t] else a.ready) ∧ d.sems = a.sems ++ SemPtr.own t ∧
      a.IDCounter < d.IDCounter ∧ a.semIDCounter + 4 = d.semIDCounter ∧ 
      (d.thread a.running).numOfActiveChildren =
        u64 ((a.thread a.running).numOfActiveChildren + 1) := by
  obtain ⟨b, hcode, hab, hb⟩ := construct_attempt h hi ht body mode space n mem
  have hlive : t ∉ a.threads := fun hm => lt_irrefl _ (ht ▸ hi.names.threads_lt t hm)
  have hne : a.running ≠ t := fun e => hlive (e ▸ hi.alive.running_mem)
  have hsems : mem.created t = SemPtr.own t :=
    CreateMem.created_of_sems ((Bool.and_eq_true _ _).mp hen).2
  have hready : t ∉ b.ready := fun hm => hlive (hi.places.live t (Or.inl (hab.ready ▸ hm))).1
  have hidle : t ≠ b.idle := by
    rw [hab.idle]
    exact fun e => hlive (e ▸ hi.names.idle_mem)
  refine ⟨({ b with
    ready := if body then b.ready ++ [t] else b.ready
    threads := b.threads ++ [t] }.setThread b.running fun x =>
      { x with numOfActiveChildren := u64 (x.numOfActiveChildren + 1) }).emit
      (.created t (some b.running) body), ?_, ?_⟩
  · unfold TCB.threadCreate
    refine hcode.bind fun c₁ h₁ => Yields.bind_eq (getTcb_apply ..) ?_
    rw [h₁.thread_apply, hb.finished, hb.parent, hen]
    simp only [Bool.not_true, Bool.false_eq_true, if_false, Bool.and_true]
    refine Yields.bind_eq (getKernel_apply _) ?_
    have hthreads : b.threads ≠ [] := hab.threads ▸ List.ne_nil_of_mem hi.alive.running_mem
    obtain ⟨last, hlast⟩ : ∃ last, c₁.TCBsTail = some last :=
      Option.ne_none_iff_exists'.mp fun he => hthreads (h₁.threads.tail_eq_none.mp he)
    rw [hlast]
    refine Yields.bind_eq rfl ?_
    have hlink : Rep _ { b with threads := b.threads ++ [t] } :=
      ⟨h₁.toLinks.enlist (hab.threads ▸ hlive) hlast, h₁.running, h₁.idle⟩
    refine Yields.bind (x := ()) (a := { b with
      ready := if body then b.ready ++ [t] else b.ready, threads := b.threads ++ [t] }) ?_ ?_
    · cases body with
      | true =>
        have := schedulerPut_yields hlink hready
        rwa [pushReady_of_ne (a := { b with threads := b.threads ++ [t] }) hidle] at this
      | false => exact Yields.pure hlink
    · intro c₂ h₂
      exact Yields.bind_eq (setThread_apply ..) (Yields.bind_eq (emit_apply ..)
        (Yields.pure ((h₂.setThread b.running fun x =>
          { x with numOfActiveChildren := u64 (x.numOfActiveChildren + 1) }).emit _)))
  · refine ⟨hab.running, ?_, ?_, ?_, ht ▸ hb.lt, ?_, ?_⟩
    · exact congrArg (· ++ [t]) hab.threads
    · show (if body then b.ready ++ [t] else b.ready) = _
      rw [hab.ready]
    · exact hsems ▸ hab.sems
    · have := hab.semIDCounter
      rw [hsems] at this
      exact this.symm
    · have hself : ∀ f : Thread → Thread, Function.update b.thread b.running
          (f (b.thread b.running)) a.running = f (a.thread a.running) := fun f => by
        rw [hab.running, Function.update_self, hab.others _ hne]
      exact congrArg Thread.numOfActiveChildren (hself fun x =>
        { x with numOfActiveChildren := u64 (x.numOfActiveChildren + 1) })

end Os1Kernel
