/-
# The children of a thread

`numOfActiveChildren` of a thread that has not finished is the number of its children that have not
been taken off it in `TCB::finish`.

The counter goes up in `threadCreate` and down in one step of `TCB::finish` (`Parting`).  A child
is not finished yet at that point, so the count cannot be of the unfinished ones: `present` is a
child that has not been taken off, which is a matter of the stage for the running thread and of
`finished` for all others.  With it the counter and the count change in the same step, and
`Counted.exact` is kept by comparing the two sides of that step.

`Counted.bound` says that the counter is at most the number of children ever created, which rules
out that it wraps.

The idle thread is a child as well, and is taken off as often as it finishes, so its parent is
looked at only while it has not: `Counts` has this as its hypothesis.
-/
import Os1Kernel.Spec.Life

namespace Os1Kernel

/-- One element less satisfies the predicate. -/
theorem countP_pred {α : Type*} {p q : α → Bool} {x : α} {l : List α} (hl : l.Nodup) (hx : x ∈ l)
    (hp : p x = true) (hq : q x = false) (hpq : ∀ y ≠ x, q y = p y) :
    l.countP q = l.countP p - 1 ∧ 1 ≤ l.countP p := by
  induction l with
  | nil => cases hx
  | cons y l ih =>
    obtain ⟨hy, hl⟩ := List.nodup_cons.mp hl
    by_cases hxy : x = y
    · subst hxy
      have hrest : l.countP q = l.countP p := List.countP_congr fun z hz => by
        rw [hpq z fun he => hy (he ▸ hz)]
      simp only [List.countP_cons, hp, hq, hrest, if_true]
      simp
    · obtain ⟨he, hpos⟩ := ih hl ((List.mem_cons.mp hx).resolve_left hxy)
      simp only [List.countP_cons, he, hpq y (Ne.symm hxy)]
      omega

namespace Sys

variable {a b : Sys} {t p : Tid}

/-! ## 1. The children -/

/-- The thread has not been taken off its parent. -/
def present (a : Sys) (t : Tid) : Bool :=
  !(a.thread t).finished && !(t = a.running && a.stage.isLeft)

/-- The children of `p` that have not been taken off it. -/
def children (a : Sys) (p : Tid) : Nat :=
  a.threads.countP fun t => (a.thread t).parent = some p && a.present t

/-- All children that `p` has created. -/
def offspring (a : Sys) (p : Tid) : Nat := a.threads.countP fun t => (a.thread t).parent = some p

/-- The counter of `p` is right. -/
structure Counted (a : Sys) (p : Tid) : Prop where
  exact : (a.thread p).finished = false → (a.thread p).numOfActiveChildren = a.children p
  bound : (a.thread p).numOfActiveChildren ≤ a.offspring p

theorem children_le : a.children p ≤ a.offspring p :=
  List.countP_mono_left fun _ _ h => (Bool.and_eq_true_iff.mp h).1

theorem offspring_lt (h : a.Names) : a.offspring p < 2 ^ 64 := by
  have : a.offspring p ≤ a.threads.length := List.countP_le_length
  have := h.threads_length
  omega

theorem present_same (hfin : (b.thread t).finished = (a.thread t).finished)
    (hrun : b.running = a.running) (hstage : b.stage.isLeft = a.stage.isLeft) :
    b.present t = a.present t := by
  rw [present, present, hfin, hrun, hstage]

theorem present_of_not_left (hfin : (b.thread t).finished = (a.thread t).finished)
    (ha : a.stage.isLeft = false) (hb : b.stage.isLeft = false) : b.present t = a.present t := by
  rw [present, present, hfin, ha, hb, Bool.and_false, Bool.and_false]

/-! ## 2. What a step does to them -/

/-- Where `TCB::finish` takes the running thread off its parent. -/
structure Parting (a b : Sys) : Prop where
  activity : a.activity = .none
  stage : a.stage = .finishing
  left : b.stage = .left
  running : b.running = a.running
  threads : b.threads = a.threads
  finished : ∀ t, (b.thread t).finished = (a.thread t).finished

theorem Parting.present (h : a.Parting b) (ht : t ≠ a.running) : b.present t = a.present t := by
  simp [Sys.present, h.finished, h.running, ht]

/-- A thread is created, the running one is taken off its parent, or nothing is said about who is a
child of whom. -/
theorem Step.present (hs : a.Step b) (hi : a.Inv) : a.Parting b ∨
    ∀ t ∈ a.threads, b.present t = a.present t := by
  have hkeep : (∀ t ∈ a.threads, (b.thread t).finished = (a.thread t).finished) →
      b.running = a.running → b.stage.isLeft = a.stage.isLeft →
      ∀ t ∈ a.threads, b.present t = a.present t :=
    fun hfin hrun hst t ht => present_same (hfin t ht) hrun hst
  have hnot : (∀ t, (b.thread t).finished = (a.thread t).finished) → a.stage.isLeft = false →
      b.stage.isLeft = false → ∀ t ∈ a.threads, b.present t = a.present t :=
    fun hfin ha hb t _ => present_of_not_left (hfin t) ha hb
  have hleft : ∀ {st : Stage}, a.stage = st → st.isLeft = false → a.stage.isLeft = false :=
    fun h₁ h₂ => h₁ ▸ h₂
  cases hs with
  | noParent h hst => exact Or.inl ⟨h, hst, rfl, rfl, rfl, fun _ => rfl⟩
  | childLeaves h hst | childSignals h hst =>
    exact Or.inl ⟨h, hst, rfl, rfl, rfl, fun t => update_field Thread.finished (by rfl) t⟩
  | preempt h =>
    exact Or.inr (hnot (fun t => update_field Thread.finished (by rfl) t) (hleft h.stage rfl)
      (hleft h.stage rfl))
  | switch h =>
    have hst := hleft (hi.contexts.leaving h).1 rfl
    exact Or.inr (hnot (fun t => update_field Thread.finished (by rfl) t) hst hst)
  | retire h hst =>
    refine Or.inr fun t ht => ?_
    by_cases htr : t = a.running
    · subst htr
      simp [Sys.present, setThread, hst, Stage.isLeft]
    · simp [Sys.present, setThread, htr]
  | init _ hnt =>
    refine Or.inr (hkeep (fun t ht => ?_) rfl rfl)
    exact congrArg Thread.finished (Function.update_of_ne (fun e => hnt (e.subst ht)) _ _)
  | leave _ hl =>
    refine Or.inr (hnot (fun t => update_field Thread.finished (by rfl) t) ?_ rfl)
    cases hl with
    | code hst | past hst | done hst => exact hleft hst rfl
  | acquire hw | block hw | dead hw =>
    refine Or.inr (hnot (fun t => ?_) ?_ rfl)
    · first | exact update_field Thread.finished (by rfl) t | rfl
    · have := hw.isFinishing
      cases hst : a.stage <;> rw [hst] at this <;> first | rfl | cases this
  | timeoutZero h =>
    exact Or.inr (hnot (fun t => update_field Thread.finished (by rfl) t)
      (hleft (hi.contexts.leaving h).1 rfl) rfl)
  | signal hc | skip hc =>
    refine Or.inr (hnot (fun _ => rfl) ?_ ?_)
    · cases hc with
      | semSignal h => exact hleft h.stage rfl
      | owed _ hst | slot _ hst => exact hleft hst rfl
    · cases hc <;> rfl
  | endWait _ hst | write _ hst | received _ hst | putChar _ hst | getChar _ hst =>
    refine Or.inr (hnot (fun t => ?_) (hleft hst rfl) rfl)
    first | exact update_field Thread.finished (by rfl) t | rfl
  | putting h => exact Or.inr (hnot (fun _ => rfl) (hleft h.stage rfl) rfl)
  | finish h => exact Or.inr (hnot (fun _ => rfl) (hleft h.stage rfl) rfl)
  | _ =>
    refine Or.inr (hkeep (fun t _ => ?_) rfl rfl)
    first | exact update_field Thread.finished (by rfl) t | rfl

/-- What a step does to the counter of `p`. -/
theorem Step.counter (hs : a.Step b) (hp : p ∈ a.threads) :
    (b.threads = a.threads ∧
      (b.thread p).numOfActiveChildren = (a.thread p).numOfActiveChildren ∧
      (a.Parting b → (a.thread a.running).parent = some p → (a.thread p).finished = true)) ∨
    (a.Parting b ∧ (a.thread a.running).parent = some p ∧ (a.thread p).finished = false ∧
      (b.thread p).numOfActiveChildren = dec64 (a.thread p).numOfActiveChildren) ∨
    ∃ t, t ∉ a.threads ∧ b.threads = a.threads ++ [t] ∧ (a.thread t).parent = some a.running ∧
      (b.thread p).numOfActiveChildren = if p = a.running
        then u64 ((a.thread p).numOfActiveChildren + 1) else (a.thread p).numOfActiveChildren := by
  cases hs with
  | noParent _ _ hpar => exact Or.inl ⟨rfl, rfl, fun _ h => hpar p h⟩
  | @childLeaves h hst p' hpar hf | @childSignals h hst p' hpar hf =>
    by_cases hpp : p = p'
    · subst hpp
      refine Or.inr (Or.inl ⟨⟨h, hst, rfl, rfl, rfl, fun t =>
        update_field Thread.finished (by rfl) t⟩, hpar, hf, ?_⟩)
      simp [setThread, emit]
    · refine Or.inl ⟨rfl, congrArg Thread.numOfActiveChildren (Function.update_of_ne hpp ..), ?_⟩
      exact fun _ h => absurd (Option.some.inj (h.symm.trans hpar)) hpp
  | @enlist hc t hnew hlt hroom hx =>
    refine Or.inr (Or.inr ⟨t, fun hm => (hnew t hm).ne rfl, rfl, hx.2.2.1, ?_⟩)
    by_cases hpr : p = a.running
    · subst hpr
      simp [setThread, emit]
    · rw [if_neg hpr]
      exact congrArg Thread.numOfActiveChildren (Function.update_of_ne hpr ..)
  | init _ hnt =>
    refine Or.inl ⟨rfl, ?_, fun h => by
      cases h.stage.symm.trans (show a.stage = .left from h.left)⟩
    exact congrArg Thread.numOfActiveChildren (Function.update_of_ne (fun e => hnt (e.subst hp)) ..)
  | signal hc | skip hc =>
    exact Or.inl ⟨rfl, rfl, fun h => by cases hc <;> cases h.left⟩
  | _ =>
    refine Or.inl ⟨rfl, ?_, fun h => ?_⟩
    · first | exact update_field Thread.numOfActiveChildren (by rfl) p | rfl
    · first | cases h.left | cases h.stage.symm.trans (show a.stage = .left from h.left)

/-! ## 3. The counter -/

theorem Step.parent (hs : a.Step b) (ht : t ∈ b.threads) :
    (b.thread t).parent = (a.thread t).parent := congrArg Prod.fst (hs.fixed ht)

/-- As long as its parent has not finished, a child is one of its children. -/
theorem Counted.step (h : a.Counted p) (hi : a.Inv) (hs : a.Step b) (hp : p ∈ a.threads)
    (hidle : (a.thread a.idle).parent = some p → (a.thread a.idle).finished = false) :
    b.Counted p := by
  have hbound : (a.thread p).numOfActiveChildren < 2 ^ 64 :=
    h.bound.trans_lt (offspring_lt hi.names)
  have hfin : (b.thread p).finished = false → (a.thread p).finished = false := fun hf => by
    rcases hs.finished (hs.threads p hp) with he | ⟨-, -, he⟩
    · exact he.symm.trans hf
    · rw [he] at hf
      cases hf
  obtain ⟨hthreads, hnum, hnot⟩ | ⟨hpart, hpar, hf, hnum⟩ | ⟨t, ht, hthreads, hpar, hnum⟩ :=
    hs.counter hp
  · have hparent : ∀ t ∈ a.threads, (b.thread t).parent = (a.thread t).parent := fun t ht =>
      hs.parent (hs.threads t ht)
    constructor
    · intro hf
      rw [hnum, h.exact (hfin hf), children, children, hthreads]
      refine List.countP_congr fun t ht => ?_
      have hpresent : (a.thread t).parent = some p → b.present t = a.present t := fun htp => by
        rcases hs.present hi with hpart | hsame
        · refine hpart.present ?_
          rintro rfl
          have := hnot hpart htp
          rw [hfin hf] at this
          cases this
        · exact hsame t ht
      rw [hparent t ht]
      by_cases htp : (a.thread t).parent = some p
      · rw [hpresent htp]
      · simp [htp]
    · rw [hnum, offspring, hthreads, List.countP_congr fun t ht => by rw [hparent t ht]]
      exact h.bound
  · have hrun : (a.thread a.running).finished = false := by
      by_cases hri : a.running = a.idle
      · rw [hri] at hpar ⊢
        exact hidle hpar
      · exact hi.contexts.unfinished hpart.activity hri
    have hparent : ∀ t ∈ a.threads, (b.thread t).parent = (a.thread t).parent := fun t ht =>
      hs.parent (hs.threads t ht)
    have hcount : a.threads.countP (fun t => (a.thread t).parent = some p && b.present t) =
        a.children p - 1 ∧ 1 ≤ a.children p := by
      refine countP_pred hi.names.threads_nodup hi.alive.running_mem ?_ ?_ fun t ht => ?_
      · simp [hpar, Sys.present, hrun, hpart.stage, Stage.isLeft]
      · simp [Sys.present, hpart.left, hpart.running, Stage.isLeft]
      · rw [hpart.present ht]
    have hdec : (b.thread p).numOfActiveChildren = (a.thread p).numOfActiveChildren - 1 := by
      rw [hnum, dec64, sub64_of_le (by rw [h.exact hf]; exact hcount.2) hbound]
    constructor
    · intro _
      rw [hdec, h.exact hf, ← hcount.1, children, hpart.threads]
      exact List.countP_congr fun t ht => by rw [hparent t ht]
    · have : b.offspring p = a.offspring p := by
        rw [offspring, hpart.threads, List.countP_congr fun t ht => by rw [hparent t ht]]
        rfl
      rw [hdec, this]
      exact (Nat.sub_le _ _).trans h.bound
  · have hparent : ∀ u, u ∈ a.threads ∨ u = t → (b.thread u).parent = (a.thread u).parent :=
      fun u hu => hs.parent (by simpa [hthreads] using hu)
    have htb : t ∈ b.threads := by simp [hthreads]
    have hold : ∀ u ∈ a.threads, b.present u = a.present u := (hs.present hi).resolve_left fun h => by
      have := congrArg List.length (h.threads.symm.trans hthreads)
      simp at this
    have hnew : b.present t = true := by
      have hf := hs.new_unfinished htb ht
      have hft : (b.thread t).finished = false := (hs.finished htb).elim (fun he => he.trans hf)
        fun he => absurd (he.1 ▸ hi.alive.running_mem) ht
      simp [Sys.present, hft, (hs.enlisted htb ht).body.stage, Stage.isLeft]
    have hchildren : b.children p = a.children p + if p = a.running then 1 else 0 := by
      rw [children, hthreads, List.countP_append, List.countP_singleton, hparent t (Or.inr rfl),
        hpar, hnew]
      congr 1
      · exact List.countP_congr fun u hu => by rw [hparent u (Or.inl hu), hold u hu]
      · simp [eq_comm]
    have hoffspring : b.offspring p = a.offspring p + if p = a.running then 1 else 0 := by
      rw [offspring, hthreads, List.countP_append, List.countP_singleton, hparent t (Or.inr rfl),
        hpar]
      congr 1
      · exact List.countP_congr fun u hu => by rw [hparent u (Or.inl hu)]
      · simp [eq_comm]
    have hroom : (a.thread p).numOfActiveChildren + 1 < 2 ^ 64 := by
      have h₁ : a.offspring p ≤ a.threads.length := List.countP_le_length
      have h₂ := hi.names.threads_length
      have h₃ := h.bound
      omega
    have hinc : (b.thread p).numOfActiveChildren =
        (a.thread p).numOfActiveChildren + if p = a.running then 1 else 0 := by
      rw [hnum]
      split
      · exact Nat.mod_eq_of_lt hroom
      · rfl
    exact ⟨fun hf => by rw [hinc, hchildren, h.exact (hfin hf)],
      by rw [hinc, hoffspring]; exact Nat.add_le_add_right h.bound _⟩

/-- Who is put on the list of all threads has been created by the running one, and has no children. -/
theorem Step.new_child (hs : a.Step b) (hi : a.Inv) (ht : t ∈ b.threads) (hn : t ∉ a.threads) :
    (b.thread t).numOfActiveChildren = 0 ∧ (b.thread t).parent = some a.running := by
  have htr : t ≠ a.running := fun he => hn (he ▸ hi.alive.running_mem)
  cases hs with
  | @enlist hc u hnew hlt hroom hx =>
    obtain rfl : t = u := List.mem_singleton.mp ((List.mem_append.mp ht).resolve_left hn)
    exact ⟨(congrArg Thread.numOfActiveChildren (Function.update_of_ne htr ..)).trans hx.2.2.2.1,
      (congrArg Thread.parent (Function.update_of_ne htr ..)).trans hx.2.2.1⟩
  | _ => exact absurd ht hn

theorem Step.new_counted (hs : a.Step b) (hi : a.Inv) (ht : t ∈ b.threads) (hn : t ∉ a.threads) :
    b.Counted t := by
  have hnone : b.offspring t = 0 := by
    refine List.countP_eq_zero.mpr fun u hu hut => hn ?_
    have hparent := of_decide_eq_true hut
    by_cases hua : u ∈ a.threads
    · exact (hi.names.parent u hua t ((hs.parent hu).symm.trans hparent)).1
    · cases (hs.new_child hi hu hua).2.symm.trans hparent
      exact hi.alive.running_mem
  have hchildren : b.children t = 0 := Nat.le_zero.mp (hnone ▸ children_le)
  have hnum := (hs.new_child hi ht hn).1
  exact ⟨fun _ => hnum.trans hchildren.symm, hnum ▸ Nat.zero_le _⟩

/-- While the idle thread has not finished, or is none of their children, the counters are right. -/
def Counts (a : Sys) : Prop := ∀ p ∈ a.threads,
  ((a.thread a.idle).parent = some p → .finish a.idle ∉ a.history) → a.Counted p

theorem Counts.step (h : a.Counts) (hi : a.Inv) (hm : a.Mortal) (hs : a.Step b) : b.Counts := by
  intro p hp hidle
  by_cases hpa : p ∈ a.threads
  · have hparent : (b.thread b.idle).parent = (a.thread a.idle).parent := by
      rw [hs.idle]
      exact hs.parent (hs.threads _ hi.names.idle_mem)
    rw [hparent, hs.idle] at hidle
    obtain ⟨l, hl⟩ := hs.history
    have hold : (a.thread a.idle).parent = some p → .finish a.idle ∉ a.history := fun he hf =>
      hidle he (hl ▸ List.mem_append_right _ hf)
    refine (h p hpa hold).step hi hs hpa fun he => ?_
    by_contra hf
    exact hold he (hm.finished _ hi.names.idle_mem (by simpa using hf))
  · exact hs.new_counted hi hp hpa

end Sys

end Os1Kernel
