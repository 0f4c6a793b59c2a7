/-
# What a thread is doing

`Fits` says what the state has to do with the stay of a thread that the history gives, and
`Recorded.step` that every step keeps that: so no history goes wrong, and whoever waits is on the
list of its semaphore, whoever has a timeout is on the sleep list with the ticks that are left of
it, and the `unblockManner` of a thread that has been released is that of its release.

The invariant is one statement about one thread, for each of the four stays:

* `free`: it is on no list;
* `waiting s timeout k`: it is in the queue of `s`, and if it has a timeout of `n`, it is on the
  sleep list with `d` ticks left where `n = k + d`, or it is the running thread and about to fall
  asleep;
* `sleeping n k`: the same, without a semaphore;
* `released s manner`: it is on neither list, and `unblockManner` is this manner.

That the stay is defined at all is half of the statement: an event that does not fit, a second
release or a wake-up that comes too early, makes `stay` undefined.  So the proof shows for every
event of a step that the thread is in the stay that the event needs, which the state says by
`Fits`.

Most steps do not concern a given thread (`Quiet`).  The others are of four kinds, with one lemma
each: somebody is released (`Recorded.freed`), a tick passes (`Recorded.ticked`), the next thread
is chosen (`Recorded.chosen`), and the running thread does something that is no wait
(`Recorded.settled`).
-/
import Os1Kernel.Spec.Life
import Os1Kernel.Spec.Stays

namespace Os1Kernel

variable {t u : Tid} {e : Event} {l : List Event} {x y : Stay}

/-! ## 1. The state

What the history says (`Stay`) against what the state says: the fields of the thread, the sleep
list with the ticks that remain, and what the kernel is in the middle of. -/

/-- What the kernel knows of a thread's waits. -/
def Thread.pose (x : Thread) : Option SemPtr × UnblockManner × Context :=
  (x.blockedAtSem, x.unblockManner, x.context)

/-- The timeout of a thread that is about to leave. -/
def Activity.alarm : Activity → Option Nat
  | .leaving _ timeout => timeout
  | _ => Option.none

namespace Sys

variable {a b : Sys} {s : SemPtr}

/-- The semaphore behind whose wait the thread will go on. -/
def heading (a : Sys) (t : Tid) : Option SemPtr :=
  if t = a.running ∧ a.stage.isCode = false then none else (a.place t).waitsAt t

/-- The timeout with which the thread is about to fall asleep. -/
def drowsy (a : Sys) (t : Tid) : Option Nat := if t = a.running then a.activity.alarm else none

/-- Of its timeout, `k` ticks are over. -/
def Alarm (a : Sys) (t : Tid) (k : Nat) : Option Nat → Prop
  | none => t ∉ a.asleep ∧ a.drowsy t = none
  | some n => (a.drowsy t = some n ∧ k = 0) ∨ ∃ d, (t, d) ∈ a.sleepers ∧ n = k + d

/-- The state of a thread agrees with what the history says. -/
def Fits (a : Sys) (t : Tid) : Stay → Prop
  | .free => (a.thread t).blockedAtSem = none ∧ t ∉ a.asleep
  | .waiting s timeout k => (a.thread t).blockedAtSem = some s ∧ a.Alarm t k timeout
  | .sleeping n k => (a.thread t).blockedAtSem = none ∧ ∃ d, (t, d) ∈ a.sleepers ∧ n = k + d
  | .released _ manner => (a.thread t).blockedAtSem = none ∧ t ∉ a.asleep ∧
    (a.thread t).unblockManner = manner

/-- The thread does `x`. -/
structure Recorded (a : Sys) (t : Tid) (x : Stay) : Prop where
  stay : stay t a.history = some x
  /-- If it is to go on behind a wait, it is the wait of this stay. -/
  heading : a.heading t = x.sem
  fits : a.Fits t x

theorem mem_asleep : t ∈ a.asleep ↔ ∃ d, (t, d) ∈ a.sleepers := by
  simp [asleep]

theorem heading_of_ne (h : t ≠ a.running) : a.heading t = (a.thread t).context.waitsAt t := by
  rw [heading, if_neg fun hc => h hc.1, place_of_ne h]

theorem heading_code (h : a.stage = .code) (t : Tid) : a.heading t = (a.place t).waitsAt t := by
  rw [heading, if_neg]
  rw [h]
  exact fun hc => nomatch hc.2

theorem heading_stage (h : a.stage.isCode = false) : a.heading a.running = none :=
  if_pos ⟨rfl, h⟩

theorem place_of_none (h : a.activity = .none) (t : Tid) : a.place t = (a.thread t).context := by
  simp [place, h, Activity.next]

theorem heading_body (h : a.AtBody) : a.heading a.running = none := by
  rw [heading_code h.stage, place_of_none h.activity, h.context]
  rfl

theorem heading_next (ctx : Context) (hstage : a.stage = .code)
    (hctx : a.activity.next.getD (a.thread a.running).context = ctx) :
    a.heading a.running = ctx.waitsAt a.running := by
  rw [heading_code hstage, place, if_pos rfl, hctx]

/-- A wait is called where none is to return. -/
theorem WaitCall.heading {m : Nat} {ctx : Context} (h : a.WaitCall s m ctx) :
    a.heading a.running = none := by
  cases h with
  | semWait h | join h | joinAll h | timedJoinAll h | send h | receive h | get h =>
    exact heading_body h.toAtBody
  | put _ hs | putMutex _ hs | getMutex _ hs => exact heading_stage (by rw [hs]; rfl)

theorem Leaves.heading (h : a.Leaves) (ha : a.activity = .none) : a.heading a.running = none := by
  cases h with
  | code hs hc => rw [heading_code hs, place_of_none ha, hc]
  | past hs | done hs => exact heading_stage (by rw [hs]; rfl)

/-- Where the running thread makes a call that blocks nobody. -/
theorem SignalCall.heading {stage : Stage} (h : a.SignalCall s stage) :
    a.heading a.running = none := by
  cases h with
  | semSignal h => exact heading_body h.toAtBody
  | owed _ hs | slot _ hs => exact heading_stage (by rw [hs]; rfl)

/-! ## 2. Threads that a step does not concern -/

/-- The step does not concern the waits of `t`. -/
structure Quiet (a b : Sys) (t : Tid) : Prop where
  blocked : (b.thread t).blockedAtSem = (a.thread t).blockedAtSem
  manner : (b.thread t).unblockManner = (a.thread t).unblockManner
  sleepers : ∀ d, (t, d) ∈ b.sleepers ↔ (t, d) ∈ a.sleepers
  drowsy : b.drowsy t = a.drowsy t
  heading : b.heading t = a.heading t

theorem Recorded.quiet (h : a.Recorded t x) (hq : a.Quiet b t)
    (hstay : Os1Kernel.stay t b.history = Os1Kernel.stay t a.history) : b.Recorded t x := by
  have hasleep : t ∈ b.asleep ↔ t ∈ a.asleep := by simp only [mem_asleep, hq.sleepers]
  refine ⟨hstay.trans h.stay, hq.heading.trans h.heading, ?_⟩
  have hf := h.fits
  cases x with
  | free => exact ⟨hq.blocked.trans hf.1, fun ht => hf.2 (hasleep.mp ht)⟩
  | waiting s timeout k =>
    refine ⟨hq.blocked.trans hf.1, ?_⟩
    have halarm := hf.2
    cases timeout with
    | none => exact ⟨fun ht => halarm.1 (hasleep.mp ht), hq.drowsy.trans halarm.2⟩
    | some n =>
      refine halarm.imp (fun hd => ⟨hq.drowsy.trans hd.1, hd.2⟩) ?_
      rintro ⟨d, hd, hn⟩
      exact ⟨d, (hq.sleepers d).mpr hd, hn⟩
  | sleeping n k =>
    obtain ⟨hb, d, hd, hn⟩ := hf
    exact ⟨hq.blocked.trans hb, d, (hq.sleepers d).mpr hd, hn⟩
  | released s manner =>
    obtain ⟨hb, hs, hm⟩ := hf
    exact ⟨hq.blocked.trans hb, fun ht => hs (hasleep.mp ht), hq.manner.trans hm⟩


theorem Quiet.still (hpose : (b.thread t).pose = (a.thread t).pose)
    (hsleepers : ∀ d, (t, d) ∈ b.sleepers ↔ (t, d) ∈ a.sleepers) (hrun : b.running = a.running)
    (hstage : b.stage.isCode = a.stage.isCode) (hnext : b.activity.next = a.activity.next)
    (halarm : b.activity.alarm = a.activity.alarm) : a.Quiet b t where
  blocked := congrArg Prod.fst hpose
  manner := congrArg (fun p => p.2.1) hpose
  sleepers := hsleepers
  drowsy := by rw [Sys.drowsy, Sys.drowsy, hrun, halarm]
  heading := by
    rw [Sys.heading, Sys.heading, Sys.place, Sys.place, hrun, hstage, hnext,
      show (b.thread t).context = (a.thread t).context from congrArg (fun p => p.2.2) hpose]

theorem Quiet.of_ne (hne : t ≠ a.running) (hpose : (b.thread t).pose = (a.thread t).pose)
    (hsleepers : ∀ d, (t, d) ∈ b.sleepers ↔ (t, d) ∈ a.sleepers) (hrun : b.running = a.running) :
    a.Quiet b t where
  blocked := congrArg Prod.fst hpose
  manner := congrArg (fun p => p.2.1) hpose
  sleepers := hsleepers
  drowsy := by rw [Sys.drowsy, Sys.drowsy, hrun, if_neg hne, if_neg hne]
  heading := by
    rw [heading_of_ne hne, heading_of_ne (hrun ▸ hne),
      show (b.thread t).context = (a.thread t).context from congrArg (fun p => p.2.2) hpose]

/-- Who runs, and is not behind a wait, is free. -/
theorem Recorded.free (h : a.Recorded a.running x) (hp : a.Places)
    (hl : a.activity.isLeaving = false) (hh : a.heading a.running = none) : x = .free := by
  have hsem := h.heading
  have hf := h.fits
  cases x with
  | free => rfl
  | waiting | released => cases hh.symm.trans hsem
  | sleeping n k =>
    obtain ⟨-, d, hd, -⟩ := hf
    exact absurd (mem_asleep.mpr ⟨d, hd⟩) (hp.running_free hl).2

/-- The running thread does something that is no wait. -/
theorem Recorded.settled (h : a.Recorded t x) (hp : a.Places) (hl : a.activity.isLeaving = false)
    (hrun : b.running = a.running) (hsleepers : b.sleepers = a.sleepers)
    (hself : (b.thread a.running).blockedAtSem = (a.thread a.running).blockedAtSem)
    (hpose : t ≠ a.running → (b.thread t).pose = (a.thread t).pose)
    (ha : a.heading a.running = none) (hb : b.heading b.running = none)
    (hstay : Os1Kernel.stay t b.history = Os1Kernel.stay t a.history) : b.Recorded t x := by
  by_cases hne : t = a.running
  · subst hne
    obtain rfl := h.free hp hl ha
    refine ⟨hstay.trans h.stay, hrun ▸ hb, hself.trans h.fits.1, ?_⟩
    rw [asleep, hsleepers]
    exact h.fits.2
  · exact h.quiet (.of_ne hne (hpose hne) (by simp [hsleepers]) hrun) hstay

/-- The next thread is chosen. -/
theorem Recorded.chosen (h : a.Recorded t x) (hstage : a.stage = .code) (hstage' : b.stage = .code)
    (hact' : b.activity = .none) {ctx : Context} (hctx : (b.thread a.running).context = ctx)
    (hplace : ctx.waitsAt a.running = (a.place a.running).waitsAt a.running)
    (halarm : a.activity.alarm = none) (hsleepers : b.sleepers = a.sleepers)
    (hat : (b.thread t).blockedAtSem = (a.thread t).blockedAtSem)
    (hmanner : (b.thread t).unblockManner = (a.thread t).unblockManner)
    (hothers : t ≠ a.running → (b.thread t).context = (a.thread t).context)
    (hstay : Os1Kernel.stay t b.history = Os1Kernel.stay t a.history) : b.Recorded t x := by
  refine h.quiet ⟨hat, hmanner, by simp [hsleepers], ?_, ?_⟩ hstay
  · have hnone : ∀ {p : Prop} [Decidable p] {o : Option Nat}, o = none →
        (if p then o else none) = none := fun he => by rw [he, ite_self]
    exact (hnone (by rw [hact']; rfl)).trans (hnone halarm).symm
  · rw [heading_code hstage, heading_code hstage', place_of_none hact']
    by_cases hne : t = a.running
    · rw [hne, hctx, hplace]
    · rw [hothers hne, place_of_ne hne]

/-! ## 3. One step

One lemma for each way in which a step concerns a thread: it blocks, falls asleep, is released,
goes on.  Each computes what the new event makes of the stay, and compares. -/

theorem mem_filter_ne {d : Nat} (h : t ≠ u) :
    (t, d) ∈ a.sleepers.filter (fun p => p.1 ≠ u) ↔ (t, d) ∈ a.sleepers := by
  simp [h]

theorem not_mem_filter : u ∉ (a.sleepers.filter fun p => p.1 ≠ u).map Prod.fst := by
  simp

theorem pose_of_ne {g : Tid → Thread} {y : Thread} (h : t ≠ u) :
    (Function.update g u y t).pose = (g t).pose := congrArg Thread.pose (Function.update_of_ne h ..)

theorem pose_update {g : Tid → Thread} {y : Thread} (h : y.pose = (g u).pose) (t : Tid) :
    (Function.update g u y t).pose = (g t).pose := update_field Thread.pose h t

/-- A waiter is released. -/
theorem Recorded.freed (h : a.Recorded t x) (hur : u ≠ a.running)
    (hb : (a.thread u).blockedAtSem = some s) (hrun : b.running = a.running)
    (hstage : b.stage = a.stage) (hnext : b.activity.next = a.activity.next)
    (halarm : b.activity.alarm = a.activity.alarm)
    (hsleepers : b.sleepers = a.sleepers.filter fun p => p.1 ≠ u) {manner : UnblockManner}
    (hthread : b.thread = (a.unblock s u manner).thread) {e : Event}
    (hh : b.history = e :: a.history) (hwho : e.who = some u)
    (hx : ∀ timeout k, a.Alarm u k timeout →
      (Stay.waiting s timeout k).next e = some (.released s manner)) : ∃ y, b.Recorded t y := by
  by_cases htu : t = u
  · subst htu
    have hhead := h.heading
    have hf := h.fits
    cases x with
    | free | sleeping | released => cases hb.symm.trans hf.1
    | waiting s' timeout k =>
      obtain rfl := Option.some.inj (hb.symm.trans hf.1)
      refine ⟨.released s manner, ?_, ?_, ?_, ?_, ?_⟩
      · rw [hh]
        exact (stay_own h.stay hwho).trans (hx timeout k hf.2)
      · rw [heading_of_ne hur] at hhead
        rw [heading_of_ne (hrun ▸ hur), hthread]
        exact (congrArg (Context.waitsAt t) (update_field Thread.context (by rfl) t)).trans hhead
      · rw [hthread]
        exact unblock_self s manner
      · rw [asleep, hsleepers]
        exact not_mem_filter
      · rw [hthread]
        simp [Sys.unblock]
  · refine ⟨x, h.quiet (.still ?_ ?_ hrun (by rw [hstage]) hnext halarm) ?_⟩
    · rw [hthread]
      exact pose_of_ne htu
    · rw [hsleepers]
      exact fun d => mem_filter_ne htu
    · rw [hh]
      exact stay_other (by rw [hwho]; exact fun he => htu (Option.some.inj he).symm)
        (by rintro rfl; cases hwho)

/-- Before its last tick a waiter is released by a signal or `close`. -/
theorem Alarm.lt {k : Nat} {timeout : Option Nat} (h : a.Alarm u k timeout) (hi : a.Inv)
    (hnt : a.activity ≠ .ticking) (hur : u ≠ a.running) : ∀ n ∈ timeout, k < n := by
  rintro n ⟨⟩
  rcases h with ⟨hd, -⟩ | ⟨d, hd, rfl⟩
  · rw [drowsy, if_neg hur] at hd
    cases hd
  · have := hi.ticks.pos hnt (u, d) hd
    omega

/-- A sleeper is on the list once. -/
theorem Places.sleepers_unique (h : a.Places) {d d' : Nat} (hd : (t, d) ∈ a.sleepers)
    (hd' : (t, d') ∈ a.sleepers) : d = d' :=
  congrArg Prod.snd (List.inj_on_of_nodup_map h.asleep_nodup hd hd' rfl)

theorem Alarm.due {k : Nat} {timeout : Option Nat} (h : a.Alarm u k timeout) (hp : a.Places)
    (hu : (u, 0) ∈ a.sleepers) (hur : u ≠ a.running) : timeout = some k := by
  cases timeout with
  | none => exact absurd (mem_asleep.mpr ⟨0, hu⟩) h.1
  | some n =>
    rcases h with ⟨hd, -⟩ | ⟨d, hd, rfl⟩
    · rw [drowsy, if_neg hur] at hd
      cases hd
    · rw [hp.sleepers_unique hd hu]
      rfl

theorem drowsy_none (h : a.activity.alarm = none) : a.drowsy t = none := by
  rw [drowsy, h, ite_self]

/-- A thread that is about to fall asleep does so on account of a wait that has just begun, or of
`time_sleep`. -/
theorem Recorded.drowsy (h : a.Recorded a.running x) (hi : a.Inv) {ctx : Context} {n : Nat}
    (hl : a.activity = .leaving ctx (some n)) :
    x = .free ∧ (a.thread a.running).blockedAtSem = none ∨
      ∃ s, x = .waiting s (some n) 0 ∧ (a.thread a.running).blockedAtSem = some s := by
  have hna := hi.places.leaving_awake ctx n hl
  have hdrowsy : a.drowsy a.running = some n := by
    rw [Sys.drowsy, if_pos rfl, hl]
    rfl
  have hf := h.fits
  cases x with
  | free => exact Or.inl ⟨rfl, hf.1⟩
  | sleeping =>
    obtain ⟨-, d, hd, -⟩ := hf
    exact absurd (mem_asleep.mpr ⟨d, hd⟩) hna
  | released s manner =>
    rcases hi.waits.next ctx n hl with ⟨-, rfl, -⟩ | ⟨hb, -⟩
    · have hhead := h.heading
      rw [heading_code (hi.contexts.leaving hl).1, place_leaving hl] at hhead
      cases hhead
    · exact absurd hf.1 hb
  | waiting s timeout k =>
    refine Or.inr ⟨s, ?_, hf.1⟩
    cases timeout with
    | none => cases hdrowsy.symm.trans hf.2.2
    | some n' =>
      rcases hf.2 with ⟨hd, rfl⟩ | ⟨d, hd, -⟩
      · rw [Option.some.inj (hd.symm.trans hdrowsy)]
      · exact absurd (mem_asleep.mpr ⟨d, hd⟩) hna

theorem blocked_ne_running (hi : a.Inv) (hl : a.activity.isLeaving = false)
    (hb : (a.thread u).blockedAtSem = some s) : u ≠ a.running := by
  rintro rfl
  cases hb.symm.trans (hi.places.running_free hl).1

/-- A tick brings every alarm nearer. -/
theorem Recorded.ticked (h : a.Recorded t x) (hi : a.Inv) (ha : a.activity = .none)
    (hrun : b.running = a.running) (hstage : b.stage = a.stage) (hact : b.activity = .ticking)
    (hthread : b.thread = a.thread) (hsleepers : b.sleepers = a.sleepers.map fun p => (p.1, p.2 - 1))
    (hh : b.history = .tick :: a.history) : b.Recorded t x.tick := by
  have hmem : ∀ {d}, (t, d) ∈ a.sleepers → (t, d - 1) ∈ b.sleepers ∧ d - 1 + 1 = d := fun {d} hd => by
    have := hi.ticks.pos (by rw [ha]; nofun) (t, d) hd
    exact ⟨hsleepers ▸ List.mem_map.mpr ⟨(t, d), hd, rfl⟩, Nat.sub_add_cancel this⟩
  have hasleep : b.asleep = a.asleep := by
    rw [asleep, hsleepers]
    exact asleep_map
  have hf := h.fits
  refine ⟨by rw [hh]; exact stay_tick h.stay, ?_, ?_⟩
  · have hsem : x.tick.sem = x.sem := by cases x <;> rfl
    rw [hsem, ← h.heading, Sys.heading, Sys.heading, place, place, hrun, hstage, hthread, hact, ha]
    rfl
  · cases x with
    | free => exact ⟨hthread ▸ hf.1, hasleep ▸ hf.2⟩
    | released => exact ⟨hthread ▸ hf.1, hasleep ▸ hf.2.1, hthread ▸ hf.2.2⟩
    | sleeping n k =>
      obtain ⟨hb, d, hd, rfl⟩ := hf
      obtain ⟨hd', he⟩ := hmem hd
      exact ⟨hthread ▸ hb, d - 1, hd', by omega⟩
    | waiting s timeout k =>
      refine ⟨hthread ▸ hf.1, ?_⟩
      have halarm := hf.2
      cases timeout with
      | none => exact ⟨hasleep ▸ halarm.1, drowsy_none (by rw [hact]; rfl)⟩
      | some n =>
        rcases halarm with ⟨hd, -⟩ | ⟨d, hd, rfl⟩
        · rw [drowsy_none (by rw [ha]; rfl)] at hd
          cases hd
        · obtain ⟨hd', he⟩ := hmem hd
          exact Or.inr ⟨d - 1, hd', by omega⟩

theorem Recorded.step (h : a.Recorded t x) (hi : a.Inv) (ht : t ∈ a.threads)
    (hmanner : ∀ s m, a.activity = .releasing s m → m ≠ .waitTimeout) (hs : a.Step b) :
    ∃ y, b.Recorded t y := by
  have hp := hi.places
  have hlist : ∀ d, (t, d) ∈ a.sleepers ↔ (t, d) ∈ a.sleepers := fun _ => Iff.rfl
  have hpose : ∀ {y : Thread}, t ≠ a.running →
      (Function.update a.thread a.running y t).pose = (a.thread t).pose := fun hne => pose_of_ne hne
  cases hs with
  | tick hb => exact ⟨_, h.ticked hi hb.activity rfl rfl rfl rfl rfl rfl⟩
  | expire hl hs hb =>
    have hur := blocked_ne_running hi (not_leaving_of hl rfl) hb
    exact h.freed hur hb rfl rfl rfl rfl rfl rfl rfl rfl fun timeout k halarm =>
      if_pos ⟨rfl, halarm.due hp (hs ▸ List.mem_cons_self) hur⟩
  | @wake hl u rest hs hb =>
    have hu : (u, 0) ∈ a.sleepers := hs ▸ List.mem_cons_self
    have huasleep : u ∈ a.asleep := mem_asleep.mpr ⟨0, hu⟩
    by_cases htu : t = u
    · subst htu
      have hf := h.fits
      cases x with
      | free => exact absurd huasleep hf.2
      | waiting => cases hb.symm.trans hf.1
      | released => exact absurd huasleep hf.2.1
      | sleeping n k =>
        obtain ⟨-, d, hd, rfl⟩ := hf
        obtain rfl := hp.sleepers_unique hd hu
        refine ⟨.free, (stay_own h.stay rfl).trans (if_pos rfl), h.heading, hb, ?_⟩
        exact not_mem_filter
    · exact ⟨x, h.quiet (.still rfl (fun d => mem_filter_ne htu) rfl rfl rfl rfl)
        (stay_other (fun he => htu (Option.some.inj he).symm) (by simp))⟩
  | tickEnd hl => exact ⟨x, h.quiet (.still rfl hlist rfl rfl (by rw [hl]; rfl) (by rw [hl]; rfl)) rfl⟩
  | grant hl hq hn htok =>
    have hb := (hp.mem_queue _ _).mp (hq ▸ List.mem_cons_self)
    have hur := blocked_ne_running hi (not_leaving_of hl rfl) hb
    exact h.freed hur hb rfl rfl (by rw [hl]; rfl) (by rw [hl]; rfl) rfl rfl rfl rfl
      fun timeout k halarm => if_pos ⟨rfl, halarm.lt hi (by simp [hl]) hur⟩
  | @release s manner hl u rest hq =>
    have hb := (hp.mem_queue _ _).mp (hq ▸ List.mem_cons_self)
    have hur := blocked_ne_running hi (not_leaving_of hl rfl) hb
    have hlt := fun {k timeout} (halarm : a.Alarm u k timeout) =>
      halarm.lt hi (by simp [hl]) hur
    cases manner with
    | waitTimeout => exact absurd rfl (hmanner _ _ hl)
    | regular | onClose =>
      exact h.freed hur hb rfl rfl rfl rfl rfl rfl rfl rfl
        fun timeout k halarm => if_pos ⟨rfl, hlt halarm⟩
  | @preempt hb ctx hc =>
    have hwaits : ctx.waitsAt a.running = none := by rcases hc with rfl | rfl <;> rfl
    refine ⟨x, h.chosen hb.stage hb.stage hb.activity (choose_context _) (hwaits.trans ?_)
      (by rw [hb.activity]; rfl) rfl (update_field Thread.blockedAtSem (by rfl) t)
      (update_field Thread.unblockManner (by rfl) t)
      (fun hne => congrArg Thread.context (Function.update_of_ne hne ..)) (stay_silent rfl rfl)⟩
    rw [place_of_none hb.activity, hb.context]
    rfl
  | switch hl =>
    have hst := (hi.contexts.leaving hl).1
    exact ⟨x, h.chosen hst hst rfl (choose_context _) (by rw [place_leaving hl])
      (by rw [hl]; rfl) rfl (update_field Thread.blockedAtSem (by rfl) t)
      (update_field Thread.unblockManner (by rfl) t)
      (fun hne => congrArg Thread.context (Function.update_of_ne hne ..)) (stay_silent rfl rfl)⟩
  | @fallAsleep ctx n hl h1 =>
    have hmem : ∀ {u d}, (u, d) ∈ DeltaList.insertBy a.running n a.sleepers ↔
        (u, d) = (a.running, n) ∨ (u, d) ∈ a.sleepers := DeltaList.mem_insertBy
    by_cases hne : t = a.running
    · subst hne
      have hhead : ∀ {b : Sys}, b.running = a.running → b.stage = a.stage → b.thread = a.thread →
          b.activity = .leaving ctx none → b.heading a.running = a.heading a.running := by
        intro b hrun hst hthread hact
        rw [Sys.heading, Sys.heading, place, place, hrun, hst, hthread, hact, hl]
        rfl
      have hin : (a.running, n) ∈ DeltaList.insertBy a.running n a.sleepers := hmem.mpr (Or.inl rfl)
      rcases h.drowsy hi hl with ⟨rfl, hb⟩ | ⟨s, rfl, hb⟩
      · exact ⟨.sleeping n 0, stay_own h.stay rfl, Eq.trans (hhead rfl rfl rfl rfl) h.heading, hb, n,
          hin, (Nat.zero_add n).symm⟩
      · exact ⟨.waiting s (some n) 0, (stay_own h.stay rfl).trans (if_pos ⟨rfl, rfl⟩),
          Eq.trans (hhead rfl rfl rfl rfl) h.heading, hb,
          Or.inr ⟨n, hin, (Nat.zero_add n).symm⟩⟩
    · refine ⟨x, h.quiet (.of_ne hne rfl (fun d => ?_) rfl)
        (stay_other (fun he => hne (Option.some.inj he).symm) (by simp))⟩
      exact hmem.trans (or_iff_right fun he => hne (congrArg Prod.fst he))
  | @block s m ctx timeout hw ha hv htimed =>
    by_cases hne : t = a.running
    · subst hne
      obtain rfl := h.free hp (not_leaving_of hw.activity rfl) hw.heading
      refine ⟨.waiting s timeout 0, stay_own h.stay rfl, ?_, enqueue_self _, ?_⟩
      · rw [heading_code rfl]
        exact (congrArg (Context.waitsAt a.running) (place_leaving rfl)).trans hw.waitsAt
      · cases timeout with
        | none => exact ⟨h.fits.2, drowsy_none rfl⟩
        | some n => exact Or.inl ⟨if_pos rfl, rfl⟩
    · exact ⟨x, h.quiet (.of_ne hne (hpose hne) hlist rfl)
        (stay_other (fun he => hne (Option.some.inj he).symm) (by simp))⟩
  | @timeoutZero ctx hl s hb =>
    by_cases hne : t = a.running
    · subst hne
      obtain ⟨rfl, hb'⟩ | ⟨s', rfl, hb'⟩ := h.drowsy hi hl
      · cases hb.symm.trans hb'
      · obtain rfl := Option.some.inj (hb.symm.trans hb')
        have hexpired := (stay_own (e := .expired s a.running) h.stay rfl).trans
          (if_pos ⟨rfl, rfl⟩)
        exact ⟨.free, (stay_own hexpired rfl).trans rfl, heading_stage rfl,
          unblock_self s .waitTimeout, not_mem_filter⟩
    · have hwho : ∀ {e : Event}, e.who = some a.running → e.who ≠ some t := fun he he' =>
        hne (Option.some.inj (he'.symm.trans he))
      exact ⟨x, h.quiet (.of_ne hne (hpose hne) (fun d => mem_filter_ne hne) rfl)
        ((stay_other (e := .returned a.running TIMEOUT) (hwho rfl) (by simp)).trans
          (stay_other (e := .expired s a.running) (hwho rfl) (by simp)))⟩
  | @endWait ha hst s hc =>
    by_cases hne : t = a.running
    · subst hne
      have hhead := h.heading
      rw [heading_code hst, place_of_none ha, hc] at hhead
      obtain ⟨hnb, hna⟩ := hp.running_free (not_leaving_of ha rfl)
      have hf := h.fits
      cases x with
      | free | sleeping => cases hhead
      | waiting => cases hnb.symm.trans hf.1
      | released s' manner =>
        obtain ⟨-, -, rfl⟩ := hf
        exact ⟨.free, (stay_own h.stay rfl).trans (if_pos rfl), heading_stage rfl, hnb, hna⟩
    · exact ⟨x, h.quiet (.of_ne hne rfl hlist rfl)
        (stay_other (fun he => hne (Option.some.inj he).symm) (by simp))⟩
  | sleep hc =>
    refine ⟨x, h.settled hp (not_leaving_of hc.activity rfl) rfl rfl rfl (fun _ => rfl)
      (heading_body hc.toAtBody) (heading_next .sleep ?_ rfl) rfl⟩
    exact hc.stage
  | leave ha hl =>
    refine ⟨x, h.settled hp (not_leaving_of ha rfl) rfl rfl
      (update_field Thread.blockedAtSem (by rfl) _) hpose (hl.heading ha)
      (heading_next .body rfl ?_) rfl⟩
    simp [setThread, ha, Activity.next]
  | acquire hw =>
    exact ⟨x, h.settled hp (not_leaving_of hw.activity rfl) rfl rfl
      (update_field Thread.blockedAtSem (by rfl) _) hpose hw.heading (heading_stage rfl)
      (stay_silent rfl rfl)⟩
  | dead hw =>
    exact ⟨x, h.settled hp (not_leaving_of hw.activity rfl) rfl rfl rfl (fun _ => rfl) hw.heading
      (heading_stage rfl) rfl⟩
  | tryFail hc =>
    have hb : AtBody (a.setThread a.running fun x => { x with unblockManner := .regular }) :=
      ⟨hc.activity, hc.stage, (update_field Thread.context (by rfl) _).trans hc.context⟩
    exact ⟨x, h.settled hp (not_leaving_of hc.activity rfl) rfl rfl
      (update_field Thread.blockedAtSem (by rfl) _) hpose (heading_body hc.toAtBody)
      (heading_body hb) rfl⟩
  | signal hc | skip hc =>
    refine ⟨x, h.settled hp (not_leaving_of hc.activity rfl) rfl rfl rfl (fun _ => rfl) hc.heading ?_
      ?_⟩
    · cases hc with
      | semSignal hc =>
        refine heading_next .body rfl ?_
        first | exact hc.context | simp [hc.activity, hc.context, Activity.next]
      | owed | slot => exact heading_stage rfl
    · first | exact stay_silent rfl rfl | rfl
  | write ha hst | received ha hst | putChar ha hst | getChar ha hst =>
    refine ⟨x, h.settled hp (not_leaving_of ha rfl) rfl rfl ?_ (fun _ => ?_)
      (heading_stage (by rw [hst]; rfl)) (heading_stage rfl) (stay_silent rfl rfl)⟩
    · first | exact update_field Thread.blockedAtSem (by rfl) _ | rfl
    · first | exact pose_update (by rfl) t | rfl
  | putting hc =>
    exact ⟨x, h.settled hp (not_leaving_of hc.activity rfl) rfl rfl rfl (fun _ => rfl)
      (heading_body hc.toAtBody) (heading_stage rfl) (stay_silent rfl rfl)⟩
  | finish hb =>
    exact ⟨x, h.settled hp (not_leaving_of hb.activity rfl) rfl rfl rfl (fun _ => rfl)
      (heading_body hb) (heading_stage rfl) (stay_silent rfl rfl)⟩
  | noParent ha hst | childLeaves ha hst | childSignals ha hst =>
    refine ⟨x, h.settled hp (not_leaving_of ha rfl) rfl rfl ?_ (fun _ => ?_)
      (heading_stage (by rw [hst]; rfl)) (heading_stage rfl) ?_⟩
    · first | exact update_field Thread.blockedAtSem (by rfl) _ | rfl
    · first | exact pose_update (by simp only [Thread.pose]) t | rfl
    · first | exact stay_silent rfl rfl | rfl
  | retire ha hst =>
    refine ⟨x, h.settled hp (not_leaving_of ha rfl) rfl rfl
      (update_field Thread.blockedAtSem (by rfl) _) hpose (heading_stage (by rw [hst]; rfl))
      (heading_next .finish rfl rfl) rfl⟩
  | init hc hnt =>
    exact ⟨x, h.quiet (.still (pose_of_ne fun he => hnt (he.subst ht)) hlist rfl rfl rfl rfl) rfl⟩
  | part hl | handEnd hl | signalAll hl | releaseEnd hl =>
    refine ⟨x, h.quiet (.still ?_ hlist rfl rfl (by rw [hl]; rfl) (by rw [hl]; rfl)) rfl⟩
    first | exact pose_update (by rfl) t | rfl
  | close hc =>
    exact ⟨x, h.quiet (.still rfl hlist rfl rfl (by rw [hc.activity]; rfl) (by rw [hc.activity]; rfl))
      (stay_silent rfl rfl)⟩
  | allocate | store => exact ⟨x, h.quiet (.still rfl hlist rfl rfl rfl rfl) rfl⟩
  | openSem => exact ⟨x, h.quiet (.still rfl hlist rfl rfl rfl rfl) (stay_silent rfl rfl)⟩
  | enlist =>
    exact ⟨x, h.quiet (.still (pose_update (by rfl) t) hlist rfl rfl rfl rfl)
      (stay_silent rfl rfl)⟩

/-! ## 4. All threads -/

/-- Who does not wait needs no tokens. -/
theorem Step.tokens (hs : a.Step b) (hp : a.Places) (ht : t ∈ b.threads)
    (h : (a.thread t).blockedAtSem = none → (a.thread t).tokensNeeded = 0)
    (hb : (b.thread t).blockedAtSem = none) : (b.thread t).tokensNeeded = 0 := by
  have hsame : (b.thread t).blockedAtSem = (a.thread t).blockedAtSem ∧
      (b.thread t).tokensNeeded = (a.thread t).tokensNeeded → (b.thread t).tokensNeeded = 0 :=
    fun hsame => hsame.2.trans (h (hsame.1.symm.trans hb))
  have hupdate : ∀ {u x}, b.thread = Function.update a.thread u x →
      (x.blockedAtSem = none → x.tokensNeeded = 0) → (b.thread t).tokensNeeded = 0 :=
    fun {u x} hx hz => by
      by_cases hu : t = u
      · rw [hx, hu, Function.update_self] at hb ⊢
        exact hz hb
      · refine hsame ?_
        rw [hx, Function.update_of_ne hu]
        exact ⟨rfl, rfl⟩
  cases hs with
  | expire | grant | release | timeoutZero => exact hupdate rfl fun _ => rfl
  | block => exact hupdate rfl nofun
  | @part s n hl u rest hq =>
    refine hupdate rfl fun hu => ?_
    cases hu.symm.trans ((hp.mem_queue u s).mp (hq ▸ List.mem_cons_self))
  | init _ hnt =>
    have hne : t ≠ _ := fun he => hnt (he.subst ht)
    exact hsame ⟨congrArg Thread.blockedAtSem (Function.update_of_ne hne ..),
      congrArg Thread.tokensNeeded (Function.update_of_ne hne ..)⟩
  | _ => first
    | exact hsame ⟨update_field Thread.blockedAtSem (by rfl) t,
        update_field Thread.tokensNeeded (by rfl) t⟩
    | exact hsame ⟨rfl, rfl⟩

/-- Who has finished, and is not chosen again, has left `TCB::finish` for good. -/
theorem Step.finished_waits (hs : a.Step b) (hi : a.Inv) (ht : t = a.running) (hne : t ≠ b.running)
    (hf : (b.thread t).finished = true) : (b.thread t).context.waitsAt t = none := by
  subst ht
  cases hs with
  | @preempt hb ctx hc =>
    refine Eq.trans (congrArg (Context.waitsAt a.running)
      (choose_context (a := a.pushReady a.running) ctx)) ?_
    rcases hc with rfl | rfl <;> rfl
  | @switch ctx hl =>
    refine Eq.trans (congrArg (Context.waitsAt a.running) (choose_context ctx)) ?_
    obtain ⟨-, -, ⟨rfl, -⟩ | ⟨-, hunf⟩⟩ := hi.contexts.leaving hl
    · rfl
    · cases hunf.symm.trans ((update_field Thread.finished (by rfl) _).symm.trans hf)
  | _ => exact absurd rfl hne

theorem Step.new_tokens (hs : a.Step b) (ht : t ∈ b.threads) (hn : t ∉ a.threads) :
    (a.thread t).tokensNeeded = 0 := by
  cases hs with
  | enlist _ _ _ _ hx =>
    obtain rfl := List.mem_singleton.mp ((List.mem_append.mp ht).resolve_left hn)
    exact hx.2.2.2.2
  | _ => exact absurd ht hn

/-- The history and the state agree on what each thread does: what `stay` computes from the events
is where the thread is. -/
structure Records (a : Sys) : Prop where
  threads : ∀ t ∈ a.threads, ∃ x, a.Recorded t x
  strangers : ∀ t ∉ a.threads, Os1Kernel.stay t a.history = some .free
  manner : ∀ s m, a.activity = .releasing s m → m ≠ .waitTimeout
  tokens : ∀ t ∈ a.threads, (a.thread t).blockedAtSem = none → (a.thread t).tokensNeeded = 0
  finished : ∀ t ∈ a.threads, (a.thread t).finished = true → t ≠ a.running →
    (a.thread t).context.waitsAt t = none

/-- An event is about a thread that exists. -/
theorem Step.who (hs : a.Step b) (hi : a.Inv) : ∃ l, b.history = l ++ a.history ∧
    ∀ e ∈ l, ∀ t, e.who = some t → t ∈ a.threads := by
  have hone : ∀ {e : Event}, b.history = e :: a.history → (∀ t, e.who = some t → t ∈ a.threads) →
      ∃ l, b.history = l ++ a.history ∧ ∀ e ∈ l, ∀ t, e.who = some t → t ∈ a.threads :=
    fun {e} he h => ⟨[e], he, by simpa using h⟩
  have hself : ∀ {e : Event}, e.who = some a.running → ∀ t, e.who = some t → t ∈ a.threads :=
    fun he t ht => Option.some.inj (he.symm.trans ht) ▸ hi.alive.running_mem
  have hblocked : ∀ {e : Event} {u s}, e.who = some u → (a.thread u).blockedAtSem = some s →
      ∀ t, e.who = some t → t ∈ a.threads := fun {e u s} he hb t ht => by
    obtain rfl := Option.some.inj (he.symm.trans ht)
    exact (hi.places.live u (Or.inr (Or.inl (by simp [hb])))).1
  cases hs with
  | timeoutZero _ hb =>
    refine ⟨[.returned a.running TIMEOUT, .expired _ a.running], rfl, ?_⟩
    simp only [List.forall_mem_cons]
    exact ⟨hself rfl, hself rfl, by simp⟩
  | fallAsleep | block | endWait => exact hone rfl (hself rfl)
  | expire _ _ hb => exact hone rfl (hblocked rfl hb)
  | grant _ hq => exact hone rfl (hblocked rfl ((hi.places.mem_queue _ _).mp (hq ▸ List.mem_cons_self)))
  | @release s m _ u _ hq =>
    have hb := (hi.places.mem_queue u s).mp (hq ▸ List.mem_cons_self)
    cases m <;> exact hone rfl (hblocked rfl hb)
  | wake _ hs =>
    refine hone rfl ?_
    rintro _ ⟨⟩
    exact (hi.places.live _ (Or.inr (Or.inr (by simp [asleep, hs])))).1
  | _ => first | exact ⟨[], rfl, by simp⟩ | exact hone rfl fun _ he => by cases he

theorem stay_strangers (h : Os1Kernel.stay t l = some .free) {l' : List Event}
    (hl : ∀ e ∈ l', e.who ≠ some t) : Os1Kernel.stay t (l' ++ l) = some .free := by
  induction l' with
  | nil => exact h
  | cons e l' ih =>
    rw [List.forall_mem_cons] at hl
    have hold := ih hl.2
    by_cases he : e = .tick
    · subst he
      exact stay_tick hold
    · exact (stay_other hl.1 he).trans hold

/-- **What a thread does is what the history says.** -/
theorem Records.step (h : a.Records) (hi : a.Inv) (hs : a.Step b) : b.Records := by
  obtain ⟨l, hl, hwho⟩ := hs.who hi
  have hnew : ∀ t ∉ a.threads, Os1Kernel.stay t b.history = some .free := fun t ht => by
    rw [hl]
    exact stay_strangers (h.strangers t ht) fun e he hw => ht (hwho e he t hw)
  refine ⟨fun t ht => ?_, fun t ht => hnew t fun hm => ht (hs.threads t hm), fun s m hm => ?_,
    fun t ht hb => hs.tokens hi.places ht (fun ha => ?_) hb, fun t ht hf hne => ?_⟩
  · by_cases hta : t ∈ a.threads
    · obtain ⟨x, hx⟩ := h.threads t hta
      exact hx.step hi hta h.manner hs
    · have henl := hs.enlisted ht hta
      have hb := hi.step hs
      have hctx : (b.thread t).context = .threadWrapper := (henl.context t).trans henl.new
      have hrun : t ≠ b.running := by
        rintro rfl
        cases hctx.symm.trans henl.body.context
      have hplace : b.place t = .threadWrapper := (place_of_ne hrun).trans hctx
      refine ⟨.free, hnew t hta, (heading_of_ne hrun).trans (by rw [hctx]; rfl), ?_, fun hm => ?_⟩
      · by_contra hblocked
        obtain ⟨s, hs⟩ := Option.ne_none_iff_exists'.mp hblocked
        have := (hb.waits.waitsAt t s hs).context
        rw [hplace] at this
        cases this
      · rcases hb.waits.asleep t hm with ⟨-, hp⟩ | ⟨-, hp⟩
        · cases hplace.symm.trans hp
        · rw [hplace] at hp
          cases hp
  · cases hs with
    | close => cases hm; nofun
    | signalAll => cases hm; nofun
    | _ => first | cases hm | exact h.manner s m hm
  · by_cases hta : t ∈ a.threads
    · exact h.tokens t hta ha
    · exact hs.new_tokens ht hta
  · by_cases hna : t = a.running
    · exact hs.finished_waits hi hna hne hf
    · rw [hs.context ht hna]
      have hfa : (a.thread t).finished = true := by
        rcases hs.finished ht with he | ⟨he, -⟩
        · rw [← he, hf]
        · exact absurd he hna
      by_cases hta : t ∈ a.threads
      · exact h.finished t hta hfa hna
      · cases (hs.new_unfinished ht hta).symm.trans hfa

/-- Who has finished will not go on behind a wait. -/
theorem Records.finished_heading (h : a.Records) (hi : a.Inv) (ht : t ∈ a.threads)
    (hf : (a.thread t).finished = true) : a.heading t = none := by
  by_cases hne : t = a.running
  · subst hne
    cases hact : a.activity with
    | leaving ctx o =>
      obtain ⟨hstage, -, ⟨rfl, -⟩ | ⟨-, hunf⟩⟩ := hi.contexts.leaving hact
      · rw [heading_code hstage, place_leaving hact]
        rfl
      · cases hunf.symm.trans hf
    | _ =>
      have hidle := (hi.contexts.finished hf).resolve_right fun hl => by rw [hact] at hl; cases hl
      rw [heading]
      split
      · rfl
      · rw [place, if_pos rfl, hact, hidle]
        exact hi.contexts.idle.1
  · rw [heading_of_ne hne]
    exact h.finished t ht hf hne

end Sys

end Os1Kernel
