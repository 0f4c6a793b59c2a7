/-
# Waiting for all children

`joinAll` asks `semJoinAll` for as many tokens as the thread has children, and each child that
finishes while its parent waits gives it one.  So the tokens that are missing are those of the
children that have not finished, also behind timeouts that were too short for some of them, and the
wait ends when the last of them finishes.

`Gathered.tokens` is the invariant: the tokens that a waiting parent misses are its counter, and
one more while a token for it is in the hands of `signal`.  The counter goes down and the token is
sent in the same step (`Sys.Step.childSignals`), and the loop of `signal` then takes the token off
what is missing.

What that means for the threads is said by the history.  `Registered` reads off it who has created
whom, so the children of a thread are events; with `Counts` the counter is the number of those that
have not finished.  When the parent is granted, nothing is missing any more, so all children have
finished, and the one that signals is the last (`LastChild`); when it times out something is
missing, so there is one that has not (`Pending`).

`main` is left out: its counter is wrong once the idle thread has finished (`Children.lean`).
-/
import Os1Kernel.Spec.Joins

namespace Os1Kernel

/-! ## 1. Children in the history -/

/-- The last child of `p` has finished, and nobody has been chosen since. -/
structure LastChild (p : Tid) (l : List Event) : Prop where
  all : ∀ t x, .created t (some p) x ∈ l → .finish t ∈ l
  last : ∃ t x later earlier, .created t (some p) x ∈ l ∧ l = later ++ .finish t :: earlier ∧
    (∀ e ∈ later, Event.isTurn e = false) ∧ .finish t ∉ earlier

/-- A child of `p` has not finished. -/
def Pending (p : Tid) (l : List Event) : Prop :=
  ∃ t x, .created t (some p) x ∈ l ∧ .finish t ∉ l

/-- The wait for all children lasts until they have finished. -/
def Event.joinAllOk (master : Option Tid) (l : List Event) : Event → Prop
  | .granted (.joinAll p) u => master ≠ some p → u = p ∧ LastChild p l
  | .blocked (.joinAll p) u _ | .expired (.joinAll p) u => master ≠ some p → u = p ∧ Pending p l
  | _ => True

namespace Sys

variable {a b : Sys} {t u p : Tid} {s : SemPtr}

/-- The history says who has created whom. -/
structure Registered (a : Sys) : Prop where
  born : ∀ t ∈ a.threads, ∃ x, .created t (a.thread t).parent x ∈ a.history
  created : ∀ t p x, .created t p x ∈ a.history → t ∈ a.threads ∧ (a.thread t).parent = p
  /-- The idle thread is a child of `main`. -/
  idle : (a.thread a.idle).parent = a.master

theorem Step.master (hs : a.Step b) : b.master = a.master := by
  cases hs <;> rfl

theorem Step.created (hs : a.Step b) :
    (b.threads = a.threads ∧ ∀ t p x, .created t p x ∈ b.history → .created t p x ∈ a.history) ∨
      ∃ t x, b.threads = a.threads ++ [t] ∧
        b.history = .created t (b.thread t).parent x :: a.history := by
  cases hs with
  | @enlist hc t hnew hlt hroom hx =>
    refine Or.inr ⟨t, (a.thread t).hasBody, rfl, ?_⟩
    refine congrArg (fun p => Event.created t p (a.thread t).hasBody :: a.history) ?_
    exact hx.2.2.1.symm.trans (update_field Thread.parent (by rfl) t).symm
  | timeoutZero =>
    refine Or.inl ⟨rfl, fun _ _ _ h => ?_⟩
    exact (List.mem_cons.mp ((List.mem_cons.mp h).resolve_left nofun)).resolve_left nofun
  | @release s m =>
    refine Or.inl ⟨rfl, fun _ _ _ h => (List.mem_cons.mp h).resolve_left fun he => ?_⟩
    cases m <;> cases he
  | _ => first
    | exact Or.inl ⟨rfl, fun _ _ _ h => h⟩
    | exact Or.inl ⟨rfl, fun _ _ _ h => (List.mem_cons.mp h).resolve_left nofun⟩

theorem Registered.step (h : a.Registered) (hi : a.Inv) (hs : a.Step b) : b.Registered := by
  have hparent : ∀ {t}, t ∈ a.threads → (b.thread t).parent = (a.thread t).parent := fun ht =>
    hs.parent (hs.threads _ ht)
  have hborn : ∀ t ∈ a.threads, ∃ x, .created t (b.thread t).parent x ∈ b.history := fun t ht => by
    obtain ⟨x, hx⟩ := h.born t ht
    obtain ⟨l, hl⟩ := hs.history
    exact ⟨x, hl ▸ List.mem_append_right _ (hparent ht ▸ hx)⟩
  have hold : ∀ {t p x}, .created t p x ∈ a.history → t ∈ b.threads ∧ (b.thread t).parent = p :=
    fun hc => by
      obtain ⟨ht, hp⟩ := h.created _ _ _ hc
      exact ⟨hs.threads _ ht, (hparent ht).trans hp⟩
  have hidle : (b.thread b.idle).parent = b.master := by
    rw [hs.idle, hs.master, hparent hi.names.idle_mem, h.idle]
  obtain ⟨hthreads, hhist⟩ | ⟨t, x, hthreads, hhist⟩ := hs.created
  · exact ⟨fun t ht => hborn t (hthreads ▸ ht), fun t p x hc => hold (hhist t p x hc), hidle⟩
  · refine ⟨fun u hu => ?_, fun u p y hc => ?_, hidle⟩
    · rw [hthreads] at hu
      rcases List.mem_append.mp hu with hu | hu
      · exact hborn u hu
      · obtain rfl := List.mem_singleton.mp hu
        exact ⟨x, hhist ▸ List.mem_cons_self⟩
    · rw [hhist] at hc
      rcases List.mem_cons.mp hc with he | hc
      · cases he
        exact ⟨by simp [hthreads], rfl⟩
      · exact hold hc

/-! ## 2. Who finishes -/

/-- What the history says while a thread finishes. -/
structure Departs (a : Sys) : Prop where
  /-- Nobody else has run since `TCB::finish` began. -/
  since : a.stage.isFinishing = true → ∃ later earlier,
    a.history = later ++ .finish a.running :: earlier ∧ ∀ e ∈ later, Event.isTurn e = false
  /-- Only a child gives tokens to `semJoinAll`. -/
  handing : ∀ p n, a.activity = .handing (.joinAll p) n →
    a.stage = .left ∧ (a.thread a.running).parent = some p

theorem Departs.step (h : a.Departs) (hsp : a.Spent) (hi : a.Inv) (hs : a.Step b) : b.Departs := by
  refine ⟨fun hf => ?_, fun p n hl => ?_⟩
  · obtain ⟨hrun, hfin | hh⟩ := hs.finishing hi hf
    · obtain ⟨later, earlier, he, hlater⟩ := h.since hfin
      obtain ⟨l, hl, hh⟩ | ⟨-, -, hnot, -⟩ | ⟨hbody, -⟩ := hs.turn hi
      · refine ⟨l ++ later, earlier, by rw [hh, he, hrun, List.append_assoc], fun e hm => ?_⟩
        exact (List.mem_append.mp hm).elim (hl e) (hlater e)
      · cases hnot.symm.trans hfin
      · cases hbody.isFinishing.symm.trans hfin
    · exact ⟨[], a.history, by rw [hh, hrun]; rfl, nofun⟩
  · have hkeep : a.activity = .handing (.joinAll p) n → b.running = a.running → b.stage = a.stage →
        b.stage = .left ∧ (b.thread b.running).parent = some p := fun ha hrun hst => by
      obtain ⟨hleft, hp⟩ := h.handing p n ha
      rw [hrun, hst]
      exact ⟨hleft, (hs.parent (hs.threads _ hi.alive.running_mem)).trans hp⟩
    have hparent := hs.parent (hs.threads _ hi.alive.running_mem)
    cases hs with
    | signal hc =>
      cases hl
      cases hc.joins hsp
    | childSignals ha hst hp =>
      cases hl
      exact ⟨rfl, hparent.trans hp⟩
    | grant ha | part ha =>
      cases hl
      obtain ⟨hleft, hp⟩ := h.handing _ _ ha
      exact ⟨hleft, hparent.trans hp⟩
    | leave ha | endWait ha | write ha | received ha | putChar ha | getChar ha | noParent ha
    | childLeaves ha => cases ha.symm.trans hl
    | preempt hc | acquire hc | dead hc | skip hc | putting hc | finish hc =>
      cases hc.activity.symm.trans hl
    | _ => first | cases hl | exact hkeep hl rfl rfl

/-! ## 3. The tokens that are missing -/

theorem Step.counter_lt (hs : a.Step b) (hi : a.Inv)
    (h : ∀ p ∈ a.threads, (a.thread p).numOfActiveChildren < 2 ^ 64) :
    ∀ p ∈ b.threads, (b.thread p).numOfActiveChildren < 2 ^ 64 := fun p hp => by
  by_cases hpa : p ∈ a.threads
  · obtain ⟨-, hn, -⟩ | ⟨-, -, -, hn⟩ | ⟨t, -, -, -, hn⟩ := hs.counter hpa
    · exact hn ▸ h p hpa
    · exact hn ▸ Nat.mod_lt _ (by decide)
    · rw [hn]
      split
      · exact u64_lt _
      · exact h p hpa
  · exact (hs.new_child hi hp hpa).1 ▸ by decide

/-- Who waits for its children misses a token for each of them that has not finished. -/
structure Gathered (a : Sys) : Prop where
  lt : ∀ p ∈ a.threads, (a.thread p).numOfActiveChildren < 2 ^ 64
  tokens : ∀ p, (a.thread p).blockedAtSem = some (.joinAll p) → (a.thread p).tokensNeeded =
    (a.thread p).numOfActiveChildren + a.activity.handed (.joinAll p)
  events : ∀ e l, e :: l <:+ a.history → e.joinAllOk a.master l

/-- A thread's semaphore, the tokens that it waits for, and its children. -/
def claim (x : Thread) : Option SemPtr × Nat × Nat :=
  (x.blockedAtSem, x.tokensNeeded, x.numOfActiveChildren)

theorem Gathered.missing (h : a.Gathered) (hsp : a.Spent) (hi : a.Inv) (hs : a.Step b)
    (hb : (b.thread p).blockedAtSem = some (.joinAll p)) : (b.thread p).tokensNeeded =
      (b.thread p).numOfActiveChildren + b.activity.handed (.joinAll p) := by
  have hkeep : claim (b.thread p) = claim (a.thread p) →
      b.activity.handed (.joinAll p) = a.activity.handed (.joinAll p) → (b.thread p).tokensNeeded =
        (b.thread p).numOfActiveChildren + b.activity.handed (.joinAll p) := fun hclaim hact => by
    rw [claim, claim, Prod.mk.injEq, Prod.mk.injEq] at hclaim
    obtain ⟨h₁, h₂, h₃⟩ := hclaim
    rw [h₂, h₃, hact]
    exact h.tokens p (h₁.symm.trans hb)
  have hother : ∀ {u x}, b.thread = Function.update a.thread u x → p ≠ u →
      claim (b.thread p) = claim (a.thread p) := fun hx hne => by
    rw [hx, Function.update_of_ne hne]
  have hfreed : ∀ {u x}, b.thread = Function.update a.thread u x → x.blockedAtSem = none → p ≠ u :=
    fun hx hn => by
      rintro rfl
      rw [hx, Function.update_self, hn] at hb
      cases hb
  have hwaiter : ∀ {u s rest}, a.queue s = u :: rest → (a.thread u).blockedAtSem = some s :=
    fun hq => (hi.places.mem_queue _ _).mp (hq ▸ List.mem_cons_self)
  cases hs with
  | @block s m _ _ hw ha hv =>
    by_cases hp : p = a.running
    · subst hp
      obtain rfl : s = .joinAll a.running := Option.some.inj ((enqueue_self _).symm.trans hb)
      have hm : m = (a.thread a.running).numOfActiveChildren := by cases hw <;> rfl
      have hvalue := hsp.value _ hi.alive.running_mem (.joinAll a.running) (by simp [SemPtr.own]) rfl
      refine (enqueue_tokens _).trans ?_
      rw [hvalue, hm]
      exact (update_field Thread.numOfActiveChildren (by rfl) _).symm
    · exact hkeep (hother rfl hp) (by rw [hw.activity]; rfl)
  | expire | release => exact hkeep (hother rfl (hfreed rfl rfl)) rfl
  | timeoutZero ha => exact hkeep (hother rfl (hfreed rfl rfl)) (by rw [ha]; rfl)
  | init _ _ _ hx => exact hkeep (hother rfl (hfreed rfl hx)) rfl
  | @grant s n ha u rest hq =>
    have hne := hfreed rfl rfl
    refine hkeep (hother rfl hne) ?_
    have hs : s ≠ .joinAll p := by
      rintro rfl
      exact hne (waits_joinAll hi (hwaiter hq)).symm
    simp [ha, Activity.handed, hs]
  | @part s n ha u rest hq hn ht =>
    have hu := hwaiter hq
    by_cases hs : s = .joinAll p
    · subst hs
      obtain rfl := waits_joinAll hi hu
      have htok := h.tokens u hu
      rw [ha, Activity.handed, if_pos rfl] at htok
      simp only [setThread, Function.update_self, Activity.handed, if_true]
      omega
    · have hne : p ≠ u := by
        rintro rfl
        refine hs (Option.some.inj (hu.symm.trans ?_))
        exact (update_field Thread.blockedAtSem (by rfl) p).symm.trans hb
      exact hkeep (hother rfl hne) (by simp [ha, Activity.handed, hs])
  | @handEnd s n ha hq =>
    refine hkeep rfl ?_
    by_cases hs : s = .joinAll p
    · subst hs
      have hm := (hi.places.mem_queue p _).mpr hb
      rw [ha, hq.resolve_left (List.ne_nil_of_mem hm)]
      simp [Activity.handed]
    · simp [ha, Activity.handed, hs]
  | @signal s _ hc =>
    have hs : s ≠ .joinAll p := by
      rintro rfl
      cases hc.joins hsp
    exact hkeep rfl (by simp [hc.activity, Activity.handed, hs])
  | @childLeaves ha _ p' _ _ hnot =>
    have hne : p ≠ p' := by
      rintro rfl
      exact hnot ((update_field Thread.blockedAtSem (by rfl) p).symm.trans hb)
    exact hkeep (hother rfl hne) rfl
  | @childSignals ha _ p' _ _ hblocked =>
    by_cases hp : p = p'
    · subst hp
      have htok := h.tokens p hblocked
      rw [ha] at htok
      have hpos := (hi.waits.waitsAt p _ hblocked).tokens
      have hlt := h.lt p (waiter_args hi hblocked).1
      have hnum : 0 < (a.thread p).numOfActiveChildren := hpos.trans_eq htok
      simp only [setThread, emit, Function.update_self, Activity.handed, if_true,
        dec64_of_pos hnum hlt]
      exact htok.trans (Nat.sub_add_cancel hnum).symm
    · refine hkeep (hother rfl hp) ?_
      simp [ha, Activity.handed, Ne.symm hp]
  | enlist hc =>
    refine hkeep (hother rfl ?_) rfl
    rintro rfl
    cases (hi.places.running_free (not_leaving_of hc.activity rfl)).1.symm.trans
      ((update_field Thread.blockedAtSem (by rfl) _).symm.trans hb)
  | tick hc | sleep hc | close hc => exact hkeep rfl (by rw [hc.activity]; rfl)
  | tickEnd ha | fallAsleep ha | signalAll ha | releaseEnd ha => exact hkeep rfl (by rw [ha]; rfl)
  | switch ha | retire ha => exact hkeep (update_field claim (by rfl) p) (by rw [ha]; rfl)
  | _ => first | exact hkeep rfl rfl | exact hkeep (update_field claim (by rfl) p) rfl

/-! ## 4. The last child -/

theorem Mortal.unfinished (h : a.Mortal) (hstage : a.stage.isFinishing = false) (ht : t ∈ a.threads)
    (hf : (a.thread t).finished = false) : .finish t ∉ a.history := fun hm =>
  (h.ended t hm).2 ⟨ht, hf, fun _ => hstage⟩

/-- A thread that has been taken off its parent is finishing or has finished. -/
theorem Mortal.absent (h : a.Mortal) (ht : t ∈ a.threads) (hp : a.present t = false) :
    .finish t ∈ a.history := by
  rw [present, Bool.and_eq_false_iff, Bool.not_eq_false', Bool.not_eq_false',
    Bool.and_eq_true_iff] at hp
  rcases hp with hf | ⟨hrun, hleft⟩
  · exact h.finished t ht hf
  · rw [of_decide_eq_true hrun]
    refine h.finishing ?_
    cases hst : a.stage <;> rw [hst] at hleft <;> first | rfl | cases hleft

/-- The counter of a thread other than `main` is right. -/
theorem Counts.of_master (h : a.Counts) (hr : a.Registered) (hp : p ∈ a.threads)
    (hm : a.master ≠ some p) : a.Counted p :=
  h p hp fun he => absurd (hr.idle.symm.trans he) hm

/-- Where a child is missing, it has not finished. -/
theorem Registered.pending (hr : a.Registered) (hm : a.Mortal) (hc : a.Counted p)
    (hstage : a.stage.isFinishing = false) (hf : (a.thread p).finished = false)
    (hpos : 0 < (a.thread p).numOfActiveChildren) : Pending p a.history := by
  rw [hc.exact hf] at hpos
  obtain ⟨t, ht, hpres⟩ := List.countP_pos_iff.mp hpos
  rw [Bool.and_eq_true_iff, decide_eq_true_eq, present, Bool.and_eq_true_iff,
    Bool.not_eq_true'] at hpres
  obtain ⟨x, hx⟩ := hr.born t ht
  exact ⟨t, x, hpres.1 ▸ hx, hm.unfinished hstage ht hpres.2.1⟩

/-- Where the running child gives the last token that is missing, it is the last child. -/
theorem Registered.lastChild (hr : a.Registered) (hm : a.Mortal) (hd : a.Departs)
    (hc : a.Counted p) (hi : a.Inv) (hmaster : a.master ≠ some p) {n : Nat}
    (ha : a.activity = .handing (.joinAll p) n) (hf : (a.thread p).finished = false)
    (hzero : (a.thread p).numOfActiveChildren = 0) : LastChild p a.history := by
  obtain ⟨hleft, hparent⟩ := hd.handing p n ha
  refine ⟨fun t x hx => ?_, ?_⟩
  · obtain ⟨ht, htp⟩ := hr.created t _ x hx
    refine hm.absent ht ?_
    have hnone := List.countP_eq_zero.mp ((hc.exact hf).symm.trans hzero) t ht
    simpa [htp] using hnone
  · obtain ⟨x, hx⟩ := hr.born a.running hi.alive.running_mem
    obtain ⟨later, earlier, he, hlater⟩ := hd.since (by rw [hleft]; rfl)
    refine ⟨a.running, x, later, earlier, hparent ▸ hx, he, hlater,
      Final.before (l := later) (he ▸ hm.final a.running fun hidle => absurd ?_ hmaster)⟩
    rw [← hr.idle, ← hidle, hparent]

theorem Gathered.step (h : a.Gathered) (hacc : a.Accompanied) (hr : a.Registered) (hd : a.Departs)
    (hi : a.Inv) (hs : a.Step b) : b.Gathered := by
  refine ⟨hs.counter_lt hi h.lt, fun p hb => h.missing hacc.spent hi hs hb, fun e l hl => ?_⟩
  rw [hs.master]
  have hold : e :: l <:+ a.history → e.joinAllOk a.master l := h.events e l
  have hlive : ∀ {u p}, (a.thread u).blockedAtSem = some (.joinAll p) → a.master ≠ some p →
      u = p ∧ (a.thread p).finished = false ∧ a.Counted p := fun hb hmaster => by
    obtain rfl := waits_joinAll hi hb
    obtain ⟨ht, -, hf⟩ := hi.places.live _ (Or.inr (Or.inl (by rw [hb]; nofun)))
    exact ⟨rfl, hf, hacc.counts.of_master hr ht hmaster⟩
  have hpending : ∀ {u p}, (a.thread u).blockedAtSem = some (.joinAll p) →
      a.activity.handed (.joinAll p) = 0 → a.stage.isFinishing = false → a.master ≠ some p →
      u = p ∧ Pending p a.history := fun hb hz hstage hmaster => by
    obtain ⟨rfl, hf, hc⟩ := hlive hb hmaster
    have htok := h.tokens _ hb
    rw [hz] at htok
    have hpos := (hi.waits.waitsAt _ _ hb).tokens
    exact ⟨rfl, hr.pending hacc.mortal hc hstage hf (hpos.trans_eq htok)⟩
  cases hs with
  | block hw ha hv =>
    rcases List.suffix_cons_iff.mp hl with he | hl
    · cases he
      cases hw with
      | joinAll hc | timedJoinAll hc =>
        refine fun hmaster => ⟨rfl, hr.pending hacc.mortal ?_ hc.isFinishing
          (hi.contexts.unfinished hc.activity hc.not_idle) ((Nat.zero_le _).trans_lt hv)⟩
        exact hacc.counts.of_master hr hi.alive.running_mem hmaster
      | _ => trivial
    · exact hold hl
  | @expire ha u rest hsl s hb =>
    rcases List.suffix_cons_iff.mp hl with he | hl
    · cases he
      cases s with
      | joinAll p => exact hpending hb (by rw [ha]; rfl) (by rw [(hi.contexts.ticking ha).1]; rfl)
      | _ => trivial
    · exact hold hl
  | @timeoutZero ctx ha s hb =>
    rcases List.suffix_cons_iff.mp hl with he | hl
    · cases he
      trivial
    · rcases List.suffix_cons_iff.mp hl with he | hl
      · cases he
        cases s with
        | joinAll p => exact hpending hb (by rw [ha]; rfl) (by rw [(hi.contexts.leaving ha).1]; rfl)
        | _ => trivial
      · exact hold hl
  | @grant s n ha u rest hq hn ht =>
    rcases List.suffix_cons_iff.mp hl with he | hl
    · cases he
      cases s with
      | joinAll p =>
        intro hmaster
        obtain ⟨rfl, hf, hc⟩ := hlive ((hi.places.mem_queue u _).mp (hq ▸ List.mem_cons_self)) hmaster
        have htok := h.tokens u ((hi.places.mem_queue u _).mp (hq ▸ List.mem_cons_self))
        rw [ha, Activity.handed, if_pos rfl] at htok
        exact ⟨rfl, hr.lastChild hacc.mortal hd hc hi hmaster ha hf (by omega)⟩
      | _ => trivial
    · exact hold hl
  | @release s m ha u =>
    rcases List.suffix_cons_iff.mp hl with he | hl
    · obtain ⟨rfl, rfl⟩ := List.cons.inj he
      cases m with
      | waitTimeout => exact absurd rfl (hacc.records.manner _ _ ha)
      | regular =>
        obtain ⟨t, rfl, -⟩ := hacc.joined.regular s ha
        trivial
      | onClose => trivial
    · exact hold hl
  | _ => first
    | exact hold hl
    | (rcases List.suffix_cons_iff.mp hl with he | hl
       · cases he
         trivial
       · exact hold hl)

/-! ## 5. Everything together -/

/-- What holds of the threads that wait for their children. -/
structure Attended (a : Sys) : Prop extends a.Accompanied where
  registered : a.Registered
  departs : a.Departs
  gathered : a.Gathered

theorem Attended.step (h : a.Attended) (hi : a.Inv) (hs : a.Step b) : b.Attended where
  toAccompanied := h.toAccompanied.step hi hs
  registered := h.registered.step hi hs
  departs := h.departs.step h.spent hi hs
  gathered := h.gathered.step h.toAccompanied h.registered h.departs hi hs

end Sys

end Os1Kernel
