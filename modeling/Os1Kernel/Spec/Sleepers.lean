/-
# When a sleeper wakes

A tick wakes everybody whose time is over, and nothing else happens before it has: of those who are
due, it wakes first who has slept longest.  Whoever has been released and not been chosen since is
ready, in the order of the releases.

That a sleeper wakes at its tick is in `Records.lean`; here is the order among those who wake at
the same one.  `age` is the number of events since a thread fell asleep.  The sleep list is sorted
by the ticks that are left, and within the same number by age, the oldest first (`Punctual.order`):
`Sleep::put` goes past all that are not later than the new sleeper, which is the youngest of all.
As a tick takes the same from everybody, the order stays, and the loop of `onTick` takes from the
front.

`freed` is read off the history as well: who has been released and not chosen.  It is a part of the
ready list in the same order, because every release puts its thread at the end, and nothing is
taken from the list but its first.
-/
import Os1Kernel.Spec.Records

namespace Os1Kernel

/-! ## 1. What the history says -/

/-- The timeout of a sleeper, and the ticks since it fell asleep. -/
def Stay.alarm : Stay → Option (Nat × Nat)
  | .sleeping n k | .waiting _ (some n) k => some (n, k)
  | _ => none

/-- The events since the thread fell asleep. -/
def age (t : Tid) : List Event → Nat
  | [] => 0
  | .slept u _ :: l => if u = t then 0 else age t l + 1
  | _ :: l => age t l + 1

/-- The thread that `Sleep::onTick` wakes. -/
def Event.wakes : Event → Option Tid
  | .woken t | .expired _ t => some t
  | _ => none

/-- The threads that have been released, and neither been chosen nor returned since. -/
def freed : List Event → List Tid
  | [] => []
  | e :: l => match e with
    | .woken t | .expired _ t | .granted _ t | .dismissed _ t => freed l ++ [t]
    | .chosen t | .returned t _ => (freed l).erase t
    | _ => freed l

/-- After these events a tick is waking `t`. -/
structure Timely (t : Tid) (l : List Event) : Prop where
  /-- Since the tick nothing has happened but that others were woken. -/
  tick : ∃ woken before, l = woken ++ .tick :: before ∧ ∀ e ∈ woken, e.wakes ≠ none
  /-- All others that are due fell asleep later. -/
  first : ∀ u ≠ t, ∀ x n, stay u l = some x → x.alarm = some (n, n) → age u l < age t l

variable {t u : Tid} {e : Event} {l : List Event} {x : Stay}

theorem age_cons (he : ∀ n, e ≠ .slept t n) (l : List Event) : age t (e :: l) = age t l + 1 := by
  cases e with
  | slept u n =>
    have hne : u ≠ t := by
      rintro rfl
      exact he n rfl
    exact if_neg hne
  | _ => rfl

theorem freed_eq_nil (h : ∀ e ∈ l, e.who = none) : freed l = [] := by
  induction l with
  | nil => rfl
  | cons e l ih =>
    rw [List.forall_mem_cons] at h
    cases e <;> simp_all [freed, Event.who]

/-- Ticks and other threads come and go. -/
theorem stay_asleep {n k : Nat} (h : stay t l = some (.sleeping n k)) {since : List Event}
    (hsince : ∀ e ∈ since, e.who ≠ some t) :
    stay t (since ++ l) = some (.sleeping n (k + since.countP Event.isTick)) := by
  induction since with
  | nil => exact h
  | cons e since ih =>
    rw [List.forall_mem_cons] at hsince
    have hold := ih hsince.2
    by_cases he : e = .tick
    · subst he
      rw [countP_tick]
      exact stay_tick hold
    · rw [countP_other he, List.cons_append, stay_other hsince.1 he, hold]

/-- The first event of a thread among these, which are listed the last first. -/
theorem exists_first (t : Tid) (since : List Event) : (∀ e ∈ since, e.who ≠ some t) ∨
    ∃ later e earlier, since = later ++ e :: earlier ∧ e.who = some t ∧
      ∀ e ∈ earlier, e.who ≠ some t := by
  induction since with
  | nil => exact Or.inl (by simp)
  | cons e since ih =>
    rcases ih with hall | ⟨later, e', earlier, rfl, he, hall⟩
    · by_cases he : e.who = some t
      · exact Or.inr ⟨[], e, since, rfl, he, hall⟩
      · exact Or.inl (List.forall_mem_cons.mpr ⟨he, hall⟩)
    · exact Or.inr ⟨e :: later, e', earlier, rfl, he, hall⟩

theorem next_sleeping {n k : Nat} (h : (Stay.sleeping n k).next e = some x) (he : e.who = some t) :
    e = .woken t ∧ k = n := by
  cases e <;> simp_all [Stay.next, Event.who]

/-- What becomes of a thread that calls `time_sleep`: nothing until its `n`-th tick, which ends its
sleep. -/
theorem stay_slept {n : Nat} {since before : List Event}
    (h : (stay t (since ++ .slept t n :: before)).isSome = true) (hfree : stay t before = some .free) :
    stay t (since ++ .slept t n :: before) = some (.sleeping n (since.countP Event.isTick)) ∧
        (∀ e ∈ since, e.who ≠ some t) ∨
      ∃ later earlier, since = later ++ .woken t :: earlier ∧ earlier.countP Event.isTick = n ∧
        ∀ e ∈ earlier, e.who ≠ some t := by
  have hslept : stay t (.slept t n :: before) = some (.sleeping n 0) := stay_own hfree rfl
  rcases exists_first t since with hall | ⟨later, e, earlier, rfl, he, hall⟩
  · exact Or.inl ⟨by rw [stay_asleep hslept hall, Nat.zero_add], hall⟩
  · have hold := stay_asleep hslept hall
    rw [Nat.zero_add] at hold
    rw [List.append_assoc, List.cons_append] at h
    obtain ⟨x, hx⟩ := Option.isSome_iff_exists.mp (stay_append _ h)
    obtain ⟨rfl, hcount⟩ := next_sleeping ((stay_own hold he).symm.trans hx) he
    exact Or.inr ⟨later, earlier, rfl, hcount, hall⟩

namespace Sys

variable {a b : Sys} {s : SemPtr}

/-! ## 2. The invariant -/

/-- Everybody is woken in time.  `order` is about who comes first of those with equal deadlines,
which the deadlines do not say and the history does. -/
structure Punctual (a : Sys) : Prop where
  /-- Of those with the same time left, who has slept longer comes first. -/
  order : a.sleepers.Pairwise fun p q => p.2 = q.2 → age q.1 a.history < age p.1 a.history
  ticking : a.activity = .ticking → ∃ woken before, a.history = woken ++ .tick :: before ∧
    ∀ e ∈ woken, e.wakes ≠ none
  woken : ∀ t l, .woken t :: l <:+ a.history → Timely t l
  expired : ∀ s t l, .expired s t :: l <:+ a.history →
    stay t l = some (.waiting s (some 0) 0) ∨ Timely t l
  /-- Whoever was released is ready, in the order of the releases. -/
  freed : (freed a.history).Sublist a.ready

/-- A sleeper's alarm. -/
theorem Recorded.alarm (h : a.Recorded t x) (hd : a.drowsy t = none) {n k : Nat}
    (hx : x.alarm = some (n, k)) : ∃ d, (t, d) ∈ a.sleepers ∧ n = k + d := by
  have hf := h.fits
  cases x with
  | sleeping =>
    cases hx
    exact hf.2
  | waiting s timeout k' =>
    cases timeout with
    | none => cases hx
    | some n' =>
      cases hx
      rcases hf.2 with ⟨hd', -⟩ | h
      · cases hd.symm.trans hd'
      · exact h
  | free | released => cases hx

/-- Whoever is on the sleep list has a timeout. -/
theorem Recorded.asleep (h : a.Recorded t x) (hp : a.Places) {d : Nat} (hd : (t, d) ∈ a.sleepers)
    (hna : a.drowsy t = none) : ∃ n k, x.alarm = some (n, k) ∧ n = k + d := by
  have hasleep : t ∈ a.asleep := mem_asleep.mpr ⟨d, hd⟩
  have hf := h.fits
  cases x with
  | sleeping n k =>
    obtain ⟨-, d', hd', rfl⟩ := hf
    obtain rfl := hp.sleepers_unique hd hd'
    exact ⟨_, k, rfl, rfl⟩
  | waiting s timeout k =>
    cases timeout with
    | none => exact absurd hasleep hf.2.1
    | some n =>
      rcases hf.2 with ⟨hdrowsy, -⟩ | ⟨d', hd', rfl⟩
      · cases hna.symm.trans hdrowsy
      · obtain rfl := hp.sleepers_unique hd hd'
        exact ⟨_, k, rfl, rfl⟩
  | free => exact absurd hasleep hf.2
  | released => exact absurd hasleep hf.2.1

/-! ## 3. Ticks -/

theorem Records.recorded (h : a.Records) (hx : Os1Kernel.stay t a.history = some x)
    (hne : x ≠ .free) : t ∈ a.threads ∧ a.Recorded t x := by
  by_cases ht : t ∈ a.threads
  · obtain ⟨y, hy⟩ := h.threads t ht
    obtain rfl := Option.some.inj (hx.symm.trans hy.stay)
    exact ⟨ht, hy⟩
  · exact absurd (Option.some.inj (hx.symm.trans (h.strangers t ht))) hne

theorem Records.isSome (h : a.Records) (t : Tid) : (Os1Kernel.stay t a.history).isSome = true := by
  by_cases ht : t ∈ a.threads
  · obtain ⟨x, hx⟩ := h.threads t ht
    rw [hx.stay]
    rfl
  · rw [h.strangers t ht]
    rfl

/-- Who is due during a tick is on the sleep list with no ticks left. -/
theorem Records.due (h : a.Records) (hl : a.activity = .ticking) {n : Nat}
    (hx : Os1Kernel.stay t a.history = some x) (halarm : x.alarm = some (n, n)) :
    (t, 0) ∈ a.sleepers := by
  have hne : x ≠ .free := by
    rintro rfl
    cases halarm
  obtain ⟨d, hd, hn⟩ := (h.recorded hx hne).2.alarm (drowsy_none (by rw [hl]; rfl)) halarm
  obtain rfl : d = 0 := by omega
  exact hd

/-- The first sleeper is the one that has slept longest, of all who are due. -/
theorem Punctual.timely (h : a.Punctual) (hr : a.Records) (hl : a.activity = .ticking)
    {rest : List (Tid × Nat)} (hs : a.sleepers = (t, 0) :: rest) : Timely t a.history where
  tick := h.ticking hl
  first u hut x n hx halarm := by
    have hu := hr.due hl hx halarm
    have horder := h.order
    rw [hs] at hu horder
    obtain ⟨hfirst, -⟩ := List.pairwise_cons.mp horder
    rcases List.mem_cons.mp hu with he | hu
    · exact absurd (congrArg Prod.fst he) hut
    · exact hfirst _ hu rfl

/-! ## 4. Steps -/

/-- Whoever sleeps went to sleep in this order, if nobody else falls asleep. -/
theorem Punctual.older (h : a.Punctual) (es : List Event) (hh : b.history = es ++ a.history)
    (hes : ∀ e ∈ es, ∀ t n, e ≠ .slept t n) {l : List (Tid × Nat)} (hl : l.Sublist a.sleepers) :
    l.Pairwise fun p q => p.2 = q.2 → age q.1 b.history < age p.1 b.history := by
  have hage : ∀ t, age t b.history = age t a.history + es.length := fun t => by
    rw [hh]
    clear hh
    induction es with
    | nil => rfl
    | cons e es ih =>
      rw [List.forall_mem_cons] at hes
      rw [List.cons_append, age_cons (hes.1 t), ih hes.2, List.length_cons, Nat.add_assoc]
  refine (h.order.sublist hl).imp fun {p q} hlt he => ?_
  rw [hage, hage]
  exact Nat.add_lt_add_right (hlt he) _

/-- Who falls asleep does so behind those who wake at the same tick. -/
theorem Punctual.youngest (h : a.Punctual) (hi : a.Inv) {n : Nat} (hna : t ∉ a.asleep) :
    (DeltaList.insertBy t n a.sleepers).Pairwise fun p q =>
      p.2 = q.2 → age q.1 (.slept t n :: a.history) < age p.1 (.slept t n :: a.history) := by
  have hself : age t (.slept t n :: a.history) = 0 := if_pos rfl
  have hothers : ∀ u, u ≠ t → age u (.slept t n :: a.history) = age u a.history + 1 :=
    fun u hu => if_neg (Ne.symm hu)
  have hne : ∀ p ∈ a.sleepers, p.1 ≠ t := fun p hp he => hna (he ▸ List.mem_map_of_mem hp)
  refine DeltaList.insertBy_pairwise hi.ticks.sorted ?_ (fun p hp _ _ => ?_) fun p _ hlt he =>
    absurd he hlt.ne
  · refine h.order.imp_of_mem fun {p q} hp hq hlt he => ?_
    rw [hothers _ (hne p hp), hothers _ (hne q hq)]
    exact Nat.add_lt_add_right (hlt he) 1
  · rw [hself, hothers _ (hne p hp)]
    exact Nat.succ_pos _

/-- The first of the ready threads is chosen. -/
theorem freed_chosen {l : List Tid} (h : (freed a.history).Sublist l) (i : Tid) :
    (freed (.chosen (l.headD i) :: a.history)).Sublist l.tail := by
  cases l with
  | nil =>
    rw [List.sublist_nil] at h
    simp [Os1Kernel.freed, h]
  | cons t l =>
    have := h.erase t
    rwa [List.erase_cons_head] at this

/-- Whoever runs has not been released since it was chosen. -/
theorem Punctual.chosen (h : a.Punctual) (hi : a.Inv) : a.running ∉ Os1Kernel.freed a.history :=
  fun hm => hi.places.running_ready (h.freed.mem hm)

theorem Punctual.step (h : a.Punctual) (hr : a.Records) (hi : a.Inv) (hs : a.Step b) :
    b.Punctual := by
  have hs' := hs
  constructor
  · cases hs with
    | tick hb =>
      refine List.pairwise_map.mpr (h.order.imp_of_mem fun {p q} hp hq hlt he => ?_)
      have hpos := hi.ticks.pos (by simp [hb.activity])
      have := hpos p hp
      have := hpos q hq
      exact Nat.add_lt_add_right (hlt (by omega)) 1
    | fallAsleep hl => exact h.youngest hi (hi.places.leaving_awake _ _ hl)
    | expire | wake | grant =>
      exact h.older [_] rfl (by simp) List.filter_sublist
    | @release s m _ t =>
      exact h.older [m.event s t] rfl (by cases m <;> simp [UnblockManner.event])
        List.filter_sublist
    | timeoutZero =>
      exact h.older [_, _] rfl (by simp) List.filter_sublist
    | _ => first
      | exact h.order
      | exact h.older [_] rfl (by simp) (List.Sublist.refl _)
  · intro hact
    cases hs with
    | tick => exact ⟨[], _, rfl, by simp⟩
    | expire hl | wake hl =>
      obtain ⟨woken, before, he, hall⟩ := h.ticking hl
      exact ⟨_ :: woken, before, congrArg _ he,
        List.forall_mem_cons.mpr ⟨Option.some_ne_none _, hall⟩⟩
    | preempt h | tryFail h | putting h | allocate h | openSem h | init h | enlist h | finish h
      | acquire h | dead h | skip h | store h =>
      cases Eq.trans h.activity.symm hact
    | leave h | endWait h | write h | received h | putChar h | getChar h | noParent h
      | childLeaves h | release h =>
      cases Eq.trans h.symm hact
    | _ => cases hact
  · intro t l hl
    cases hs with
    | wake hact hfirst =>
      rcases List.suffix_cons_iff.mp hl with he | hl
      · cases he
        exact h.timely hr hact hfirst
      · exact h.woken t l hl
    | @release s m =>
      rcases List.suffix_cons_iff.mp hl with he | hl
      · cases m <;> cases he
      · exact h.woken t l hl
    | timeoutZero =>
      rcases List.suffix_cons_iff.mp hl with he | hl
      · cases he
      · rcases List.suffix_cons_iff.mp hl with he | hl
        · cases he
        · exact h.woken t l hl
    | _ => first
      | exact h.woken t l hl
      | exact h.woken t l ((List.suffix_cons_iff.mp hl).resolve_left fun he => by cases he)
  · intro s t l hl
    cases hs with
    | expire hact hfirst =>
      rcases List.suffix_cons_iff.mp hl with he | hl
      · cases he
        exact Or.inr (h.timely hr hact hfirst)
      · exact h.expired s t l hl
    | @release s m =>
      rcases List.suffix_cons_iff.mp hl with he | hl
      · cases m <;> cases he
      · exact h.expired _ t l hl
    | timeoutZero hact hb =>
      rcases List.suffix_cons_iff.mp hl with he | hl
      · cases he
      · rcases List.suffix_cons_iff.mp hl with he | hl
        · cases he
          obtain ⟨x, hx⟩ := hr.threads _ hi.alive.running_mem
          rcases hx.drowsy hi hact with ⟨rfl, hb'⟩ | ⟨s', rfl, hb'⟩
          · cases hb.symm.trans hb'
          · obtain rfl := Option.some.inj (hb.symm.trans hb')
            exact Or.inl hx.stay
        · exact h.expired s t l hl
    | _ => first
      | exact h.expired s t l hl
      | exact h.expired s t l ((List.suffix_cons_iff.mp hl).resolve_left fun he => by cases he)
  · cases hs with
    | expire | wake | grant => exact h.freed.append_right _
    | @release s m => cases m <;> exact h.freed.append_right _
    | switch => exact freed_chosen h.freed _
    | preempt =>
      refine freed_chosen (l := (a.pushReady a.running).ready) ?_ _
      rw [pushReady]
      split
      · exact h.freed
      · exact h.freed.trans (List.sublist_append_left _ _)
    | timeoutZero =>
      have hfreed : ((Os1Kernel.freed a.history ++ [a.running]).erase a.running).Sublist a.ready := by
        rw [List.erase_append_right _ (h.chosen hi), List.erase_cons_head, List.append_nil]
        exact h.freed
      exact hfreed
    | endWait =>
      have hfreed : ((Os1Kernel.freed a.history).erase a.running).Sublist a.ready := by
        rw [List.erase_of_not_mem (h.chosen hi)]
        exact h.freed
      exact hfreed
    | enlist =>
      refine h.freed.trans ?_
      show List.Sublist a.ready (if _ then _ else _)
      split
      · exact List.sublist_append_left _ _
      · exact List.Sublist.refl _
    | _ => exact h.freed

end Sys

end Os1Kernel
