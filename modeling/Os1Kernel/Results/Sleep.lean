/-
# Sleeping

The differences on the sleep list add up to the ticks that each sleeper still has to wait, whoever
joins or leaves the list, and no number on it wraps.  So `time_sleep` ends with its `n`-th tick,
and those whose time is over at one tick are made ready in the order in which they fell asleep.

The history has an event for every tick and for every thread that falls asleep, so "the ticks that
remain" can be said without looking at the list: the timeout, less the ticks since.  The invariants
`Records` and `Punctual` of the abstract system say that the deadline on the list is this number,
and that the list is ordered by it, and among equal ones by how long ago the threads fell asleep.

* `remaining`, `order`, `head`, `total` and `get` translate this to the differences in the `TCB`s,
  which add up to the deadlines.
* `put` is about the loop of `Sleep::put`, at any timeout: where it stops, and what is left of the
  timeout there.
* `slept` and `expired` are read off the history: the event that ends the sleep is there, and
  between the two events there were as many ticks as were asked for.
* `ready` says that the order of the awakenings is that of the ready list.
-/
import Os1Kernel.Results.CharBuffer
import Os1Kernel.Spec.Sleepers

namespace Os1Kernel

open Linked DeltaList

variable {k : Kernel} {a : Sys} {t : Tid} (raw : Tid → Message)
  (rawBuffer : BufferId → Vector UInt8 bufferLength)

/-! ## 1. The statement -/

/-- The sum of `timeSleepRelative` over the sleep list, up to and including a thread. -/
def Kernel.upTo (k : Kernel) (t : Tid) : Nat :=
  ((k.sleepList.takeWhile (· ≠ t)).map fun u => (k.tcb u).timeSleepRelative).sum +
    (k.tcb t).timeSleepRelative

/-- The timeout of a sleeper and the ticks since, by the history. -/
def Kernel.alarm (k : Kernel) (t : Tid) : Option (Nat × Nat) := (stay t k.history).bind Stay.alarm

/-- What the sleep list says about the time, and what the history says about the awakenings. -/
structure Kernel.SleepsExactly (k : Kernel) : Prop where
  /-- The differences up to a sleeper add up to the ticks that remain. -/
  remaining : ∀ t ∈ k.sleepList, ∃ n j, k.alarm t = some (n, j) ∧ j < n ∧ j + k.upTo t = n
  asleep : ∀ t n j, k.alarm t = some (n, j) → t ∈ k.sleepList
  away : ∀ t ∈ k.sleepList, k.running ≠ some t ∧ t ∉ k.readyList
  order : k.sleepList.Pairwise fun t u =>
    k.upTo t < k.upTo u ∨ k.upTo t = k.upTo u ∧ age u k.history < age t k.history
  head : ∀ t, k.sleepHead = some t → 1 ≤ (k.tcb t).timeSleepRelative
  /-- The loop of `Sleep::put` takes off the timeout what is due before, and the rest is less than
  what it is taken off. -/
  put : ∀ n < 2 ^ 64, ∀ t, k.sleepHead = some t → (k.tcb t).timeSleepRelative ≤ n →
    ∃ target rest, Sleep.advance (fun u => (k.tcb u).nextSleep)
        (fun u => (k.tcb u).timeSleepRelative) (k.IDCounter + 1) t
        (sub64 n (k.tcb t).timeSleepRelative) = some (target, rest) ∧
      target ∈ k.sleepList ∧ k.upTo target + rest = n ∧
      ∀ u, (k.tcb target).nextSleep = some u → rest < (k.tcb u).timeSleepRelative
  /-- `Sleep::get` of any sleepers adds up neighbouring differences. -/
  total : ∀ t ∈ k.sleepList, k.upTo t < 2 ^ 64
  get : ∀ t ∈ k.sleepList, ∀ u, (k.tcb t).nextSleep = some u →
    (k.tcb u).timeSleepRelative + (k.tcb t).timeSleepRelative < 2 ^ 64
  /-- `time_sleep(n)` ends with the `n`-th tick, and not before. -/
  slept : ∀ t n since before, k.history = since ++ .slept t n :: before →
    stay t before = some .free →
    (t ∈ k.sleepList ∧ since.countP Event.isTick < n ∧ ∀ e ∈ since, e.who ≠ some t) ∨
      ∃ later earlier, since = later ++ .woken t :: earlier ∧
        earlier.countP Event.isTick = n ∧ (∀ e ∈ earlier, e.who ≠ some t) ∧
        Timely t (earlier ++ .slept t n :: before)
  /-- So does a `timedWait` that nothing else has ended. -/
  expired : ∀ s t l, .expired s t :: l <:+ k.history →
    stay t l = some (.waiting s (some 0) 0) ∨ Timely t l
  /-- Who has been released is on the ready list, in this order, until it is chosen. -/
  ready : (freed k.history).Sublist k.readyList

/-! ## 2. The start -/

theorem consoleReady_stay (t : Tid) :
    stay t (Sys.consoleReady raw rawBuffer).history = some .free := by
  have hwho : ∀ e ∈ (Sys.consoleReady raw rawBuffer).history, e.who ≠ some t := fun e he => by
    rcases consoleReady_events raw rawBuffer e he with ⟨s, v, rfl⟩ | ⟨t, p, x, rfl⟩ <;> nofun
  have := Sys.stay_strangers (l := []) rfl hwho
  rwa [List.append_nil] at this

theorem consoleReady_records : (Sys.consoleReady raw rawBuffer).Records where
  threads t ht := by
    refine ⟨.free, consoleReady_stay raw rawBuffer t, ?_, (consoleReady_free raw rawBuffer t).1,
      List.not_mem_nil⟩
    rw [Sys.heading_code rfl, Sys.place_of_none rfl, consoleReady_waits raw rawBuffer ht]
    rfl
  strangers t _ := consoleReady_stay raw rawBuffer t
  manner _ _ h := nomatch h
  tokens t ht _ := by
    rw [consoleReady_threads] at ht
    simp only [List.mem_cons, List.not_mem_nil, or_false] at ht
    rcases ht with rfl | rfl
    · rw [consoleReady_master]
      rfl
    · rw [consoleReady_idle]
      rfl
  finished t ht _ _ := consoleReady_waits raw rawBuffer ht

theorem consoleReady_punctual : (Sys.consoleReady raw rawBuffer).Punctual where
  order := List.Pairwise.nil
  ticking h := nomatch h
  woken t l h := by
    rcases consoleReady_events raw rawBuffer _ (h.mem List.mem_cons_self) with
      ⟨s, v, he⟩ | ⟨u, p, x, he⟩ <;> cases he
  expired s t l h := by
    rcases consoleReady_events raw rawBuffer _ (h.mem List.mem_cons_self) with
      ⟨s, v, he⟩ | ⟨u, p, x, he⟩ <;> cases he
  freed := by
    rw [freed_eq_nil fun e he => ?_]
    · exact List.nil_sublist _
    · rcases consoleReady_events raw rawBuffer e he with ⟨s, v, rfl⟩ | ⟨t, p, x, rfl⟩ <;> rfl

/-! ## 3. The sleep list -/

variable {raw rawBuffer}

theorem Shows.upTo (h : Shows k a) {d : Nat} (hd : (t, d) ∈ a.sleepers) : k.upTo t = d := by
  obtain ⟨pre, post, hs⟩ := List.append_of_mem hd
  have hlist : k.sleepList = pre.map Prod.fst ++ t :: post.map Prod.fst := by
    rw [h.sleepList_eq, Sys.asleep, hs, List.map_append, List.map_cons]
  have hnd : (pre.map Prod.fst ++ t :: post.map Prod.fst).Nodup := by
    rw [← hlist, h.sleepList_eq]
    exact h.inv.places.asleep_nodup
  have hbefore : (pre.map Prod.fst ++ t :: post.map Prod.fst).takeWhile (· ≠ t) =
      pre.map Prod.fst := by
    rw [List.takeWhile_append_of_pos fun u hu => ?_, List.takeWhile_cons_of_neg (by simp),
      List.append_nil]
    simpa using (List.nodup_append.mp hnd).2.2 u hu t List.mem_cons_self
  have hsum := (hs ▸ h.rep.deltas).sum_eq
  rw [Kernel.upTo, hlist, hbefore, List.map_map]
  rw [Nat.zero_add] at hsum
  exact hsum

/-- The number on the sleep list is the sum of the differences. -/
theorem Shows.upTo_mem (h : Shows k a) (ht : t ∈ k.sleepList) : (t, k.upTo t) ∈ a.sleepers := by
  rw [h.sleepList_eq, Sys.mem_asleep] at ht
  obtain ⟨d, hd⟩ := ht
  rwa [h.upTo hd]

theorem Shows.sleepHead_cons (h : Shows k a) (ht : k.sleepHead = some t) :
    ∃ post, a.sleepers = (t, (k.tcb t).timeSleepRelative) :: post := by
  have hhead : k.sleepHead = a.sleepers.head?.map Prod.fst := by
    rw [h.rep.asleep.head, Sys.asleep, List.head?_map]
  have hdeltas := h.rep.deltas
  cases hs : a.sleepers with
  | nil =>
    rw [hhead, hs] at ht
    cases ht
  | cons p post =>
    rw [hhead, hs] at ht
    obtain rfl := Option.some.inj ht
    rw [hs] at hdeltas
    have hd : (k.tcb p.1).timeSleepRelative = p.2 := (Nat.zero_add _).symm.trans hdeltas.1
    exact ⟨post, by rw [hd]⟩

/-- Behind a sleeper. -/
theorem Shows.nextSleep_eq (h : Shows k a) {pre post : List (Tid × Nat)} {d : Nat}
    (hs : a.sleepers = pre ++ (t, d) :: post) :
    (k.tcb t).nextSleep = post.head?.map Prod.fst := by
  have hchain := h.rep.asleep
  rw [Sys.asleep, hs, List.map_append, List.map_cons] at hchain
  have := hchain.after.head
  rwa [List.head?_map] at this

/-- The distance between neighbours. -/
theorem Shows.distance (h : Shows k a) {pre post : List (Tid × Nat)} {u : Tid} {d e : Nat}
    (hs : a.sleepers = pre ++ (t, d) :: (u, e) :: post) :
    (k.tcb t).timeSleepRelative ≤ d ∧ d + (k.tcb u).timeSleepRelative = e := by
  have hdeltas := h.rep.deltas
  rw [hs] at hdeltas
  have hsum := hdeltas.sum_eq
  exact ⟨by simp only [Function.comp_apply] at hsum; omega, (deltas_append_cons.mp hdeltas).2.1⟩

theorem Reachable.sleepers (h : Reachable k) : ∃ a, Shows k a ∧ a.Records ∧ a.Punctual := by
  obtain ⟨raw, rawBuffer, a, hsteps, hshow⟩ := h.shows
  refine ⟨a, hshow, ?_⟩
  exact hsteps.invariant (P := fun a => a.Records ∧ a.Punctual)
    (fun hi h hs => ⟨h.1.step hi hs, h.2.step h.1 hi hs⟩) (consoleReady_inv raw rawBuffer)
    ⟨consoleReady_records raw rawBuffer, consoleReady_punctual raw rawBuffer⟩

/-- The sleep list of `k` is in order, and its numbers are those that `a` has. -/
theorem Shows.sleep_order (h : Shows k a) (hp : a.Punctual) : k.sleepList.Pairwise fun t u =>
    k.upTo t < k.upTo u ∨ k.upTo t = k.upTo u ∧ age u k.history < age t k.history := by
  rw [h.sleepList_eq, Sys.asleep, List.pairwise_map,
    show k.history = a.history from congrArg Core.history h.rep.core]
  refine (h.inv.ticks.sorted.and hp.order).imp_of_mem fun {p q} hp hq hle => ?_
  rw [h.upTo hp, h.upTo hq]
  rcases Nat.lt_or_eq_of_le hle.1 with hlt | heq
  · exact Or.inl hlt
  · exact Or.inr ⟨heq, hle.2 heq⟩

theorem Shows.sleep_put (h : Shows k a) {n : Nat} (hn : n < 2 ^ 64) (ht : k.sleepHead = some t)
    (hle : (k.tcb t).timeSleepRelative ≤ n) :
    ∃ target rest, Sleep.advance (fun u => (k.tcb u).nextSleep)
        (fun u => (k.tcb u).timeSleepRelative) (k.IDCounter + 1) t
        (sub64 n (k.tcb t).timeSleepRelative) = some (target, rest) ∧
      target ∈ k.sleepList ∧ k.upTo target + rest = n ∧
      ∀ u, (k.tcb target).nextSleep = some u → rest < (k.tcb u).timeSleepRelative := by
  have hchain := h.rep.asleep
  have hdeltas := h.rep.deltas
  have hlen := h.inv.asleep_length
  have hid : k.IDCounter = a.IDCounter := congrArg Core.IDCounter h.rep.core
  obtain ⟨post, hs⟩ := h.sleepHead_cons ht
  rw [Sys.asleep, hs, List.map_cons] at hchain hlen
  rw [hs] at hdeltas
  rw [List.length_cons, List.length_map] at hlen
  obtain ⟨pre, y, e, post', heq, -, he, hpost, hadv⟩ :=
    advance_eq hn hchain.2 hdeltas.2 hle (show post.length < k.IDCounter + 1 by omega)
  have hsplit : a.sleepers = pre ++ (y, e) :: post' := hs.trans heq
  have hy : (y, e) ∈ a.sleepers := hsplit ▸ by simp
  have hupTo := h.upTo hy
  refine ⟨y, n - e, ?_, ?_, by omega, fun u hu => ?_⟩
  · rw [sub64_of_le hle hn]
    exact hadv
  · rw [h.sleepList_eq]
    exact Sys.mem_asleep.mpr ⟨e, hy⟩
  · rw [h.nextSleep_eq hsplit] at hu
    cases post' with
    | nil => cases hu
    | cons q post' =>
      obtain rfl := Option.some.inj hu
      have := (h.distance hsplit).2
      have : n < q.2 := hpost q rfl
      omega

theorem Shows.sleep_get (h : Shows k a) (ht : t ∈ k.sleepList) {u : Tid}
    (hu : (k.tcb t).nextSleep = some u) :
    (k.tcb u).timeSleepRelative + (k.tcb t).timeSleepRelative < 2 ^ 64 := by
  obtain ⟨pre, post, hs⟩ := List.append_of_mem (h.upTo_mem ht)
  rw [h.nextSleep_eq hs] at hu
  cases post with
  | nil => cases hu
  | cons q post =>
    obtain rfl := Option.some.inj hu
    have hlt := h.inv.ticks.lt q (by simp [hs])
    have := h.distance hs
    omega

/-! ## 4. The result -/

/-- **The differences are the ticks that remain, and everybody wakes in time.**  In every reachable
state the sum of the differences up to a sleeper is its timeout less the ticks since it fell
asleep, and whoever has been woken was woken at the tick that its timeout named. -/
theorem sleeps_exactly (h : Reachable k) : k.SleepsExactly := by
  obtain ⟨a, hshow, hr, hp⟩ := h.sleepers
  have hi := hshow.inv
  have hhist : k.history = a.history := congrArg Core.history hshow.rep.core
  have hdrowsy : ∀ t, a.drowsy t = none := fun t =>
    Sys.drowsy_none (by rw [hshow.idle.activity]; rfl)
  have hnt : a.activity ≠ .ticking := by
    rw [hshow.idle.activity]
    nofun
  have hpos := hi.ticks.pos hnt
  constructor
  · intro t ht
    have hmem := hshow.upTo_mem ht
    have hasleep : t ∈ a.asleep := Sys.mem_asleep.mpr ⟨_, hmem⟩
    obtain ⟨x, hx⟩ := hr.threads t (hi.places.live t (Or.inr (Or.inr hasleep))).1
    obtain ⟨n, j, halarm, rfl⟩ := hx.asleep hi.places hmem (hdrowsy t)
    have := hpos _ hmem
    refine ⟨_, j, ?_, by omega, rfl⟩
    rw [Kernel.alarm, hhist, hx.stay]
    exact halarm
  · intro t n j halarm
    rw [Kernel.alarm, hhist] at halarm
    obtain ⟨x, hx, halarm⟩ := Option.bind_eq_some_iff.mp halarm
    have hne : x ≠ .free := by
      rintro rfl
      cases halarm
    obtain ⟨d, hd, -⟩ := (hr.recorded hx hne).2.alarm (hdrowsy t) halarm
    rw [hshow.sleepList_eq]
    exact Sys.mem_asleep.mpr ⟨d, hd⟩
  · intro t ht
    rw [hshow.sleepList_eq] at ht
    rw [hshow.rep.running, hshow.readyList_eq]
    refine ⟨?_, fun hready => (hi.places.ready_awake t hready).2 ht⟩
    rintro ⟨⟩
    exact (hi.places.running_free (Sys.not_leaving_of hshow.idle.activity rfl)).2 ht
  · exact hshow.sleep_order hp
  · intro t ht
    obtain ⟨post, hs⟩ := hshow.sleepHead_cons ht
    exact hpos _ (hs ▸ List.mem_cons_self)
  · exact fun n hn t ht hle => hshow.sleep_put hn ht hle
  · exact fun t ht => hi.ticks.lt _ (hshow.upTo_mem ht)
  · exact fun t ht u hu => hshow.sleep_get ht hu
  · intro t n since before he hfree
    rw [hhist] at he
    have hcases := stay_slept (he ▸ hr.isSome t) hfree
    rw [← he] at hcases
    rcases hcases with ⟨hx, hall⟩ | ⟨later, earlier, rfl, hcount, hall⟩
    · obtain ⟨-, hrec⟩ := hr.recorded hx nofun
      obtain ⟨-, d, hd, hn⟩ := hrec.fits
      have := hpos _ hd
      refine Or.inl ⟨?_, by omega, hall⟩
      rw [hshow.sleepList_eq]
      exact Sys.mem_asleep.mpr ⟨d, hd⟩
    · refine Or.inr ⟨later, earlier, rfl, hcount, hall, hp.woken t _ ⟨later, ?_⟩⟩
      rw [he, List.append_assoc, List.cons_append]
  · intro s t l hl
    rw [hhist] at hl
    exact hp.expired s t l hl
  · rw [hhist, hshow.readyList_eq]
    exact hp.freed

/-- Three threads sleep, two of them until the same tick. -/
def threeSleepers : List Act :=
  [.ecall (.timeSleep 2), .resume, .ecall (.timeSleep 3), .resume, .ecall (.timeSleep 2), .resume,
    .timer, .timer]

theorem sleeps_exactly_run : ∃ k, runFromZero threeSleepers = some k ∧ k.SleepsExactly := by
  obtain ⟨k₀, k, hboot, hrun, hk⟩ := exists_run threeSleepers (by decide +kernel)
  exact ⟨k, hk, sleeps_exactly ⟨_, _, k₀, threeSleepers, hboot, hrun⟩⟩

example : (runFromZero threeSleepers).any (fun k => k.readyList = [3] ∧ k.running = some 0 ∧
    k.sleepList = [2] ∧ k.upTo 2 = 1) = true := by decide +kernel

end Os1Kernel
