/-
# The sleep list

`Sleep::put`, `Sleep::get` and the countdown of `Sleep::onTick` act on the pointers and the
differences as `fallAsleep`, `awake` and the countdown of every deadline act on the sequence of the
sleepers.

The code stores differences, the abstract state stores how long everybody still sleeps.  The sum of
the differences up to a thread is its deadline (`Deltas`), and so

* the countdown, which the code does at the head only, lowers every deadline by one;
* `Sleep::get` adds the difference of the thread it takes out to the one behind it, and all
  deadlines of the others stay;
* `Sleep::put` looks for the first sleeper with a later deadline (`advance_eq` is its loop, by
  induction on the part of the list that has been passed), puts the thread before it with what is
  left of the timeout, and takes that from the difference of the one behind.

All deadlines are below `2 ^ 64`, which the lemmas take as a hypothesis and the invariant provides,
so nothing wraps.  Everything but the fields of `Sleep` stays as it is (`SleepOnly`).
-/
import Os1Kernel.Refine.Rep

namespace Os1Kernel

open Linked DeltaList Simulation

variable {c k : Kernel} {a : Sys} {t : Tid}

/-! ## 1. Updates that concern the sleep list alone -/

/-- Nothing but `Sleep`'s fields changes from `c` to `k`. -/
structure SleepOnly (c k : Kernel) : Prop where
  eq : k = { c with tcb := k.tcb, sleepHead := k.sleepHead }
  thread : TCB.toThread ∘ k.tcb = TCB.toThread ∘ c.tcb
  ready : TCB.nextReady ∘ k.tcb = TCB.nextReady ∘ c.tcb
  blocked : TCB.nextSemBlocked ∘ k.tcb = TCB.nextSemBlocked ∘ c.tcb
  next : TCB.nextTCB ∘ k.tcb = TCB.nextTCB ∘ c.tcb

theorem SleepOnly.refl : SleepOnly c c := ⟨rfl, rfl, rfl, rfl, rfl⟩

theorem SleepOnly.setTcb (h : SleepOnly c k) (t : Tid) (f : TCB → TCB)
    (hf : ∀ x, (f x).toThread = x.toThread ∧ (f x).nextReady = x.nextReady ∧
      (f x).nextSemBlocked = x.nextSemBlocked ∧ (f x).nextTCB = x.nextTCB) :
    SleepOnly c (k.setTcb t f) where
  eq := by
    obtain ⟨he, -⟩ := h
    rw [he]
    rfl
  thread := (comp_update_same _ (hf _).1).trans h.thread
  ready := (comp_update_same _ (hf _).2.1).trans h.ready
  blocked := (comp_update_same _ (hf _).2.2.1).trans h.blocked
  next := (comp_update_same _ (hf _).2.2.2).trans h.next

theorem SleepOnly.setHead (h : SleepOnly c k) (p : Option Tid) :
    SleepOnly c { k with sleepHead := p } := by
  refine ⟨?_, h.thread, h.ready, h.blocked, h.next⟩
  obtain ⟨he, -⟩ := h
  rw [he]

theorem Rep.resleep (h : Rep c a) (hk : SleepOnly c k) {sleepers : List (Tid × Nat)}
    (hasleep : Chain (TCB.nextSleep ∘ k.tcb) k.sleepHead (sleepers.map Prod.fst))
    (hdeltas : Deltas (TCB.timeSleepRelative ∘ k.tcb) 0 sleepers)
    (hsleeps : ∀ t, (TCB.sleeps ∘ k.tcb) t = true ↔ t ∈ sleepers.map Prod.fst)
    (hawake : ∀ t, t ∉ sleepers.map Prod.fst → (TCB.timeSleepRelative ∘ k.tcb) t = 0) :
    Rep k { a with sleepers := sleepers } := by
  obtain ⟨he, hthread, hready, hblocked, hnext⟩ := hk
  rw [he]
  exact
    { core := h.core
      running := h.running
      idle := h.idle
      thread := hthread.trans h.thread
      sem := h.sem
      ready := hready ▸ h.ready
      queue := hblocked ▸ h.queue
      asleep := hasleep
      deltas := hdeltas
      sleeps := hsleeps
      awake := hawake
      threads := hnext ▸ h.threads
      unlinked := hnext ▸ h.unlinked
      sems := h.sems }

/-! ## 2. The countdown

Between two ticks every deadline is at least one, since whoever was due has been woken up; hence
the decrement does not wrap. -/

/-- The first sleeper's difference goes down, and with it every deadline. -/
theorem Rep.countdown (h : Rep c a) (hlt : ∀ p ∈ a.sleepers, 1 ≤ p.2 ∧ p.2 < 2 ^ 64) {d : Nat}
    {rest : List (Tid × Nat)} (hs : a.sleepers = (t, d) :: rest) :
    Rep (c.setTcb t fun x => { x with timeSleepRelative := dec64 x.timeSleepRelative })
      { a with sleepers := a.sleepers.map fun p => (p.1, p.2 - 1) } := by
  have hdeltas := h.deltas
  rw [hs] at hdeltas
  have hrel : (c.tcb t).timeSleepRelative = d := by
    have := hdeltas.1
    rwa [Nat.zero_add] at this
  obtain ⟨hd, hdlt⟩ := hlt (t, d) (hs ▸ List.mem_cons_self)
  have hnd : t ∉ rest.map Prod.fst := by
    have := h.asleep.nodup
    rw [Sys.asleep, hs] at this
    exact (List.nodup_cons.mp this).1
  have hmap : (a.sleepers.map fun p => (p.1, p.2 - 1)).map Prod.fst = a.asleep := Sys.asleep_map
  have hdec : dec64 (c.tcb t).timeSleepRelative = (c.tcb t).timeSleepRelative - 1 :=
    dec64_of_pos (by omega) (by omega)
  refine h.resleep (SleepOnly.refl.setTcb t _ ?_) ?_ ?_ ?_ ?_
  · exact fun _ => ⟨rfl, rfl, rfl, rfl⟩
  · rw [comp_setTcb_same, hmap]
    · exact h.asleep
    · exact fun _ => rfl
  · rw [comp_setTcb, hdec, hs]
    exact hdeltas.tick hnd hd
  · rw [comp_setTcb_same, hmap]
    · exact h.sleeps
    · exact fun _ => rfl
  · intro u hu
    rw [hmap] at hu
    have hut : u ≠ t := by
      rintro rfl
      exact hu (by simp [Sys.asleep, hs])
    rw [comp_setTcb, Function.update_of_ne hut]
    exact h.awake u hu

/-! ## 3. `Sleep::get` -/

theorem addRelative_links (k : Kernel) (p : Option Tid) (d : Nat) :
    ∃ k', Sleep.addRelative p d k = some ((), k') ∧ (∀ c, SleepOnly c k → SleepOnly c k') ∧
      TCB.nextSleep ∘ k'.tcb = TCB.nextSleep ∘ k.tcb ∧ TCB.sleeps ∘ k'.tcb = TCB.sleeps ∘ k.tcb ∧
      k'.sleepHead = k.sleepHead ∧
      TCB.timeSleepRelative ∘ k'.tcb = (match p with
        | some y => Function.update (TCB.timeSleepRelative ∘ k.tcb) y
            (u64 ((TCB.timeSleepRelative ∘ k.tcb) y + d))
        | none => TCB.timeSleepRelative ∘ k.tcb) := by
  cases p with
  | none => exact ⟨k, rfl, fun _ h => h, rfl, rfl, rfl, rfl⟩
  | some y =>
    exact ⟨_, rfl, fun _ h => h.setTcb y _ fun _ => ⟨rfl, rfl, rfl, rfl⟩,
      comp_update_same _ rfl, comp_update_same _ rfl, rfl, Function.comp_update ..⟩

/-- Once a sleeper `t` is unlinked, its successor takes over its difference; then only its own
fields have to be cleared. -/
theorem addRelative_rep (h : Rep c a) {pre post : List (Tid × Nat)} {d : Nat}
    (hs : a.sleepers = pre ++ (t, d) :: post) (hlt : ∀ p ∈ a.sleepers, p.2 < 2 ^ 64)
    (hk : SleepOnly c k)
    (hchain : Chain (TCB.nextSleep ∘ k.tcb) k.sleepHead ((pre ++ post).map Prod.fst))
    (hsleeps : TCB.sleeps ∘ k.tcb = TCB.sleeps ∘ c.tcb)
    (hrel : TCB.timeSleepRelative ∘ k.tcb = TCB.timeSleepRelative ∘ c.tcb) :
    ∃ k', Sleep.addRelative (c.tcb t).nextSleep (c.tcb t).timeSleepRelative k = some ((), k') ∧
      Rep (k'.setTcb t fun x =>
        { x with timeSleepRelative := 0, sleeps := false, nextSleep := none }) (a.awake t) := by
  obtain ⟨k', hadd, honly, hnext', hsleeps', hhead', hrel'⟩ :=
    addRelative_links k (c.tcb t).nextSleep (c.tcb t).timeSleepRelative
  have hchainc := h.asleep
  have hdeltas := h.deltas
  rw [Sys.asleep, hs] at hchainc
  rw [hs] at hdeltas
  have hnd := hchainc.nodup
  have hnext : (c.tcb t).nextSleep = post.head?.map Prod.fst := by
    rw [List.map_append, List.map_cons] at hchainc
    have := hchainc.after.head
    rwa [List.head?_map] at this
  have hnot : t ∉ (pre ++ post).map Prod.fst := by
    rw [List.map_append, List.map_cons, List.nodup_append, List.nodup_cons] at hnd
    rw [List.map_append, List.mem_append]
    rintro (hm | hm)
    · exact hnd.2.2 t hm t List.mem_cons_self rfl
    · exact hnd.2.1.1 hm
  have hawake : a.sleepers.filter (fun p => p.1 ≠ t) = pre ++ post := by
    have hkeep : ∀ p ∈ pre ++ post, p.1 ≠ t := fun p hp he =>
      hnot (he ▸ List.mem_map_of_mem hp)
    rw [hs, List.filter_append, List.filter_cons_of_neg (by simp)]
    rw [List.filter_eq_self.mpr fun p hp => decide_eq_true (hkeep p (List.mem_append_left _ hp)),
      List.filter_eq_self.mpr fun p hp => decide_eq_true (hkeep p (List.mem_append_right _ hp))]
  -- the successor's new difference leads from the predecessor of `t` to the same deadline
  have hnew : Deltas (TCB.timeSleepRelative ∘ k'.tcb) 0 (pre ++ post) := by
    have he := hdeltas.erase hnd
    rw [hrel', hnext, hrel]
    cases post with
    | nil => exact he
    | cons q post =>
      have hq := (deltas_append_cons.mp hdeltas).2
      have hqd : d + (c.tcb q.1).timeSleepRelative = q.2 := hq.1
      have htd : 0 + (pre.map fun p => (TCB.timeSleepRelative ∘ c.tcb) p.1).sum +
        (c.tcb t).timeSleepRelative = d := hdeltas.sum_eq
      have hq64 : q.2 < 2 ^ 64 := hlt q (by simp [hs])
      show Deltas (Function.update _ q.1 (u64 ((c.tcb q.1).timeSleepRelative + _))) 0 _
      rw [u64_of_lt (by omega)]
      exact he
  refine ⟨k', hadd, ?_⟩
  show Rep _ { a with sleepers := a.sleepers.filter fun p => p.1 ≠ t }
  rw [hawake]
  refine h.resleep ((honly c hk).setTcb t _ ?_) ?_ ?_ ?_ ?_
  · exact fun _ => ⟨rfl, rfl, rfl, rfl⟩
  · rw [comp_setTcb, hnext']
    refine Chain.update hnot ?_
    show Chain _ k'.sleepHead _
    rwa [hhead']
  · rw [comp_setTcb]
    exact hnew.update hnot
  · intro u
    rw [comp_setTcb, hsleeps', hsleeps]
    by_cases hut : u = t
    · subst hut
      rw [Function.update_self]
      exact iff_of_false (by simp) hnot
    · rw [Function.update_of_ne hut, h.sleeps, Sys.asleep, hs]
      simp [hut]
  · intro u hu
    rw [comp_setTcb]
    by_cases hut : u = t
    · subst hut
      rw [Function.update_self]
    · rw [Function.update_of_ne hut, hrel']
      have hua : u ∉ a.asleep := by
        rw [Sys.asleep, hs]
        simpa [hut] using hu
      have hup : ∀ y ∈ (c.tcb t).nextSleep, u ≠ y := by
        rintro y hy rfl
        rw [hnext] at hy
        obtain ⟨q, hq, rfl⟩ := Option.map_eq_some_iff.mp hy
        exact hu (List.mem_map_of_mem (List.mem_append_right _ (List.mem_of_head? hq)))
      cases hy : (c.tcb t).nextSleep with
      | none =>
        rw [hrel]
        exact h.awake u hua
      | some y =>
        show Function.update _ _ _ _ = _
        rw [Function.update_of_ne (hup y hy), hrel]
        exact h.awake u hua

/-- `Sleep::get` without an argument wakes the first sleeper. -/
theorem sleepGetHead_yields (h : Rep c a) {d : Nat} {rest : List (Tid × Nat)}
    (hs : a.sleepers = (t, d) :: rest) (hlt : ∀ p ∈ a.sleepers, p.2 < 2 ^ 64) :
    Yields Rep (Sleep.get none) c (some t) (a.awake t) := by
  have hchain := h.asleep
  rw [Sys.asleep, hs] at hchain
  have hs' : a.sleepers = [] ++ (t, d) :: rest := hs
  obtain ⟨k', hadd, hrep⟩ := addRelative_rep h hs' hlt
    (SleepOnly.refl.setHead (c.tcb t).nextSleep) hchain.2 rfl rfl
  have hhead : c.sleepHead = some t := hchain.1
  have hunlink : Sleep.unlinkHead c = some (some t, k') := by
    simp [Sleep.unlinkHead, hhead, hadd]
  exact Yields.bind_eq hunlink (Yields.of_eq rfl hrep)

/-- `Sleep::get` of a sleeper: the search ends at it. -/
theorem sleepGet_yields (h : Rep c a) (ht : t ∈ a.asleep) (hlt : ∀ p ∈ a.sleepers, p.2 < 2 ^ 64)
    (hfuel : a.asleep.length ≤ a.IDCounter) :
    Yields Rep (Sleep.get (some t)) c (some t) (a.awake t) := by
  obtain ⟨⟨u, d⟩, hm, rfl⟩ := List.mem_map.mp ht
  obtain ⟨pre, post, hs⟩ := List.append_of_mem hm
  have hchain := h.asleep
  rw [Sys.asleep, hs, List.map_append, List.map_cons] at hchain
  have hnd := hchain.nodup
  have hnot : u ∉ pre.map Prod.fst := fun hu => by
    rw [List.nodup_append] at hnd
    exact hnd.2.2 u hu u List.mem_cons_self rfl
  have hn : c.IDCounter = a.IDCounter := congrArg Core.IDCounter h.core
  have hsearch : search (fun t => (c.tcb t).nextSleep) u (c.IDCounter + 1) none c.sleepHead =
      some ((pre.map Prod.fst).getLast?, some u) := by
    have hlen : (pre.map Prod.fst).length < c.IDCounter + 1 := by
      simp only [Sys.asleep, hs, List.length_map, List.length_append, List.length_cons] at hfuel ⊢
      omega
    exact (hchain.search_eq hnot hlen).trans (by rw [Option.or_none])
  have hsleeps : (c.tcb u).sleeps = true := (h.sleeps u).mpr ht
  rcases List.eq_nil_or_concat pre with rfl | ⟨pre, v, rfl⟩
  · obtain ⟨k', hadd, hrep⟩ := addRelative_rep h hs hlt
      (SleepOnly.refl.setHead (c.tcb u).nextSleep) hchain.2 rfl rfl
    have hunlink : Sleep.unlink u c = some (some u, k') := by
      simp [Sleep.unlink, hsleeps, hsearch, hadd]
    exact Yields.bind_eq hunlink (Yields.of_eq rfl hrep)
  · have hs' : a.sleepers = (pre ++ [v]) ++ (u, d) :: post := by rw [hs, List.concat_eq_append]
    have hkeep : SleepOnly c (c.setTcb v.1 fun x => { x with nextSleep := (c.tcb u).nextSleep }) := by
      refine SleepOnly.refl.setTcb v.1 _ ?_
      exact fun _ => ⟨rfl, rfl, rfl, rfl⟩
    have hnew : Chain (TCB.nextSleep ∘ (c.setTcb v.1 fun x =>
        { x with nextSleep := (c.tcb u).nextSleep }).tcb) c.sleepHead
        ((pre ++ [v] ++ post).map Prod.fst) := by
      have he := hchain.erase
      simp only [List.concat_eq_append, List.map_append, List.map_cons, List.map_nil,
        List.getLast?_append, List.getLast?_singleton, Option.some_or, List.append_eq_nil_iff,
        List.cons_ne_nil, and_false, if_false] at he
      rw [comp_setTcb, List.map_append, List.map_append]
      exact he
    obtain ⟨k', hadd, hrep⟩ := addRelative_rep h hs' hlt hkeep hnew
      (comp_update_same _ rfl) (comp_update_same _ rfl)
    have hunlink : Sleep.unlink u c = some (some u, k') := by
      rw [List.concat_eq_append, List.map_append] at hsearch
      simp [Sleep.unlink, hsleeps, hsearch, hadd]
    exact Yields.bind_eq hunlink (Yields.of_eq rfl hrep)

/-! ## 4. `Sleep::put`

There are three ways in which the thread can be linked in: before the first sleeper, between two of
them, and behind the last one.  `finishPut` is what they have in common. -/

/-- The loop of `Sleep::put` ends at the last sleeper whose deadline is not later than the new one,
with the distance to it. -/
theorem advance_eq {next : Tid → Option Tid} {rel : Tid → Nat} {n : Nat} (hn : n < 2 ^ 64)
    {post : List (Tid × Nat)} {z : Tid} {f fuel : Nat}
    (hchain : Chain next (next z) (post.map Prod.fst)) (hdeltas : Deltas rel f post) (hf : f ≤ n)
    (hfuel : post.length < fuel) :
    ∃ pre y e post', (z, f) :: post = pre ++ (y, e) :: post' ∧ (∀ p ∈ pre, p.2 ≤ n) ∧ e ≤ n ∧
      (∀ p ∈ post'.head?, n < p.2) ∧ Sleep.advance next rel fuel z (n - f) = some (y, n - e) := by
  induction post generalizing z f fuel with
  | nil =>
    have hnext : next z = none := hchain
    cases fuel with
    | zero => cases hfuel
    | succ fuel =>
      refine ⟨[], z, f, [], rfl, by simp, hf, by simp, ?_⟩
      rw [Sleep.advance, hnext]
  | cons p post ih =>
    obtain ⟨u, e⟩ := p
    obtain ⟨hnext, hchain⟩ := hchain
    obtain ⟨he, hdeltas⟩ := hdeltas
    have hnext : next z = some u := hnext
    cases fuel with
    | zero => cases hfuel
    | succ fuel =>
      rw [Sleep.advance, hnext]
      by_cases hle : rel u ≤ n - f
      · obtain ⟨pre, y, e', post', heq, hpre, he', hpost, hadv⟩ := ih hchain hdeltas
          (by omega) (Nat.lt_of_succ_lt_succ hfuel)
        refine ⟨(z, f) :: pre, y, e', post', by rw [heq, List.cons_append], ?_, he', hpost, ?_⟩
        · intro p hp
          rcases List.mem_cons.mp hp with rfl | hp
          · exact hf
          · exact hpre p hp
        · have hsub : sub64 (n - f) (rel u) = n - e := by
            rw [sub64_of_le hle (by omega)]
            omega
          show (if rel u ≤ n - f then _ else _) = _
          rw [if_pos hle, hsub]
          exact hadv
      · refine ⟨[], z, f, (u, e) :: post, rfl, by simp, hf, ?_, ?_⟩
        · intro p hp
          obtain rfl := Option.some.inj hp
          show n < e
          omega
        · exact if_neg hle

/-- What is left to do once the sleeper is linked in. -/
theorem finishPut (h : Rep c a) {n : Nat} (hk : SleepOnly c k)
    (hchain : Chain (TCB.nextSleep ∘ k.tcb) k.sleepHead ((insertBy t n a.sleepers).map Prod.fst))
    (hdeltas : Deltas (TCB.timeSleepRelative ∘ k.tcb) 0 (insertBy t n a.sleepers))
    (hsleeps : TCB.sleeps ∘ k.tcb = TCB.sleeps ∘ c.tcb)
    (hrel : ∀ u, u ≠ t → u ∉ a.asleep → (TCB.timeSleepRelative ∘ k.tcb) u = 0) :
    Yields Rep (do
      setTcb t fun x => { x with sleeps := true }
      Os1Kernel.emit (.slept t n)) k () ((a.fallAsleep t n).emit (.slept t n)) := by
  have hmem : ∀ u, u ∈ (insertBy t n a.sleepers).map Prod.fst ↔ u = t ∨ u ∈ a.asleep := by
    intro u
    rw [(insertBy_perm.map Prod.fst).mem_iff, List.map_cons, List.mem_cons]
    rfl
  refine Yields.bind_eq (setTcb_apply ..) (Yields.of_eq (emit_apply ..) (Rep.emit ?_ _))
  refine h.resleep (hk.setTcb t _ ?_) ?_ ?_ ?_ ?_
  · exact fun _ => ⟨rfl, rfl, rfl, rfl⟩
  · rw [comp_setTcb_same]
    · exact hchain
    · exact fun _ => rfl
  · rw [comp_setTcb_same]
    · exact hdeltas
    · exact fun _ => rfl
  · intro u
    rw [comp_setTcb, hsleeps, hmem]
    by_cases hut : u = t
    · subst hut
      simp
    · rw [Function.update_of_ne hut, h.sleeps]
      exact ⟨Or.inr, fun hu => hu.resolve_left hut⟩
  · intro u hu
    rw [hmem, not_or] at hu
    rw [comp_setTcb_same]
    · exact hrel u hu.1 hu.2
    · exact fun _ => rfl

/-- `Sleep::put` keeps the sleepers in the order of their deadlines. -/
theorem sleepPut_yields (h : Rep c a) {n : Nat} (hn : n < 2 ^ 64) (ht : t ∉ a.asleep)
    (hlt : ∀ p ∈ a.sleepers, p.2 < 2 ^ 64) (hfuel : a.asleep.length ≤ a.IDCounter) :
    Yields Rep (Sleep.put t n) c () ((a.fallAsleep t n).emit (.slept t n)) := by
  unfold Sleep.put
  refine Yields.bind_eq (getKernel_apply c) ?_
  have hchain := h.asleep
  have hdeltas := h.deltas
  cases hs : a.sleepers with
  | nil =>
    rw [Sys.asleep, hs] at hchain
    rw [show c.sleepHead = none from hchain]
    have hone : insertBy t n a.sleepers = [(t, n)] := by
      rw [hs]
      rfl
    have hk := (SleepOnly.refl.setTcb (c := c) t
      (fun x => { x with timeSleepRelative := n, nextSleep := none })
      fun _ => ⟨rfl, rfl, rfl, rfl⟩).setHead (some t)
    refine Yields.bind_eq rfl (finishPut h hk ?_ ?_ ?_ ?_)
    · dsimp only
      rw [comp_setTcb, hone]
      exact ⟨rfl, Function.update_self ..⟩
    · dsimp only
      rw [comp_setTcb, hone]
      refine ⟨?_, trivial⟩
      rw [Function.update_self, Nat.zero_add]
    · dsimp only
      rw [comp_setTcb_same]
      exact fun _ => rfl
    · intro u hut hu
      dsimp only
      rw [comp_setTcb, Function.update_of_ne hut]
      exact h.awake u hu
  | cons p rest =>
    obtain ⟨z, f⟩ := p
    rw [Sys.asleep, hs] at hchain
    rw [hs] at hdeltas
    have hz : (c.tcb z).timeSleepRelative = f := by
      have := hdeltas.1
      rwa [Nat.zero_add] at this
    have hflt : f < 2 ^ 64 := hlt (z, f) (hs ▸ List.mem_cons_self)
    have htz : t ∉ ((z, f) :: rest).map Prod.fst := by rwa [Sys.asleep, hs] at ht
    have hnd := hchain.nodup
    have hhead : c.sleepHead = some z := hchain.1
    rw [hhead]
    dsimp only
    rw [hz]
    by_cases hlt' : n < f
    · rw [if_pos hlt']
      have hins : insertBy t n a.sleepers = (t, n) :: (z, f) :: rest := by
        rw [hs]
        exact if_pos hlt'
      have hk := ((SleepOnly.refl.setTcb (c := c) z
        (fun x => { x with timeSleepRelative := sub64 x.timeSleepRelative n })
        fun _ => ⟨rfl, rfl, rfl, rfl⟩).setTcb t
        (fun x => { x with timeSleepRelative := n, nextSleep := some z })
        fun _ => ⟨rfl, rfl, rfl, rfl⟩).setHead (some t)
      refine Yields.bind_eq rfl (finishPut h hk ?_ ?_ ?_ ?_)
      · dsimp only
        rw [comp_setTcb, comp_setTcb_same, hins]
        · exact (hhead ▸ hchain).cons htz
        · exact fun _ => rfl
      · dsimp only
        rw [comp_setTcb, comp_setTcb, hins]
        have hsub : sub64 (c.tcb z).timeSleepRelative n = (c.tcb z).timeSleepRelative - n :=
          sub64_of_le (by omega) (by omega)
        dsimp only
        rw [hsub]
        exact hdeltas.insertHead htz (List.nodup_cons.mp hnd).1 (Nat.zero_add n) hlt'.le
      · dsimp only
        rw [comp_setTcb_same, comp_setTcb_same]
        · exact fun _ => rfl
        · exact fun _ => rfl
      · intro u hut hu
        dsimp only
        rw [comp_setTcb, comp_setTcb, Function.update_of_ne hut, Function.update_of_ne]
        · exact h.awake u hu
        · rintro rfl
          exact hu (by simp [Sys.asleep, hs])
    · rw [if_neg hlt', sub64_of_le (Nat.not_lt.mp hlt') hn]
      have hfuel' : rest.length < c.IDCounter + 1 := by
        rw [show c.IDCounter = a.IDCounter from congrArg Core.IDCounter h.core]
        simp only [Sys.asleep, hs, List.map_cons, List.length_cons, List.length_map] at hfuel
        omega
      obtain ⟨pre, y, e, post, heq, hpre, he, hpost, hadv⟩ :=
        advance_eq hn hchain.2 hdeltas.2 (Nat.not_lt.mp hlt') hfuel'
      rw [heq] at hdeltas htz hnd hchain
      have hy : y ∈ a.asleep := by simp [Sys.asleep, hs, heq]
      have hty : t ≠ y := fun e => ht (e ▸ hy)
      have hins : insertBy t n a.sleepers = pre ++ (y, e) :: (t, n) :: post := by
        have hpre' : ∀ p ∈ pre ++ [(y, e)], p.2 ≤ n := by
          intro p hp
          rcases List.mem_append.mp hp with hp | hp
          · exact hpre p hp
          · obtain rfl := List.mem_singleton.mp hp
            exact he
        have := insertBy_append (x := t) hpre' hpost
        simp only [List.append_assoc, List.cons_append, List.nil_append] at this
        rw [hs, heq, this]
      rw [List.map_append, List.map_cons] at hchain
      have hafter : (c.tcb y).nextSleep = post.head?.map Prod.fst := by
        have := hchain.after.head
        rwa [List.head?_map] at this
      have hlinks : Chain (Function.update (Function.update (TCB.nextSleep ∘ c.tcb) t
          (c.tcb y).nextSleep) y (some t)) (some z) ((insertBy t n a.sleepers).map Prod.fst) := by
        rw [hins]
        simp only [List.map_append, List.map_cons] at htz ⊢
        exact (hhead ▸ hchain).insertAfter htz
      have hadv' : Sleep.advance (fun t => (c.tcb t).nextSleep)
          (fun t => (c.tcb t).timeSleepRelative) (c.IDCounter + 1) z (n - f) = some (y, n - e) :=
        hadv
      cases post with
      | nil =>
        have hk := (SleepOnly.refl.setTcb (c := c) t
          (fun x => { x with timeSleepRelative := n - e, nextSleep := (c.tcb y).nextSleep })
          fun _ => ⟨rfl, rfl, rfl, rfl⟩).setTcb y (fun x => { x with nextSleep := some t })
          fun _ => ⟨rfl, rfl, rfl, rfl⟩
        have hrel : TCB.timeSleepRelative ∘ ((c.setTcb t fun x =>
            { x with timeSleepRelative := n - e, nextSleep := (c.tcb y).nextSleep }).setTcb y
            fun x => { x with nextSleep := some t }).tcb =
            Function.update (TCB.timeSleepRelative ∘ c.tcb) t (n - e) := by
          rw [comp_setTcb_same, comp_setTcb]
          exact fun _ => rfl
        refine Yields.bind_eq (x := ()) ?_ (finishPut h hk ?_ ?_ ?_ ?_)
        · simp [hadv', hafter]
        · rw [comp_setTcb, comp_setTcb]
          exact hhead ▸ hlinks
        · rw [hrel, hins]
          exact hdeltas.insertLast htz (by omega)
        · rw [comp_setTcb_same, comp_setTcb_same]
          · exact fun _ => rfl
          · exact fun _ => rfl
        · intro u hut hu
          rw [hrel, Function.update_of_ne hut]
          exact h.awake u hu
      | cons q post =>
        obtain ⟨v, g⟩ := q
        have hv : v ∈ a.asleep := by simp [Sys.asleep, hs, heq]
        have htv : t ≠ v := fun e => ht (e ▸ hv)
        have hng : n < g := hpost (v, g) rfl
        have hvrel : e + (c.tcb v).timeSleepRelative = g := (deltas_append_cons.mp hdeltas).2.1
        have hglt : g < 2 ^ 64 := hlt (v, g) (by simp [hs, heq])
        have hsub : sub64 (c.tcb v).timeSleepRelative (n - e) =
            (c.tcb v).timeSleepRelative - (n - e) := sub64_of_le (by omega) (by omega)
        have hk := ((SleepOnly.refl.setTcb (c := c) v
          (fun x => { x with timeSleepRelative := sub64 x.timeSleepRelative (n - e) })
          fun _ => ⟨rfl, rfl, rfl, rfl⟩).setTcb t
          (fun x => { x with timeSleepRelative := n - e, nextSleep := (c.tcb y).nextSleep })
          fun _ => ⟨rfl, rfl, rfl, rfl⟩).setTcb y (fun x => { x with nextSleep := some t })
          fun _ => ⟨rfl, rfl, rfl, rfl⟩
        have hrel : TCB.timeSleepRelative ∘ (((c.setTcb v fun x =>
            { x with timeSleepRelative := sub64 x.timeSleepRelative (n - e) }).setTcb t fun x =>
            { x with timeSleepRelative := n - e, nextSleep := (c.tcb y).nextSleep }).setTcb y
            fun x => { x with nextSleep := some t }).tcb =
            Function.update (Function.update (TCB.timeSleepRelative ∘ c.tcb) v
              ((TCB.timeSleepRelative ∘ c.tcb) v - (n - e))) t (n - e) := by
          rw [comp_setTcb_same, comp_setTcb, comp_setTcb]
          · dsimp only
            rw [hsub]
            rfl
          · exact fun _ => rfl
        refine Yields.bind_eq (x := ()) ?_ (finishPut h hk ?_ ?_ ?_ ?_)
        · simp [hadv', hafter]
        · rw [comp_setTcb, comp_setTcb, comp_setTcb_same]
          · exact hhead ▸ hlinks
          · exact fun _ => rfl
        · rw [hrel, hins]
          exact hdeltas.insert htz hnd (by omega) (by omega)
        · rw [comp_setTcb_same, comp_setTcb_same, comp_setTcb_same]
          · exact fun _ => rfl
          · exact fun _ => rfl
          · exact fun _ => rfl
        · intro u hut hu
          rw [hrel, Function.update_of_ne hut, Function.update_of_ne]
          · exact h.awake u hu
          · rintro rfl
            exact hu hv

end Os1Kernel
