/-
# The shutdown uses semaphores that are gone

`main` deletes every semaphore first and every thread last, and the destructor of a `TCB` closes
its four semaphores.  So in every state from which the shutdown is run, `close` is called for
semaphores that `kSemaphoreDeleteAll` has deleted: those of `main` itself, if there are no others.

The proof follows the shutdown, and needs no more of it than this:

* a semaphore on the list of all semaphores is deleted in the first phase, and the log says so
  (`deleteSems_partially`);
* the second and the third phase end, and leave the list of all threads and their pointers to their
  semaphores alone (`Same`, `Frame`);
* the first thread on the list is destructed in the last phase, and the first thing that its
  destructor does is to close `semSend` (`threadDeleteAll_partially`).

The log only grows, so what happens afterwards cannot undo it.  It is not claimed that the shutdown
ends: the statement is that no shutdown that ends is a clean one.
-/
import Os1Kernel.Memory.Shutdown
import Os1Kernel.Refine.Orderly
import Os1Kernel.Results.Signal

namespace Os1Kernel

open Simulation MemoryManager

variable {k : Kernel} {a b : Sys} {c : Closing} {z : Addresses} {s : SemPtr} {t : Tid}

/-! ## 1. The sleepers and the ready threads -/

/-- `Sleep::wakeUpAll` ends. -/
theorem wakeAll_goes (n : Nat) (h : Well k a) (ha : a.activity = .none)
    (hn : a.asleep.length < n) :
    Goes (Closing.wakeAll n) k a fun _ b => b.activity = .none ∧ Frame a b := by
  induction n generalizing k a with
  | zero => cases hn
  | succ n ih =>
    cases hs : a.sleepers with
    | nil =>
      have hhead : k.sleepHead = none := by rw [h.rep.sleepHead_eq, hs]; rfl
      have hget : Sleep.get none k = some (none, k) := by
        simp [Sleep.get, Sleep.unlinkHead, hhead]
      exact Follows.bind_eq hget (Follows.pure h ⟨ha, .refl a⟩)
    | cons p rest =>
      obtain ⟨t, d⟩ := p
      refine Goes.run (h.orderly.awake t) (sleepGetHead_yields h.rep hs h.orderly.ticks.lt)
        fun k' h' => ?_
      refine (ih h' ha ?_).mono fun _ b hb => ⟨hb.1, Frame.trans ?_ hb.2⟩
      · have hm : t ∈ a.asleep := by simp [Sys.asleep, hs]
        have hle : (a.awake t).asleep.length = (a.asleep.filter fun u => u ≠ t).length :=
          congrArg List.length Sys.asleep_awake
        have hlt : (a.asleep.filter fun u => u ≠ t).length < a.asleep.length :=
          List.length_filter_lt_length_iff_exists.mpr ⟨t, hm, by simp⟩
        omega
      · exact { Frame.refl a with }

/-- `Scheduler::close` ends. -/
theorem closeReady_goes (n : Nat) (h : Well k a) (ha : a.activity = .none)
    (hn : a.ready.length < n) :
    Goes (Closing.closeReady n) k a fun _ b => b.activity = .none ∧ Frame a b := by
  induction n generalizing k a with
  | zero => cases hn
  | succ n ih =>
    refine Follows.bind_eq (getKernel_apply k) ?_
    have hhead : k.readyHead = a.ready.head? := h.rep.ready.chain.head
    rw [hhead]
    cases hr : a.ready with
    | nil => exact Follows.pure h ⟨ha, .refl a⟩
    | cons t rest =>
      refine Goes.run h.orderly.dropReady (schedulerGet_yields h.rep) fun k' h' => ?_
      refine (ih h' ha ?_).mono fun _ b hb => ⟨hb.1, Frame.trans ?_ hb.2⟩
      · rw [hr, List.length_cons] at hn
        show a.ready.tail.length < n
        rw [hr, List.tail_cons]
        omega
      · exact { Frame.refl a with }

namespace Closing

/-! ## 2. The semaphores -/

theorem ofKernel_eq {α : Type} {m : KernelM α} {x : α} {k' : Kernel}
    (h : m c.kernel = some (x, k')) : ofKernel m c = some (x, { c with kernel := k' }) := by
  rw [ofKernel, h]
  rfl

theorem free_partially (c : Closing) (p : Nat) :
    Partially (free p) c fun _ c' => c'.kernel = c.kernel ∧
      ∃ result, c'.log = .freed p result :: c.log := by
  rintro _ c' h
  simp only [free, bind_apply, Option.bind_eq_some_iff] at h
  obtain ⟨⟨result, c₁⟩, h₁, h₂⟩ := h
  obtain ⟨_, -, he⟩ := Option.map_eq_some_iff.mp h₁
  cases he
  cases h₂
  exact ⟨rfl, _, rfl⟩

/-- Neither the threads nor their pointers to their semaphores change. -/
structure Same (a b : Sys) : Prop where
  threads : b.threads = a.threads
  semSend : ∀ t, (b.thread t).semSend = (a.thread t).semSend

theorem Same.trans {d : Sys} (h : Same a b) (h' : Same b d) : Same a d :=
  ⟨h'.threads.trans h.threads, fun t => (h'.semSend t).trans (h.semSend t)⟩

theorem Same.of_frame (h : Frame a b) : Same a b :=
  ⟨h.threads, h.field Thread.semSend fun _ => rfl⟩

/-- What a phase of the kernel alone leads to. -/
theorem ofKernel_goes {m : KernelM Unit} (hm : Goes m c.kernel a fun _ b =>
    b.activity = .none ∧ Frame a b) :
    ∃ k' b, ofKernel m c = some ((), { c with kernel := k' }) ∧ Well k' b ∧
      b.activity = .none ∧ Frame a b := by
  obtain ⟨_, k', b, hk, -, hw, hb, hf⟩ := hm
  exact ⟨k', b, ofKernel_eq hk, hw, hb, hf⟩

/-- `close`, of a semaphore that is there or one that is gone. -/
theorem close_eq (h : Well c.kernel a) (ha : a.activity = .none) (s : SemPtr) :
    ∃ k' b, close s c = some ((), { c with kernel := k', log := .call s :: c.log }) ∧
      Well k' b ∧ b.activity = .none ∧ Frame a b := by
  obtain ⟨_, k', b, hk, -, hw, hb, hf⟩ := close_goes h ha s
  refine ⟨k', b, ?_, hw, hb, hf⟩
  simp [close, note, ofKernel, hk]

/-- Every semaphore of the list is deleted. -/
theorem deleteSems_partially (n : Nat) (h : Well c.kernel a) (ha : a.activity = .none) :
    Partially (deleteSems z n) c fun _ c' => ∃ b, Well c'.kernel b ∧ b.activity = .none ∧
      Same a b ∧ c.log ⊆ c'.log ∧ ∀ s ∈ a.sems, .deleteSem s ∈ c'.log := by
  induction n generalizing c a with
  | zero => exact .of_none rfl
  | succ n ih =>
    refine Partially.bind_eq (ofKernel_eq (getKernel_apply _)) ?_
    have hq := h.rep.sems
    cases hs : a.sems with
    | nil =>
      rw [hs] at hq
      have hhead : c.kernel.kSemsHead = none := hq.chain
      simp only [hhead]
      exact .of_eq rfl ⟨a, h, ha, .of_frame (.refl a), List.Subset.refl _, by simp⟩
    | cons s rest =>
      rw [hs] at hq
      have hhead : c.kernel.kSemsHead = some s := hq.chain.1
      simp only [hhead]
      refine Partially.bind_eq (ofKernel_eq (getSem_apply ..))
        (Partially.bind_eq (ofKernel_eq (modify_apply ..)) ?_)
      have hrep : Rep { c.kernel with
          kSemsHead := (c.kernel.sem s).nextSem
          kSemsTail := if (c.kernel.sem s).nextSem = none then none else c.kernel.kSemsTail }
          { a with sems := rest } := { h.rep with sems := hq.pop }
      have ho : Sys.Orderly { a with sems := rest } :=
        h.orderly.same (Sys.not_leaving_of ha rfl) rfl rfl rfl
          ⟨h.orderly.ticks.sorted, h.orderly.ticks.lt, h.orderly.ticks.pos, h.orderly.ticks.next⟩
          (fun _ => ⟨rfl, rfl⟩) rfl rfl rfl rfl
      -- behind `if (del->active) del->close()`
      have hrest : ∀ {c₁ : Closing} {b : Sys}, Well c₁.kernel b → b.activity = .none →
          Frame { a with sems := rest } b → c.log ⊆ c₁.log → Partially (do
            note (.deleteSem s)
            free (z.sem s)
            deleteSems z n) c₁ fun _ c' => ∃ b, Well c'.kernel b ∧ b.activity = .none ∧
              Same a b ∧ c.log ⊆ c'.log ∧ ∀ u ∈ s :: rest, .deleteSem u ∈ c'.log := by
        intro c₁ b hw hb hf hlog
        refine Partially.bind_eq rfl (Partially.bind (free_partially _ _) fun _ c₂ hc₂ => ?_)
        obtain ⟨hkernel, result, hlog₂⟩ := hc₂
        have hw₂ : Well c₂.kernel b := by
          rw [hkernel]
          exact hw
        refine (ih hw₂ hb).mono fun _ c' ⟨d, hd, hact, hsame, hsub, hall⟩ => ?_
        rw [hlog₂] at hsub
        have hsame' : Same a b := ⟨hf.threads, hf.field Thread.semSend fun _ => rfl⟩
        refine ⟨d, hd, hact, hsame'.trans hsame, fun e he => hsub (by simp [hlog he]), ?_⟩
        intro u hu
        rcases List.mem_cons.mp hu with rfl | hu
        · exact hsub (by simp)
        · exact hall u (hf.sems ▸ hu)
      split
      · obtain ⟨k', b, hclose, hw, hb, hf⟩ := close_eq (c := { c with kernel := _ })
          ⟨hrep, ho⟩ ha s
        exact Partially.bind_eq hclose (hrest hw hb hf (List.subset_cons_self _ _))
      · exact Partially.bind_eq rfl (hrest ⟨hrep, ho⟩ ha (.refl _) (List.Subset.refl _))

/-! ## 3. The threads -/

/-- Once an object that was gone was used, the log says so for ever. -/
theorem note_keeps (e : ClosingEvent) : Keeps (fun c => ¬ CallsLive c.log) (note e) := by
  intro c _ c' h hc
  cases hc
  cases e with
  | call | destruct => exact fun hl => h hl.2
  | deleteSem | deleteTCB | freed => exact h

theorem ofKernel_keeps {α : Type} (m : KernelM α) :
    Keeps (fun c => ¬ CallsLive c.log) (ofKernel m) := by
  intro c x c' h hc
  obtain ⟨_, -, he⟩ := Option.map_eq_some_iff.mp hc
  cases he
  exact h

theorem free_keeps (p : Nat) : Keeps (fun c => ¬ CallsLive c.log) (free p) := by
  intro c _ c' h hc
  obtain ⟨-, result, hlog⟩ := free_partially c p () c' hc
  rw [hlog]
  exact h

theorem closeIf_keeps (p : Option SemPtr) :
    Keeps (fun c => ¬ CallsLive c.log) (closeIf p) := by
  cases p with
  | none => exact .pure _
  | some s => exact .bind (note_keeps _) fun _ => .bind (ofKernel_keeps _) fun _ => .pure _

theorem destruct_keeps (t : Tid) : Keeps (fun c => ¬ CallsLive c.log) (destruct z t) := by
  refine .bind (note_keeps _) fun _ => .bind (ofKernel_keeps _) fun x => .bind ?_ fun _ =>
    .bind ?_ fun _ => .bind (ofKernel_keeps _) fun _ => .bind (closeIf_keeps _) fun _ =>
    .bind (closeIf_keeps _) fun _ => .bind (closeIf_keeps _) fun _ => closeIf_keeps _
  · split
    · exact free_keeps _
    · exact .pure _
  · split
    · exact free_keeps _
    · exact .pure _

theorem deleteTCBs_keeps (n : Nat) : Keeps (fun c => ¬ CallsLive c.log) (deleteTCBs z n) := by
  induction n with
  | zero => exact .failure
  | succ n ih =>
    refine .bind (ofKernel_keeps _) fun k => ?_
    cases k.TCBsHead with
    | none => exact .pure _
    | some del =>
      exact .bind (ofKernel_keeps _) fun _ => .bind (ofKernel_keeps _) fun _ =>
        .bind (destruct_keeps _) fun _ => .bind (note_keeps _) fun _ =>
        .bind (free_keeps _) fun _ => ih

/-- A stack is given back. -/
theorem freeIf_partially (b : Bool) (p : Nat) {e : ClosingEvent} (he : e ∈ c.log) :
    Partially (if b then free p else pure ()) c fun _ c' =>
      c'.kernel = c.kernel ∧ e ∈ c'.log := by
  cases b with
  | false => exact .of_eq rfl ⟨rfl, he⟩
  | true =>
    refine (free_partially c p).mono fun _ c' ⟨hk, result, hlog⟩ => ⟨hk, ?_⟩
    rw [hlog]
    exact List.mem_cons_of_mem _ he

/-- The destructor closes a semaphore that is gone. -/
theorem destruct_partially (hsem : (c.kernel.tcb t).semSend = some s)
    (hgone : .deleteSem s ∈ c.log) :
    Partially (destruct z t) c fun _ c' => ¬ CallsLive c'.log := by
  refine Partially.bind_eq rfl (Partially.bind_eq (ofKernel_eq (getTcb_apply ..)) ?_)
  refine Partially.bind (freeIf_partially _ _ (List.mem_cons_of_mem _ hgone))
    fun _ c₁ ⟨_, hlog₁⟩ => ?_
  refine Partially.bind (freeIf_partially _ _ hlog₁) fun _ c₂ ⟨_, hlog₂⟩ => ?_
  refine Partially.bind_eq (ofKernel_eq (setTcb_apply ..)) ?_
  rw [hsem]
  have hbad : Keeps (fun c => ¬ CallsLive c.log) (do
      let _ ← ofKernel (kSemaphore.close s)
      pure ()) := .bind (ofKernel_keeps _) fun _ => .pure _
  have hcall : ¬ CallsLive (.call s :: c₂.log) := fun h => h.1 hlog₂
  have hclose : ∀ {c₃ : Closing}, c₃.log = c₂.log →
      Partially (closeIf (some s)) c₃ fun _ c' => ¬ CallsLive c'.log := by
    intro c₃ hlog
    exact Partially.bind_eq rfl (hbad.partially (by rw [hlog]; exact hcall))
  refine Partially.bind (hclose rfl) fun _ c₄ h₄ => ?_
  exact (Keeps.bind (closeIf_keeps _) fun _ => .bind (closeIf_keeps _) fun _ =>
    closeIf_keeps _).partially h₄

theorem threadDeleteAll_partially (h : Well c.kernel a) (hne : a.threads ≠ [])
    (hgone : ∀ t ∈ a.threads, ∃ s, (a.thread t).semSend = some s ∧ .deleteSem s ∈ c.log) :
    Partially (threadDeleteAll z) c fun _ c' => ¬ CallsLive c'.log := by
  refine Partially.bind_eq (ofKernel_eq (fuel_apply _))
    (Partially.bind_eq (ofKernel_eq (getKernel_apply _)) ?_)
  obtain ⟨t, rest, ht⟩ := List.exists_cons_of_ne_nil hne
  have hq := h.rep.threads
  rw [ht] at hq
  have hhead : c.kernel.TCBsHead = some t := hq.chain.1
  simp only [hhead]
  obtain ⟨s, hs, hdel⟩ := hgone t (by simp [ht])
  have hsem : (c.kernel.tcb t).semSend = some s :=
    (congrArg Thread.semSend (h.rep.thread_apply t)).trans hs
  refine Partially.bind_eq (ofKernel_eq (getTcb_apply ..))
    (Partially.bind_eq (ofKernel_eq (modify_apply ..)) (Partially.bind
      (destruct_partially (s := s) hsem hdel) fun _ c₁ h₁ => ?_))
  exact (Keeps.bind (note_keeps _) fun _ => .bind (free_keeps _) fun _ =>
    deleteTCBs_keeps _).partially h₁

/-! ## 4. The shutdown -/

/-- Every shutdown that ends has used a semaphore that was gone. -/
theorem shutdown_partially (h : Sim k a) (ha : a.activity = .none) (heap : Heap) :
    Partially (shutdown z) ⟨⟨k, heap⟩, []⟩ fun _ c => ¬ CallsLive c.log := by
  have hw : Well k a := ⟨h.rep, h.inv.orderly ha⟩
  refine Partially.bind (Partially.bind_eq (ofKernel_eq (getKernel_apply _))
    (deleteSems_partially _ hw ha)) fun _ c₁ ⟨a₁, h₁, ha₁, hsame, _, hgone⟩ => ?_
  have hlen₁ := Nat.lt_succ_of_le (h₁.orderly.places.asleep_length h₁.orderly.threads_lt)
  obtain ⟨k₂, a₂, he₂, h₂, ha₂, hf₂⟩ := ofKernel_goes (c := c₁) (m := wakeUpAll)
    (Follows.bind_eq h₁.rep.fuel_apply (wakeAll_goes _ h₁ ha₁ hlen₁))
  have hlen₂ := Nat.lt_succ_of_le (h₂.orderly.places.ready_length h₂.orderly.threads_lt)
  obtain ⟨k₃, a₃, he₃, h₃, ha₃, hf₃⟩ := ofKernel_goes (c := { c₁ with kernel := k₂ })
    (m := closeScheduler) (Follows.bind_eq h₂.rep.fuel_apply (closeReady_goes _ h₂ ha₂ hlen₂))
  have hs := (hsame.trans (.of_frame hf₂)).trans (.of_frame hf₃)
  refine Partially.bind_eq he₂ (Partially.bind_eq he₃ (threadDeleteAll_partially h₃ ?_ ?_))
  · rw [hs.threads]
    exact List.ne_nil_of_mem h.inv.alive.running_mem
  · rw [hs.threads]
    intro t ht
    refine ⟨.send t, ?_, hgone _ (h.inv.names.own_mem t ht _ (by simp [SemPtr.own]))⟩
    rw [hs.semSend]
    exact (h.inv.names.pointers t ht).2.2.1

/-- **No shutdown is clean**, whatever the threads are doing and wherever the objects lie. -/
theorem shutdown_unclean (h : Reachable k) (z : Addresses) (heap : Heap) (c : Closing) :
    ¬ Clean z k heap c := by
  obtain ⟨_, _, a, -, hshow⟩ := h.shows
  exact fun hc => shutdown_partially hshow.toSim hshow.idle.activity heap () c hc.ends hc.live

/-- `main` opens a semaphore and waits for it, and the timer ticks until it is back. -/
def waitsOnce : List Act :=
  [.ecall (.semOpen 0 true), .ecall (.semTimedWait 22 1), .resume, .timer, .ecall .threadDispatch,
    .resume, .ecall .threadDispatch, .resume]

theorem shutdown_unclean_run : ∃ k, runFromZero waitsOnce = some k ∧
    ∀ z heap c, ¬ Clean z k heap c := by
  obtain ⟨k₀, k, hboot, hrun, hk⟩ := exists_run waitsOnce (by decide +kernel)
  exact ⟨k, hk, shutdown_unclean ⟨_, _, k₀, waitsOnce, hboot, hrun⟩⟩

/-! ## 5. The shutdown behind the boot -/

/-- The sizes on the machine: a `StackField` array of `DEFAULT_STACK_SIZE` words, and objects of
aligned fields. -/
def bootSizes : Sizes := { tcb := 592, stack := 8 * 4096, semaphore := 56 }

/-- Memory before anything was written to it. -/
def blankHeap : Heap := ⟨fun _ => ⟨none, none, 0⟩, fun _ => none⟩

/-- The shutdown that comes right behind the boot, with a heap of four megabytes. -/
def shutdownAtBoot : Option (Kernel × Addresses × Heap × Closing) :=
  (boot zeroMessage zeroBuffer).bind fun k =>
    (bootAllocate bootSizes 296 65536 4259840 blankHeap).bind fun p =>
      (shutdown p.1 ⟨⟨k, p.2⟩, []⟩).map fun q => (k, p.1, p.2, q.2)

/-- It ends, and every `kMemFree` returns 0; but `close` was called for semaphores that are gone,
and the segments of the two `CharBuffer`s are left. -/
theorem shutdown_unclean_boot : ∃ k z heap c, boot zeroMessage zeroBuffer = some k ∧
    bootAllocate bootSizes 296 65536 4259840 blankHeap = some (z, heap) ∧
    shutdown z ⟨⟨k, heap⟩, []⟩ = some ((), c) ∧
    ((frees c.log).map Prod.fst).Nodup ∧ (∀ f ∈ frees c.log, f.2 = 0) ∧
    ¬ CallsLive c.log ∧ c.heap.head .systemMemoryHead ≠ none ∧ ¬ Clean z k heap c := by
  have hrun : (shutdownAtBoot.map fun p : Kernel × Addresses × Heap × Closing => decide (((frees
      p.2.2.2.log).map Prod.fst).Nodup ∧ (∀ f ∈ frees p.2.2.2.log, f.2 = 0) ∧
      ¬ CallsLive p.2.2.2.log ∧ p.2.2.2.heap.head .systemMemoryHead ≠ none)) = some true := by
    decide +kernel
  obtain ⟨p, hp, hd⟩ := Option.map_eq_some_iff.mp hrun
  have hfacts := of_decide_eq_true hd
  rw [shutdownAtBoot, Option.bind_eq_some_iff] at hp
  obtain ⟨k, hk, hp⟩ := hp
  rw [Option.bind_eq_some_iff] at hp
  obtain ⟨⟨z, heap⟩, hz, hp⟩ := hp
  rw [Option.map_eq_some_iff] at hp
  obtain ⟨⟨_, c⟩, hc, hp⟩ := hp
  subst hp
  obtain ⟨honce, hzero, hlive, hleft⟩ := hfacts
  exact ⟨k, z, heap, c, hk, hz, hc, honce, hzero, hlive, hleft, fun h => hlive h.live⟩

end Closing

end Os1Kernel
