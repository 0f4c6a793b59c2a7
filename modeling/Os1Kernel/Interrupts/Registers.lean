/-
# The registers across traps and context switches

The two assembly routines, `supervisorTrap` (`kernel_asm.S`) and `contextSwitch` (`tcb_asm.S`),
instruction by instruction, and around them any code: what a thread does in its body, and what the
compiled functions of the kernel do, is left open but for the calling convention.  A compiled
function moves `sp` only at its start and its end, saves there what it changes of the registers
that it must give back, and no code stores over a doubleword where a register is saved.

A thread is a stack of frames in its own memory.  Each frame of the model notes the registers as
they were when it was made, which nothing reads before the theorems do.

**What is proved.**  A trap gives every register back as it was (`trap_returns`), and so does a
call of `contextSwitch`, as far as the calling convention asks for it (`contextSwitch_returns`):
for the thread that makes the call, whichever thread it switches to, itself included.

**The invariant** (`Inv`) is the same for the thread that runs and for those that do not: the
frames of a thread lie below each other on its stack, and each of them holds, in memory, the
registers that it has saved (`SavedFrame.Intact`, `Stacked`).  For a thread that does not run, its
`context` has the rest (`Parked`).  A store keeps it because it is to no such address.

**Assumed.**  No stack overflows: a frame is pushed only where there is room for it (`HasRoom`),
and an overflowing stack would write into memory that is not its own.
-/
import Os1Kernel.Lib.Run
import Os1Kernel.Lib.Rv64

namespace Os1Kernel.Registers

open Run Rv64

/-! ## 1. The code

The rows of stores and of loads in the two routines, as slots: which register goes to which offset.
-/

/-- `sd x\index, \index * 8(sp)` for 0 to 9, and `sd x\index, (\index-2) * 8(sp)` for 12 to 31. -/
def trapSlots : Slots :=
  ([0, 1, 2, 3, 4, 5, 6, 7, 8, 9].map fun index => (index, .ofNat 64 (index.toNat * 8))) ++
    ([12, 13, 14, 15, 16, 17, 18, 19, 20, 21, 22, 23, 24, 25, 26, 27, 28, 29, 30, 31].map
      fun index => (index, .ofNat 64 ((index.toNat - 2) * 8)))

/-- The frame of `supervisorTrap`. -/
def trapShape : FrameShape where
  size := 240
  slots := trapSlots
  regs_nodup := by decide
  offsets_nodup := by decide
  inside := Slots.forall_of_all (by decide)

theorem mem_trapShape : ∀ r, r ≠ a0 → r ≠ a1 → r ∈ trapShape.slots.regs := by decide

/-- `Context`: `ra`, `sp` and `s`. -/
def contextSlots : Slots :=
  (ra, 0 * 8) :: (sp, 1 * 8) ::
    sreg.zipIdx.map fun p => (p.1, .ofNat 64 ((p.2 + 2) * 8))

/-- `contextSwitch`, with `oldContext` in `a0` and `newContext` in `a1`. -/
def contextSwitch : List Instr := saveAll a0 contextSlots ++ loadAll a1 contextSlots

theorem contextSlots_regs : contextSlots.regs = calleeSaved := by decide

theorem contextSlots_regs_nodup : contextSlots.regs.Nodup := by decide

theorem contextSlots_offsets_nodup : contextSlots.offsets.Nodup := by decide

/-! ## 2. The threads

What code may do is what the calling convention lets it do.  A frame is the piece of stack that a
trap or a compiled function has made, and code may return from the innermost one only. -/

/-- What an address belongs to. -/
inductive Place (T : Type)
  | stack (t : T)
  | context (t : T)
  | other
  deriving DecidableEq

/-- Where the stacks and the `Context`s of the threads are.  They are parts of memory blocks that
do not overlap. -/
structure Layout (T : Type) where
  /-- `userStack`, and `&userStack[DEFAULT_STACK_SIZE]`; for the master, the stack of `main`. -/
  userStack : T → Rv64.Word
  userSP : T → Rv64.Word
  context : T → Rv64.Word
  /-- `&threadWrapper` -/
  threadWrapper : Rv64.Word
  place : Rv64.Word → Place T
  userStack_le : ∀ t, userStack t ≤ userSP t
  place_stack : ∀ t a, userStack t ≤ a → a < userSP t → place a = .stack t
  place_context : ∀ t, ∀ p ∈ contextSlots, place (context t + p.2) = .context t

inductive FrameKind
  | trap
  | call
  deriving DecidableEq

structure SavedFrame where
  kind : FrameKind
  shape : FrameShape
  /-- The registers when the frame was made. -/
  entry : Reg → Rv64.Word

namespace SavedFrame

/-- `sp` below the frame. -/
def base (f : SavedFrame) : Rv64.Word := f.entry sp - f.shape.size

/-- Where registers are saved. -/
def addresses (f : SavedFrame) : List Rv64.Word := f.shape.slots.map fun p => f.base + p.2

end SavedFrame

inductive ThreadState
  /-- Not created yet. -/
  | absent
  /-- Created, and not run yet. -/
  | fresh
  /-- The innermost frame first. -/
  | running (frames : List SavedFrame)
  /-- In `contextSwitch`, called with these registers. -/
  | suspended (frames : List SavedFrame) (regs : Reg → Rv64.Word)

def ThreadState.frames : ThreadState → List SavedFrame
  | .absent | .fresh => []
  | .running frames | .suspended frames _ => frames

/-- All addresses where a thread's frames keep registers. -/
def savedAt (frames : List SavedFrame) : List Rv64.Word := frames.flatMap SavedFrame.addresses

structure RegState (T : Type) where
  hart : Rv64.State
  running : T
  thread : T → ThreadState

inductive RegAct (T : Type)
  /-- An instruction that writes a register. -/
  | write (rd : Reg) (v : Rv64.Word)
  /-- An instruction that writes memory. -/
  | store (a v : Rv64.Word)
  /-- Trap entry, and the first half of `supervisorTrap`. -/
  | trap
  /-- The second half, and `sret`. -/
  | trapReturn
  /-- A call of a compiled function, with its return address, and the function's start. -/
  | call (shape : FrameShape) (ret : Rv64.Word)
  /-- The end of a compiled function. -/
  | ret
  /-- `contextSwitch(&old->context, &running->context)` in `TCB::yield`. -/
  | contextSwitch (t : T) (ret : Rv64.Word)
  /-- The constructor's `context({(uint64)&threadWrapper, sps.userSP, { 0 }})`. -/
  | threadCreate (t : T)

variable {T : Type} [DecidableEq T]

/-- The code that runs on top of these frames may write the register: a thread's body any, as long
as `sp` stays in its stack, and a compiled function those that it need not give back or has
saved. -/
def MayWrite (L : Layout T) (t : T) (rd : Reg) (v : Rv64.Word) : List SavedFrame → Prop
  | [] => rd = sp → L.userStack t ≤ v ∧ v ≤ L.userSP t
  | f :: _ => f.kind = .call ∧ rd ≠ sp ∧ (rd ∈ calleeSaved → rd ∈ f.shape.slots.regs)

/-- It may call: the return address is lost to the caller. -/
def MayCall : List SavedFrame → Prop
  | [] => True
  | f :: _ => ra ∈ f.shape.slots.regs

instance (L : Layout T) (t : T) (rd : Reg) (v : Rv64.Word) :
    ∀ frames, Decidable (MayWrite L t rd v frames)
  | [] => inferInstanceAs (Decidable (_ → _))
  | _ :: _ => inferInstanceAs (Decidable (_ ∧ _))

instance : ∀ frames, Decidable (MayCall frames)
  | [] => isTrue trivial
  | f :: _ => inferInstanceAs (Decidable (ra ∈ f.shape.slots.regs))

/-- The stack has room for a frame. -/
def HasRoom (L : Layout T) (t : T) (sp size : Rv64.Word) : Prop :=
  size ≤ sp ∧ L.userStack t ≤ sp - size

instance (L : Layout T) (t : T) (sp size : Rv64.Word) : Decidable (HasRoom L t sp size) :=
  inferInstanceAs (Decidable (_ ∧ _))

/-- What the constructor stores in `context`. -/
def initialContext (L : Layout T) (t : T) (r : Reg) : Rv64.Word :=
  if r = ra then L.threadWrapper else if r = sp then L.userSP t else 0

namespace RegState

def setThread (s : RegState T) (t : T) (x : ThreadState) : RegState T :=
  { s with thread := Function.update s.thread t x }

def frames (s : RegState T) (t : T) : List SavedFrame := (s.thread t).frames

/-- The start of a frame. -/
def push (s : RegState T) (kind : FrameKind) (shape : FrameShape) : RegState T :=
  { s with
    hart := s.hart.execAll (prologue shape.size shape.slots)
    thread := Function.update s.thread s.running
      (.running (⟨kind, shape, s.hart.get⟩ :: s.frames s.running)) }

/-- The end of a frame. -/
def pop (s : RegState T) (f : SavedFrame) (frames : List SavedFrame) : RegState T :=
  { s with
    hart := s.hart.execAll (epilogue f.shape.size f.shape.slots)
    thread := Function.update s.thread s.running (.running frames) }

/-- Whether code may store at the address. -/
def mayStore (L : Layout T) (s : RegState T) (a : Rv64.Word) : Bool :=
  match L.place a with
  | .stack t => a ∉ savedAt (s.frames t)
  | .context _ => false
  | .other => true

/-- The hart at the call of `contextSwitch`. -/
def switchRegs (L : Layout T) (s : RegState T) (t : T) (ret : Rv64.Word) : Rv64.State :=
  ((s.hart.set ra ret).set a0 (L.context s.running)).set a1 (L.context t)

/-- The running thread is in `contextSwitch`. -/
def suspend (L : Layout T) (s : RegState T) (t : T) (ret : Rv64.Word) : RegState T :=
  { s with
    hart := (s.switchRegs L t ret).execAll contextSwitch
    thread := Function.update s.thread s.running
      (.suspended (s.frames s.running) (s.switchRegs L t ret).get) }

def step (L : Layout T) (s : RegState T) : RegAct T → Option (RegState T)
  | .write rd v =>
    if MayWrite L s.running rd v (s.frames s.running) then
      some { s with hart := s.hart.set rd v }
    else none
  | .store a v =>
    if s.mayStore L a then some { s with hart := s.hart.store a v } else none
  | .trap =>
    if HasRoom L s.running (s.hart.get sp) trapShape.size then some (s.push .trap trapShape)
    else none
  | .trapReturn =>
    match s.frames s.running with
    | f :: frames => if f.kind = .trap then some (s.pop f frames) else none
    | [] => none
  | .call shape ret =>
    if MayCall (s.frames s.running) ∧ HasRoom L s.running (s.hart.get sp) shape.size then
      some ({ s with hart := s.hart.set ra ret }.push .call shape)
    else none
  | .ret =>
    match s.frames s.running with
    | f :: frames => if f.kind = .call then some (s.pop f frames) else none
    | [] => none
  | .contextSwitch t ret =>
    if MayCall (s.frames s.running) then
      let s' := s.suspend L t ret
      match s'.thread t with
      | .fresh => some { s'.setThread t (.running []) with running := t }
      | .suspended frames _ => some { s'.setThread t (.running frames) with running := t }
      | .absent | .running _ => none
    else none
  | .threadCreate t =>
    match s.thread t with
    | .absent =>
      some { s.setThread t .fresh with
        hart := { s.hart with
          mem := writeAll s.hart.mem (L.context t) (initialContext L t) contextSlots } }
    | _ => none

/-- The thread `master` runs, and there is no other. -/
def start (hart : Rv64.State) (master : T) : RegState T where
  hart := hart
  running := master
  thread := Function.update (fun _ => .absent) master (.running [])

end RegState

/-! ## 3. What the frames of a thread keep -/

/-- A frame, seen from the code above it: the registers are in their slots, and those that a
function must give back and has not saved are as they were. -/
structure SavedFrame.Intact (f : SavedFrame) (L : Layout T) (t : T) (mem : Rv64.Word → Rv64.Word)
    (regs : Reg → Rv64.Word) : Prop where
  sp_eq : regs sp = f.base
  size_le : f.shape.size ≤ f.entry sp
  userStack_le : L.userStack t ≤ f.base
  saved : ∀ p ∈ f.shape.slots, mem (f.base + p.2) = if p.1 = sp then f.base else f.entry p.1
  kept : ∀ r ∈ calleeSaved, r ≠ sp → r ∉ f.shape.slots.regs → regs r = f.entry r

/-- The frames of a thread, with the registers of the code above them. -/
def Stacked (L : Layout T) (t : T) (mem : Rv64.Word → Rv64.Word) :
    List SavedFrame → (Reg → Rv64.Word) → Prop
  | [], regs => L.userStack t ≤ regs sp ∧ regs sp ≤ L.userSP t
  | f :: frames, regs => f.Intact L t mem regs ∧ Stacked L t mem frames f.entry

section

variable {L : Layout T} {t : T} {mem mem' : Rv64.Word → Rv64.Word} {f : SavedFrame}
  {frames : List SavedFrame} {regs regs' : Reg → Rv64.Word} {a : Rv64.Word}

omit [DecidableEq T]

theorem SavedFrame.Intact.base_le (h : f.Intact L t mem regs) : f.base ≤ f.entry sp := by
  have := h.size_le
  unfold SavedFrame.base
  bv_omega

theorem SavedFrame.Intact.le_of_mem (h : f.Intact L t mem regs) (ha : a ∈ f.addresses) :
    f.base ≤ a ∧ a < f.entry sp := by
  obtain ⟨p, hp, rfl⟩ := List.mem_map.mp ha
  have hsize := h.size_le
  have hinside := f.shape.inside p hp
  unfold SavedFrame.base
  bv_omega

theorem Stacked.sp_le (h : Stacked L t mem frames regs) : regs sp ≤ L.userSP t := by
  induction frames generalizing regs with
  | nil => exact h.2
  | cons f frames ih =>
    obtain ⟨hf, hrest⟩ := h
    exact hf.sp_eq ▸ BitVec.le_trans hf.base_le (ih hrest)

theorem Stacked.userStack_le (h : Stacked L t mem frames regs) : L.userStack t ≤ regs sp := by
  cases frames with
  | nil => exact h.1
  | cons f frames => exact h.1.sp_eq ▸ h.1.userStack_le

/-- The frames are in the thread's stack, above `sp`. -/
theorem Stacked.le_of_mem (h : Stacked L t mem frames regs) (ha : a ∈ savedAt frames) :
    regs sp ≤ a ∧ a < L.userSP t := by
  induction frames generalizing regs with
  | nil => cases ha
  | cons f frames ih =>
    obtain ⟨hf, hrest⟩ := h
    rw [savedAt, List.flatMap_cons, List.mem_append] at ha
    rcases ha with ha | ha
    · have hin := hf.le_of_mem ha
      have hsp := hrest.sp_le
      exact ⟨hf.sp_eq ▸ hin.1, by bv_omega⟩
    · have hin := ih hrest ha
      exact ⟨hf.sp_eq ▸ BitVec.le_trans hf.base_le hin.1, hin.2⟩

theorem Stacked.place (h : Stacked L t mem frames regs) (ha : a ∈ savedAt frames) :
    L.place a = .stack t :=
  L.place_stack t a (BitVec.le_trans h.userStack_le (h.le_of_mem ha).1) (h.le_of_mem ha).2

/-- Only the doublewords where registers are saved matter. -/
theorem Stacked.congr_mem (h : Stacked L t mem frames regs)
    (hmem : ∀ a ∈ savedAt frames, mem' a = mem a) : Stacked L t mem' frames regs := by
  induction frames generalizing regs with
  | nil => exact h
  | cons f frames ih =>
    obtain ⟨hf, hrest⟩ := h
    simp only [savedAt, List.flatMap_cons, List.forall_mem_append] at hmem
    refine ⟨⟨hf.sp_eq, hf.size_le, hf.userStack_le, fun p hp => ?_, hf.kept⟩, ih hrest hmem.2⟩
    rw [hmem.1 _ (List.mem_map_of_mem hp), hf.saved p hp]

/-- Only the registers that a function must give back matter, and `ra` only where it is not
saved. -/
theorem Stacked.congr_regs (h : Stacked L t mem frames regs) (hsp : regs' sp = regs sp)
    (hregs : ∀ f ∈ frames.head?, ∀ r ∈ calleeSaved, r ≠ sp → r ∉ f.shape.slots.regs →
      regs' r = regs r) : Stacked L t mem frames regs' := by
  cases frames with
  | nil => exact ⟨hsp ▸ h.1, hsp ▸ h.2⟩
  | cons f frames =>
    obtain ⟨hf, hrest⟩ := h
    refine ⟨⟨hsp.trans hf.sp_eq, hf.size_le, hf.userStack_le, hf.saved, fun r hr hne hslot => ?_⟩,
      hrest⟩
    rw [hregs f rfl r hr hne hslot, hf.kept r hr hne hslot]

theorem Stacked.of_calleeSaved (h : Stacked L t mem frames regs)
    (hregs : ∀ r ∈ calleeSaved, regs' r = regs r) : Stacked L t mem frames regs' :=
  h.congr_regs (hregs sp (by decide)) fun _ _ r hr _ _ => hregs r hr

/-- A frame is made. -/
theorem Stacked.push {s : Rv64.State} (kind : FrameKind) (shape : FrameShape)
    (h : Stacked L t s.mem frames s.get) (hroom : HasRoom L t (s.get sp) shape.size) :
    Stacked L t (s.execAll (prologue shape.size shape.slots)).mem (⟨kind, shape, s.get⟩ :: frames)
      (s.execAll (prologue shape.size shape.slots)).get := by
  have hbase : (⟨kind, shape, s.get⟩ : SavedFrame).base = s.get sp - shape.size := rfl
  refine ⟨⟨shape.prologue_sp, hroom.1, hroom.2, fun p hp => ?_, fun r _ hne _ =>
    shape.prologue_get hne⟩, h.congr_mem fun a ha => ?_⟩
  · rw [shape.prologue_mem, hbase, writeAll_slot shape.offsets_nodup hp]
  · rw [shape.prologue_mem, writeAll_of_ne]
    rintro p hp rfl
    have hle := (h.le_of_mem ha).1
    have hin := shape.inside p hp
    have hsize := hroom.1
    bv_omega

/-- What a frame has saved and kept, its end gives back. -/
theorem SavedFrame.Intact.pop {s : Rv64.State} (h : f.Intact L t s.mem s.get) {r : Reg}
    (hr : r ∈ f.shape.slots.regs ∨ r ∈ calleeSaved) (h0 : r ≠ 0) :
    (s.execAll (epilogue f.shape.size f.shape.slots)).get r = f.entry r := by
  have hbase : KeepsBase s sp f.shape.slots := by
    intro p hp he
    rw [h.sp_eq, h.saved p hp, if_pos he]
  by_cases hsp : r = sp
  · rw [hsp, f.shape.epilogue_sp hbase, h.sp_eq, SavedFrame.base, BitVec.sub_add_cancel]
  by_cases hslot : r ∈ f.shape.slots.regs
  · obtain ⟨p, hp, rfl⟩ := List.mem_map.mp hslot
    rw [f.shape.epilogue_get hbase hp h0 hsp, h.sp_eq, h.saved p hp, if_neg hsp]
  · rw [f.shape.epilogue_get_of_not_mem hslot hsp]
    exact h.kept r (hr.resolve_left hslot) hsp hslot

theorem Stacked.pop {s : Rv64.State} (h : Stacked L t s.mem (f :: frames) s.get) :
    Stacked L t (s.execAll (epilogue f.shape.size f.shape.slots)).mem frames
      (s.execAll (epilogue f.shape.size f.shape.slots)).get := by
  rw [f.shape.epilogue_mem]
  refine h.2.of_calleeSaved fun r hr => h.1.pop (Or.inr hr) ?_
  rintro rfl
  revert hr
  decide

end

/-! ## 4. The invariant -/

/-- A thread that is not running. -/
def Parked (L : Layout T) (t : T) (mem : Rv64.Word → Rv64.Word) : ThreadState → Prop
  | .absent => True
  | .fresh => ∀ p ∈ contextSlots, mem (L.context t + p.2) = initialContext L t p.1
  | .suspended frames regs => Stacked L t mem frames regs ∧
      ∀ p ∈ contextSlots, mem (L.context t + p.2) = regs p.1
  | .running _ => False

namespace RegState

structure Inv (L : Layout T) (s : RegState T) : Prop where
  running : ∃ frames, s.thread s.running = .running frames
  stacked : Stacked L s.running s.hart.mem (s.frames s.running) s.hart.get
  parked : ∀ t, t ≠ s.running → Parked L t s.hart.mem (s.thread t)

end RegState

section

variable {L : Layout T} {s s' : RegState T} {t : T} {mem mem' : Rv64.Word → Rv64.Word}
  {act : RegAct T} {acts : List (RegAct T)} {x : ThreadState}

omit [DecidableEq T]

/-- A thread that is not running is left alone by stores elsewhere. -/
theorem Parked.congr (h : Parked L t mem x) (hsaved : ∀ a ∈ savedAt x.frames, mem' a = mem a)
    (hcontext : ∀ p ∈ contextSlots, mem' (L.context t + p.2) = mem (L.context t + p.2)) :
    Parked L t mem' x := by
  cases x with
  | absent => trivial
  | fresh =>
    intro p hp
    rw [hcontext p hp, h p hp]
  | suspended frames regs =>
    refine ⟨h.1.congr_mem hsaved, fun p hp => ?_⟩
    rw [hcontext p hp, h.2 p hp]
  | running frames => exact h

theorem Parked.place (h : Parked L t mem x) {a : Rv64.Word} (ha : a ∈ savedAt x.frames) :
    L.place a = .stack t := by
  cases x with
  | absent | fresh => cases ha
  | suspended frames regs => exact h.1.place ha
  | running frames => exact h.elim

/-- Stores in one place leave alone the threads whose stack and context are elsewhere. -/
theorem Parked.of_place (h : Parked L t mem x) (place : Place T) (hstack : place ≠ .stack t)
    (hcontext : place ≠ .context t) (hmem : ∀ a, L.place a ≠ place → mem' a = mem a) :
    Parked L t mem' x := by
  refine h.congr (fun a ha => hmem a ?_) fun p hp => hmem _ ?_
  · rw [h.place ha]
    exact hstack.symm
  · rw [L.place_context t p hp]
    exact hcontext.symm

end

/-! ## 5. One step keeps it

A frame is pushed below the others and popped from where it was pushed.  What other threads store
is not in this thread's memory, or not in a doubleword where a register is saved. -/

namespace RegState

variable {L : Layout T} {s s' : RegState T} {t u : T} {act : RegAct T} {acts : List (RegAct T)}

section

omit [DecidableEq T]

theorem Inv.thread_eq (h : s.Inv L) : s.thread s.running = .running (s.frames s.running) := by
  obtain ⟨frames, hframes⟩ := h.running
  rw [RegState.frames, hframes]
  rfl

theorem Inv.write (h : s.Inv L) {rd : Reg} {v : Rv64.Word}
    (hmay : MayWrite L s.running rd v (s.frames s.running)) :
    Inv L { s with hart := s.hart.set rd v } := by
  refine ⟨h.running, ?_, h.parked⟩
  have hst := h.stacked
  change Stacked L s.running s.hart.mem (s.frames s.running) (s.hart.set rd v).get
  generalize s.frames s.running = frames at hst hmay
  cases frames with
  | nil =>
    by_cases hrd : rd = sp
    · have hv := hmay hrd
      subst hrd
      rwa [Stacked, State.get_set_self (by decide)]
    · rw [Stacked, State.get_set_of_ne (Ne.symm hrd)]
      exact hst
  | cons f frames =>
    obtain ⟨-, hsp, hslot⟩ := hmay
    refine hst.congr_regs (State.get_set_of_ne (Ne.symm hsp)) fun g hg r hr _ hkept => ?_
    obtain rfl := Option.some.inj hg
    refine State.get_set_of_ne ?_
    rintro rfl
    exact hkept (hslot hr)

/-- The caller loses its return address. -/
theorem Inv.setRa (h : s.Inv L) (ret : Rv64.Word) (hmay : MayCall (s.frames s.running)) :
    Inv L { s with hart := s.hart.set ra ret } := by
  refine ⟨h.running, ?_, h.parked⟩
  refine h.stacked.congr_regs (State.get_set_of_ne (by decide)) fun f hf r _ _ hkept => ?_
  refine State.get_set_of_ne ?_
  rintro rfl
  obtain ⟨frames, hframes⟩ := List.head?_eq_some_iff.mp hf
  rw [hframes] at hmay
  exact hkept hmay

theorem mayStore_of_place {a : Rv64.Word} (h : s.mayStore L a = true)
    (ht : L.place a = .stack t) : a ∉ savedAt (s.frames t) := by
  rw [mayStore, ht] at h
  simpa using h

theorem Inv.store (h : s.Inv L) {a v : Rv64.Word} (hmay : s.mayStore L a = true) :
    Inv L { s with hart := s.hart.store a v } := by
  have hmem : ∀ b, b ≠ a → (s.hart.store a v).mem b = s.hart.mem b := fun b hb =>
    Function.update_of_ne hb ..
  refine ⟨h.running, h.stacked.congr_mem fun b hb => hmem b ?_, fun t ht => (h.parked t ht).congr
    (fun b hb => hmem b ?_) fun p hp => hmem _ ?_⟩
  · rintro rfl
    exact mayStore_of_place hmay (h.stacked.place hb) hb
  · rintro rfl
    exact mayStore_of_place hmay ((h.parked t ht).place hb) hb
  · rintro rfl
    rw [mayStore, L.place_context t p hp] at hmay
    cases hmay

theorem push_mem (shape : FrameShape) (hroom : HasRoom L s.running (s.hart.get sp) shape.size)
    (hst : Stacked L s.running s.hart.mem (s.frames s.running) s.hart.get) {a : Rv64.Word}
    (ha : L.place a ≠ .stack s.running) :
    (s.hart.execAll (prologue shape.size shape.slots)).mem a = s.hart.mem a := by
  rw [shape.prologue_mem, writeAll_of_ne]
  rintro p hp rfl
  have hin := shape.inside p hp
  have hsize := hroom.1
  have hlow := hroom.2
  have hsp := hst.sp_le
  exact ha (L.place_stack s.running _ (by bv_omega) (by bv_omega))

theorem switchRegs_get (ret : Rv64.Word) {r : Reg} (hr : r ∈ calleeSaved) (hra : r ≠ ra) :
    (s.switchRegs L t ret).get r = s.hart.get r := by
  have hne : ∀ r ∈ calleeSaved, r ≠ a0 ∧ r ≠ a1 := by decide
  rw [switchRegs, State.get_set_of_ne (hne r hr).2, State.get_set_of_ne (hne r hr).1,
    State.get_set_of_ne hra]

theorem switchRegs_ra (ret : Rv64.Word) : (s.switchRegs L t ret).get ra = ret := by
  rw [switchRegs, State.get_set_of_ne (by decide), State.get_set_of_ne (by decide),
    State.get_set_self (by decide)]

end

@[simp] theorem setThread_frames (x : ThreadState) : (s.setThread t x).frames t = x.frames := by
  simp [setThread, frames]

theorem setThread_thread_of_ne (x : ThreadState) (h : u ≠ t) :
    (s.setThread t x).thread u = s.thread u := Function.update_of_ne h ..

@[simp] theorem push_frames (kind : FrameKind) (shape : FrameShape) :
    (s.push kind shape).frames s.running = ⟨kind, shape, s.hart.get⟩ :: s.frames s.running := by
  simp [push, frames, ThreadState.frames]

@[simp] theorem pop_frames (f : SavedFrame) (frames : List SavedFrame) :
    (s.pop f frames).frames s.running = frames := by
  simp [pop, RegState.frames, ThreadState.frames]

theorem push_thread_of_ne (kind : FrameKind) (shape : FrameShape) (h : t ≠ s.running) :
    (s.push kind shape).thread t = s.thread t := Function.update_of_ne h ..

theorem pop_thread_of_ne (f : SavedFrame) (frames : List SavedFrame) (h : t ≠ s.running) :
    (s.pop f frames).thread t = s.thread t := Function.update_of_ne h ..

theorem Inv.push (h : s.Inv L) (kind : FrameKind) (shape : FrameShape)
    (hroom : HasRoom L s.running (s.hart.get sp) shape.size) : Inv L (s.push kind shape) := by
  refine ⟨⟨_, Function.update_self ..⟩, ?_, fun t ht => ?_⟩
  · change Stacked L s.running _ ((s.push kind shape).frames s.running) _
    rw [push_frames]
    exact h.stacked.push kind shape hroom
  · change t ≠ s.running at ht
    have hpark := h.parked t ht
    rw [push_thread_of_ne kind shape ht]
    refine hpark.of_place (.stack s.running) (fun he => ht ?_) nofun fun a ha =>
      push_mem shape hroom h.stacked ha
    exact (Place.stack.inj he).symm

theorem Inv.pop (h : s.Inv L) {f : SavedFrame} {frames : List SavedFrame}
    (hframes : s.frames s.running = f :: frames) : Inv L (s.pop f frames) := by
  refine ⟨⟨_, Function.update_self ..⟩, ?_, fun t ht => ?_⟩
  · have hst := h.stacked
    rw [hframes] at hst
    change Stacked L s.running _ ((s.pop f frames).frames s.running) _
    rw [pop_frames]
    exact hst.pop
  · change t ≠ s.running at ht
    rw [pop_thread_of_ne f frames ht]
    have hmem : (s.pop f frames).hart.mem = s.hart.mem := f.shape.epilogue_mem
    rw [hmem]
    exact h.parked t ht

/-- What the stores of `contextSwitch` leave in memory. -/
theorem suspend_mem (ret : Rv64.Word) : (s.suspend L t ret).hart.mem =
    writeAll s.hart.mem (L.context s.running) (s.switchRegs L t ret).get contextSlots := by
  have ha0 : (s.switchRegs L t ret).get a0 = L.context s.running := by
    rw [switchRegs, State.get_set_of_ne (by decide), State.get_set_self (by decide)]
  change ((s.switchRegs L t ret).execAll contextSwitch).mem = _
  rw [contextSwitch, State.execAll_append, loadAll_mem, saveAll_mem, ha0]
  rfl

/-- What its loads leave in the registers. -/
theorem suspend_get (ret : Rv64.Word) {p : Reg × Rv64.Word} (hp : p ∈ contextSlots) :
    (s.suspend L t ret).hart.get p.1 = (s.suspend L t ret).hart.mem (L.context t + p.2) := by
  have ha1 : (s.switchRegs L t ret).get a1 = L.context t := State.get_set_self (by decide)
  have hne : ∀ p ∈ contextSlots, p.1 ≠ a1 ∧ p.1 ≠ 0 := Slots.forall_of_all (by decide)
  change ((s.switchRegs L t ret).execAll contextSwitch).get p.1 =
    ((s.switchRegs L t ret).execAll contextSwitch).mem _
  rw [contextSwitch, State.execAll_append, loadAll_mem,
    loadAll_get (fun p hp he => absurd he (hne p hp).1) contextSlots_regs_nodup hp (hne p hp).2,
    saveAll_get, ha1]

/-- In the middle of `contextSwitch` no thread runs. -/
theorem Inv.suspend (h : s.Inv L) (ret : Rv64.Word) (hmay : MayCall (s.frames s.running)) (u : T) :
    Parked L u (s.suspend L t ret).hart.mem ((s.suspend L t ret).thread u) := by
  have hmem : ∀ a, L.place a ≠ .context s.running →
      (s.suspend L t ret).hart.mem a = s.hart.mem a := by
    intro a ha
    rw [suspend_mem, writeAll_of_ne]
    rintro p hp rfl
    exact ha (L.place_context _ p hp)
  by_cases hu : u = s.running
  · subst hu
    have hst : Stacked L s.running s.hart.mem (s.frames s.running) (s.switchRegs L t ret).get := by
      refine (h.setRa ret hmay).stacked.of_calleeSaved fun r hr => ?_
      by_cases hra : r = ra
      · rw [hra, switchRegs_ra, State.get_set_self (by decide)]
      · rw [switchRegs_get ret hr hra, State.get_set_of_ne hra]
    change Parked L s.running _ (Function.update s.thread s.running _ s.running)
    rw [Function.update_self]
    refine ⟨hst.congr_mem fun a ha => hmem a ?_, fun p hp => ?_⟩
    · rw [hst.place ha]
      exact nofun
    · rw [suspend_mem, writeAll_slot contextSlots_offsets_nodup hp]
  · have hthread : (s.suspend L t ret).thread u = s.thread u := Function.update_of_ne hu ..
    rw [hthread]
    refine (h.parked u hu).of_place (.context s.running) nofun (fun he => hu ?_) hmem
    exact (Place.context.inj he).symm

/-- What `contextSwitch` does, with the states of the two threads. -/
theorem contextSwitch_cases {ret : Rv64.Word} (hs : step L s (.contextSwitch u ret) = some s') :
    MayCall (s.frames s.running) ∧ ∃ frames,
      ((s.suspend L u ret).thread u = .fresh ∧ frames = [] ∨
        ∃ regs, (s.suspend L u ret).thread u = .suspended frames regs) ∧
      s' = { (s.suspend L u ret).setThread u (.running frames) with running := u } := by
  simp only [step] at hs
  split at hs
  · next hmay =>
    refine ⟨hmay, ?_⟩
    split at hs
    · next hfresh => exact ⟨[], Or.inl ⟨hfresh, rfl⟩, (Option.some.inj hs).symm⟩
    · next frames regs hsusp => exact ⟨frames, Or.inr ⟨regs, hsusp⟩, (Option.some.inj hs).symm⟩
    · cases hs
    · cases hs
  · cases hs

theorem threadCreate_cases (hs : step L s (.threadCreate u) = some s') :
    s.thread u = .absent ∧ s' = { s.setThread u .fresh with
      hart := { s.hart with
        mem := writeAll s.hart.mem (L.context u) (initialContext L u) contextSlots } } := by
  simp only [step] at hs
  split at hs
  · next habsent => exact ⟨habsent, (Option.some.inj hs).symm⟩
  · cases hs

/-- Where a register is in a `Context`. -/
theorem exists_contextSlot {r : Reg} (hr : r ∈ calleeSaved) : ∃ p ∈ contextSlots, p.1 = r := by
  rw [← contextSlots_regs] at hr
  exact List.mem_map.mp hr

/-- The registers of a thread that was suspended are loaded. -/
theorem suspend_get_suspended {frames : List SavedFrame} {regs : Reg → Rv64.Word}
    (ret : Rv64.Word) (hpark : Parked L t (s.suspend L t ret).hart.mem (.suspended frames regs))
    {r : Reg} (hr : r ∈ calleeSaved) : (s.suspend L t ret).hart.get r = regs r := by
  obtain ⟨p, hp, rfl⟩ := exists_contextSlot hr
  rw [suspend_get ret hp, hpark.2 p hp]

/-- Or those of the constructor. -/
theorem suspend_get_fresh (ret : Rv64.Word)
    (hpark : Parked L t (s.suspend L t ret).hart.mem .fresh) {r : Reg} (hr : r ∈ calleeSaved) :
    (s.suspend L t ret).hart.get r = initialContext L t r := by
  obtain ⟨p, hp, rfl⟩ := exists_contextSlot hr
  rw [suspend_get ret hp, hpark p hp]

/-- The chosen thread goes on behind `contextSwitch`. -/
theorem Inv.resume (ret : Rv64.Word) {frames : List SavedFrame}
    (hpark : ∀ u, Parked L u (s.suspend L t ret).hart.mem ((s.suspend L t ret).thread u))
    (hst : Stacked L t (s.suspend L t ret).hart.mem frames (s.suspend L t ret).hart.get) :
    Inv L { (s.suspend L t ret).setThread t (.running frames) with running := t } := by
  refine ⟨⟨frames, Function.update_self ..⟩, ?_, fun u hu => ?_⟩
  · change Stacked L t _ (((s.suspend L t ret).setThread t (.running frames)).frames t) _
    rw [setThread_frames]
    exact hst
  · change Parked L u _ (((s.suspend L t ret).setThread t (.running frames)).thread u)
    rw [setThread_thread_of_ne _ hu]
    exact hpark u

theorem Inv.threadCreate (h : s.Inv L) (ht : s.thread t = .absent) :
    Inv L { s.setThread t .fresh with
      hart := { s.hart with
        mem := writeAll s.hart.mem (L.context t) (initialContext L t) contextSlots } } := by
  have hne : s.running ≠ t := by
    rintro rfl
    rw [h.thread_eq] at ht
    cases ht
  have hmem : ∀ a, L.place a ≠ .context t →
      writeAll s.hart.mem (L.context t) (initialContext L t) contextSlots a = s.hart.mem a := by
    intro a ha
    rw [writeAll_of_ne]
    rintro p hp rfl
    exact ha (L.place_context t p hp)
  have hframes : (s.setThread t .fresh).frames s.running = s.frames s.running := by
    rw [frames, setThread_thread_of_ne _ hne, frames]
  refine ⟨?_, ?_, fun u hu => ?_⟩
  · change ∃ frames, Function.update s.thread t _ s.running = _
    rw [Function.update_of_ne hne]
    exact h.running
  · change Stacked L s.running _ ((s.setThread t .fresh).frames s.running) _
    rw [hframes]
    refine h.stacked.congr_mem fun a ha => hmem a ?_
    rw [h.stacked.place ha]
    exact nofun
  · change Parked L u _ (Function.update s.thread t _ u)
    by_cases hut : u = t
    · subst hut
      rw [Function.update_self]
      exact fun p hp => writeAll_slot contextSlots_offsets_nodup hp
    · rw [Function.update_of_ne hut]
      refine (h.parked u hu).of_place (.context t) nofun (fun he => hut ?_) hmem
      exact (Place.context.inj he).symm

theorem Inv.contextSwitch (h : s.Inv L) {ret : Rv64.Word}
    (hs : step L s (.contextSwitch t ret) = some s') : s'.Inv L := by
  obtain ⟨hmay, frames, hthread, rfl⟩ := contextSwitch_cases hs
  have hpark := h.suspend (t := t) ret hmay
  have ht := hpark t
  refine .resume ret hpark ?_
  rcases hthread with ⟨hfresh, rfl⟩ | ⟨regs, hsusp⟩
  · rw [hfresh] at ht
    have hsp : (s.suspend L t ret).hart.get sp = L.userSP t := by
      rw [suspend_get_fresh ret ht (by decide)]
      rfl
    rw [Stacked, hsp]
    exact ⟨L.userStack_le t, BitVec.le_refl _⟩
  · rw [hsusp] at ht
    exact ht.1.of_calleeSaved fun r hr => suspend_get_suspended ret ht hr

theorem Inv.step (h : s.Inv L) (hs : step L s act = some s') : s'.Inv L := by
  cases act with
  | write rd v =>
    obtain ⟨hmay, ⟨⟩⟩ := Option.ite_none_right_eq_some.mp hs
    exact h.write hmay
  | store a v =>
    obtain ⟨hmay, ⟨⟩⟩ := Option.ite_none_right_eq_some.mp hs
    exact h.store hmay
  | trap =>
    obtain ⟨hroom, ⟨⟩⟩ := Option.ite_none_right_eq_some.mp hs
    exact h.push .trap trapShape hroom
  | call shape ret =>
    obtain ⟨⟨hmay, hroom⟩, ⟨⟩⟩ := Option.ite_none_right_eq_some.mp hs
    refine (h.setRa ret hmay).push .call shape ?_
    rwa [State.get_set_of_ne (by decide)]
  | trapReturn | ret =>
    simp only [RegState.step] at hs
    split at hs
    · next f frames hframes =>
      obtain ⟨-, ⟨⟩⟩ := Option.ite_none_right_eq_some.mp hs
      exact h.pop hframes
    · cases hs
  | contextSwitch t ret => exact h.contextSwitch hs
  | threadCreate t =>
    obtain ⟨habsent, rfl⟩ := threadCreate_cases hs
    exact h.threadCreate habsent

@[simp] theorem start_thread (hart : Rv64.State) (master : T) :
    (start hart master).thread master = .running [] := by
  simp [start]

theorem start_thread_of_ne {hart : Rv64.State} {master : T} (h : t ≠ master) :
    (start hart master).thread t = .absent := by
  simp [start, h]

theorem inv_start {hart : Rv64.State} {master : T} (hlow : L.userStack master ≤ hart.get sp)
    (hhigh : hart.get sp ≤ L.userSP master) : (start hart master).Inv L := by
  refine ⟨⟨[], start_thread hart master⟩, ?_, fun t ht => ?_⟩
  · change Stacked L master hart.mem ((start hart master).thread master).frames hart.get
    rw [start_thread]
    exact ⟨hlow, hhigh⟩
  · change t ≠ master at ht
    rw [start_thread_of_ne ht]
    trivial

theorem inv_run (h : s.Inv L) (hrun : run (RegState.step L) s acts = some s') : s'.Inv L :=
  run_invariant (fun _ _ _ hp hs => hp.step hs) h hrun

/-! ## 6. What a thread sees

A frame that is there at the start of a run, and from which the thread does not return in it, is
there at its end, with the registers that it noted; the results are this, read at the return. -/

theorem setThread_frames_of_eq {x : ThreadState} (hx : x.frames = s.frames u) (t : T) :
    (s.setThread u x).frames t = s.frames t := by
  by_cases ht : t = u
  · subst ht
    rw [setThread_frames, hx]
  · exact congrArg _ (setThread_thread_of_ne x ht)

theorem suspend_frames (ret : Rv64.Word) (t : T) :
    (s.suspend L u ret).frames t = s.frames t := by
  by_cases ht : t = s.running
  · subst ht
    simp [suspend, frames, ThreadState.frames]
  · exact congrArg ThreadState.frames (Function.update_of_ne ht ..)

/-- A step makes a frame of a thread, ends one, or leaves its frames. -/
theorem step_frames (hs : step L s act = some s') (t : T) :
    s'.frames t = s.frames t ∨ (∃ f, s'.frames t = f :: s.frames t) ∨
      ∃ f, s.frames t = f :: s'.frames t := by
  have hpush : ∀ {s : RegState T} kind shape, (s.push kind shape).frames t = s.frames t ∨
      (∃ f, (s.push kind shape).frames t = f :: s.frames t) ∨
      ∃ f, s.frames t = f :: (s.push kind shape).frames t := by
    intro s kind shape
    by_cases ht : t = s.running
    · subst ht
      exact Or.inr (Or.inl ⟨_, push_frames kind shape⟩)
    · exact Or.inl (congrArg _ (push_thread_of_ne kind shape ht))
  have hpop : ∀ {s : RegState T} {f : SavedFrame} {frames : List SavedFrame},
      s.frames s.running = f :: frames → (s.pop f frames).frames t = s.frames t ∨
      (∃ g, (s.pop f frames).frames t = g :: s.frames t) ∨
      ∃ g, s.frames t = g :: (s.pop f frames).frames t := by
    intro s f frames hframes
    by_cases ht : t = s.running
    · subst ht
      exact Or.inr (Or.inr ⟨f, by rw [hframes, pop_frames]⟩)
    · exact Or.inl (congrArg _ (pop_thread_of_ne f frames ht))
  cases act with
  | write rd v | store a v =>
    obtain ⟨-, ⟨⟩⟩ := Option.ite_none_right_eq_some.mp hs
    exact Or.inl rfl
  | trap | call shape ret =>
    obtain ⟨-, ⟨⟩⟩ := Option.ite_none_right_eq_some.mp hs
    exact hpush _ _
  | trapReturn | ret =>
    simp only [step] at hs
    split at hs
    · next f frames hframes =>
      obtain ⟨-, ⟨⟩⟩ := Option.ite_none_right_eq_some.mp hs
      exact hpop hframes
    · cases hs
  | contextSwitch u ret =>
    obtain ⟨-, frames, hthread, rfl⟩ := contextSwitch_cases hs
    refine Or.inl ((setThread_frames_of_eq ?_ t).trans (suspend_frames ret t))
    rcases hthread with ⟨hfresh, rfl⟩ | ⟨regs, hsusp⟩
    · rw [RegState.frames, hfresh]
      rfl
    · rw [RegState.frames, hsusp]
      rfl
  | threadCreate u =>
    obtain ⟨habsent, rfl⟩ := threadCreate_cases hs
    refine Or.inl (setThread_frames_of_eq ?_ t)
    rw [frames, habsent]
    rfl

/-- In this step the thread does not come back below so many frames. -/
def Inside (L : Layout T) (t : T) (n : Nat) (s : RegState T) (act : RegAct T) : Prop :=
  ∀ s', step L s act = some s' → n ≤ (s'.frames t).length

instance (L : Layout T) (t : T) (n : Nat) (s : RegState T) (act : RegAct T) :
    Decidable (Inside L t n s act) :=
  inferInstanceAs (Decidable (∀ s' ∈ step L s act, n ≤ (s'.frames t).length))

/-- The frames that a thread does not leave stay where they are. -/
theorem frames_kept {frames : List SavedFrame} (hframes : frames <:+ s.frames t)
    (hinside : AllSteps (step L) (Inside L t frames.length) s acts)
    (hrun : run (step L) s acts = some s') : frames <:+ s'.frames t := by
  refine run_invariant_of (P := fun s => frames <:+ s.frames t) (fun s act s' hp hc hs => ?_)
    hframes hinside hrun
  obtain ⟨above, habove⟩ := hp
  rcases step_frames hs t with heq | ⟨f, hpush⟩ | ⟨f, hpop⟩
  · exact ⟨above, heq ▸ habove⟩
  · exact ⟨f :: above, by rw [hpush, ← habove, List.cons_append]⟩
  · have hlen := hc s' hs
    rw [hpop] at habove
    cases above with
    | nil =>
      rw [List.nil_append] at habove
      rw [habove, List.length_cons] at hlen
      omega
    | cons g above => exact ⟨above, (List.cons.inj habove).2⟩

/-- **A trap gives the registers back.**  Whatever the kernel's functions and the other threads do
between a trap of a thread and the end of that trap, how often the thread is switched away from
and whichever traps are taken in between: it goes on with every register as it was, except `a0` and
`a1`, in which the result of a system call comes. -/
theorem trap_returns {hart : Rv64.State} {master : T} {s₁ s₂ s₃ : RegState T}
    {mid : List (RegAct T)} (hlow : L.userStack master ≤ hart.get sp)
    (hhigh : hart.get sp ≤ L.userSP master) (hrun : run (step L) (start hart master) acts = some s)
    (htrap : step L s .trap = some s₁) (hmid : run (step L) s₁ mid = some s₂)
    (hinside : AllSteps (step L) (Inside L s.running (s₁.frames s.running).length) s₁ mid)
    (hsame : s₂.running = s.running)
    (hdepth : (s₂.frames s.running).length = (s₁.frames s.running).length)
    (hret : step L s₂ .trapReturn = some s₃) :
    ∀ r, r ≠ a0 → r ≠ a1 → s₃.hart.get r = s.hart.get r := by
  intro r hr0 hr1
  have hinv₁ := (inv_run (inv_start hlow hhigh) hrun).step htrap
  have hinv₂ := inv_run hinv₁ hmid
  have hframes := (frames_kept List.suffix_rfl hinside hmid).eq_of_length hdepth.symm
  have htop : s₁.frames s.running = ⟨.trap, trapShape, s.hart.get⟩ :: s.frames s.running := by
    obtain ⟨-, ⟨⟩⟩ := Option.ite_none_right_eq_some.mp htrap
    exact push_frames .trap trapShape
  rw [← hsame, hsame, htop] at hframes
  have hst := hinv₂.stacked
  rw [hsame, ← hframes] at hst
  simp only [step, hsame, ← hframes, if_true] at hret
  cases hret
  by_cases h0 : r = 0
  · rw [h0]
    rfl
  · exact hst.1.pop (Or.inl (mem_trapShape r hr0 hr1)) h0

/-- Two threads; `false` is the master. -/
def twoThreads : Layout Bool where
  userStack t := if t then 0x2000 else 0x1000
  userSP t := if t then 0x3000 else 0x2000
  context t := if t then 0x5000 else 0x4000
  threadWrapper := 0x100
  place a :=
    if a < 0x1000 then .other
    else if a < 0x2000 then .stack false
    else if a < 0x3000 then .stack true
    else if a < 0x4000 then .other
    else if a < 0x5000 then .context false
    else if a < 0x6000 then .context true
    else .other
  userStack_le t := by cases t <;> decide
  place_stack t a hlow hhigh := by
    cases t <;> simp only [Bool.false_eq_true, if_true, if_false] at hlow hhigh ⊢
    · rw [if_neg (by bv_omega), if_pos (by bv_omega)]
    · rw [if_neg (by bv_omega), if_neg (by bv_omega), if_pos (by bv_omega)]
  place_context t := by cases t <;> exact Slots.forall_of_all (by decide)

/-- Boot, and a second thread. -/
def bootHart : Rv64.State where
  regs r := if r = sp then 0x2000 else .ofNat 64 (r.toNat + 7)
  mem _ := 0

/-- A function that saves `ra` and `s0`. -/
def saveRaS0 : FrameShape where
  size := 16
  slots := [(ra, 8), (8, 0)]
  regs_nodup := by decide
  offsets_nodup := by decide
  inside := Slots.forall_of_all (by decide)

/-- The state after some acts. -/
def after (acts : List (RegAct Bool)) : Option (RegState Bool) :=
  run (step twoThreads) (start bootHart false) acts

theorem run_of_after {s s' : RegState Bool} {acts acts' : List (RegAct Bool)}
    (h : after acts = some s) (h' : after (acts ++ acts') = some s') :
    run (step twoThreads) s acts' = some s' := by
  rw [after] at h
  rwa [after, run_append, h, Option.bind_some] at h'

theorem step_of_after {s s' : RegState Bool} {acts : List (RegAct Bool)} {act : RegAct Bool}
    (h : after acts = some s) (h' : after (acts ++ [act]) = some s') :
    step twoThreads s act = some s' := by
  have hrun := run_of_after h h'
  simpa using hrun

/-- In the master's trap another thread is created and chosen, calls a function, takes a trap of
its own, changes registers on the way and switches back. -/
def inTrap : List (RegAct Bool) :=
  [.threadCreate true, .call saveRaS0 0x200, .write 8 1, .contextSwitch true 0x300, .write 8 2,
    .write 20 3, .trap, .call saveRaS0 0x400, .contextSwitch false 0x500, .write 8 4, .ret]

theorem trap_returns_run : ∃ s s₃, after [.write 9 5] = some s ∧
    after ([.write 9 5] ++ [.trap] ++ inTrap ++ [.trapReturn]) = some s₃ ∧
      ∀ r, r ≠ a0 → r ≠ a1 → s₃.hart.get r = s.hart.get r := by
  obtain ⟨s, hs⟩ := Option.isSome_iff_exists.mp
    (by decide +kernel : (after [.write 9 5]).isSome = true)
  obtain ⟨s₁, hs₁⟩ := Option.isSome_iff_exists.mp
    (by decide +kernel : (after ([.write 9 5] ++ [.trap])).isSome = true)
  obtain ⟨s₂, hs₂⟩ := Option.isSome_iff_exists.mp
    (by decide +kernel : (after ([.write 9 5] ++ [.trap] ++ inTrap)).isSome = true)
  obtain ⟨s₃, hs₃⟩ := Option.isSome_iff_exists.mp
    (by decide +kernel :
      (after ([.write 9 5] ++ [.trap] ++ inTrap ++ [.trapReturn])).isSome = true)
  have hinside : ∀ s ∈ after [.write 9 5], ∀ s₁ ∈ after ([.write 9 5] ++ [.trap]),
      AllSteps (step twoThreads) (Inside twoThreads s.running (s₁.frames s.running).length) s₁
        inTrap := by decide +kernel
  have hback : ∀ s ∈ after [.write 9 5], ∀ s₁ ∈ after ([.write 9 5] ++ [.trap]),
      ∀ s₂ ∈ after ([.write 9 5] ++ [.trap] ++ inTrap), s₂.running = s.running ∧
        (s₂.frames s.running).length = (s₁.frames s.running).length := by decide +kernel
  obtain ⟨hsame, hdepth⟩ := hback s hs s₁ hs₁ s₂ hs₂
  exact ⟨s, s₃, hs, hs₃, trap_returns (by decide) (by decide) hs (step_of_after hs hs₁)
    (run_of_after hs₁ hs₂) (hinside s hs s₁ hs₁) hsame hdepth (step_of_after hs₂ hs₃)⟩

/-- A step leaves a thread as it is that does not run before it nor behind it, unless it is the
one created. -/
theorem step_thread (hs : step L s act = some s') (hne : s.running ≠ t) (hne' : s'.running ≠ t)
    (ht : s.thread t ≠ .absent) : s'.thread t = s.thread t := by
  cases act with
  | write rd v | store a v =>
    obtain ⟨-, ⟨⟩⟩ := Option.ite_none_right_eq_some.mp hs
    rfl
  | trap | call shape ret =>
    obtain ⟨-, ⟨⟩⟩ := Option.ite_none_right_eq_some.mp hs
    exact push_thread_of_ne _ _ (Ne.symm hne)
  | trapReturn | ret =>
    simp only [step] at hs
    split at hs
    · obtain ⟨-, ⟨⟩⟩ := Option.ite_none_right_eq_some.mp hs
      exact pop_thread_of_ne _ _ (Ne.symm hne)
    · cases hs
  | contextSwitch u ret =>
    obtain ⟨-, frames, -, rfl⟩ := contextSwitch_cases hs
    exact (setThread_thread_of_ne _ (Ne.symm hne')).trans (Function.update_of_ne (Ne.symm hne) ..)
  | threadCreate u =>
    obtain ⟨habsent, rfl⟩ := threadCreate_cases hs
    refine setThread_thread_of_ne _ ?_
    rintro rfl
    exact ht habsent

/-- The thread is not chosen in this step. -/
def Away (L : Layout T) (t : T) (s : RegState T) (act : RegAct T) : Prop :=
  ∀ s', step L s act = some s' → s'.running ≠ t

instance (L : Layout T) (t : T) (s : RegState T) (act : RegAct T) : Decidable (Away L t s act) :=
  inferInstanceAs (Decidable (∀ s' ∈ step L s act, s'.running ≠ t))

/-- A suspended thread is left as it is while others run. -/
theorem suspended_kept {x : ThreadState} (hx : x ≠ .absent) (hthread : s.thread t = x)
    (hne : s.running ≠ t) (haway : AllSteps (step L) (Away L t) s acts)
    (hrun : run (step L) s acts = some s') : s'.thread t = x ∧ s'.running ≠ t := by
  refine run_invariant_of (P := fun s => s.thread t = x ∧ s.running ≠ t)
    (fun s act s' hp hc hs => ⟨?_, hc s' hs⟩) ⟨hthread, hne⟩ haway hrun
  rw [step_thread hs hp.2 (hc s' hs) (by rwa [hp.1]), hp.1]

/-- In `s'`, the call of `contextSwitch` in `s` has come back to its caller. -/
def ComesBack (s s' : RegState T) (ret : Rv64.Word) : Prop :=
  s'.running = s.running ∧ s'.hart.get ra = ret ∧ ∀ r ∈ sp :: sreg, s'.hart.get r = s.hart.get r

omit [DecidableEq T] in
/-- The context that is loaded is the one that the call of `contextSwitch` in `s` has stored. -/
theorem comesBack_of_regs {ret : Rv64.Word} (hrunning : s'.running = s.running)
    (hget : ∀ r ∈ calleeSaved, s'.hart.get r = (s.switchRegs L u ret).get r) :
    s.ComesBack s' ret := by
  refine ⟨hrunning, (hget ra (by decide)).trans (switchRegs_ra ret), fun r hr => ?_⟩
  have hra : ∀ r ∈ sp :: sreg, r ≠ ra := by decide
  rw [hget r (List.mem_cons_of_mem ra hr), switchRegs_get ret (List.mem_cons_of_mem ra hr) (hra r hr)]

/-- `contextSwitch(&c, &c)`, where `Scheduler::get` has returned the caller: what is stored is
loaded again. -/
theorem contextSwitch_self (hinv : s.Inv L) {ret : Rv64.Word}
    (hs : step L s (.contextSwitch s.running ret) = some s') : s.ComesBack s' ret := by
  obtain ⟨hmay, frames, -, rfl⟩ := contextSwitch_cases hs
  have hpark := hinv.suspend (t := s.running) ret hmay s.running
  have hthread : (s.suspend L s.running ret).thread s.running =
      .suspended (s.frames s.running) (s.switchRegs L s.running ret).get :=
    Function.update_self ..
  rw [hthread] at hpark
  exact comesBack_of_regs rfl fun r hr => suspend_get_suspended ret hpark hr

/-- The caller is chosen again by another thread. -/
theorem contextSwitch_other {s₁ s₂ s₃ : RegState T} {mid : List (RegAct T)} {ret ret' : Rv64.Word}
    (hinv : s.Inv L) (hout : step L s (.contextSwitch u ret) = some s₁) (hu : u ≠ s.running)
    (hmid : run (step L) s₁ mid = some s₂)
    (haway : AllSteps (step L) (Away L s.running) s₁ mid)
    (hin : step L s₂ (.contextSwitch s.running ret') = some s₃) : s.ComesBack s₃ ret := by
  have hinv₂ := inv_run (hinv.step hout) hmid
  obtain ⟨-, frames, -, hs₁⟩ := contextSwitch_cases hout
  have hthread₁ : s₁.thread s.running =
      .suspended (s.frames s.running) (s.switchRegs L u ret).get := by
    rw [hs₁]
    exact (setThread_thread_of_ne _ (Ne.symm hu)).trans (Function.update_self ..)
  have hrunning₁ : s₁.running ≠ s.running := by
    rw [hs₁]
    exact hu
  obtain ⟨hthread₂, hrunning₂⟩ := suspended_kept (by intro he; cases he) hthread₁ hrunning₁
    haway hmid
  obtain ⟨hmay, frames', -, rfl⟩ := contextSwitch_cases hin
  have hpark := hinv₂.suspend (t := s.running) ret' hmay s.running
  have hthread : (s₂.suspend L s.running ret').thread s.running = s₂.thread s.running :=
    Function.update_of_ne (Ne.symm hrunning₂) ..
  rw [hthread, hthread₂] at hpark
  exact comesBack_of_regs rfl fun r hr => suspend_get_suspended ret' hpark hr

/-- **`contextSwitch` returns.**  To the thread that calls it, `contextSwitch` is a function like
any other: when the thread is chosen again, by itself in this very call or later by whichever
thread, `contextSwitch` comes back to its caller, and `sp` and `s0` to `s11` are as they were at
the call. -/
theorem contextSwitch_returns {hart : Rv64.State} {master : T} {s₁ : RegState T}
    {ret : Rv64.Word} (hlow : L.userStack master ≤ hart.get sp)
    (hhigh : hart.get sp ≤ L.userSP master) (hrun : run (step L) (start hart master) acts = some s)
    (hout : step L s (.contextSwitch u ret) = some s₁) :
    (u = s.running → s.ComesBack s₁ ret) ∧
      (u ≠ s.running → ∀ {s₂ s₃ : RegState T} {mid : List (RegAct T)} {ret' : Rv64.Word},
        run (step L) s₁ mid = some s₂ → AllSteps (step L) (Away L s.running) s₁ mid →
        step L s₂ (.contextSwitch s.running ret') = some s₃ → s.ComesBack s₃ ret) := by
  have hinv := inv_run (inv_start hlow hhigh) hrun
  constructor
  · intro hu
    exact contextSwitch_self hinv (hu ▸ hout)
  · intro hu _ _ _ _ hmid haway hin
    exact contextSwitch_other hinv hout hu hmid haway hin

/-- The other thread is switched away from in a function called in its own trap. -/
def otherInTrap : List (RegAct Bool) := .trap :: inTrap.take 8

theorem contextSwitch_returns_run : ∃ s s₁ s₃, after otherInTrap = some s ∧
    after (otherInTrap ++ [.contextSwitch true 0x500]) = some s₁ ∧ s.ComesBack s₁ 0x500 ∧
    after (otherInTrap ++ [.contextSwitch false 0x500] ++ [.write 8 7] ++
      [.contextSwitch true 0x600]) = some s₃ ∧ s.ComesBack s₃ 0x500 := by
  obtain ⟨s, hs⟩ := Option.isSome_iff_exists.mp
    (by decide +kernel : (after otherInTrap).isSome = true)
  obtain ⟨s', hs'⟩ := Option.isSome_iff_exists.mp
    (by decide +kernel : (after (otherInTrap ++ [.contextSwitch true 0x500])).isSome = true)
  obtain ⟨s₁, hs₁⟩ := Option.isSome_iff_exists.mp
    (by decide +kernel : (after (otherInTrap ++ [.contextSwitch false 0x500])).isSome = true)
  obtain ⟨s₂, hs₂⟩ := Option.isSome_iff_exists.mp
    (by decide +kernel :
      (after (otherInTrap ++ [.contextSwitch false 0x500] ++ [.write 8 7])).isSome = true)
  obtain ⟨s₃, hs₃⟩ := Option.isSome_iff_exists.mp
    (by decide +kernel : (after (otherInTrap ++ [.contextSwitch false 0x500] ++ [.write 8 7] ++
      [.contextSwitch true 0x600])).isSome = true)
  have haway : ∀ s ∈ after otherInTrap, s.running = true ∧
      ∀ s₁ ∈ after (otherInTrap ++ [.contextSwitch false 0x500]),
        AllSteps (step twoThreads) (Away twoThreads s.running) s₁ [.write 8 7] := by
    decide +kernel
  obtain ⟨hrunning, haway⟩ := haway s hs
  have hin := step_of_after hs₂ hs₃
  rw [← hrunning] at hin
  exact ⟨s, s', s₃, hs, hs',
    (contextSwitch_returns (by decide) (by decide) hs (step_of_after hs hs')).1 hrunning.symm, hs₃,
    (contextSwitch_returns (by decide) (by decide) hs (step_of_after hs hs₁)).2
      (by rw [hrunning]; decide) (run_of_after hs₁ hs₂) (haway s₁ hs₁) hin⟩

/-- A thread that is chosen for the first time comes to `threadWrapper`, at the top of its stack. -/
theorem fresh_starts {hart : Rv64.State} {master : T} {ret : Rv64.Word}
    (hlow : L.userStack master ≤ hart.get sp) (hhigh : hart.get sp ≤ L.userSP master)
    (hrun : run (step L) (start hart master) acts = some s) (hfresh : s.thread u = .fresh)
    (hs : step L s (.contextSwitch u ret) = some s') :
    s'.hart.get ra = L.threadWrapper ∧ s'.hart.get sp = L.userSP u ∧
      ∀ r ∈ sreg, s'.hart.get r = 0 := by
  have hinv := inv_run (inv_start hlow hhigh) hrun
  have hne : u ≠ s.running := by
    rintro rfl
    rw [hinv.thread_eq] at hfresh
    cases hfresh
  obtain ⟨hmay, frames, -, rfl⟩ := contextSwitch_cases hs
  have hpark := hinv.suspend (t := u) ret hmay u
  have hthread : (s.suspend L u ret).thread u = s.thread u := Function.update_of_ne hne ..
  rw [hthread, hfresh] at hpark
  have hget : ∀ r ∈ calleeSaved, (s.suspend L u ret).hart.get r = initialContext L u r :=
    fun r hr => suspend_get_fresh ret hpark hr
  have hsreg : ∀ r ∈ sreg, r ∈ calleeSaved ∧ r ≠ ra ∧ r ≠ sp := by decide
  refine ⟨hget ra (by decide), hget sp (by decide), fun r hr => ?_⟩
  obtain ⟨hmem, hra, hsp⟩ := hsreg r hr
  exact (hget r hmem).trans (by rw [initialContext, if_neg hra, if_neg hsp])

end RegState

end Os1Kernel.Registers
