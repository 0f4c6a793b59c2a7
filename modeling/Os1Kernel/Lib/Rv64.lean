/-
# Straight-line RV64 code that saves and reloads registers

Three instructions, `addi`, `sd` and `ld`, over thirty-two registers and a memory of doublewords.
Every access of the code this is for is a doubleword at a multiple of eight, so the memory is a
function of a doubleword's address.

`saveAll` and `loadAll` are a row of stores and a row of loads relative to one base register;
`prologue` and `epilogue` are the two with the stack pointer moved in front and behind.
-/
import Mathlib.Data.List.Nodup
import Mathlib.Logic.Function.Basic

namespace Rv64

/-- The number of a register. -/
abbrev Reg := BitVec 5

abbrev Word := BitVec 64

/-- The return address. -/
def ra : Reg := 1

/-- The stack pointer. -/
def sp : Reg := 2

/-- The first and the second argument of a call. -/
def a0 : Reg := 10
def a1 : Reg := 11

/-- `s0` to `s11` -/
def sreg : List Reg := [8, 9, 18, 19, 20, 21, 22, 23, 24, 25, 26, 27]

/-- What a function must give back to its caller as it found it, and `ra`, with which it
returns. -/
def calleeSaved : List Reg := ra :: sp :: sreg

structure State where
  regs : Reg → Word
  mem : Word → Word

inductive Instr
  /-- `sd rs, off(base)` -/
  | sd (rs : Reg) (off : Word) (base : Reg)
  /-- `ld rd, off(base)` -/
  | ld (rd : Reg) (off : Word) (base : Reg)
  | addi (rd rs : Reg) (imm : Word)

/-- A register and the offset of the doubleword where it is saved. -/
abbrev Slots := List (Reg × Word)

namespace State

/-- `x0` reads as zero. -/
def get (s : State) (r : Reg) : Word := if r = 0 then 0 else s.regs r

def set (s : State) (r : Reg) (v : Word) : State := { s with regs := Function.update s.regs r v }

def store (s : State) (a v : Word) : State := { s with mem := Function.update s.mem a v }

def exec (s : State) : Instr → State
  | .sd rs off base => s.store (s.get base + off) (s.get rs)
  | .ld rd off base => s.set rd (s.mem (s.get base + off))
  | .addi rd rs imm => s.set rd (s.get rs + imm)

def execAll (s : State) (code : List Instr) : State := code.foldl exec s

variable {s : State} {r rd : Reg} {a v : Word}

@[simp] theorem set_mem : (s.set rd v).mem = s.mem := rfl

@[simp] theorem store_get : (s.store a v).get = s.get := rfl

theorem get_set_self (h : rd ≠ 0) : (s.set rd v).get rd = v := by
  rw [get, if_neg h]
  exact Function.update_self ..

theorem get_set_of_ne (h : r ≠ rd) : (s.set rd v).get r = s.get r := by
  simp [get, set, h]

/-- A write of the value that is there. -/
theorem get_set_eq_self (h : s.get rd = v) : (s.set rd v).get r = s.get r := by
  by_cases hr : r = rd
  · subst hr
    by_cases h0 : r = 0
    · simp [get, h0]
    · rw [get_set_self h0, h]
  · exact get_set_of_ne hr

theorem execAll_append (code code' : List Instr) :
    s.execAll (code ++ code') = (s.execAll code).execAll code' := List.foldl_append

end State

/-! ## 1. Rows of stores and of loads -/

def saveAll (base : Reg) (slots : Slots) : List Instr := slots.map fun p => .sd p.1 p.2 base

def loadAll (base : Reg) (slots : Slots) : List Instr := slots.map fun p => .ld p.1 p.2 base

/-- The registers of the slots, and their offsets. -/
def Slots.regs (slots : Slots) : List Reg := slots.map Prod.fst

def Slots.offsets (slots : Slots) : List Word := slots.map Prod.snd

/-- `decide` on the slots themselves, and not on all registers and doublewords. -/
theorem Slots.forall_of_all {slots : Slots} {P : Reg × Word → Prop} [DecidablePred P]
    (h : (slots.all fun p => decide (P p)) = true) : ∀ p ∈ slots, P p :=
  fun p hp => of_decide_eq_true (List.all_eq_true.mp h p hp)

/-- The memory with the values of some registers in their slots from `base` on. -/
def writeAll (mem : Word → Word) (base : Word) (val : Reg → Word) (slots : Slots) : Word → Word :=
  slots.foldl (fun m p => Function.update m (base + p.2) (val p.1)) mem

section

variable {mem : Word → Word} {base : Word} {val : Reg → Word} {slots : Slots}

theorem writeAll_cons (p : Reg × Word) : writeAll mem base val (p :: slots) =
    writeAll (Function.update mem (base + p.2) (val p.1)) base val slots := rfl

/-- It changes the doublewords of the slots only. -/
theorem writeAll_of_ne {a : Word} (h : ∀ p ∈ slots, a ≠ base + p.2) :
    writeAll mem base val slots a = mem a := by
  induction slots generalizing mem with
  | nil => rfl
  | cons p slots ih =>
    rw [List.forall_mem_cons] at h
    rw [writeAll_cons, ih h.2, Function.update_of_ne h.1]

theorem writeAll_slot (hoff : slots.offsets.Nodup) {p : Reg × Word} (hp : p ∈ slots) :
    writeAll mem base val slots (base + p.2) = val p.1 := by
  induction slots generalizing mem with
  | nil => cases hp
  | cons q slots ih =>
    obtain ⟨hq, hoff⟩ := List.nodup_cons.mp hoff
    rw [writeAll_cons]
    rcases List.mem_cons.mp hp with rfl | hp
    · rw [writeAll_of_ne, Function.update_self]
      intro p' hp' he
      have heq := BitVec.add_right_inj _ |>.mp he
      exact hq (heq ▸ List.mem_map_of_mem hp')
    · exact ih hoff hp

end

section

variable {s : State} {base : Reg} {slots : Slots}

theorem saveAll_cons (p : Reg × Word) :
    s.execAll (saveAll base (p :: slots)) =
      (s.store (s.get base + p.2) (s.get p.1)).execAll (saveAll base slots) := rfl

theorem loadAll_cons (p : Reg × Word) :
    s.execAll (loadAll base (p :: slots)) =
      (s.set p.1 (s.mem (s.get base + p.2))).execAll (loadAll base slots) := rfl

theorem saveAll_get : (s.execAll (saveAll base slots)).get = s.get := by
  induction slots generalizing s with
  | nil => rfl
  | cons p slots ih => rw [saveAll_cons, ih, State.store_get]

theorem saveAll_mem :
    (s.execAll (saveAll base slots)).mem = writeAll s.mem (s.get base) s.get slots := by
  induction slots generalizing s with
  | nil => rfl
  | cons p slots ih =>
    rw [saveAll_cons, ih, State.store_get]
    rfl

theorem loadAll_mem : (s.execAll (loadAll base slots)).mem = s.mem := by
  induction slots generalizing s with
  | nil => rfl
  | cons p slots ih => rw [loadAll_cons, ih, State.set_mem]

/-- The base register is not among those loaded, or it is loaded with its own value. -/
def KeepsBase (s : State) (base : Reg) (slots : Slots) : Prop :=
  ∀ p ∈ slots, p.1 = base → s.mem (s.get base + p.2) = s.get base

theorem KeepsBase.set {p : Reg × Word} (h : KeepsBase s base (p :: slots)) :
    (s.set p.1 (s.mem (s.get base + p.2))).get base = s.get base := by
  by_cases hp : p.1 = base
  · have hv := h p List.mem_cons_self hp
    rw [hv, hp]
    exact State.get_set_eq_self rfl
  · exact State.get_set_of_ne (Ne.symm hp)

theorem KeepsBase.tail {p : Reg × Word} (h : KeepsBase s base (p :: slots)) :
    KeepsBase (s.set p.1 (s.mem (s.get base + p.2))) base slots := by
  intro q hq hbase
  rw [h.set, State.set_mem]
  exact h q (List.mem_cons_of_mem p hq) hbase

theorem loadAll_get_of_not_mem {r : Reg} (hr : r ∉ slots.regs) :
    (s.execAll (loadAll base slots)).get r = s.get r := by
  induction slots generalizing s with
  | nil => rfl
  | cons p slots ih =>
    rw [Slots.regs, List.map_cons, List.mem_cons, not_or] at hr
    rw [loadAll_cons, ih hr.2, State.get_set_of_ne hr.1]

theorem loadAll_get (hbase : KeepsBase s base slots) (hregs : slots.regs.Nodup) {p : Reg × Word}
    (hp : p ∈ slots) (h0 : p.1 ≠ 0) :
    (s.execAll (loadAll base slots)).get p.1 = s.mem (s.get base + p.2) := by
  induction slots generalizing s with
  | nil => cases hp
  | cons q slots ih =>
    obtain ⟨hq, hregs⟩ := List.nodup_cons.mp hregs
    rw [loadAll_cons]
    rcases List.mem_cons.mp hp with rfl | hp
    · rw [loadAll_get_of_not_mem hq, State.get_set_self h0]
    · rw [ih hbase.tail hregs hp, hbase.set, State.set_mem]

end

/-! ## 2. A frame on the stack -/

/-- `addi sp, sp, -size`, and the registers stored. -/
def prologue (size : Word) (slots : Slots) : List Instr :=
  .addi sp sp (-size) :: saveAll sp slots

/-- The registers loaded, and `addi sp, sp, size`. -/
def epilogue (size : Word) (slots : Slots) : List Instr :=
  loadAll sp slots ++ [.addi sp sp size]

/-- How many bytes a frame has, and where in it which registers are saved. -/
structure FrameShape where
  size : Word
  slots : Slots
  regs_nodup : slots.regs.Nodup
  offsets_nodup : slots.offsets.Nodup
  inside : ∀ p ∈ slots, p.2 < size

namespace FrameShape

variable (f : FrameShape) {s : State}

theorem prologue_sp : (s.execAll (prologue f.size f.slots)).get sp = s.get sp - f.size := by
  change ((s.set sp (s.get sp + -f.size)).execAll (saveAll sp f.slots)).get sp = _
  rw [saveAll_get, State.get_set_self (by decide), BitVec.sub_eq_add_neg]

theorem prologue_get {r : Reg} (hr : r ≠ sp) :
    (s.execAll (prologue f.size f.slots)).get r = s.get r := by
  change ((s.set sp (s.get sp + -f.size)).execAll (saveAll sp f.slots)).get r = _
  rw [saveAll_get, State.get_set_of_ne hr]

/-- Every register is saved in its slot: the stack pointer as it is below the frame, all others
as they were. -/
theorem prologue_mem : (s.execAll (prologue f.size f.slots)).mem =
    writeAll s.mem (s.get sp - f.size)
      (fun r => if r = sp then s.get sp - f.size else s.get r) f.slots := by
  have hbase : (s.set sp (s.get sp + -f.size)).get sp = s.get sp - f.size := by
    rw [State.get_set_self (by decide), BitVec.sub_eq_add_neg]
  have hget : (s.set sp (s.get sp + -f.size)).get =
      fun r => if r = sp then s.get sp - f.size else s.get r := by
    funext r
    split
    · next he => rw [he, hbase]
    · next he => exact State.get_set_of_ne he
  change ((s.set sp (s.get sp + -f.size)).execAll (saveAll sp f.slots)).mem = _
  rw [saveAll_mem, hbase, hget, State.set_mem]

theorem epilogue_mem : (s.execAll (epilogue f.size f.slots)).mem = s.mem := by
  rw [epilogue, State.execAll_append]
  exact loadAll_mem

theorem epilogue_sp (hbase : KeepsBase s sp f.slots) :
    (s.execAll (epilogue f.size f.slots)).get sp = s.get sp + f.size := by
  have hsp : (s.execAll (loadAll sp f.slots)).get sp = s.get sp := by
    by_cases hmem : sp ∈ f.slots.regs
    · obtain ⟨p, hp, hr⟩ := List.mem_map.mp hmem
      have hload := loadAll_get hbase f.regs_nodup hp (by rw [hr]; decide)
      rw [hbase p hp hr, hr] at hload
      exact hload
    · exact loadAll_get_of_not_mem hmem
  rw [epilogue, State.execAll_append]
  change ((s.execAll (loadAll sp f.slots)).set sp _).get sp = _
  rw [State.get_set_self (by decide), hsp]

theorem epilogue_get_of_not_mem {r : Reg} (hr : r ∉ f.slots.regs) (hsp : r ≠ sp) :
    (s.execAll (epilogue f.size f.slots)).get r = s.get r := by
  rw [epilogue, State.execAll_append]
  change ((s.execAll (loadAll sp f.slots)).set sp _).get r = _
  rw [State.get_set_of_ne hsp, loadAll_get_of_not_mem hr]

theorem epilogue_get (hbase : KeepsBase s sp f.slots) {p : Reg × Word} (hp : p ∈ f.slots)
    (h0 : p.1 ≠ 0) (hsp : p.1 ≠ sp) :
    (s.execAll (epilogue f.size f.slots)).get p.1 = s.mem (s.get sp + p.2) := by
  rw [epilogue, State.execAll_append]
  change ((s.execAll (loadAll sp f.slots)).set sp _).get p.1 = _
  rw [State.get_set_of_ne hsp, loadAll_get hbase f.regs_nodup hp h0]

end FrameShape

end Rv64
