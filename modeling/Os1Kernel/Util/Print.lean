/-
# Printing integers

`mPrint.cpp`: `mConvertInt` with its loops, one for each way to divide by the base, `mStringToInt`
and `mPrintInt_nonatom`.  An array is a vector of its length, and a store outside it fails.  `int`
and `uint` have 32 bits, `uint64` and `long` 64, and all arithmetic goes round.

* `mConvertInt_numeral`: for every value, base and sign, what is stored is the numeral, with a sign
  if there is one.  The four loops differ in how they divide: by a multiplication with a reciprocal
  and a correction, by a mask and a shift, and by a division.  Each is shown to divide (`Divides`),
  and `digitLoop_eq` is the loop for anything that does.
* `mPrintInt_fits`: the array of 16 characters suffices exactly for the values that are below a
  certain power of the base, one less if there is a sign.
* `mStringToInt` reads a numeral back.
-/
import Os1Kernel.Kernel.State
import Os1Kernel.Lib.Numeral

namespace Os1Kernel

open Numeral

variable {n : Nat}

/-! ## 1. The code -/

/-- `static const char digits[] = "0123456789ABCDEF"` -/
def digitChars : Vector UInt8 17 :=
  #v[48, 49, 50, 51, 52, 53, 54, 55, 56, 57, 65, 66, 67, 68, 69, 70, 0]

/-- `buf[i] = c` -/
def store (buf : Vector UInt8 n) (i : Nat) (c : UInt8) : Option (Vector UInt8 n) :=
  if h : i < n then some (buf.set i c) else none

/-- `do { buf[i++] = digits[...]; } while (... != 0)`: one pass finds the index of the digit and the
next value.  The loop is not run more than `fuel` times. -/
def digitLoop {α : Type} [OfNat α 0] [DecidableEq α] (pass : α → Option (Nat × α)) :
    Nat → Vector UInt8 n → Nat → α → Option (Vector UInt8 n × Nat)
  | 0, _, _, _ => none
  | fuel + 1, buf, i, x => do
    let (d, x) ← pass x
    let buf ← store buf i (← digitChars[d]?)
    if x ≠ 0 then digitLoop pass fuel buf (i + 1) x else pure (buf, i + 1)

/-- `FACTOR_32` -/
def FACTOR_32 : UInt64 := 429496730

/-- `while (r < 0) q--, r+=10;`, with the condition looked at no more than `fuel` times. -/
def correct : Nat → UInt64 → Int64 → Option (UInt64 × Int64)
  | 0, _, _ => none
  | fuel + 1, q, r => if r < 0 then correct fuel (q - 1) (r + 10) else some (q, r)

/-- A pass of the loop for base 10. -/
def tenPass (xl : UInt64) : Option (Nat × UInt64) := do
  let q : UInt64 := (FACTOR_32 * xl) >>> 32
  let r : UInt64 := xl - 10 * q
  let (q, r) ← correct 2 q r.toInt64
  pure (r.toNatClampNeg, q)

/-- A pass of the loops for the bases 16, 8, 4 and 2. -/
def maskPass (mask shift x : UInt32) : Option (Nat × UInt32) :=
  some ((x &&& mask).toNat, x >>> shift)

/-- A pass of the loop for the other bases. -/
def divPass (base : UInt32) (x : UInt32) : Option (Nat × UInt32) :=
  some ((x % base).toNat, x / base)

/-- `neg` -/
def isNeg (xx sgn : Int32) : Bool := sgn ≠ 0 && xx < 0

/-- `x` -/
def magnitude (xx sgn : Int32) : UInt32 := if isNeg xx sgn then (-xx).toUInt32 else xx.toUInt32

/-- The passes after which a loop over a value of 32 bits has ended. -/
def intBits : Nat := 32

/-- The `switch` of `mConvertInt`. -/
def convertDigits (buf : Vector UInt8 n) (base : Int32) (x : UInt32) :
    Option (Vector UInt8 n × Nat) :=
  if base = 10 then digitLoop tenPass intBits buf 0 x.toUInt64
  else if base = 16 then digitLoop (maskPass 0x0f 4) intBits buf 0 x
  else if base = 8 then digitLoop (maskPass 0x07 3) intBits buf 0 x
  else if base = 4 then digitLoop (maskPass 0x03 2) intBits buf 0 x
  else if base = 2 then digitLoop (maskPass 0x01 1) intBits buf 0 x
  else digitLoop (divPass base.toUInt32) intBits buf 0 x

/-- `mConvertInt` -/
def mConvertInt (buf : Vector UInt8 n) (xx base sgn : Int32) : Option (Vector UInt8 n × Nat) := do
  let neg := isNeg xx sgn
  let x := magnitude xx sgn
  if base < 2 ∨ base > 16 then return (buf, 0)
  let (buf, i) ← convertDigits buf base x
  if neg then return (← store buf i 45, i + 1)
  return (buf, i)

/-- `mStringToInt` -/
def mStringToInt (s : CString) : Int32 := go 0 s
where
  go (n : Int32) : CString → Int32
    | [] => n
    | c :: s => if 48 ≤ c ∧ c ≤ 57 then go (n * 10 + Int32.ofNat c.toNat - 48) s else n

/-- The characters that `mPrintInt_nonatom` passes to `putc`; `buf` is the array on its stack. -/
def mPrintInt_nonatom (buf : Vector UInt8 16) (xx base sgn : Int32) : Option (List UInt8) := do
  let (buf, i) ← mConvertInt buf xx base sgn
  pure (buf.toList.take i).reverse

/-! ## 2. Storing characters -/

/-- Some characters are stored one behind the other. -/
def storeAll : Vector UInt8 n → Nat → List UInt8 → Option (Vector UInt8 n)
  | buf, _, [] => some buf
  | buf, i, c :: l => (store buf i c).bind fun buf => storeAll buf (i + 1) l

theorem storeAll_append (buf : Vector UInt8 n) (i : Nat) (l l' : List UInt8) :
    storeAll buf i (l ++ l') =
      (storeAll buf i l).bind fun buf => storeAll buf (i + l.length) l' := by
  induction l generalizing buf i with
  | nil => rfl
  | cons c l ih =>
    cases hs : store buf i c with
    | none => simp [storeAll, hs]
    | some buf' =>
      simp only [List.cons_append, storeAll, hs, Option.bind_some, ih, List.length_cons]
      rw [Nat.add_assoc, Nat.add_comm 1]

theorem storeAll_none (buf : Vector UInt8 n) {i : Nat} {l : List UInt8} (hi : i ≤ n)
    (hl : n < i + l.length) : storeAll buf i l = none := by
  induction l generalizing buf i with
  | nil => exact absurd hl (Nat.not_lt.mpr hi)
  | cons c l ih =>
    rw [storeAll, store]
    split
    · next h => exact ih (buf.set i c) h (by rw [List.length_cons] at hl; omega)
    · rfl

/-- What is stored stands in the array, and nothing else has changed. -/
theorem storeAll_some (buf : Vector UInt8 n) {i : Nat} {l : List UInt8} (hl : i + l.length ≤ n) :
    ∃ buf', storeAll buf i l = some buf' ∧
      buf'.toList = buf.toList.take i ++ l ++ buf.toList.drop (i + l.length) := by
  induction l generalizing buf i with
  | nil => exact ⟨buf, rfl, by simp⟩
  | cons c l ih =>
    rw [List.length_cons] at hl
    have hi : i < n := by omega
    obtain ⟨buf', hs, hb⟩ := ih (buf.set i c) (i := i + 1) (by omega)
    refine ⟨buf', ?_, ?_⟩
    · rw [storeAll, store, dif_pos hi]
      exact hs
    · have hlen : i < buf.toList.length := by rwa [Vector.length_toList]
      rw [hb, Vector.toList_set, List.drop_set_of_lt (by omega), List.take_add_one,
        List.getElem?_set_self hlen, List.take_set_of_le (Nat.le_refl i), List.append_assoc,
        List.append_assoc, List.append_assoc, List.length_cons, Nat.add_assoc, Nat.add_comm 1]
      rfl

/-! ## 3. One pass -/

/-- The character of a digit. -/
def digitChar (d : Nat) : UInt8 := UInt8.ofNat (if d < 10 then 48 + d else 55 + d)

theorem digitChars_get {d : Nat} (hd : d < 16) : digitChars[d]? = some (digitChar d) := by
  revert d
  decide

/-- A pass divides by `b`, for the values that satisfy `P`. -/
structure Divides {α : Type} [OfNat α 0] (pass : α → Option (Nat × α)) (b : Nat) (P : α → Prop)
    (val : α → Nat) : Prop where
  pass : ∀ x, P x → ∃ x', pass x = some (val x % b, x') ∧ val x' = val x / b ∧ P x'
  zero : ∀ x, x = 0 ↔ val x = 0

theorem maskPass_divides {mask shift : UInt32} {k : Nat} (hm : mask.toNat = 2 ^ k - 1)
    (hk : shift.toNat = k) (hlt : k < 32) :
    Divides (maskPass mask shift) (2 ^ k) (fun _ => True) UInt32.toNat where
  pass x _ := by
    refine ⟨x >>> shift, ?_, ?_, trivial⟩
    · rw [maskPass, UInt32.toNat_and, hm, Nat.and_two_pow_sub_one_eq_mod]
    · rw [UInt32.toNat_shiftRight, hk, Nat.mod_eq_of_lt hlt, Nat.shiftRight_eq_div_pow]
  zero x := UInt32.toNat_inj.symm

theorem divPass_divides (base : UInt32) :
    Divides (divPass base) base.toNat (fun _ => True) UInt32.toNat where
  pass x _ := ⟨x / base, by rw [divPass, UInt32.toNat_mod], UInt32.toNat_div x base, trivial⟩
  zero x := UInt32.toNat_inj.symm

theorem toInt_toInt64 (x : UInt64) : x.toInt64.toInt = (x.toNat : Int).bmod (2 ^ 64) :=
  BitVec.toInt_eq_toNat_bmod x.toBitVec

/-- The product with `FACTOR_32` is at most one too large. -/
theorem factor_div {x : Nat} (hx : x < 2 ^ 32) : 429496730 * x / 2 ^ 32 = x / 10 ∨
    429496730 * x / 2 ^ 32 = x / 10 + 1 := by
  omega

/-- The remainder that goes with the quotient `q`, before it is corrected. -/
theorem remainder_toInt {x q : UInt64} (hx : x.toNat < 2 ^ 32) (hq : 10 * q.toNat ≤ x.toNat + 10) :
    (x - 10 * q).toInt64.toInt = (x.toNat : Int) - 10 * q.toNat := by
  have hmul : (10 * q).toNat = 10 * q.toNat := by
    rw [UInt64.toNat_mul]
    exact Nat.mod_eq_of_lt (show 10 * q.toNat < 2 ^ 64 by omega)
  rw [toInt_toInt64, UInt64.toNat_sub, hmul, Int.bmod]
  omega

theorem tenPass_divides : Divides tenPass 10 (fun x => x.toNat < 2 ^ 32) UInt64.toNat where
  pass x hx := by
    obtain ⟨q, hq⟩ : ∃ q, q = (FACTOR_32 * x) >>> 32 := ⟨_, rfl⟩
    have hqn : q.toNat = 429496730 * x.toNat / 2 ^ 32 := by
      rw [hq, UInt64.toNat_shiftRight, UInt64.toNat_mul, Nat.shiftRight_eq_div_pow]
      rw [Nat.mod_eq_of_lt (show FACTOR_32.toNat * x.toNat < 2 ^ 64 by
        show 429496730 * x.toNat < 2 ^ 64
        omega)]
      rfl
    have hr := remainder_toInt hx (q := q) (by omega)
    rw [tenPass, ← hq]
    rcases factor_div hx with hd | hd
    · rw [← hqn] at hd
      have hnonneg : ¬ (x - 10 * q).toInt64 < 0 := by
        rw [Int64.lt_iff_toInt_lt, hr, Int64.toInt_zero]
        omega
      refine ⟨q, ?_, hd, by omega⟩
      simp only [correct, if_neg hnonneg]
      show some ((x - 10 * q).toInt64.toInt.toNat, q) = _
      rw [hr]
      congr 2
      omega
    · rw [← hqn] at hd
      have hneg : (x - 10 * q).toInt64 < 0 := by
        rw [Int64.lt_iff_toInt_lt, hr, Int64.toInt_zero]
        omega
      have hr' : ((x - 10 * q).toInt64 + 10).toInt = (x.toNat : Int) - 10 * q.toNat + 10 := by
        rw [Int64.toInt_add, hr, show (10 : Int64).toInt = 10 from rfl, Int.bmod]
        omega
      have hnonneg : ¬ (x - 10 * q).toInt64 + 10 < 0 := by
        rw [Int64.lt_iff_toInt_lt, hr', Int64.toInt_zero]
        omega
      have hq' : (q - 1).toNat = q.toNat - 1 := by
        rw [UInt64.toNat_sub_of_le _ _ (UInt64.le_iff_toNat_le.mpr (by rw [hd]; exact Nat.succ_pos _))]
        rfl
      refine ⟨q - 1, ?_, by omega, by omega⟩
      simp only [correct, if_pos hneg, if_neg hnonneg]
      show some (((x - 10 * q).toInt64 + 10).toInt.toNat, q - 1) = _
      rw [hr']
      congr 2
      omega
  zero x := UInt64.toNat_inj.symm

/-! ## 4. The loops -/

/-- The numeral of `x`, as it is stored. -/
def numeralChars (b x : Nat) : List UInt8 := (numeral b x).map digitChar

theorem digitLoop_eq {α : Type} [OfNat α 0] [DecidableEq α] {pass : α → Option (Nat × α)} {b : Nat}
    {P : α → Prop} {val : α → Nat} (h : Divides pass b P val) (hb : 2 ≤ b) (hb' : b ≤ 16)
    {fuel : Nat} {x : α} (hP : P x) (hf : val x < 2 ^ fuel) (h1 : 1 ≤ fuel) (buf : Vector UInt8 n)
    (i : Nat) : digitLoop pass fuel buf i x =
      (storeAll buf i (numeralChars b (val x))).map
        fun buf => (buf, i + (numeralChars b (val x)).length) := by
  induction fuel generalizing buf i x with
  | zero => cases h1
  | succ fuel ih =>
    obtain ⟨x', hpass, hval, hP'⟩ := h.pass x hP
    have hd : val x % b < 16 := (Nat.mod_lt _ (by omega)).trans_le hb'
    rw [digitLoop, hpass]
    simp only [Option.bind_eq_bind, Option.bind_some, digitChars_get hd]
    by_cases hx : x' = 0
    · have hz : val x / b = 0 := by rw [← hval, (h.zero x').mp hx]
      rw [numeralChars, numeral_last hz]
      cases hs : store buf i (digitChar (val x % b)) <;> simp [storeAll, hs, hx]
    · have hz : val x / b ≠ 0 := by
        rw [← hval]
        exact fun he => hx ((h.zero x').mpr he)
      have hlt : val x' < 2 ^ fuel := by
        rw [hval]
        refine Nat.div_lt_of_lt_mul (hf.trans_le ?_)
        rw [Nat.pow_succ, Nat.mul_comm]
        exact Nat.mul_le_mul_right _ hb
      have h1' : 1 ≤ fuel := by
        by_contra hf0
        have : fuel = 0 := by omega
        rw [this, hval, Nat.pow_zero] at hlt
        omega
      rw [numeralChars, numeral_step hb hz, List.map_cons, storeAll]
      cases hs : store buf i (digitChar (val x % b)) with
      | none => rfl
      | some buf' =>
        simp only [Option.bind_some, ne_eq, hx, not_false_eq_true, if_true, List.length_cons]
        rw [ih hP' hlt h1', hval, Nat.add_assoc, Nat.add_comm 1]
        rfl

/-! ## 5. `mConvertInt` -/

/-- What `mConvertInt` stores: the numeral of the value, and the sign behind it. -/
def intChars (xx base sgn : Int32) : List UInt8 :=
  numeralChars base.toNatClampNeg (magnitude xx sgn).toNat ++ if isNeg xx sgn then [45] else []

theorem base_toNat {base : Int32} (h : 2 ≤ base) (h' : base ≤ 16) :
    base.toUInt32.toNat = base.toNatClampNeg ∧ 2 ≤ base.toNatClampNeg ∧ base.toNatClampNeg ≤ 16 := by
  have h2 : 2 ≤ base.toInt := Int32.le_iff_toInt_le.mp h
  have h16 : base.toInt ≤ 16 := Int32.le_iff_toInt_le.mp h'
  have hn : base.toNatClampNeg = base.toInt.toNat := rfl
  refine ⟨Int32.toNat_toUInt32_of_le (Int32.le_iff_toInt_le.mpr ?_), by omega, by omega⟩
  rw [Int32.toInt_zero]
  omega

/-- Every branch divides by the base. -/
theorem convertDigits_eq (buf : Vector UInt8 n) (x : UInt32) {base : Int32} (h : 2 ≤ base)
    (h' : base ≤ 16) : convertDigits buf base x =
      (storeAll buf 0 (numeralChars base.toNatClampNeg x.toNat)).map
        fun buf => (buf, (numeralChars base.toNatClampNeg x.toNat).length) := by
  have hx : x.toNat < 2 ^ intBits := x.toNat_lt
  have hmask : ∀ {mask shift : UInt32} {k : Nat}, mask.toNat = 2 ^ k - 1 → shift.toNat = k →
      1 ≤ k → k ≤ 4 → digitLoop (maskPass mask shift) intBits buf 0 x =
        (storeAll buf 0 (numeralChars (2 ^ k) x.toNat)).map
          fun buf => (buf, 0 + (numeralChars (2 ^ k) x.toNat).length) := fun hm hk h1 h4 =>
    digitLoop_eq (maskPass_divides hm hk (by omega)) (Nat.pow_le_pow_right Nat.two_pos h1)
      (Nat.pow_le_pow_right Nat.two_pos h4) trivial hx (by decide) buf 0
  unfold convertDigits
  by_cases h10 : base = 10
  · subst h10
    rw [if_pos rfl, digitLoop_eq (x := x.toUInt64) tenPass_divides (by decide)
      (by decide) hx hx (by decide), Nat.zero_add]
    rfl
  rw [if_neg h10]
  by_cases h16 : base = 16
  · subst h16
    rw [if_pos rfl, hmask (k := 4) rfl rfl (by decide) (by decide), Nat.zero_add]
    rfl
  rw [if_neg h16]
  by_cases h8 : base = 8
  · subst h8
    rw [if_pos rfl, hmask (k := 3) rfl rfl (by decide) (by decide), Nat.zero_add]
    rfl
  rw [if_neg h8]
  by_cases h4 : base = 4
  · subst h4
    rw [if_pos rfl, hmask (k := 2) rfl rfl (by decide) (by decide), Nat.zero_add]
    rfl
  rw [if_neg h4]
  by_cases h2 : base = 2
  · subst h2
    rw [if_pos rfl, hmask (k := 1) rfl rfl (by decide) (by decide), Nat.zero_add]
    rfl
  rw [if_neg h2]
  have hb := base_toNat h h'
  rw [digitLoop_eq (divPass_divides base.toUInt32) (by omega) (by omega) trivial hx (by decide), hb.1,
    Nat.zero_add]

theorem mConvertInt_eq (buf : Vector UInt8 n) (xx sgn : Int32) {base : Int32} (h : 2 ≤ base)
    (h' : base ≤ 16) : mConvertInt buf xx base sgn =
      (storeAll buf 0 (intChars xx base sgn)).map
        fun buf => (buf, (intChars xx base sgn).length) := by
  have hrange : ¬ (base < 2 ∨ base > 16) := by
    rw [not_or, Int32.not_lt, gt_iff_lt, Int32.not_lt]
    exact ⟨h, h'⟩
  unfold mConvertInt intChars
  simp only [if_neg hrange, convertDigits_eq buf _ h h', storeAll_append, Nat.zero_add]
  cases storeAll buf 0 (numeralChars base.toNatClampNeg (magnitude xx sgn).toNat) with
  | none => rfl
  | some buf' =>
    by_cases hn : isNeg xx sgn
    · cases hs : store buf' (numeralChars base.toNatClampNeg (magnitude xx sgn).toNat).length 45 <;>
        simp [hn, storeAll, hs]
    · simp [hn, storeAll]

/-! ## 6. Reading back -/

/-- The digit that a character stands for. -/
def digitValue (c : UInt8) : Nat := if c < 58 then c.toNat - 48 else c.toNat - 55

theorem digitValue_digitChar {d : Nat} (hd : d < 16) : digitValue (digitChar d) = d := by
  revert d
  decide

theorem map_digitValue {b : Nat} (hb : 2 ≤ b) (hb' : b ≤ 16) (x : Nat) :
    (numeralChars b x).map digitValue = numeral b x := by
  rw [numeralChars, List.map_map]
  refine (List.map_congr_left fun d hd => ?_).trans (List.map_id _)
  exact digitValue_digitChar ((lt_of_mem_numeral hb hd).trans_le hb')

theorem mStringToInt_go {l : List Nat} (hl : ∀ d ∈ l, d < 10) (v : Nat) :
    mStringToInt.go (Int32.ofNat v) (l.map digitChar) =
      Int32.ofNat (l.foldl (fun n d => n * 10 + d) v) := by
  induction l generalizing v with
  | nil => rfl
  | cons d l ih =>
    have hd : d < 10 := hl d List.mem_cons_self
    have hc : (digitChar d).toNat = 48 + d := by
      rw [digitChar, if_pos hd, UInt8.toNat_ofNat_of_lt' (show 48 + d < 2 ^ 8 by omega)]
    have hdigit : 48 ≤ digitChar d ∧ digitChar d ≤ 57 := by
      rw [UInt8.le_iff_toNat_le, UInt8.le_iff_toNat_le, hc]
      exact ⟨Nat.le_add_right 48 d, by show 48 + d ≤ 57; omega⟩
    rw [List.map_cons, mStringToInt.go, if_pos hdigit, hc, List.foldl_cons,
      ← ih (fun d hd => hl d (List.mem_cons_of_mem _ hd))]
    congr 1
    rw [Nat.add_comm 48, Int32.ofNat_add d 48, ← Int32.add_assoc, Int32.ofNat_add, Int32.ofNat_mul]
    exact Int32.add_sub_cancel _ _

theorem magnitude_toNat (xx sgn : Int32) : (magnitude xx sgn).toNat =
    if isNeg xx sgn then xx.toInt.natAbs else (xx.toInt % 2 ^ 32).toNat := by
  have hx : xx.toInt = if 2 * xx.toUInt32.toNat < 2 ^ 32 then (xx.toUInt32.toNat : Int)
      else xx.toUInt32.toNat - (2 ^ 32 : Nat) := BitVec.toInt_eq_toNat_cond xx.toBitVec
  have hlt := xx.toUInt32.toNat_lt
  unfold magnitude
  split
  · next hn =>
    have hneg : xx.toInt < 0 := by
      have : xx < 0 := by simpa using (Bool.and_eq_true_iff.mp hn).2
      exact Int32.lt_iff_toInt_lt.mp this
    have h : (-xx).toUInt32.toNat = (2 ^ 32 - xx.toUInt32.toNat) % 2 ^ 32 :=
      BitVec.toNat_neg xx.toBitVec
    rw [h]
    split at hx <;> omega
  · split at hx <;> omega

/-! ## 7. Results -/

theorem intChars_length (xx base sgn : Int32) : (intChars xx base sgn).length =
    (numeral base.toNatClampNeg (magnitude xx sgn).toNat).length +
      if isNeg xx sgn then 1 else 0 := by
  rw [intChars, List.length_append, numeralChars, List.length_map]
  split <;> rfl

theorem isNeg_iff {xx sgn : Int32} : isNeg xx sgn = true ↔ sgn ≠ 0 ∧ xx < 0 := by
  simp [isNeg]

theorem mStringToInt_numeral {xx : Int32} (hx : 0 ≤ xx) (sgn : Int32) :
    mStringToInt (intChars xx 10 sgn).reverse = xx := by
  have hneg : isNeg xx sgn = false := by
    rw [← Bool.not_eq_true, isNeg_iff, not_and]
    exact fun _ => Int32.not_lt.mpr hx
  have hmag : (magnitude xx sgn).toNat = xx.toNatClampNeg := by
    rw [magnitude, hneg]
    exact Int32.toNat_toUInt32_of_le hx
  rw [intChars, hneg, if_neg Bool.false_ne_true, List.append_nil, numeralChars, ← List.map_reverse,
    mStringToInt]
  refine (mStringToInt_go (fun d hd => ?_) 0).trans ?_
  · exact lt_of_mem_numeral (by decide) (List.mem_reverse.mp hd)
  · have hvalue := value_reverse_numeral (b := 10) (by decide) (magnitude xx sgn).toNat
    rw [value] at hvalue
    rw [show (10 : Int32).toNatClampNeg = 10 from rfl, hvalue, hmag, Int32.ofNat_toNatClampNeg xx hx]

/-- **`mConvertInt` writes the numeral that plain division gives**, and the sign behind it; it is
read back to the same value. -/
theorem mConvertInt_numeral (buf : Vector UInt8 n) (xx sgn : Int32) {base : Int32} (h : 2 ≤ base)
    (h' : base ≤ 16) (hn : (intChars xx base sgn).length ≤ n) :
    (∃ buf', mConvertInt buf xx base sgn = some (buf', (intChars xx base sgn).length) ∧
      buf'.toList = intChars xx base sgn ++ buf.toList.drop (intChars xx base sgn).length) ∧
    (intChars xx base sgn).length ≤ 33 ∧
    (magnitude xx sgn).toNat =
      (if sgn ≠ 0 ∧ xx < 0 then xx.toInt.natAbs else (xx.toInt % 2 ^ 32).toNat) ∧
    value base.toNatClampNeg
      ((numeralChars base.toNatClampNeg (magnitude xx sgn).toNat).reverse.map digitValue) =
        (magnitude xx sgn).toNat ∧
    (0 ≤ xx → mStringToInt (intChars xx 10 sgn).reverse = xx) ∧
    ∀ x : UInt64, x.toNat < 2 ^ 32 →
      ∃ q, tenPass x = some (x.toNat % 10, q) ∧ q.toNat = x.toNat / 10 := by
  obtain ⟨-, hb, hb'⟩ := base_toNat h h'
  refine ⟨?_, ?_, ?_, ?_, fun hx => mStringToInt_numeral hx sgn, fun x hx => ?_⟩
  · obtain ⟨buf', hs, hl⟩ := storeAll_some buf (i := 0) (by rwa [Nat.zero_add])
    refine ⟨buf', ?_, ?_⟩
    · rw [mConvertInt_eq buf xx sgn h h', hs]
      rfl
    · rw [hl, List.take_zero, List.nil_append, Nat.zero_add]
  · have hlen : (numeral base.toNatClampNeg (magnitude xx sgn).toNat).length ≤ 32 := by
      refine (numeral_length_le_iff hb (by decide)).mpr ?_
      exact (magnitude xx sgn).toNat_lt.trans_le (Nat.pow_le_pow_left hb 32)
    rw [intChars_length]
    split <;> omega
  · rw [magnitude_toNat]
    exact if_congr isNeg_iff rfl rfl
  · rw [List.map_reverse, map_digitValue hb hb', value_reverse_numeral hb]
  · obtain ⟨q, hq, hq', -⟩ := tenPass_divides.pass x hx
    exact ⟨q, hq, hq'⟩

theorem mConvertInt_numeral_min : ∃ buf', mConvertInt (Vector.replicate 33 0) Int32.minValue 2 1 =
    some (buf', (intChars Int32.minValue 2 1).length) := by
  obtain ⟨⟨buf', h, -⟩, -⟩ := mConvertInt_numeral (Vector.replicate 33 0) Int32.minValue 1
    (show (2 : Int32) ≤ 2 by decide) (by decide) (by decide +kernel)
  exact ⟨buf', h⟩

/-- What is printed is what was stored, the last character first. -/
theorem mPrintInt_text (buf : Vector UInt8 16) (xx sgn : Int32) {base : Int32} (h : 2 ≤ base)
    (h' : base ≤ 16) (hl : (intChars xx base sgn).length ≤ 16) :
    mPrintInt_nonatom buf xx base sgn = some (intChars xx base sgn).reverse := by
  obtain ⟨buf', hs, hb⟩ := storeAll_some buf (i := 0) (by rwa [Nat.zero_add])
  rw [List.take_zero, List.nil_append] at hb
  rw [mPrintInt_nonatom, mConvertInt_eq buf xx sgn h h', hs]
  show some (buf'.toList.take _).reverse = _
  rw [hb, List.take_left]

/-- **`mPrintInt_nonatom` stays within its array exactly for the numerals that fit.** -/
theorem mPrintInt_fits (buf : Vector UInt8 16) (xx base sgn : Int32) :
    (mPrintInt_nonatom buf xx base sgn).isSome ↔ (2 ≤ base → base ≤ 16 →
      if sgn ≠ 0 ∧ xx < 0 then xx.toInt.natAbs < base.toNatClampNeg ^ 15
      else (xx.toInt % 2 ^ 32).toNat < base.toNatClampNeg ^ 16) := by
  have hsome : (mPrintInt_nonatom buf xx base sgn).isSome =
      (mConvertInt buf xx base sgn).isSome := by
    rw [mPrintInt_nonatom]
    cases mConvertInt buf xx base sgn <;> rfl
  rw [hsome]
  by_cases hrange : 2 ≤ base ∧ base ≤ 16
  · obtain ⟨h, h'⟩ := hrange
    obtain ⟨-, hb, -⟩ := base_toNat h h'
    have hfit : (mConvertInt buf xx base sgn).isSome ↔ (intChars xx base sgn).length ≤ 16 := by
      rw [mConvertInt_eq buf xx sgn h h', Option.isSome_map]
      by_cases hl : (intChars xx base sgn).length ≤ 16
      · obtain ⟨buf', hs, -⟩ := storeAll_some buf (i := 0) (by rwa [Nat.zero_add])
        simp [hs, hl]
      · rw [storeAll_none buf (Nat.zero_le 16) (by omega)]
        simp [hl]
    have hmag := magnitude_toNat xx sgn
    rw [hfit, intChars_length]
    by_cases hn : isNeg xx sgn = true
    · rw [if_pos hn] at hmag ⊢
      rw [if_pos (isNeg_iff.mp hn), hmag, ← numeral_length_le_iff hb (by decide)]
      exact ⟨fun hl _ _ => by omega, fun hl => Nat.succ_le_succ (hl h h')⟩
    · rw [if_neg hn] at hmag ⊢
      rw [if_neg fun hc => hn (isNeg_iff.mpr hc), hmag, ← numeral_length_le_iff hb (by decide)]
      exact ⟨fun hl _ _ => hl, fun hl => hl h h'⟩
  · have hout : base < 2 ∨ base > 16 := by
      by_contra hc
      rw [not_or, gt_iff_lt, Int32.not_lt, Int32.not_lt] at hc
      exact hrange hc
    rw [mConvertInt]
    simp only [if_pos hout]
    exact ⟨fun _ h h' => absurd ⟨h, h'⟩ hrange, fun _ => rfl⟩

/-- The seventeen digits of 65536 in base 2. -/
theorem mPrintInt_leaves : ¬ ∀ (buf : Vector UInt8 16) (xx base sgn : Int32),
    (mPrintInt_nonatom buf xx base sgn).isSome := fun h =>
  absurd (h (Vector.replicate 16 0) 65536 2 0) (by decide +kernel)

end Os1Kernel
