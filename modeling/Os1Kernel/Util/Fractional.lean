/-
# Fractions in decimal

`countDigits` and `Fractional` (`arithmetics.hpp`), and `mPrintFractional_nonatom`
(`mPrintUtils.hpp`).  With at least one decimal place, the fraction is the decimal expansion of the
quotient, cut off; with none, the number of its leading zeros goes round.

`Expands` says what the three members should be: the whole part, the digits behind the point as a
number, and how many zeros stand before it.  The constructor computes the number of zeros as the
number of places less the number of digits of that number, and 0 has one digit: with no place that
is one too many, and the subtraction wraps (`fractional_no_places`).  With a place there are at
least as many places as digits, since the number is below the power of ten.
-/
import Os1Kernel.Util.Print

namespace Os1Kernel

open Numeral

/-! ## 1. The code -/

/-- The loop of `countDigits`. -/
def countDigitsFrom (x i : UInt64) : UInt64 :=
  if _h : x / 10 ≠ 0 then countDigitsFrom (x / 10) (i + 1) else i
termination_by x.toNat
decreasing_by
  have hdiv : (x / 10).toNat = x.toNat / 10 := UInt64.toNat_div x 10
  have hpos : (x / 10).toNat ≠ 0 := fun he => _h (UInt64.toNat_inj.mp he)
  omega

/-- `countDigits` -/
def countDigits (x : UInt64) : UInt64 := countDigitsFrom x 1

/-- `Fractional`; `part` is its member `partial`. -/
structure Fractional where
  whole : UInt64
  part : UInt64
  zeros : UInt64

/-- `for (uint64 i = 0; i < decimalPlaces; i++) f *= 10;` -/
def powerOfTen (decimalPlaces : UInt64) : UInt64 := (fun f => f * 10)^[decimalPlaces.toNat] 1

/-- `Fractional::Fractional` -/
def Fractional.construct (dividend divisor decimalPlaces : UInt64) : Fractional :=
  let f := powerOfTen decimalPlaces
  let D := dividend * f / divisor
  { whole := D / f, part := D % f, zeros := decimalPlaces - countDigits (D % f) }

/-- The characters that `mPrintFractional_nonatom` passes to `putc`; the buffers are the arrays of
its two calls of `mPrintInt_nonatom`, which take an `int`. -/
def mPrintFractional_nonatom (buf buf' : Vector UInt8 16) (frac : Fractional) :
    Option (List UInt8) := do
  let whole ← mPrintInt_nonatom buf frac.whole.toUInt32.toInt32 10 0
  let part ← mPrintInt_nonatom buf' frac.part.toUInt32.toInt32 10 0
  pure (whole ++ 46 :: (List.replicate frac.zeros.toNat 48 ++ part))

/-! ## 2. The statement -/

/-- `text` is the decimal numeral of `x`. -/
def IsDecimal (text : List UInt8) (x : Nat) : Prop :=
  text = (numeralChars 10 x).reverse ∧ value 10 (text.map digitValue) = x

/-- `frac` is the quotient with this many decimal places, cut off. -/
structure Fractional.Expands (dividend divisor decimalPlaces : UInt64) (frac : Fractional) :
    Prop where
  value : frac.whole.toNat * 10 ^ decimalPlaces.toNat + frac.part.toNat =
    dividend.toNat * 10 ^ decimalPlaces.toNat / divisor.toNat
  part : frac.part.toNat < 10 ^ decimalPlaces.toNat
  /-- The subtraction does not go round. -/
  zeros : frac.zeros.toNat + (countDigits frac.part).toNat = decimalPlaces.toNat
  text : frac.whole.toNat < 2 ^ 32 → frac.part.toNat < 2 ^ 32 → ∀ buf buf', ∃ whole fraction,
    mPrintFractional_nonatom buf buf' frac = some (whole ++ 46 :: fraction) ∧
    IsDecimal whole frac.whole.toNat ∧
    (Numeral.value 10 (fraction.map digitValue) : ℚ) / 10 ^ fraction.length =
      frac.part.toNat / 10 ^ decimalPlaces.toNat ∧
    (0 < decimalPlaces → fraction.length = decimalPlaces.toNat)

/-! ## 3. `countDigits` -/

theorem countDigitsFrom_toNat (x i : UInt64) (hi : i.toNat + (numeral 10 x.toNat).length ≤ 2 ^ 64) :
    (countDigitsFrom x i).toNat + 1 = i.toNat + (numeral 10 x.toNat).length := by
  have hdiv : ∀ x : UInt64, (x / 10).toNat = x.toNat / 10 := fun x => UInt64.toNat_div x 10
  induction x, i using countDigitsFrom.induct with
  | case1 x i h ih =>
    have hz : x.toNat / 10 ≠ 0 := fun he => h (UInt64.toNat_inj.mp ((hdiv x).trans he))
    have hpos := List.length_pos_iff.mpr (numeral_ne_nil (b := 10) (x := x.toNat / 10))
    rw [numeral_step (by decide) hz, List.length_cons] at hi ⊢
    have hi' : (i + 1).toNat = i.toNat + 1 := by
      rw [UInt64.toNat_add]
      exact Nat.mod_eq_of_lt (show i.toNat + 1 < 2 ^ 64 by omega)
    rw [hdiv, hi'] at ih
    rw [countDigitsFrom, dif_pos h, ih (by omega)]
    omega
  | case2 x i h =>
    have hz : x.toNat / 10 = 0 := by
      rw [← hdiv, not_not.mp h]
      rfl
    rw [countDigitsFrom, dif_neg h, numeral_last hz, List.length_singleton]

theorem countDigits_toNat (x : UInt64) :
    (countDigits x).toNat = (numeral 10 x.toNat).length := by
  have hlen : (numeral 10 x.toNat).length ≤ 20 := by
    refine (numeral_length_le_iff (by decide) (by decide)).mpr ?_
    exact x.toNat_lt.trans (by norm_num)
  have h := countDigitsFrom_toNat x 1 (by rw [UInt64.toNat_one]; omega)
  rw [UInt64.toNat_one] at h
  rw [countDigits]
  omega

/-! ## 4. The constructor -/

theorem powerOfTen_toNat {d : UInt64} (hd : 10 ^ d.toNat < 2 ^ 64) :
    (powerOfTen d).toNat = 10 ^ d.toNat := by
  have h : ∀ n, 10 ^ n < 2 ^ 64 → ((fun f : UInt64 => f * 10)^[n] 1).toNat = 10 ^ n := by
    intro n hn
    induction n with
    | zero => rfl
    | succ n ih =>
      rw [Nat.pow_succ] at hn
      rw [Function.iterate_succ_apply', UInt64.toNat_mul, ih (by omega), Nat.pow_succ]
      exact Nat.mod_eq_of_lt hn
  exact h _ hd

section

variable {dividend divisor d : UInt64} (hd : 10 ^ d.toNat < 2 ^ 64)
  (hD : dividend.toNat * 10 ^ d.toNat < 2 ^ 64)

include hd hD

theorem construct_whole : (Fractional.construct dividend divisor d).whole.toNat =
    dividend.toNat * 10 ^ d.toNat / divisor.toNat / 10 ^ d.toNat := by
  show (dividend * powerOfTen d / divisor / powerOfTen d).toNat = _
  rw [UInt64.toNat_div, UInt64.toNat_div, UInt64.toNat_mul, powerOfTen_toNat hd,
    Nat.mod_eq_of_lt hD]

theorem construct_part : (Fractional.construct dividend divisor d).part.toNat =
    dividend.toNat * 10 ^ d.toNat / divisor.toNat % 10 ^ d.toNat := by
  show (dividend * powerOfTen d / divisor % powerOfTen d).toNat = _
  rw [UInt64.toNat_mod, UInt64.toNat_div, UInt64.toNat_mul, powerOfTen_toNat hd,
    Nat.mod_eq_of_lt hD]

theorem construct_part_lt : (Fractional.construct dividend divisor d).part.toNat < 10 ^ d.toNat := by
  rw [construct_part hd hD]
  exact Nat.mod_lt _ (Nat.pow_pos (by decide))

end

/-! ## 5. The text -/

theorem value_zeros (z : Nat) (l : List Nat) : value 10 (List.replicate z 0 ++ l) = value 10 l := by
  rw [value, List.foldl_append]
  congr 1
  induction z with
  | zero => rfl
  | succ z ih => rwa [List.replicate_succ, List.foldl_cons]

/-- An `int` of less than 32 bits is printed whole. -/
theorem mPrintInt_decimal (buf : Vector UInt8 16) {x : UInt64} (hx : x.toNat < 2 ^ 32) :
    mPrintInt_nonatom buf x.toUInt32.toInt32 10 0 = some (numeralChars 10 x.toNat).reverse := by
  have hmag : (magnitude x.toUInt32.toInt32 0).toNat = x.toNat := by
    show x.toUInt32.toNat = x.toNat
    rw [UInt64.toNat_toUInt32, Nat.mod_eq_of_lt hx]
  have hchars : intChars x.toUInt32.toInt32 10 0 = numeralChars 10 x.toNat := by
    rw [intChars, hmag]
    exact List.append_nil _
  have hlen : (numeralChars 10 x.toNat).length ≤ 16 := by
    rw [numeralChars, List.length_map, numeral_length_le_iff (by decide) (by decide)]
    exact hx.trans (by norm_num)
  rw [mPrintInt_text buf _ 0 (by decide) (by decide) (hchars ▸ hlen), hchars]

theorem isDecimal_numeral (x : Nat) : IsDecimal (numeralChars 10 x).reverse x := by
  refine ⟨rfl, ?_⟩
  rw [List.map_reverse, map_digitValue (by decide) (by decide), value_reverse_numeral (by decide)]

/-! ## 6. The result -/

/-- Without a decimal place there is still one digit. -/
theorem Fractional.Expands.places {dividend divisor d : UInt64} {frac : Fractional}
    (h : frac.Expands dividend divisor d) : 0 < d := by
  have hpos : 0 < (countDigits frac.part).toNat := by
    rw [countDigits_toNat]
    exact List.length_pos_iff.mpr numeral_ne_nil
  rw [UInt64.lt_iff_toNat_lt, ← h.zeros]
  exact Nat.lt_of_lt_of_le hpos (Nat.le_add_left _ _)

/-- **`Fractional` is the decimal expansion, cut off, exactly if it has a decimal place.**  The
dividend times the power of ten has to be a `uint64`, which the constructor relies on. -/
theorem fractional_expands {dividend divisor d : UInt64} (_ : divisor ≠ 0)
    (hd : 10 ^ d.toNat < 2 ^ 64) (hD : dividend.toNat * 10 ^ d.toNat < 2 ^ 64) :
    (Fractional.construct dividend divisor d).Expands dividend divisor d ↔ 0 < d := by
  refine ⟨Fractional.Expands.places, fun h => ?_⟩
  have h1 : 1 ≤ d.toNat := UInt64.lt_iff_toNat_lt.mp h
  obtain ⟨frac, hf⟩ : ∃ frac, frac = Fractional.construct dividend divisor d := ⟨_, rfl⟩
  have hpart : frac.part.toNat < 10 ^ d.toNat := by
    rw [hf]
    exact construct_part_lt hd hD
  rw [← hf]
  have hlen : (countDigits frac.part).toNat ≤ d.toNat := by
    rw [countDigits_toNat]
    exact (numeral_length_le_iff (by decide) h1).mpr hpart
  have hzeros : frac.zeros.toNat = d.toNat - (countDigits frac.part).toNat := by
    have : frac.zeros = d - countDigits frac.part := by
      rw [hf]
      rfl
    rw [this, UInt64.toNat_sub_of_le _ _ (UInt64.le_iff_toNat_le.mpr hlen)]
  refine ⟨?_, hpart, by omega, fun hw hp buf buf' => ?_⟩
  · rw [hf, construct_whole hd hD, construct_part hd hD, Nat.mul_comm, Nat.div_add_mod]
  · refine ⟨(numeralChars 10 frac.whole.toNat).reverse,
      List.replicate frac.zeros.toNat 48 ++ (numeralChars 10 frac.part.toNat).reverse, ?_,
      isDecimal_numeral _, ?_, ?_⟩
    · rw [mPrintFractional_nonatom, mPrintInt_decimal buf hw, mPrintInt_decimal buf' hp]
      rfl
    all_goals
      have hlength : (List.replicate frac.zeros.toNat (48 : UInt8) ++
          (numeralChars 10 frac.part.toNat).reverse).length = d.toNat := by
        rw [List.length_append, List.length_replicate, List.length_reverse, numeralChars,
          List.length_map, ← countDigits_toNat]
        omega
    · rw [hlength, List.map_append, List.map_replicate, show digitValue 48 = 0 from rfl,
        value_zeros, (isDecimal_numeral _).2]
    · exact fun _ => hlength

theorem fractional_expands_half :
    (Fractional.construct 7 2 2).Expands 7 2 2 ↔ (0 : UInt64) < 2 :=
  fractional_expands (by decide) (by decide) (by decide)

/-- Half of seven without decimal places: the number of zeros is 2^64 - 1. -/
theorem fractional_no_places : ¬ ∀ dividend divisor d : UInt64, divisor ≠ 0 →
    10 ^ d.toNat < 2 ^ 64 → dividend.toNat * 10 ^ d.toNat < 2 ^ 64 →
      (Fractional.construct dividend divisor d).Expands dividend divisor d := fun h =>
  absurd (h 7 2 0 (by decide) (by decide) (by decide)).places (by decide)

end Os1Kernel
