import Mathlib
import Openmina.Arith.ZModWindow
import Openmina.Numbers.Checked

/-!
# Checked currency amounts

`CheckedCurrency` of `ledger/src/proofs/numbers/currency.rs`: amounts, fees and
balances as field elements with a 64-bit range. Where the circuit detects an
underflow it does not look at the inner integer: `range_check_flagged` compares the
canonical representative of the field element with `2^64` (`Ord` on an `ark_ff`
field compares representatives) and moves it back into range by one modulus.
-/

namespace Openmina.Numbers.Currency

open Openmina.Arith.ZModWindow Openmina.Numbers.Checked

set_option autoImplicit false

inductive RangeCheckFlaggedKind
  | add
  | sub
  | addOrSub
  deriving DecidableEq, Repr

def booleanOfField (x : Fp) : Bool :=
  !decide (x = 0)

def modulusAsField : Fp :=
  ((2 ^ 64 : ℕ) : Fp)

def doubleModulusAsField : Fp :=
  modulusAsField + modulusAsField

namespace CheckedCurrency

/-- `range_check_flagged`: the adjusted value and the out-of-range flag. The
adjustment is a witness choice made on the representative of `t`. -/
def rangeCheckFlagged (kind : RangeCheckFlaggedKind) (t : Fp) : Fp × Bool :=
  let adjustmentFactor : Fp :=
    match kind with
    | .add => if t.val < modulusAsField.val then 0 else -1
    | .sub => if t.val < modulusAsField.val then 0 else 1
    | .addOrSub =>
      if t.val < modulusAsField.val then 0
      else if t.val < doubleModulusAsField.val then -1
      else 1
  let outOfRange :=
    match kind with
    | .add => booleanOfField (-adjustmentFactor)
    | .sub => booleanOfField adjustmentFactor
    | .addOrSub => booleanOfField (adjustmentFactor * adjustmentFactor)
  (t + adjustmentFactor * modulusAsField, outOfRange)

def subFlagged (x y : Fp) : Fp × Bool :=
  rangeCheckFlagged .sub (x - y)

def subOrZero (x y : Fp) : Fp :=
  let (res, underflow) := subFlagged x y
  if underflow then 0 else res

def lt (x y : Fp) : Bool :=
  (rangeCheckFlagged .sub (x - y)).2

def lte (x y : Fp) : Bool :=
  !lt y x

def gte (x y : Fp) : Bool :=
  lte y x

end CheckedCurrency

/-! ## Reading the operations on amounts -/

namespace CheckedCurrency

theorem modulusAsField_val : modulusAsField.val = 2 ^ 64 := by
  have below : 2 ^ 64 < fpModulus :=
    lt_of_lt_of_le (Nat.pow_lt_pow_right (by omega) (by omega : 64 < 65))
      (pow_le_fpModulus (by omega))
  exact ZMod.val_natCast_of_lt below

theorem rangeCheckFlagged_sub (t : Fp) :
    rangeCheckFlagged .sub t =
      if t.val < 2 ^ 64 then (t, false) else (t + modulusAsField, true) := by
  simp only [rangeCheckFlagged, modulusAsField_val]
  split_ifs <;> simp [booleanOfField]

variable {x y : ℕ}

theorem sub_val_lt_iff (hx : x < 2 ^ 64) (room : y + 2 ^ 64 ≤ fpModulus) :
    ((x : Fp) - y).val < 2 ^ 64 ↔ y ≤ x :=
  val_natCast_sub_lt_pow_iff_of_add_le hx room

theorem subFlagged_of_le (hx : x < 2 ^ 64) (room : y + 2 ^ 64 ≤ fpModulus) (order : y ≤ x) :
    subFlagged x y = (((x - y : ℕ) : Fp), false) := by
  rw [subFlagged, rangeCheckFlagged_sub, if_pos ((sub_val_lt_iff hx room).mpr order),
    Nat.cast_sub order]

theorem subFlagged_underflow (hx : x < 2 ^ 64) (room : y + 2 ^ 64 ≤ fpModulus) :
    (subFlagged x y).2 = decide (x < y) := by
  rw [subFlagged, rangeCheckFlagged_sub]
  by_cases order : y ≤ x
  · rw [if_pos ((sub_val_lt_iff hx room).mpr order)]
    simp [Nat.not_lt.mpr order]
  · have wraps : ¬((x : Fp) - y).val < 2 ^ 64 := fun inRange =>
      order ((sub_val_lt_iff hx room).mp inRange)
    rw [if_neg wraps]
    simp [Nat.lt_of_not_le order]

theorem subOrZero_natCast (hx : x < 2 ^ 64) (room : y + 2 ^ 64 ≤ fpModulus) :
    subOrZero x y = ((x - y : ℕ) : Fp) := by
  by_cases order : y ≤ x
  · simp [subOrZero, subFlagged_of_le hx room order]
  · have underflow := subFlagged_underflow hx room
    rw [decide_eq_true (Nat.lt_of_not_le order)] at underflow
    simp [subOrZero, underflow, Nat.sub_eq_zero_of_le (Nat.le_of_not_le order)]

theorem lt_natCast (hx : x < 2 ^ 64) (hy : y < 2 ^ 64) :
    lt x y = decide (x < y) := by
  have room : y + 2 ^ 64 ≤ fpModulus := by
    have := pow_le_fpModulus (k := 65) (by omega)
    omega
  exact subFlagged_underflow hx room

theorem gte_natCast (hx : x < 2 ^ 64) (hy : y < 2 ^ 64) :
    gte x y = decide (y ≤ x) := by
  rw [gte, lte, lt_natCast hx hy]
  by_cases order : y ≤ x
  · simp [order]
  · simp [order, Nat.lt_of_not_le order]

end CheckedCurrency

end Openmina.Numbers.Currency
