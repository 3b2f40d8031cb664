import Mathlib
import Openmina.Arith.ZModWindow

/-!
# Checked numbers of the witness code

`ledger/src/proofs/numbers/{common,nat}.rs`. A checked number is an element of the
Pasta base field `Fp`. The witness generator never rejects a value out of range:
`range_check` packs the low `NBITS` bits of the canonical representative
(`to_field_checked_prime`) and drops the packing, and `range_check_flag` compares
the packing with the number. The constraints these calls add matter to the prover,
not to the values computed here, so the model keeps only the values.
-/

namespace Openmina.Numbers.Checked

open Openmina.Arith.ZModWindow

set_option autoImplicit false

/-- The order of the Pasta base field (`mina_hasher::Fp`). -/
def fpModulus : ℕ :=
  28948022309329048855892746252171976963363056481941560715954676764349967630337

instance : NeZero fpModulus := ⟨by decide⟩

instance : Fact (1 < fpModulus) := ⟨by decide⟩

abbrev Fp := ZMod fpModulus

theorem pow_le_fpModulus {k : ℕ} (bound : k ≤ 254) : 2 ^ k ≤ fpModulus := by
  calc 2 ^ k ≤ 2 ^ 254 := Nat.pow_le_pow_right (by omega) bound
    _ ≤ fpModulus := by decide

theorem fp_wide_32 : 2 ^ (32 + 1) ≤ fpModulus :=
  pow_le_fpModulus (by omega)

def rangeCheckFlag (nbits : ℕ) (x : Fp) : Bool :=
  decide (((x.val % 2 ^ nbits : ℕ) : Fp) = x)

theorem rangeCheckFlag_iff {nbits : ℕ} (x : Fp) (narrow : 2 ^ nbits ≤ fpModulus) :
    rangeCheckFlag nbits x = true ↔ x.val < 2 ^ nbits := by
  have powPos : 0 < 2 ^ nbits := Nat.two_pow_pos nbits
  unfold rangeCheckFlag
  rw [decide_eq_true_iff]
  constructor
  · intro packed
    have lowBound : x.val % 2 ^ nbits < fpModulus :=
      lt_of_lt_of_le (Nat.mod_lt _ powPos) narrow
    have vals := congrArg ZMod.val packed
    rw [ZMod.val_natCast_of_lt lowBound] at vals
    rw [← vals]
    exact Nat.mod_lt _ powPos
  · intro small
    rw [Nat.mod_eq_of_lt small, ZMod.natCast_zmod_val]

/-- `Magnitude::of_field`: the low 64-bit limb of the representative, converted to
an inner integer of `innerBits` bits by `try_into().unwrap()`. -/
def ofField (innerBits : ℕ) (x : Fp) : Option ℕ :=
  if x.val % 2 ^ 64 < 2 ^ innerBits then some (x.val % 2 ^ 64) else none

theorem ofField_natCast {x innerBits : ℕ} (hx : x < 2 ^ innerBits) (inner : innerBits ≤ 64) :
    ofField innerBits x = some x := by
  have fits : x < 2 ^ 64 := lt_of_lt_of_le hx (Nat.pow_le_pow_right (by omega) inner)
  have small : x < fpModulus := lt_of_lt_of_le fits (pow_le_fpModulus (by omega))
  rw [ofField, ZMod.val_natCast_of_lt small, Nat.mod_eq_of_lt fits, if_pos hx]

/-! ## `CheckedNat` (`nat.rs`)

`nbits` is the trait's `NBITS` (32 for every 32-bit number, 64 for `CheckedN`). -/

namespace CheckedNat

/-- `CheckedNat::gte`: the difference lies in the window. The flag for the other
direction only feeds `Boolean::assert_any`. -/
def gte (nbits : ℕ) (x y : Fp) : Bool :=
  rangeCheckFlag nbits (x - y)

def lte (nbits : ℕ) (x y : Fp) : Bool :=
  gte nbits y x

def equal (x y : Fp) : Bool :=
  decide (x = y)

def lessThan (nbits : ℕ) (x y : Fp) : Bool :=
  gte nbits y x && !equal y x

def greaterThan (nbits : ℕ) (x y : Fp) : Bool :=
  lessThan nbits y x

/-- `CheckedNat::add` and `const_add`: the field sum; the range check is dropped. -/
def add (x y : Fp) : Fp :=
  x + y

def min (nbits : ℕ) (a b : Fp) : Fp :=
  if lte nbits a b then a else b

/-- `CheckedNat::subtract_unpacking_or_zero` (called by `sub_or_zero`): the underflow flag
and the difference, replaced by zero on underflow. -/
def subtractUnpackingOrZero (nbits : ℕ) (x y : Fp) : Bool × Fp :=
  let res := x - y
  let negRes := -res
  let yGteX := rangeCheckFlag nbits negRes
  let isEqual := equal x y
  let underflow := yGteX && !isEqual
  (underflow, if underflow then 0 else res)

/-- `CheckedNat::div_mod`: computed on the inner integers, with `checked_div(..).unwrap()`
panicking on a zero divisor. -/
def divMod (innerBits : ℕ) (x y : Fp) : Option (Fp × Fp) := do
  let dividend ← ofField innerBits x
  let divisor ← ofField innerBits y
  if divisor = 0 then none else some ((dividend / divisor : ℕ), (dividend % divisor : ℕ))

end CheckedNat

def CheckedSlot.diffOrZero (x y : Fp) : Bool × Fp :=
  CheckedNat.subtractUnpackingOrZero 32 x y

/-! ## Reading the operations on small naturals -/

namespace CheckedNat

variable {nbits : ℕ} {x y : ℕ}

theorem gte_natCast (hx : x < 2 ^ nbits) (hy : y < 2 ^ nbits)
    (wide : 2 ^ (nbits + 1) ≤ fpModulus) :
    gte nbits x y = decide (y ≤ x) := by
  have narrow : 2 ^ nbits ≤ fpModulus := by
    have double : 2 ^ (nbits + 1) = 2 ^ nbits + 2 ^ nbits := by ring
    omega
  rw [Bool.eq_iff_iff, gte, rangeCheckFlag_iff _ narrow, decide_eq_true_iff]
  exact val_natCast_sub_lt_pow_iff hx hy wide

theorem equal_natCast (hx : x < fpModulus) (hy : y < fpModulus) :
    equal x y = decide (x = y) := by
  rw [Bool.eq_iff_iff, equal, decide_eq_true_iff, decide_eq_true_iff]
  exact natCast_eq_natCast_iff_of_lt hx hy

theorem lessThan_natCast (hx : x < 2 ^ nbits) (hy : y < 2 ^ nbits)
    (wide : 2 ^ (nbits + 1) ≤ fpModulus) :
    lessThan nbits x y = decide (x < y) := by
  have fits : 2 ^ nbits ≤ fpModulus := le_trans (Nat.pow_le_pow_right (by omega) (by omega)) wide
  rw [lessThan, gte_natCast hy hx wide, equal_natCast (by omega) (by omega)]
  by_cases order : x < y
  · simp [order, Nat.le_of_lt order, Nat.ne_of_gt order]
  · simp [order]
    omega

theorem greaterThan_natCast (hx : x < 2 ^ nbits) (hy : y < 2 ^ nbits)
    (wide : 2 ^ (nbits + 1) ≤ fpModulus) :
    greaterThan nbits x y = decide (y < x) :=
  lessThan_natCast hy hx wide

theorem min_natCast (hx : x < 2 ^ nbits) (hy : y < 2 ^ nbits)
    (wide : 2 ^ (nbits + 1) ≤ fpModulus) :
    min nbits x y = ((Min.min x y : ℕ) : Fp) := by
  rw [min, lte, gte_natCast hy hx wide]
  by_cases order : x ≤ y
  · simp [order]
  · simp [order, Nat.min_eq_right (by omega : y ≤ x)]

theorem subtractUnpackingOrZero_natCast (hx : x < 2 ^ nbits) (hy : y < 2 ^ nbits)
    (wide : 2 ^ (nbits + 1) ≤ fpModulus) :
    subtractUnpackingOrZero nbits x y = (decide (x < y), ((x - y : ℕ) : Fp)) := by
  have fits : 2 ^ nbits ≤ fpModulus := le_trans (Nat.pow_le_pow_right (by omega) (by omega)) wide
  have flipped : -((x : Fp) - y) = (y : Fp) - x := neg_sub _ _
  have yGteX : rangeCheckFlag nbits (-((x : Fp) - y)) = decide (x ≤ y) := by
    rw [flipped]
    exact gte_natCast hy hx wide
  simp only [subtractUnpackingOrZero, yGteX, equal_natCast (by omega : x < fpModulus)
    (by omega : y < fpModulus)]
  by_cases order : x < y
  · simp [order, Nat.le_of_lt order, Nat.ne_of_lt order, Nat.sub_eq_zero_of_le (Nat.le_of_lt order)]
  · have back : y ≤ x := by omega
    by_cases same : x = y
    · simp [same]
    · simp [order, same, Nat.cast_sub back]
      omega

theorem divMod_natCast {innerBits : ℕ} (hx : x < 2 ^ innerBits) (hy : y < 2 ^ innerBits)
    (inner : innerBits ≤ 64) (positive : 0 < y) :
    divMod innerBits x y = some (((x / y : ℕ) : Fp), ((x % y : ℕ) : Fp)) := by
  simp [divMod, ofField_natCast hx inner, ofField_natCast hy inner, Nat.pos_iff_ne_zero.mp positive]

end CheckedNat

end Openmina.Numbers.Checked
