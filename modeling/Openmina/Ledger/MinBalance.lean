import Mathlib
import Openmina.Numbers.Checked
import Openmina.Numbers.Currency

/-!
# Vesting schedules of timed accounts

The minimum balance of a timed account is computed twice: natively by
`Account::min_balance_at_slot` (`ledger/src/account/account.rs`), which
`validate_timing_with_min_balance_impl` (`scan_state/transaction_logic.rs`) uses to
accept or reject a payment, and in the transaction circuit by
`checked_min_balance_at_slot` and `check_timing` (`proofs/transaction.rs`), on the
fields of `Timing::to_record_checked`. Panics are `none`: the native
`checked_mul(..).unwrap()` and the circuit's `div_mod` by a zero vesting period.
Of an account only the balance and the timing are read.
-/

namespace Openmina.Ledger.MinBalance

open Openmina.Arith.ZModWindow Openmina.Numbers.Checked Openmina.Numbers.Currency

set_option autoImplicit false

/-- The fields of `Timing::Timed`, with their machine widths: balances and amounts
are `u64`, slots and slot spans `u32`. -/
structure Vesting where
  initialMinimumBalance : ℕ
  cliffTime : ℕ
  cliffAmount : ℕ
  vestingPeriod : ℕ
  vestingIncrement : ℕ
  initialMinimumBalanceU64 : initialMinimumBalance < 2 ^ 64
  cliffTimeU32 : cliffTime < 2 ^ 32
  cliffAmountU64 : cliffAmount < 2 ^ 64
  vestingPeriodU32 : vestingPeriod < 2 ^ 32
  vestingIncrementU64 : vestingIncrement < 2 ^ 64

inductive Timing
  | untimed
  | timed (vesting : Vesting)

structure Account where
  balance : ℕ
  timing : Timing
  balanceU64 : balance < 2 ^ 64

/-- `TimingAsRecord`: an untimed account reads as a schedule that never locks
anything, with a vesting period of one slot. -/
structure TimingAsRecord extends Vesting where
  isTimed : Bool

def Timing.toRecord : Timing → TimingAsRecord
  | .untimed =>
    { isTimed := false
      initialMinimumBalance := 0
      cliffTime := 0
      cliffAmount := 0
      vestingPeriod := 1
      vestingIncrement := 0
      initialMinimumBalanceU64 := by decide
      cliffTimeU32 := by decide
      cliffAmountU64 := by decide
      vestingPeriodU32 := by decide
      vestingIncrementU64 := by decide }
  | .timed vesting => { vesting with isTimed := true }

@[simp] theorem Timing.untimed_toRecord_isTimed : Timing.untimed.toRecord.isTimed = false :=
  rfl

@[simp] theorem Timing.timed_toRecord_isTimed (vesting : Vesting) :
    (Timing.timed vesting).toRecord.isTimed = true :=
  rfl

structure TimingAsRecordChecked where
  isTimed : Bool
  initialMinimumBalance : Fp
  cliffTime : Fp
  cliffAmount : Fp
  vestingPeriod : Fp
  vestingIncrement : Fp

def Timing.toRecordChecked (timing : Timing) : TimingAsRecordChecked :=
  let record := timing.toRecord
  { isTimed := record.isTimed
    initialMinimumBalance := record.initialMinimumBalance
    cliffTime := record.cliffTime
    cliffAmount := record.cliffAmount
    vestingPeriod := record.vestingPeriod
    vestingIncrement := record.vestingIncrement }

/-! ## The native computation -/

def u64Max : ℕ :=
  2 ^ 64 - 1

def subAmount (balance amount : ℕ) : Option ℕ :=
  if amount ≤ balance then some (balance - amount) else none

def u64CheckedDiv (x y : ℕ) : Option ℕ :=
  if y = 0 then none else some (x / y)

def u64CheckedMul (x y : ℕ) : Option ℕ :=
  if x * y < 2 ^ 64 then some (x * y) else none

/-- The `vesting_decrement` block of `min_balance_at_slot`: the product, replaced by
`u64::MAX` when `u64::MAX / num_periods` shows that it would overflow; the product
itself is taken with `checked_mul(..).unwrap()`. -/
def vestingDecrement (numPeriods vestingIncrement : ℕ) : Option ℕ :=
  if ((u64CheckedDiv u64Max numPeriods).map fun res => decide (res < vestingIncrement)).getD false
  then some u64Max
  else u64CheckedMul numPeriods vestingIncrement

/-- `Account::min_balance_at_slot`. -/
def minBalanceAtSlot (timing : Timing) (globalSlot : ℕ) : Option ℕ :=
  match timing with
  | .untimed => some 0
  | .timed vesting =>
    if globalSlot < vesting.cliffTime then some vesting.initialMinimumBalance
    -- if the vesting period is zero then everything vests immediately at the cliff
    else if vesting.vestingPeriod = 0 then some 0
    else
      match subAmount vesting.initialMinimumBalance vesting.cliffAmount with
      | none => some 0
      | some minBalancePastCliff => do
        -- `u32` subtraction, below the cliff excluded by the first branch
        let numPeriods := (globalSlot - vesting.cliffTime) / vesting.vestingPeriod
        let decrement ← vestingDecrement numPeriods vesting.vestingIncrement
        match subAmount minBalancePastCliff decrement with
        | none => some 0
        | some amount => some amount

inductive TimingValidation (B : Type)
  | insufficientBalance (b : B)
  | invalidTiming (b : B)
  deriving DecidableEq, Repr

/-- `validate_timing_with_min_balance_impl`: the verdict, the timing the account
keeps, and its current minimum balance. -/
def validateTimingWithMinBalanceImpl (account : Account) (txnAmount txnGlobalSlot : ℕ) :
    Option (TimingValidation Bool × Timing × ℕ) :=
  match account.timing with
  | .untimed =>
    match subAmount account.balance txnAmount with
    | none => some (.insufficientBalance true, .untimed, 0)
    | some _ => some (.invalidTiming false, .untimed, 0)
  | .timed vesting => do
    let (invalidBalance, invalidTiming, currMinBalance) ←
      match subAmount account.balance txnAmount with
      -- the initial minimum balance is a placeholder, unused in this error case
      | none => some (true, false, vesting.initialMinimumBalance)
      | some proposedNewBalance => do
        let currMinBalance ← minBalanceAtSlot account.timing txnGlobalSlot
        pure (false, decide (proposedNewBalance < currMinBalance), currMinBalance)
    let possiblyError :=
      if invalidBalance then TimingValidation.insufficientBalance invalidBalance
      else .invalidTiming invalidTiming
    -- once the minimum balance reaches zero the account becomes untimed
    if currMinBalance > 0 then pure (possiblyError, account.timing, currMinBalance)
    else pure (possiblyError, .untimed, 0)

/-! ## The circuit -/

/-- `checked_min_balance_at_slot`: both branches are computed and one is selected. -/
def checkedMinBalanceAtSlot (globalSlot cliffTime cliffAmount vestingPeriod vestingIncrement
    initialMinimumBalance : Fp) : Option Fp := do
  let beforeCliff := CheckedNat.lessThan 32 globalSlot cliffTime
  let elseValue ← do
    let (_, slotDiff) := CheckedSlot.diffOrZero globalSlot cliffTime
    let cliffDecrement := cliffAmount
    let minBalanceLessCliffDecrement :=
      CheckedCurrency.subOrZero initialMinimumBalance cliffDecrement
    let (numPeriods, _) ← CheckedNat.divMod 32 slotDiff vestingPeriod
    -- a bare field product: up to 96 bits, never truncated
    let vestingDecrement := numPeriods * vestingIncrement
    pure (CheckedCurrency.subOrZero minBalanceLessCliffDecrement vestingDecrement)
  pure (if beforeCliff then initialMinimumBalance else elseValue)

/-- `check_timing`: the flag `ok` handed to `timed_balance_check`, the current minimum
balance and the timing the account keeps. -/
def checkTiming (account : Account) (txnAmount : Option Fp) (txnGlobalSlot : Fp) :
    Option (Bool × Fp × Timing) := do
  let record := account.timing.toRecordChecked
  let currMinBalance ← checkedMinBalanceAtSlot txnGlobalSlot record.cliffTime
    record.cliffAmount record.vestingPeriod record.vestingIncrement record.initialMinimumBalance
  let accountBalance : Fp := account.balance
  let proposedBalance :=
    match txnAmount with
    | some txnAmount => (CheckedCurrency.subFlagged accountBalance txnAmount).1
    | none => accountBalance
  let sufficientTimedBalance := CheckedCurrency.gte proposedBalance currMinBalance
  let ok := !record.isTimed || sufficientTimedBalance
  let isTimedBalanceZero := decide (currMinBalance = 0)
  let isUntimed := !record.isTimed || isTimedBalanceZero
  pure (ok, currMinBalance, if isUntimed then .untimed else account.timing)

/-! ## The vesting schedule

What the minimum balance is for: the initial minimum balance until the cliff,
then the cliff amount and one increment per completed vesting period released,
never below zero. -/

def vestedMinimum (record : TimingAsRecord) (globalSlot : ℕ) : ℕ :=
  if globalSlot < record.cliffTime then record.initialMinimumBalance
  else record.initialMinimumBalance - record.cliffAmount -
    (globalSlot - record.cliffTime) / record.vestingPeriod * record.vestingIncrement

def timingAfter (timing : Timing) (minBalance : ℕ) : Timing :=
  if minBalance = 0 then .untimed else timing

theorem timingAfter_eq_untimed_iff (timing : Timing) (minBalance : ℕ) :
    timingAfter timing minBalance = .untimed ↔ timing = .untimed ∨ minBalance = 0 := by
  unfold timingAfter
  by_cases zero : minBalance = 0
  · simp [zero]
  · cases timing <;> simp [zero]

theorem vestedMinimum_le (record : TimingAsRecord) (globalSlot : ℕ) :
    vestedMinimum record globalSlot ≤ record.initialMinimumBalance := by
  unfold vestedMinimum
  split_ifs <;> omega

theorem vestedMinimum_untimed (globalSlot : ℕ) :
    vestedMinimum Timing.untimed.toRecord globalSlot = 0 := by
  simp [vestedMinimum, Timing.toRecord]

/-! ## The native computation follows the schedule -/

theorem subAmount_getD (x y : ℕ) : (subAmount x y).getD 0 = x - y := by
  unfold subAmount
  split_ifs with order
  · rfl
  · simp only [Option.getD_none]
    omega

theorem vestingDecrement_sub {balance : ℕ} (numPeriods vestingIncrement : ℕ)
    (balanceU64 : balance ≤ u64Max) :
    (vestingDecrement numPeriods vestingIncrement).map (balance - ·) =
      some (balance - numPeriods * vestingIncrement) := by
  unfold vestingDecrement u64CheckedDiv u64CheckedMul
  by_cases noPeriods : numPeriods = 0
  · subst noPeriods
    simp
  · have positive : 0 < numPeriods := Nat.pos_of_ne_zero noPeriods
    by_cases overflow : u64Max / numPeriods < vestingIncrement
    · -- the exact product exceeds `u64::MAX`, so both differences are zero
      have beyond : u64Max < vestingIncrement * numPeriods :=
        (Nat.div_lt_iff_lt_mul positive).mp overflow
      simp only [noPeriods, if_false, Option.map_some, decide_eq_true overflow,
        Option.getD_some, if_true, Option.some.injEq]
      rw [Nat.mul_comm] at beyond
      omega
    · have fits : vestingIncrement * numPeriods ≤ u64Max :=
        (Nat.le_div_iff_mul_le positive).mp (Nat.le_of_not_lt overflow)
      have productU64 : numPeriods * vestingIncrement < 2 ^ 64 := by
        rw [Nat.mul_comm]
        unfold u64Max at fits
        omega
      rw [if_pos productU64]
      simp [noPeriods, overflow]

theorem minBalanceAtSlot_eq_vestedMinimum (timing : Timing) (globalSlot : ℕ)
    (vestingPeriodPos : 0 < timing.toRecord.vestingPeriod) :
    minBalanceAtSlot timing globalSlot = some (vestedMinimum timing.toRecord globalSlot) := by
  cases timing with
  | untimed => rw [vestedMinimum_untimed]; rfl
  | timed vesting =>
    have periodPos : 0 < vesting.vestingPeriod := vestingPeriodPos
    simp only [minBalanceAtSlot, vestedMinimum, Timing.toRecord]
    by_cases beforeCliff : globalSlot < vesting.cliffTime
    · simp only [beforeCliff, if_true]
    · simp only [beforeCliff, if_false, Nat.pos_iff_ne_zero.mp periodPos]
      by_cases cliffCovered : vesting.cliffAmount ≤ vesting.initialMinimumBalance
      · -- past the cliff: the decrement is subtracted from what the cliff left
        have pastCliffU64 : vesting.initialMinimumBalance - vesting.cliffAmount ≤ u64Max := by
          have := vesting.initialMinimumBalanceU64
          unfold u64Max
          omega
        have decrement := vestingDecrement_sub
          ((globalSlot - vesting.cliffTime) / vesting.vestingPeriod) vesting.vestingIncrement
          pastCliffU64
        obtain ⟨amount, found, released⟩ := Option.map_eq_some_iff.mp decrement
        rw [subAmount, if_pos cliffCovered, ← released]
        simp only [found, Option.bind_eq_bind, Option.bind_some]
        rw [← subAmount_getD (vesting.initialMinimumBalance - vesting.cliffAmount) amount]
        cases subAmount (vesting.initialMinimumBalance - vesting.cliffAmount) amount <;> rfl
      · rw [subAmount, if_neg cliffCovered]
        simp only [Option.some.injEq]
        omega

/-! ## The circuit follows the schedule -/

theorem fp_room (x : ℕ) (bound : x < 2 ^ 96) : x + 2 ^ 64 ≤ fpModulus := by
  have := pow_le_fpModulus (k := 97) (by omega)
  have : 2 ^ 97 = 2 ^ 96 + 2 ^ 96 := by norm_num
  omega

theorem checkedMinBalanceAtSlot_eq_vestedMinimum (record : TimingAsRecord) {globalSlot : ℕ}
    (slotU32 : globalSlot < 2 ^ 32) (vestingPeriodPos : 0 < record.vestingPeriod) :
    checkedMinBalanceAtSlot globalSlot record.cliffTime record.cliffAmount record.vestingPeriod
        record.vestingIncrement record.initialMinimumBalance =
      some (vestedMinimum record globalSlot : Fp) := by
  have cliffU32 := record.cliffTimeU32
  have periodU32 := record.vestingPeriodU32
  have diffU32 : globalSlot - record.cliffTime < 2 ^ 32 := by omega
  have periodsU32 : (globalSlot - record.cliffTime) / record.vestingPeriod < 2 ^ 32 :=
    lt_of_le_of_lt (Nat.div_le_self _ _) diffU32
  have decrementU96 :
      (globalSlot - record.cliffTime) / record.vestingPeriod * record.vestingIncrement < 2 ^ 96 := by
    have product := Nat.mul_lt_mul'' periodsU32 record.vestingIncrementU64
    rwa [← Nat.pow_add] at product
  have pastCliffU64 : record.initialMinimumBalance - record.cliffAmount < 2 ^ 64 := by
    have := record.initialMinimumBalanceU64
    omega
  simp only [checkedMinBalanceAtSlot, CheckedSlot.diffOrZero,
    CheckedNat.lessThan_natCast slotU32 cliffU32 fp_wide_32,
    CheckedNat.subtractUnpackingOrZero_natCast slotU32 cliffU32 fp_wide_32,
    CheckedCurrency.subOrZero_natCast record.initialMinimumBalanceU64
      (fp_room _ (lt_trans record.cliffAmountU64 (by decide))),
    CheckedNat.divMod_natCast diffU32 periodU32 (by omega) vestingPeriodPos,
    Option.bind_eq_bind, Option.bind_some, ← Nat.cast_mul,
    CheckedCurrency.subOrZero_natCast pastCliffU64 (fp_room _ decrementU96), Option.pure_def,
    Option.bind_some, decide_eq_true_eq]
  unfold vestedMinimum
  split_ifs <;> rfl

/-! ## Native validation and circuit agree -/

section Agreement

variable (account : Account) {txnAmount globalSlot : ℕ}

theorem vestedMinimum_lt (record : TimingAsRecord) (globalSlot : ℕ) :
    vestedMinimum record globalSlot < 2 ^ 64 :=
  lt_of_le_of_lt (vestedMinimum_le record globalSlot) record.initialMinimumBalanceU64

theorem validateTimingWithMinBalanceImpl_eq (enough : txnAmount ≤ account.balance)
    (vestingPeriodPos : 0 < account.timing.toRecord.vestingPeriod) :
    validateTimingWithMinBalanceImpl account txnAmount globalSlot =
      let minBalance := vestedMinimum account.timing.toRecord globalSlot
      some (.invalidTiming (decide (account.balance - txnAmount < minBalance)),
        timingAfter account.timing minBalance, minBalance) := by
  have native := minBalanceAtSlot_eq_vestedMinimum account.timing globalSlot vestingPeriodPos
  unfold validateTimingWithMinBalanceImpl timingAfter subAmount
  rw [if_pos enough]
  cases timing : account.timing with
  | untimed => simp [vestedMinimum_untimed]
  | timed vesting =>
    rw [timing] at native
    simp only [native, Option.bind_eq_bind, Option.bind_some]
    by_cases locked : vestedMinimum (Timing.timed vesting).toRecord globalSlot = 0
    · simp [locked]
    · simp [locked, Nat.pos_of_ne_zero locked]

theorem checkTiming_eq (enough : txnAmount ≤ account.balance) (slotU32 : globalSlot < 2 ^ 32)
    (vestingPeriodPos : 0 < account.timing.toRecord.vestingPeriod) :
    checkTiming account (some (txnAmount : Fp)) (globalSlot : Fp) =
      let minBalance := vestedMinimum account.timing.toRecord globalSlot
      some (decide (minBalance ≤ account.balance - txnAmount), (minBalance : Fp),
        timingAfter account.timing minBalance) := by
  have minBalanceU64 := vestedMinimum_lt account.timing.toRecord globalSlot
  have circuit := checkedMinBalanceAtSlot_eq_vestedMinimum account.timing.toRecord slotU32
    vestingPeriodPos
  have proposed : (CheckedCurrency.subFlagged (account.balance : Fp) (txnAmount : Fp)).1 =
      ((account.balance - txnAmount : ℕ) : Fp) := by
    rw [CheckedCurrency.subFlagged_of_le account.balanceU64
      (fp_room _ (lt_trans (lt_of_le_of_lt enough account.balanceU64) (by decide))) enough]
  have sufficient := CheckedCurrency.gte_natCast
    (lt_of_le_of_lt (Nat.sub_le _ txnAmount) account.balanceU64) minBalanceU64
  have isZero : ((vestedMinimum account.timing.toRecord globalSlot : ℕ) : Fp) = 0 ↔
      vestedMinimum account.timing.toRecord globalSlot = 0 := by
    rw [← Nat.cast_zero, natCast_eq_natCast_iff_of_lt
      (lt_of_lt_of_le minBalanceU64 (pow_le_fpModulus (by omega))) (by decide)]
  simp only [checkTiming, Timing.toRecordChecked, circuit, Option.bind_eq_bind, Option.bind_some,
    proposed, sufficient, isZero, timingAfter]
  cases timing : account.timing with
  | untimed => simp [vestedMinimum_untimed]
  | timed vesting =>
    by_cases locked : vestedMinimum (Timing.timed vesting).toRecord globalSlot = 0
    · simp [locked]
    · simp [locked]

/-- The circuit's timing check and the native validation agree on every payment the
balance covers, for every timing whose vesting period is positive. -/
theorem check_timing_agrees_validate (enough : txnAmount ≤ account.balance)
    (slotU32 : globalSlot < 2 ^ 32)
    (vestingPeriodPos : 0 < account.timing.toRecord.vestingPeriod) :
    ∃ minBalance validation timing,
      minBalanceAtSlot account.timing globalSlot = some minBalance ∧
      checkedMinBalanceAtSlot globalSlot account.timing.toRecordChecked.cliffTime
          account.timing.toRecordChecked.cliffAmount account.timing.toRecordChecked.vestingPeriod
          account.timing.toRecordChecked.vestingIncrement
          account.timing.toRecordChecked.initialMinimumBalance = some (minBalance : Fp) ∧
      validateTimingWithMinBalanceImpl account txnAmount globalSlot =
        some (validation, timing, minBalance) ∧
      checkTiming account (some (txnAmount : Fp)) (globalSlot : Fp) =
        some (decide (validation = .invalidTiming false), (minBalance : Fp), timing) ∧
      (timing = .untimed ↔ account.timing = .untimed ∨ minBalance = 0) := by
  let minBalance := vestedMinimum account.timing.toRecord globalSlot
  refine ⟨minBalance, .invalidTiming (decide (account.balance - txnAmount < minBalance)),
    timingAfter account.timing minBalance,
    minBalanceAtSlot_eq_vestedMinimum _ _ vestingPeriodPos,
    checkedMinBalanceAtSlot_eq_vestedMinimum _ slotU32 vestingPeriodPos,
    validateTimingWithMinBalanceImpl_eq account enough vestingPeriodPos, ?_,
    timingAfter_eq_untimed_iff _ _⟩
  rw [checkTiming_eq account enough slotU32 vestingPeriodPos]
  -- `ok` is the sufficiency test, and the verdict is `InvalidTiming(false)` exactly then
  simp [minBalance]

end Agreement

def vestingAccount : Account :=
  ⟨2000, .timed ⟨1000, 10, 100, 5, 50, by decide, by decide, by decide, by decide, by decide⟩,
    by decide⟩

theorem check_timing_agrees_validate_past_cliff :
    ∃ minBalance validation timing,
      minBalanceAtSlot vestingAccount.timing 30 = some minBalance ∧
      checkedMinBalanceAtSlot (30 : ℕ) vestingAccount.timing.toRecordChecked.cliffTime
          vestingAccount.timing.toRecordChecked.cliffAmount
          vestingAccount.timing.toRecordChecked.vestingPeriod
          vestingAccount.timing.toRecordChecked.vestingIncrement
          vestingAccount.timing.toRecordChecked.initialMinimumBalance = some (minBalance : Fp) ∧
      validateTimingWithMinBalanceImpl vestingAccount 1500 30 =
        some (validation, timing, minBalance) ∧
      checkTiming vestingAccount (some ((1500 : ℕ) : Fp)) ((30 : ℕ) : Fp) =
        some (decide (validation = .invalidTiming false), (minBalance : Fp), timing) ∧
      (timing = .untimed ↔ vestingAccount.timing = .untimed ∨ minBalance = 0) :=
  check_timing_agrees_validate vestingAccount (by decide) (by decide) (by decide)

end Openmina.Ledger.MinBalance
