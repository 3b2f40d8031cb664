import Mathlib
import Openmina.TransactionLogic.CommandEffect
import Openmina.TransactionLogic.TransferEffect

/-!
# The supply increase of an applied transaction

`TransactionApplied::supply_increase` subtracts the burned tokens and the creation
fees of the new accounts from what the transaction mints, in `Signed<Amount>`. Read
as integers, it is the move of the total balance plus the fee excess.
-/

namespace Openmina.ScanState.FeeExcessCombine

set_option autoImplicit false

def Sgn.toInt : Sgn → ℤ
  | .pos => 1
  | .neg => -1

def Signed.toInt (s : Signed) : ℤ :=
  s.magnitude * s.sgn.toInt

namespace Signed

@[simp] theorem toInt_create (magnitude : ℕ) (sgn : Sgn) (fits : magnitude < 2 ^ 64) :
    (create magnitude sgn fits).toInt = magnitude * sgn.toInt := by
  unfold create toInt
  split_ifs with zero
  · simp [zero]
  · rfl

@[simp] theorem toInt_ofUnsigned (magnitude : UInt64) :
    (ofUnsigned magnitude).toInt = magnitude.toNat := by
  simp [ofUnsigned, Sgn.toInt]

@[simp] theorem toInt_negate (s : Signed) : s.negate.toInt = -s.toInt := by
  unfold negate
  split_ifs with zero
  · simp [toInt, Signed.zero, zero]
  · obtain ⟨magnitude, sgn, fits⟩ := s
    cases sgn <;> simp [toInt, Sgn.negate, Sgn.toInt]

theorem toInt_add {s t r : Signed} (added : s.add t = some r) : r.toInt = s.toInt + t.toInt := by
  obtain ⟨m, σ, fm⟩ := s
  obtain ⟨n, τ, fn⟩ := t
  unfold add at added
  by_cases same : σ = τ
  · -- equal signs add the magnitudes
    subst same
    simp only [if_true] at added
    split_ifs at added with fits
    cases added
    rw [toInt_create]
    simp only [toInt]
    push_cast
    ring
  · -- opposite signs take the distance, with the sign of the larger magnitude
    have opposite : τ.toInt = -σ.toInt := by
      cases σ <;> cases τ <;> simp_all [Sgn.toInt]
    simp only [same, if_false] at added
    rcases lt_trichotomy m n with less | equal | greater
    · simp only [less, if_true, Option.some.injEq] at added
      subst added
      rw [toInt_create, max_eq_right less.le, min_eq_left less.le, Nat.cast_sub less.le]
      simp only [toInt, opposite]
      ring
    · subst equal
      simp only [lt_irrefl, if_false, Option.some.injEq] at added
      subst added
      simp only [toInt, Signed.zero, opposite, Nat.cast_zero, zero_mul]
      ring
    · simp only [Nat.not_lt.mpr greater.le, greater, if_true, if_false, Option.some.injEq] at added
      subst added
      rw [toInt_create, max_eq_left greater.le, min_eq_right greater.le, Nat.cast_sub greater.le]
      simp only [toInt, opposite]
      ring

end Signed

end Openmina.ScanState.FeeExcessCombine

namespace Openmina.TransactionLogic

open Openmina.Numbers.Checked
open Openmina.ScanState.FeeExcessCombine (Signed)
open Openmina.Control.ExceptOption

set_option autoImplicit false

/-- What a transaction mints: the coinbase amount, the value of
`expected_supply_increase` when it succeeds. -/
def TransactionApplied.minted (applied : TransactionApplied) : ℤ :=
  match applied.varying with
  | .coinbase applied => applied.coinbase.data.amount.toNat
  | .command _ | .feeTransfer _ => 0

theorem expectedSupplyIncrease_ok {coinbase : Coinbase} {expected : UInt64}
    (ok : coinbase.expectedSupplyIncrease.run = some (.ok expected)) : expected = coinbase.amount := by
  unfold Coinbase.expectedSupplyIncrease at ok
  split at ok
  · simpa using ok.symm
  · obtain ⟨difference, -, rfl⟩ := Option.map_eq_some_iff.mp ((run_okOr_eq_ok _ _ _).mp ok)
    rfl

theorem foldlM_add_negate_toInt {init s : Signed} {amounts : List Signed}
    (folded : amounts.foldlM (fun total amount => total.add amount.negate) init = some s) :
    s.toInt = init.toInt - (amounts.map Signed.toInt).sum := by
  induction amounts generalizing init with
  | nil =>
    simp only [List.foldlM_nil, Option.pure_def, Option.some.injEq] at folded
    subst folded
    simp
  | cons amount amounts ih =>
    simp only [List.foldlM_cons, Option.bind_eq_bind, Option.bind_eq_some_iff] at folded
    obtain ⟨total, added, rest⟩ := folded
    rw [ih rest, Signed.toInt_add added, Signed.toInt_negate, List.map_cons, List.sum_cons]
    ring

theorem supplyIncrease_toInt {cc : ConstraintConstants} {applied : TransactionApplied} {s : Signed}
    (fits : applied.newAccounts.length < 2 ^ 64)
    (ok : (applied.supplyIncrease cc).run = some (.ok s)) :
    s.toInt = applied.minted - applied.burnedTokens.toNat -
      cc.accountCreationFee.toNat * applied.newAccounts.length := by
  simp only [TransactionApplied.supplyIncrease, run_bind_eq_ok, run_liftM_eq_ok, run_okOr_eq_ok] at ok
  obtain ⟨fees, multiplied, expected, expectedIs, folded⟩ := ok
  have feesIs : fees.toNat = cc.accountCreationFee.toNat * applied.newAccounts.length := by
    rw [checkedMul_toNat multiplied, UInt64.toNat_ofNat', Nat.mod_eq_of_lt fits]
  have mintedIs : (expected.toNat : ℤ) = applied.minted := by
    unfold TransactionApplied.minted
    cases varying : applied.varying with
    | coinbase reward =>
      simp only [varying] at expectedIs
      rw [expectedSupplyIncrease_ok expectedIs]
    | command _ | feeTransfer _ =>
      simp only [varying, run_pure_eq_ok] at expectedIs
      simp [← expectedIs]
  rw [foldlM_add_negate_toInt folded]
  simp [feesIs, mintedIs]
  ring

/-- The fee excess of `Transaction::fee_excess` summed over the integers: the fee of a
signed command, the fees of a fee transfer negated, nothing for a coinbase. -/
def Transaction.feeExcessTotal : Transaction → ℤ
  | .command userCommand => userCommand.fee.toNat
  | .feeTransfer transfer => -(transfer.singles.toList.map fun single => (single.fee.toNat : ℤ)).sum
  | .coinbase _ => 0

theorem applyCoinbase_data {L Loc : Type} {I : LedgerIntf L Loc} {cc : ConstraintConstants}
    {slot : UInt32} {ledger ledger' : L} {coinbase : Coinbase} {applied : CoinbaseApplied}
    (run : (applyCoinbase I cc slot ledger coinbase).run = some (.ok (applied, ledger'))) :
    applied.coinbase.data = coinbase := by
  simp only [applyCoinbase, run_bind_eq_ok, run_liftM_eq_ok, run_okOr_eq_ok, run_pure_eq_ok,
    Prod.mk.injEq] at run
  obtain ⟨_, _, _, _, _, _, _, _, _, _, _, _, _, _, recorded, _⟩ := run
  rw [← recorded]

theorem Transaction.accountsReferenced_length_le (transaction : Transaction) :
    transaction.accountsReferenced.length ≤ 2 := by
  cases transaction with
  | command userCommand => simp [Transaction.accountsReferenced, SignedCommand.accountsReferenced]
  | feeTransfer transfer =>
    cases singles : transfer.singles <;>
      simp [Transaction.accountsReferenced, FeeTransfer.receivers, singles, OneOrTwo.toList]
  | coinbase reward =>
    cases transfer : reward.feeTransfer <;>
      simp [Transaction.accountsReferenced, Coinbase.accountsReferenced, transfer]

section Passes

variable {L Loc : Type} {I : LedgerIntf L Loc} {view : L → LedgerView} (lawful : I.FiniteMap view)
  (consSignedCommandPayload : SignedCommandPayload → Fp → Fp)
include lawful

/-- Both passes of a signed command, a fee transfer or a coinbase: the total moves by
what the transaction mints less its fee excess, the burned tokens and the creation
fees, and a signed command increments its fee payer's nonce. -/
theorem applyTransaction_spec {cc : ConstraintConstants} {slot : UInt32} {ledger ledger1 ledger2 : L}
    {transaction : Transaction} {partiallyApplied : TransactionPartiallyApplied}
    {applied : TransactionApplied}
    (first : (applyTransactionFirstPass I consSignedCommandPayload cc slot ledger transaction).run =
      some (.ok (partiallyApplied, ledger1)))
    (second : (applyTransactionSecondPass ledger1 partiallyApplied).run =
      some (.ok (applied, ledger2))) :
    Effect (view ledger) (view ledger2) transaction.accountsReferenced applied.newAccounts
        (applied.minted - transaction.feeExcessTotal - applied.burnedTokens.toNat -
          cc.accountCreationFee.toNat * applied.newAccounts.length) ∧
      ∀ userCommand, transaction = .command userCommand →
        ∃ old new, (view ledger).lookup userCommand.feePayer = some old ∧
          (view ledger2).lookup userCommand.feePayer = some new ∧ new.nonce = Nonce.incr old.nonce := by
  unfold applyTransactionFirstPass at first
  cases transaction with
  | command userCommand =>
    simp only [run_bind_eq_ok, run_pure_eq_ok, Prod.mk.injEq] at first
    obtain ⟨⟨commandApplied, ledger1⟩, ran, rfl, rfl⟩ := first
    simp only [applyTransactionSecondPass, run_pure_eq_ok, Prod.mk.injEq] at second
    obtain ⟨rfl, rfl⟩ := second
    obtain ⟨old, new, found, found', nonce, effect⟩ :=
      applyUserCommand_effect lawful consSignedCommandPayload ran
    rw [lawful.merkleRoot_view] at found effect
    refine ⟨effect.cast rfl ?_, ?_⟩
    · simp [TransactionApplied.minted, TransactionApplied.burnedTokens,
        TransactionApplied.newAccounts, Transaction.feeExcessTotal]
    · rintro _ ⟨⟩
      exact ⟨old, new, found, found', nonce⟩
  | feeTransfer transfer =>
    simp only [run_bind_eq_ok, run_pure_eq_ok, Prod.mk.injEq] at first
    obtain ⟨⟨transferApplied, ledger1⟩, ran, rfl, rfl⟩ := first
    simp only [applyTransactionSecondPass, run_pure_eq_ok, Prod.mk.injEq] at second
    obtain ⟨rfl, rfl⟩ := second
    have effect := applyFeeTransfer_effect lawful ran
    rw [lawful.merkleRoot_view] at effect
    refine ⟨effect.cast rfl ?_, fun _ never => by cases never⟩
    simp [TransactionApplied.minted, TransactionApplied.burnedTokens,
      TransactionApplied.newAccounts, Transaction.feeExcessTotal]
  | coinbase reward =>
    simp only [run_bind_eq_ok, run_pure_eq_ok, Prod.mk.injEq] at first
    obtain ⟨⟨coinbaseApplied, ledger1⟩, ran, rfl, rfl⟩ := first
    simp only [applyTransactionSecondPass, run_pure_eq_ok, Prod.mk.injEq] at second
    obtain ⟨rfl, rfl⟩ := second
    have effect := applyCoinbase_effect lawful ran
    rw [lawful.merkleRoot_view] at effect
    refine ⟨effect.cast rfl ?_, fun _ never => by cases never⟩
    simp [TransactionApplied.minted, TransactionApplied.burnedTokens,
      TransactionApplied.newAccounts, Transaction.feeExcessTotal, applyCoinbase_data ran]

end Passes

end Openmina.TransactionLogic
