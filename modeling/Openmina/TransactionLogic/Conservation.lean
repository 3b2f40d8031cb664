import Mathlib
import Openmina.TransactionLogic.Supply
import Openmina.TransactionLogic.AccountMap

/-!
# Applying a transaction conserves the supply

Over any ledger with the laws of a finite map of accounts, the two passes of a
signed command, a fee transfer or a coinbase move the total balance of the
default-token accounts by the supply increase less the fee excess, change only the
accounts the transaction names, report as new exactly the accounts created, and
step the fee payer's `u32` nonce with `wrapping_add`.
-/

namespace Openmina.TransactionLogic

open Openmina.Numbers.Checked
open Openmina.ScanState.FeeExcessCombine (TokenId Signed)

set_option autoImplicit false

/-- Over a lawful ledger, a signed command, a fee transfer or a coinbase applied by both
passes: the total balance moves by the supply increase less the fee excess, only the
named accounts change, the new accounts are exactly the ones created, and the fee
payer's nonce steps by `Nonce::incr`. -/
theorem apply_transaction_conserves_supply {L Loc : Type} {I : LedgerIntf L Loc}
    {view : L → LedgerView} (lawful : I.FiniteMap view)
    (consSignedCommandPayload : SignedCommandPayload → Fp → Fp) {cc : ConstraintConstants}
    {slot : UInt32} {ledger ledger1 ledger2 : L} {transaction : Transaction}
    {partiallyApplied : TransactionPartiallyApplied} {applied : TransactionApplied}
    (first : (applyTransactionFirstPass I consSignedCommandPayload cc slot ledger transaction).run =
      some (.ok (partiallyApplied, ledger1)))
    (second : (applyTransactionSecondPass ledger1 partiallyApplied).run =
      some (.ok (applied, ledger2))) :
    (∀ s, (applied.supplyIncrease cc).run = some (.ok s) →
      totalBalance (view ledger2) =
        totalBalance (view ledger) + s.toInt - transaction.feeExcessTotal) ∧
    (∀ id, (view ledger2).lookup id ≠ (view ledger).lookup id →
      id ∈ transaction.accountsReferenced) ∧
    applied.newAccounts.Nodup ∧
    (∀ id, id ∈ applied.newAccounts ↔ id ∉ view ledger ∧ id ∈ view ledger2) ∧
    ∀ userCommand, transaction = .command userCommand →
      ∃ old new, (view ledger).lookup userCommand.feePayer = some old ∧
        (view ledger2).lookup userCommand.feePayer = some new ∧ new.nonce = Nonce.incr old.nonce := by
  obtain ⟨effect, nonce⟩ := applyTransaction_spec lawful consSignedCommandPayload first second
  -- at most two accounts are new, so their count fits the u64 of supply_increase
  have fits : applied.newAccounts.length < 2 ^ 64 := by
    have := effect.length_newAccounts_le
    have := transaction.accountsReferenced_length_le
    omega
  refine ⟨fun s ok => ?_, effect.frame, effect.nodup, effect.created, nonce⟩
  rw [effect.total, supplyIncrease_toInt fits ok]
  ring

def examplePayer : CompressedPubKey :=
  ⟨1, false⟩

def exampleLedger (nonce : UInt32) : AccountMap :=
  AccountMap.empty.insert { Account.createWith ⟨examplePayer, TokenId.default⟩ 100 with nonce }

def examplePayment (nonce : UInt32) : Transaction :=
  .command ⟨⟨⟨5, examplePayer, nonce, 1000⟩, .payment ⟨⟨2, false⟩, 50⟩⟩, examplePayer⟩

def exampleConstants : ConstraintConstants :=
  ⟨10⟩

theorem apply_transaction_conserves_supply_payment :
    ∃ partiallyApplied ledger1 applied ledger2,
      (applyTransactionFirstPass AccountMap.intf (fun _ hash => hash) exampleConstants 0
        (exampleLedger 0) (examplePayment 0)).run = some (.ok (partiallyApplied, ledger1)) ∧
      (applyTransactionSecondPass ledger1 partiallyApplied).run = some (.ok (applied, ledger2)) ∧
      ((∀ s, (applied.supplyIncrease exampleConstants).run = some (.ok s) →
        totalBalance ledger2.accounts =
          totalBalance (exampleLedger 0).accounts + s.toInt - (examplePayment 0).feeExcessTotal) ∧
      (∀ id, ledger2.accounts.lookup id ≠ (exampleLedger 0).accounts.lookup id →
        id ∈ (examplePayment 0).accountsReferenced) ∧
      applied.newAccounts.Nodup ∧
      (∀ id, id ∈ applied.newAccounts ↔ id ∉ (exampleLedger 0).accounts ∧ id ∈ ledger2.accounts) ∧
      ∀ userCommand, examplePayment 0 = .command userCommand →
        ∃ old new, (exampleLedger 0).accounts.lookup userCommand.feePayer = some old ∧
          ledger2.accounts.lookup userCommand.feePayer = some new ∧
          new.nonce = Nonce.incr old.nonce) := by
  obtain ⟨partiallyApplied, ledger1, applied, ledger2, first, second⟩ :
      ∃ partiallyApplied ledger1 applied ledger2,
        (applyTransactionFirstPass AccountMap.intf (fun _ hash => hash) exampleConstants 0
          (exampleLedger 0) (examplePayment 0)).run = some (.ok (partiallyApplied, ledger1)) ∧
        (applyTransactionSecondPass ledger1 partiallyApplied).run = some (.ok (applied, ledger2)) :=
    ⟨_, _, _, _, rfl, rfl⟩
  exact ⟨partiallyApplied, ledger1, applied, ledger2, first, second,
    apply_transaction_conserves_supply AccountMap.lawful (fun _ hash => hash) first second⟩

/-- A fee payer at nonce `u32::MAX` pays a command and ends at nonce 0. -/
theorem fee_payer_nonce_wraps :
    ∃ partiallyApplied ledger1 applied ledger2 old new,
      (applyTransactionFirstPass AccountMap.intf (fun _ hash => hash) exampleConstants 0
        (exampleLedger 0xFFFFFFFF) (examplePayment 0xFFFFFFFF)).run =
        some (.ok (partiallyApplied, ledger1)) ∧
      (applyTransactionSecondPass ledger1 partiallyApplied).run = some (.ok (applied, ledger2)) ∧
      (exampleLedger 0xFFFFFFFF).accounts.lookup ⟨examplePayer, TokenId.default⟩ = some old ∧
      ledger2.accounts.lookup ⟨examplePayer, TokenId.default⟩ = some new ∧
      new.nonce.toNat ≠ old.nonce.toNat + 1 :=
  ⟨_, _, _, _, _, _, rfl, rfl, rfl, rfl, by decide⟩

end Openmina.TransactionLogic
