import Openmina.TransactionLogic.Account
import Openmina.Control.ExceptOption

/-!
# Applying signed commands, fee transfers and coinbases

`ledger/src/scan_state/transaction_logic.rs`: the first and the second pass of
`apply_transaction` for the transactions other than zkApp commands, generic over a
`LedgerIntf`. Every function runs in `ExceptT TransactionError Option`: a Rust `Err`
is an error, a panic (`unwrap`, `assert!`, `panic!`) is `none`. The receipt chain
hash of a payload is the Poseidon hash `cons_signed_command_payload`, a parameter
here.
-/

namespace Openmina.TransactionLogic

open Openmina.Numbers.Checked
open Openmina.ScanState.FeeExcessCombine (TokenId Signed)
open Openmina.Ledger.MinBalance (Timing TimingValidation)
open Openmina.Control.ExceptOption

set_option autoImplicit false

/-! ## Transactions -/

/-- `signed_command::Common`, without the memo, which only the receipt chain hash
reads. -/
structure Common where
  fee : UInt64
  feePayerPk : CompressedPubKey
  nonce : UInt32
  validUntil : UInt32
  deriving DecidableEq

structure PaymentPayload where
  receiverPk : CompressedPubKey
  amount : UInt64
  deriving DecidableEq

inductive StakeDelegationPayload
  | setDelegate (newDelegate : CompressedPubKey)
  deriving DecidableEq

inductive Body
  | payment (payload : PaymentPayload)
  | stakeDelegation (payload : StakeDelegationPayload)
  deriving DecidableEq

structure SignedCommandPayload where
  common : Common
  body : Body
  deriving DecidableEq

/-- A signed command; its signature, checked before application, is not read. -/
structure SignedCommand where
  payload : SignedCommandPayload
  signer : CompressedPubKey
  deriving DecidableEq

namespace SignedCommand

def validUntil (command : SignedCommand) : UInt32 :=
  command.payload.common.validUntil

def feePayer (command : SignedCommand) : AccountId :=
  ⟨command.payload.common.feePayerPk, TokenId.default⟩

def feeToken (_ : SignedCommand) : TokenId :=
  TokenId.default

def fee (command : SignedCommand) : UInt64 :=
  command.payload.common.fee

def receiver (command : SignedCommand) : AccountId :=
  match command.payload.body with
  | .payment payload => ⟨payload.receiverPk, TokenId.default⟩
  | .stakeDelegation (.setDelegate newDelegate) => ⟨newDelegate, TokenId.default⟩

def nonce (command : SignedCommand) : UInt32 :=
  command.payload.common.nonce

def accountsReferenced (command : SignedCommand) : List AccountId :=
  [command.feePayer, command.receiver]

end SignedCommand

structure SingleFeeTransfer where
  receiverPk : CompressedPubKey
  fee : UInt64
  feeToken : TokenId
  deriving DecidableEq

def SingleFeeTransfer.receiver (feeTransfer : SingleFeeTransfer) : AccountId :=
  ⟨feeTransfer.receiverPk, feeTransfer.feeToken⟩

inductive OneOrTwo (α : Type)
  | one (a : α)
  | two (a b : α)
  deriving DecidableEq

def OneOrTwo.toList {α : Type} : OneOrTwo α → List α
  | .one a => [a]
  | .two a b => [a, b]

structure FeeTransfer where
  singles : OneOrTwo SingleFeeTransfer
  deriving DecidableEq

def FeeTransfer.feeTokens (feeTransfer : FeeTransfer) : List TokenId :=
  feeTransfer.singles.toList.map SingleFeeTransfer.feeToken

def FeeTransfer.receivers (feeTransfer : FeeTransfer) : List AccountId :=
  feeTransfer.singles.toList.map SingleFeeTransfer.receiver

structure CoinbaseFeeTransfer where
  receiverPk : CompressedPubKey
  fee : UInt64
  deriving DecidableEq

def CoinbaseFeeTransfer.receiver (feeTransfer : CoinbaseFeeTransfer) : AccountId :=
  ⟨feeTransfer.receiverPk, TokenId.default⟩

structure Coinbase where
  receiver : CompressedPubKey
  amount : UInt64
  feeTransfer : Option CoinbaseFeeTransfer
  deriving DecidableEq

def Coinbase.receiverId (coinbase : Coinbase) : AccountId :=
  ⟨coinbase.receiver, TokenId.default⟩

def Coinbase.accountsReferenced (coinbase : Coinbase) : List AccountId :=
  (coinbase.feeTransfer.map CoinbaseFeeTransfer.receiver).toList ++ [coinbase.receiverId]

/-- The transactions other than zkApp commands. -/
inductive Transaction
  | command (command : SignedCommand)
  | feeTransfer (feeTransfer : FeeTransfer)
  | coinbase (coinbase : Coinbase)
  deriving DecidableEq

def Transaction.accountsReferenced : Transaction → List AccountId
  | .command userCommand => userCommand.accountsReferenced
  | .feeTransfer transfer => transfer.receivers
  | .coinbase reward => reward.accountsReferenced

/-- The fields of `ConstraintConstants` that the modelled commands read. -/
structure ConstraintConstants where
  accountCreationFee : UInt64

/-! ## Statuses and errors -/

/-- The failures that signed commands, fee transfers and coinbases record. -/
inductive TransactionFailure
  | receiverNotPresent
  | amountInsufficientToCreateAccount
  | sourceInsufficientBalance
  | sourceMinimumBalanceViolation
  | overflow
  | updateNotPermittedBalance
  | updateNotPermittedDelegate
  | updateNotPermittedNonce
  deriving DecidableEq

inductive TransactionStatus
  | applied
  | failed (failures : List (List TransactionFailure))
  deriving DecidableEq

structure WithStatus (α : Type) where
  data : α
  status : TransactionStatus
  deriving DecidableEq

/-- The errors of the modelled functions, one constructor per message. -/
inductive TransactionError
  -- "Current global slot .. greater than transaction expiry slot .."
  | expired (currentGlobalSlot validUntil : UInt32)
  -- "Cannot pay fees from a public key that did not sign the transaction"
  | notSigner
  -- "Cannot create transactions with fee_token different from the default"
  | nonDefaultFeeToken
  -- "The fee-payer account does not exist"
  | feePayerAbsent
  -- "insufficient funds"
  | insufficientFunds
  -- "overflow", of `add_amount` and of `supply_increase`
  | overflow
  -- "Nonce in account .. different from nonce in transaction .."
  | nonceMismatch (accountNonce txnNonce : UInt32)
  -- "For timed account, the requested transaction for amount .. at global slot ..,
  -- the balance .. is insufficient"
  | timedInsufficientBalance (txnAmount : UInt64) (txnGlobalSlot : UInt32) (balance : UInt64)
  -- "For timed account .., the requested transaction for amount .. at global slot ..,
  -- applying the transaction would put the balance below the calculated minimum
  -- balance of .."
  | timedMinimumBalance (publicKey : CompressedPubKey) (txnAmount : UInt64)
      (txnGlobalSlot : UInt32) (minBalance : ℕ)
  -- the name of a failure, `failure.to_string()`
  | failure (failure : TransactionFailure)
  -- "set_with_location"
  | setWithLocation
  -- the message of the ledger's own `get_or_create`
  | ledger (message : String)
  -- "Coinbase fee transfer too large"
  | coinbaseFeeTransferTooLarge
  -- "Error subtracting account creation fee ..; transaction amount .. insufficient"
  | accountCreationFeeInsufficient (accountCreationFee amount : UInt64)
  -- "Cannot pay fees in non-default tokens."
  | nonDefaultFeeTokens
  -- "Overflow", of the two fees paid to one receiver
  | feeOverflow
  -- "burned tokens overflow"
  | burnedTokensOverflow
  -- "Coinbase underflow"
  | coinbaseUnderflow
  deriving DecidableEq

structure FailureCollection where
  inner : List (List TransactionFailure)
  deriving DecidableEq

namespace FailureCollection

def empty : FailureCollection :=
  ⟨[]⟩

def noFailure : List TransactionFailure :=
  []

def singleFailure : FailureCollection :=
  ⟨[[.updateNotPermittedBalance]]⟩

def updateFailed : List TransactionFailure :=
  [.updateNotPermittedBalance]

def appendEntry (list : List TransactionFailure) (s : FailureCollection) : FailureCollection :=
  if s.inner.isEmpty then ⟨[list]⟩ else ⟨s.inner.insertIdx 1 list⟩

def isEmpty (s : FailureCollection) : Bool :=
  s.inner.all List.isEmpty

def take (s : FailureCollection) : List (List TransactionFailure) :=
  s.inner

end FailureCollection

/-! ## Applied transactions -/

/-- `signed_command_applied::Body`. -/
inductive SignedCommandAppliedBody
  | payments (newAccounts : List AccountId)
  | stakeDelegation (previousDelegate : Option CompressedPubKey)
  | failed
  deriving DecidableEq

structure SignedCommandApplied where
  userCommand : WithStatus SignedCommand
  body : SignedCommandAppliedBody
  deriving DecidableEq

def SignedCommandApplied.newAccounts (applied : SignedCommandApplied) : List AccountId :=
  match applied.body with
  | .payments newAccounts => newAccounts
  | .stakeDelegation _ | .failed => []

structure FeeTransferApplied where
  feeTransfer : WithStatus FeeTransfer
  newAccounts : List AccountId
  burnedTokens : UInt64
  deriving DecidableEq

structure CoinbaseApplied where
  coinbase : WithStatus Coinbase
  newAccounts : List AccountId
  burnedTokens : UInt64
  deriving DecidableEq

/-- `Varying`, with the signed case of `CommandApplied` as its command case. -/
inductive Varying
  | command (applied : SignedCommandApplied)
  | feeTransfer (applied : FeeTransferApplied)
  | coinbase (applied : CoinbaseApplied)
  deriving DecidableEq

structure TransactionApplied where
  previousHash : Fp
  varying : Varying
  deriving DecidableEq

structure FullyApplied (α : Type) where
  previousHash : Fp
  applied : α
  deriving DecidableEq

inductive TransactionPartiallyApplied
  | signedCommand (applied : FullyApplied SignedCommandApplied)
  | feeTransfer (applied : FullyApplied FeeTransferApplied)
  | coinbase (applied : FullyApplied CoinbaseApplied)
  deriving DecidableEq

/-! ## Checks -/

def validateTime (validUntil currentGlobalSlot : UInt32) : ExceptT TransactionError Option Unit :=
  if currentGlobalSlot ≤ validUntil then pure () else throw (.expired currentGlobalSlot validUntil)

def validateNonces (txnNonce accountNonce : UInt32) : ExceptT TransactionError Option Unit :=
  if accountNonce = txnNonce then pure () else throw (.nonceMismatch accountNonce txnNonce)

def subAmount (balance amount : UInt64) : ExceptT TransactionError Option UInt64 :=
  okOr (Balance.subAmount balance amount) .insufficientFunds

def addAmount (balance amount : UInt64) : ExceptT TransactionError Option UInt64 :=
  okOr (Balance.addAmount balance amount) .overflow

def validateTimingWithMinBalance (account : Account) (txnAmount : UInt64) (txnGlobalSlot : UInt32) :
    ExceptT TransactionError Option (Timing × ℕ) := do
  let (possiblyError, timing, minBalance) ←
    Openmina.Ledger.MinBalance.validateTimingWithMinBalanceImpl account.toMinBalance
      txnAmount.toNat txnGlobalSlot.toNat
  match possiblyError with
  | .insufficientBalance true =>
    throw (.timedInsufficientBalance txnAmount txnGlobalSlot account.balance)
  | .invalidTiming true =>
    throw (.timedMinimumBalance account.publicKey txnAmount txnGlobalSlot minBalance)
  -- "Broken invariant in validate_timing_with_min_balance'"
  | .insufficientBalance false => ExceptT.lift none
  | .invalidTiming false => pure (timing, minBalance)

def validateTiming (account : Account) (txnAmount : UInt64) (txnGlobalSlot : UInt32) :
    ExceptT TransactionError Option Timing := do
  let (timing, _) ← validateTimingWithMinBalance account txnAmount txnGlobalSlot
  pure timing

/-- `timing_error_to_user_command_status`, which matches the error's message: only
the invalid timing's says "minimum balance", only the short balance's says
"is insufficient". -/
def timingErrorToUserCommandStatus (timingResult : Except TransactionError Timing) :
    ExceptT TransactionFailure Option Timing :=
  match timingResult with
  | .ok timing => pure timing
  | .error (.timedMinimumBalance ..) => throw .sourceMinimumBalanceViolation
  | .error (.timedInsufficientBalance ..) => throw .sourceInsufficientBalance
  -- "Unexpected timed account validation error"
  | .error _ => ExceptT.lift none

def updateTimingWhenNoDeduction (txnGlobalSlot : UInt32) (account : Account) :
    ExceptT TransactionError Option Timing :=
  validateTiming account 0 txnGlobalSlot

def subAccountCreationFee (constraintConstants : ConstraintConstants) (action : AccountState)
    (amount : UInt64) : ExceptT TransactionError Option UInt64 :=
  let accountCreationFee := constraintConstants.accountCreationFee
  match action with
  | .added =>
    okOr (checkedSub amount accountCreationFee)
      (.accountCreationFeeInsufficient accountCreationFee amount)
  | .existed => pure amount

def getNewAccounts {α : Type} (action : AccountState) (data : α) : Option α :=
  match action with
  | .added => some data
  | .existed => none

@[simp] theorem validateTime_ok (validUntil currentGlobalSlot : UInt32) (u : Unit) :
    (validateTime validUntil currentGlobalSlot).run = some (.ok u) ↔
      currentGlobalSlot ≤ validUntil := by
  unfold validateTime
  split_ifs with valid <;> simp [valid]

@[simp] theorem validateNonces_ok (txnNonce accountNonce : UInt32) (u : Unit) :
    (validateNonces txnNonce accountNonce).run = some (.ok u) ↔ accountNonce = txnNonce := by
  unfold validateNonces
  split_ifs with same <;> simp [same]

@[simp] theorem subAmount_ok (balance amount result : UInt64) :
    (subAmount balance amount).run = some (.ok result) ↔
      Balance.subAmount balance amount = some result :=
  run_okOr_eq_ok _ _ _

@[simp] theorem addAmount_ok (balance amount result : UInt64) :
    (addAmount balance amount).run = some (.ok result) ↔
      Balance.addAmount balance amount = some result :=
  run_okOr_eq_ok _ _ _

theorem subAccountCreationFee_toNat {constraintConstants : ConstraintConstants}
    {action : AccountState} {amount result : UInt64}
    (subtracted : (subAccountCreationFee constraintConstants action amount).run = some (.ok result)) :
    (result.toNat : ℤ) = amount.toNat -
      (if action = .added then constraintConstants.accountCreationFee.toNat else 0) := by
  cases action with
  | added =>
    simp only [subAccountCreationFee, run_okOr_eq_ok] at subtracted
    obtain ⟨order, difference⟩ := checkedSub_toNat subtracted
    simp only [if_true, difference]
    omega
  | existed =>
    simp only [subAccountCreationFee, run_pure_eq_ok] at subtracted
    subst subtracted
    simp

/-! ## The ledger through `LedgerIntf` -/

section Ledger

variable {L Loc : Type} (I : LedgerIntf L Loc)

/-- `get_with_location`: its `Result` is never an error, only the panic on a
location without an account. -/
def getWithLocation (ledger : L) (accountId : AccountId) : Option (ExistingOrNew Loc × Account) :=
  match I.locationOfAccount ledger accountId with
  | some location =>
    match I.get ledger location with
    | some account => some (.existing location, account)
    | none => none
  | none => some (.new, Account.createWith accountId 0)

/-- `has_permission_to_receive` of `transaction_logic.rs`: only the receive
permission is checked, not the access permission. -/
def hasPermissionToReceive (ledger : L) (receiverAccountId : AccountId) :
    Option (Account × AccountState × Bool) := do
  let initAccount := Account.initial receiverAccountId
  match I.locationOfAccount ledger receiverAccountId with
  | none =>
    let perm ← initAccount.hasPermissionTo .noneGiven .receive
    pure (initAccount, .added, perm)
  | some location =>
    match I.get ledger location with
    | none => none
    | some receiverAccount =>
      let perm ← receiverAccount.hasPermissionTo .noneGiven .receive
      pure (receiverAccount, .existed, perm)

def setWithLocation (ledger : L) (location : ExistingOrNew Loc) (account : Account) :
    ExceptT TransactionError Option L :=
  match location with
  | .existing location => pure (I.set ledger location account)
  | .new =>
    match I.createNewAccount ledger account.id account with
    | .ok ledger => pure ledger
    | .error () => throw .setWithLocation

/-- `ledger.get_or_create(..)?`. -/
def getOrCreate (ledger : L) (accountId : AccountId) :
    ExceptT TransactionError Option (AccountState × Account × Loc × L) :=
  match I.getOrCreate ledger accountId with
  | .ok created => pure created
  | .error message => throw (.ledger message)

@[simp] theorem getOrCreate_ok (ledger : L) (accountId : AccountId)
    (created : AccountState × Account × Loc × L) :
    (getOrCreate I ledger accountId).run = some (.ok created) ↔
      I.getOrCreate ledger accountId = .ok created := by
  unfold getOrCreate
  cases I.getOrCreate ledger accountId <;> simp

end Ledger

/-! ## Signed commands -/

structure Updates (Loc : Type) where
  locatedAccounts : List (ExistingOrNew Loc × Account)
  appliedBody : SignedCommandAppliedBody

section SignedCommands

variable {L Loc : Type} (I : LedgerIntf L Loc)
  (consSignedCommandPayload : SignedCommandPayload → Fp → Fp)

def payFeeImpl (command : SignedCommandPayload) (nonce : UInt32) (feePayer : AccountId)
    (fee : UInt64) (ledger : L) (currentGlobalSlot : UInt32) :
    ExceptT TransactionError Option (ExistingOrNew Loc × Account) := do
  let (location, account) ← getWithLocation I ledger feePayer
  match location with
  | .new => throw .feePayerAbsent
  | .existing _ => pure ()
  let balance ← subAmount account.balance fee
  validateNonces nonce account.nonce
  let timing ← validateTiming account fee currentGlobalSlot
  pure (location,
    { account with
      balance
      nonce := Nonce.incr account.nonce
      receiptChainHash := consSignedCommandPayload command account.receiptChainHash
      timing })

def payFee (userCommand : SignedCommand) (signerPk : CompressedPubKey) (ledger : L)
    (currentGlobalSlot : UInt32) : ExceptT TransactionError Option (ExistingOrNew Loc × Account) := do
  let nonce := userCommand.nonce
  let feePayer := userCommand.feePayer
  let feeToken := userCommand.feeToken
  if feePayer.publicKey ≠ signerPk then throw .notSigner
  if feeToken ≠ TokenId.default then throw .nonDefaultFeeToken
  payFeeImpl I consSignedCommandPayload userCommand.payload nonce feePayer userCommand.fee ledger
    currentGlobalSlot

/-- `compute_updates`. Its error carries the flag `reject_command` as the code leaves
it: set only when the fee payer cannot pay the amount. -/
def computeUpdates (constraintConstants : ConstraintConstants) (receiver : AccountId) (ledger : L)
    (currentGlobalSlot : UInt32) (userCommand : SignedCommand) (feePayer : AccountId)
    (feePayerAccount : Account) (feePayerLocation : ExistingOrNew Loc) :
    ExceptT (TransactionFailure × Bool) Option (Updates Loc) :=
  match userCommand.payload.body with
  | .stakeDelegation _ => do
    let (receiverLocation, _) ← getWithLocation I ledger receiver
    match receiverLocation with
    | .new => throw (.receiverNotPresent, false)
    | .existing _ => pure ()
    unless ← feePayerAccount.hasPermissionToSetDelegate do
      throw (.updateNotPermittedDelegate, false)
    let previousDelegate := feePayerAccount.delegate
    -- timing is always valid, but a switch from timed to untimed is recorded
    let timingResult ← (validateTiming feePayerAccount 0 currentGlobalSlot).run
    let timing ← (timingErrorToUserCommandStatus timingResult).adapt (·, false)
    pure
      { locatedAccounts :=
          [(feePayerLocation, { feePayerAccount with delegate := some receiver.publicKey, timing })]
        appliedBody := .stakeDelegation previousDelegate }
  | .payment payment => do
    let getFeePayerAccount : ExceptT TransactionFailure Option Account := do
      let balance ← okOr (Balance.subAmount feePayerAccount.balance payment.amount)
        .sourceInsufficientBalance
      let timingResult ← (validateTiming feePayerAccount payment.amount currentGlobalSlot).run
      let timing ← timingErrorToUserCommandStatus timingResult
      pure { feePayerAccount with balance, timing }
    -- a fee payer that cannot pay the amount rejects the command instead of failing it
    let feePayerAccount ← getFeePayerAccount.adapt (·, true)
    let (receiverLocation, receiverAccount) ←
      if feePayer = receiver then pure (feePayerLocation, feePayerAccount)
      else ExceptT.lift (getWithLocation I ledger receiver)
    unless ← feePayerAccount.hasPermissionToSend do throw (.updateNotPermittedBalance, false)
    unless ← receiverAccount.hasPermissionToReceive do throw (.updateNotPermittedBalance, false)
    let receiverAmount ← match receiverLocation with
      | .existing _ => pure payment.amount
      | .new =>
        okOr (checkedSub payment.amount constraintConstants.accountCreationFee)
          (.amountInsufficientToCreateAccount, false)
    let balance ← okOr (Balance.addAmount receiverAccount.balance receiverAmount) (.overflow, false)
    let newAccounts := match receiverLocation with
      | .new => [receiver]
      | .existing _ => []
    let receiverAccount := { receiverAccount with balance }
    -- a self-payment's receiver already carries every update of the fee payer
    let updatedAccounts :=
      if feePayer = receiver then [(receiverLocation, receiverAccount)]
      else [(receiverLocation, receiverAccount), (feePayerLocation, feePayerAccount)]
    pure { locatedAccounts := updatedAccounts, appliedBody := .payments newAccounts }

def applyUserCommandUnchecked (constraintConstants : ConstraintConstants) (txnGlobalSlot : UInt32)
    (ledger : L) (userCommand : SignedCommand) :
    ExceptT TransactionError Option (SignedCommandApplied × L) := do
  let signerPk := userCommand.signer
  let currentGlobalSlot := txnGlobalSlot
  validateTime userCommand.validUntil currentGlobalSlot
  let feePayer := userCommand.feePayer
  let (feePayerLocation, feePayerAccount) ←
    payFee I consSignedCommandPayload userCommand signerPk ledger currentGlobalSlot
  unless ← feePayerAccount.hasPermissionToSend do throw (.failure .updateNotPermittedBalance)
  unless ← feePayerAccount.hasPermissionToIncrementNonce do
    throw (.failure .updateNotPermittedNonce)
  -- the fee is charged whether or not the command itself succeeds
  let ledger ← setWithLocation I ledger feePayerLocation feePayerAccount
  let receiver := userCommand.receiver
  let updates ← (computeUpdates I constraintConstants receiver ledger currentGlobalSlot userCommand
    feePayer feePayerAccount feePayerLocation).run
  match updates with
  | .ok updates =>
    let ledger ← updates.locatedAccounts.foldlM
      (fun ledger (location, account) => setWithLocation I ledger location account) ledger
    pure (⟨⟨userCommand, .applied⟩, updates.appliedBody⟩, ledger)
  | .error (failure, false) => pure (⟨⟨userCommand, .failed [[failure]]⟩, .failed⟩, ledger)
  -- the rejection that OCaml raises as an exception
  | .error (failure, true) => throw (.failure failure)

def applyUserCommand (constraintConstants : ConstraintConstants) (txnGlobalSlot : UInt32)
    (ledger : L) (userCommand : SignedCommand) :
    ExceptT TransactionError Option (SignedCommandApplied × L) :=
  applyUserCommandUnchecked I consSignedCommandPayload constraintConstants txnGlobalSlot ledger
    userCommand

end SignedCommands

/-! ## Fee transfers and coinbases -/

section Transfers

variable {L Loc : Type} (I : LedgerIntf L Loc)

/-- `process_fee_transfer`, with the closures `modify_balance` and `modify_timing`
of its caller. -/
def processFeeTransfer (ledger : L) (feeTransfer : FeeTransfer)
    (modifyBalance : AccountState → AccountId → UInt64 → UInt64 →
      ExceptT TransactionError Option UInt64)
    (modifyTiming : Account → ExceptT TransactionError Option Timing) :
    ExceptT TransactionError Option (List AccountId × FailureCollection × UInt64 × L) := do
  unless feeTransfer.feeTokens.all (· = TokenId.default) do throw .nonDefaultFeeTokens
  match feeTransfer.singles with
  | .one feeTransfer =>
    let accountId := feeTransfer.receiver
    let (a, action, canReceive) ← hasPermissionToReceive I ledger accountId
    let timing ← modifyTiming a
    let balance ← modifyBalance action accountId a.balance feeTransfer.fee
    if canReceive then
      let (_, account, loc, ledger) ← getOrCreate I ledger accountId
      let newAccounts := getNewAccounts action accountId
      let ledger := I.set ledger loc { account with balance, timing }
      pure (newAccounts.toList, FailureCollection.empty, 0, ledger)
    else pure ([], FailureCollection.singleFailure, feeTransfer.fee, ledger)
  | .two feeTransfer1 feeTransfer2 =>
    let accountId1 := feeTransfer1.receiver
    let (a1, action1, canReceive1) ← hasPermissionToReceive I ledger accountId1
    let accountId2 := feeTransfer2.receiver
    if accountId1 = accountId2 then
      let fee ← okOr (checkedAdd feeTransfer1.fee feeTransfer2.fee) .feeOverflow
      let timing ← modifyTiming a1
      let balance ← modifyBalance action1 accountId1 a1.balance fee
      if canReceive1 then
        let (_, a1, l1, ledger) ← getOrCreate I ledger accountId1
        let newAccounts1 := getNewAccounts action1 accountId1
        let ledger := I.set ledger l1 { a1 with balance, timing }
        pure (newAccounts1.toList, FailureCollection.empty, 0, ledger)
      else
        pure ([], FailureCollection.appendEntry FailureCollection.updateFailed
          FailureCollection.singleFailure, fee, ledger)
    else
      let (a2, action2, canReceive2) ← hasPermissionToReceive I ledger accountId2
      let balance1 ← modifyBalance action1 accountId1 a1.balance feeTransfer1.fee
      -- the timing of the first receiver is left as it is (#5973)
      let timing2 ← modifyTiming a2
      let balance2 ← modifyBalance action2 accountId2 a2.balance feeTransfer2.fee
      let (newAccounts1, failures, burnedTokens1, ledger) ←
        if canReceive1 then do
          let (_, a1, l1, ledger) ← getOrCreate I ledger accountId1
          let newAccounts1 := getNewAccounts action1 accountId1
          let ledger := I.set ledger l1 { a1 with balance := balance1 }
          pure (newAccounts1, FailureCollection.appendEntry FailureCollection.noFailure
            FailureCollection.empty, (0 : UInt64), ledger)
        else pure (none, FailureCollection.singleFailure, feeTransfer1.fee, ledger)
      let (newAccounts2, failures, burnedTokens2, ledger) ←
        if canReceive2 then do
          let (_, a2, l2, ledger) ← getOrCreate I ledger accountId2
          let newAccounts2 := getNewAccounts action2 accountId2
          let ledger := I.set ledger l2 { a2 with balance := balance2, timing := timing2 }
          pure (newAccounts2, FailureCollection.appendEntry FailureCollection.noFailure failures,
            (0 : UInt64), ledger)
        else
          pure (none, FailureCollection.appendEntry FailureCollection.updateFailed failures,
            feeTransfer2.fee, ledger)
      let burnedTokens ← okOr (checkedAdd burnedTokens1 burnedTokens2) .burnedTokensOverflow
      pure (newAccounts1.toList ++ newAccounts2.toList, failures, burnedTokens, ledger)

def applyFeeTransfer (constraintConstants : ConstraintConstants) (txnGlobalSlot : UInt32)
    (ledger : L) (feeTransfer : FeeTransfer) :
    ExceptT TransactionError Option (FeeTransferApplied × L) := do
  let (newAccounts, failures, burnedTokens, ledger) ← processFeeTransfer I ledger feeTransfer
    (fun action _ balance fee => do
      let amount ← subAccountCreationFee constraintConstants action fee
      addAmount balance amount)
    (fun account => updateTimingWhenNoDeduction txnGlobalSlot account)
  let status := if failures.isEmpty then .applied else .failed failures.take
  pure (⟨⟨feeTransfer, status⟩, newAccounts, burnedTokens⟩, ledger)

/-- `apply_coinbase`. The first stage pays the fee transfer, if any, and returns the
transferee's update, which is written only after the receiver's. -/
def applyCoinbase (constraintConstants : ConstraintConstants) (txnGlobalSlot : UInt32)
    (ledger : L) (coinbase : Coinbase) : ExceptT TransactionError Option (CoinbaseApplied × L) := do
  let receiver := coinbase.receiver
  let coinbaseAmount := coinbase.amount
  let (receiverReward, newAccounts1, transfereeUpdate, transfereeTimingPrev, failures1,
      burnedTokens1, ledger) ←
    (match coinbase.feeTransfer with
    | none =>
      pure (coinbaseAmount, none, none, none, FailureCollection.empty, (0 : UInt64), ledger)
    | some ft => do
      let transferee := ft.receiverPk
      let fee := ft.fee
      -- assert_ne!(transferee, receiver)
      if transferee = receiver then ExceptT.lift none
      let transfereeId := ft.receiver
      let receiverReward ← okOr (checkedSub coinbaseAmount fee) .coinbaseFeeTransferTooLarge
      let (transfereeAccount, action, canReceive) ← hasPermissionToReceive I ledger transfereeId
      let newAccounts := getNewAccounts action transfereeId
      let timing ← updateTimingWhenNoDeduction txnGlobalSlot transfereeAccount
      let balance ← do
        let amount ← subAccountCreationFee constraintConstants action fee
        addAmount transfereeAccount.balance amount
      if canReceive then
        let (_, transfereeAccount, transfereeLocation, ledger) ← getOrCreate I ledger transfereeId
        let transfereeAccount := { transfereeAccount with balance, timing }
        pure (receiverReward, newAccounts, some (transfereeLocation, transfereeAccount),
          some transfereeAccount.timing,
          FailureCollection.appendEntry FailureCollection.noFailure FailureCollection.empty,
          (0 : UInt64), ledger)
      else
        pure (receiverReward, none, none, none, FailureCollection.singleFailure, fee, ledger) :
      ExceptT TransactionError Option _)
  let receiverId := coinbase.receiverId
  let (receiverAccount, action2, canReceive) ← hasPermissionToReceive I ledger receiverId
  let newAccounts2 := getNewAccounts action2 receiverId
  -- the receiver's timing is updated only when there is no fee transfer (#5973)
  let coinbaseReceiverTiming ← (match transfereeTimingPrev with
    | none => updateTimingWhenNoDeduction txnGlobalSlot receiverAccount
    | some _ => pure receiverAccount.timing)
  let receiverBalance ← do
    let amount ← subAccountCreationFee constraintConstants action2 receiverReward
    addAmount receiverAccount.balance amount
  let (failures, burnedTokens2, ledger) ←
    (if canReceive then do
      let (_, receiverAccount, receiverLocation, ledger) ← getOrCreate I ledger receiverId
      let ledger := I.set ledger receiverLocation
        { receiverAccount with balance := receiverBalance, timing := coinbaseReceiverTiming }
      pure (FailureCollection.appendEntry FailureCollection.noFailure failures1, (0 : UInt64),
        ledger)
    else
      pure (FailureCollection.appendEntry FailureCollection.updateFailed failures1, receiverReward,
        ledger))
  let ledger := match transfereeUpdate with
    | some (addr, account) => I.set ledger addr account
    | none => ledger
  let burnedTokens ← okOr (checkedAdd burnedTokens1 burnedTokens2) .burnedTokensOverflow
  let status := if failures.isEmpty then .applied else .failed failures.take
  pure (⟨⟨coinbase, status⟩, newAccounts1.toList ++ newAccounts2.toList, burnedTokens⟩, ledger)

end Transfers

/-! ## The two passes -/

section Passes

variable {L Loc : Type} (I : LedgerIntf L Loc)
  (consSignedCommandPayload : SignedCommandPayload → Fp → Fp)

def applyTransactionFirstPass (constraintConstants : ConstraintConstants) (globalSlot : UInt32)
    (ledger : L) (transaction : Transaction) :
    ExceptT TransactionError Option (TransactionPartiallyApplied × L) := do
  let (previousHash, ledger) := I.merkleRoot ledger
  let txnGlobalSlot := globalSlot
  match transaction with
  | .command userCommand =>
    let (applied, ledger) ← applyUserCommand I consSignedCommandPayload constraintConstants
      txnGlobalSlot ledger userCommand
    pure (.signedCommand ⟨previousHash, applied⟩, ledger)
  | .feeTransfer feeTransfer =>
    let (applied, ledger) ← applyFeeTransfer I constraintConstants txnGlobalSlot ledger feeTransfer
    pure (.feeTransfer ⟨previousHash, applied⟩, ledger)
  | .coinbase coinbase =>
    let (applied, ledger) ← applyCoinbase I constraintConstants txnGlobalSlot ledger coinbase
    pure (.coinbase ⟨previousHash, applied⟩, ledger)

/-- `apply_transaction_second_pass`: only zkApp commands touch the ledger here. -/
def applyTransactionSecondPass (ledger : L) (partialTransaction : TransactionPartiallyApplied) :
    ExceptT TransactionError Option (TransactionApplied × L) :=
  match partialTransaction with
  | .signedCommand ⟨previousHash, applied⟩ => pure (⟨previousHash, .command applied⟩, ledger)
  | .feeTransfer ⟨previousHash, applied⟩ => pure (⟨previousHash, .feeTransfer applied⟩, ledger)
  | .coinbase ⟨previousHash, applied⟩ => pure (⟨previousHash, .coinbase applied⟩, ledger)

end Passes

/-! ## Supply increase -/

def Coinbase.expectedSupplyIncrease (coinbase : Coinbase) : ExceptT TransactionError Option UInt64 :=
  match coinbase.feeTransfer with
  | none => pure coinbase.amount
  -- the difference is only checked, not used
  | some ft =>
    okOr ((checkedSub coinbase.amount ft.fee).map fun _ => coinbase.amount) .coinbaseUnderflow

namespace TransactionApplied

def burnedTokens (applied : TransactionApplied) : UInt64 :=
  match applied.varying with
  | .command _ => 0
  | .feeTransfer applied => applied.burnedTokens
  | .coinbase applied => applied.burnedTokens

def newAccounts (applied : TransactionApplied) : List AccountId :=
  match applied.varying with
  | .command applied => applied.newAccounts
  | .feeTransfer applied => applied.newAccounts
  | .coinbase applied => applied.newAccounts

def supplyIncrease (constraintConstants : ConstraintConstants) (applied : TransactionApplied) :
    ExceptT TransactionError Option Signed := do
  let burnedTokens := Signed.ofUnsigned applied.burnedTokens
  -- `checked_mul(..).unwrap()` of the fee by `len() as u64`
  let amount ← checkedMul constraintConstants.accountCreationFee
    (UInt64.ofNat applied.newAccounts.length)
  let accountCreationFees := Signed.ofUnsigned amount
  let expectedSupplyIncrease ← (match applied.varying with
    | .coinbase applied => applied.coinbase.data.expectedSupplyIncrease
    | _ => pure 0)
  let total := [burnedTokens, accountCreationFees].foldlM
    (fun total amt => total.add amt.negate) (Signed.ofUnsigned expectedSupplyIncrease)
  okOr total .overflow

end TransactionApplied

end Openmina.TransactionLogic
