import Openmina.TransactionLogic.Account
import Openmina.Control.ExceptOption

/-!
# The indexed transaction pool

`ledger/src/transaction_pool.rs`: the `IndexedPool` with its five indices, the
`Update`s that its operations collect against a copy of one sender's state and apply
at the end, `remove_with_dependents_exn` and `add_from_gossip_exn` with its
replace-by-fee branch. A panic (`unwrap`) is `none` and an `Err` an error, in
`ExceptT CommandError Option`. A `HashMap` is an `AList`, a `HashSet` a list without
repetitions, a `VecDeque` a list.
-/

namespace Openmina.TransactionPool

open Openmina.Control.ExceptOption
open Openmina.TransactionLogic (AccountId checkedAdd checkedSub Nonce.incr)
open Openmina.ScanState.FeeExcessCombine (TokenId)

set_option autoImplicit false

abbrev Nonce := UInt32
abbrev Slot := UInt32
abbrev TransactionHash := ℕ
abbrev FeeRate := ℚ

def Slot.max : Slot := 4294967295

/-- The body of a user command, as far as `currency_consumed` reads it. -/
inductive Body
  | payment (amount : UInt64)
  | stakeDelegation
  | zkAppCommand
  deriving DecidableEq

/-- A `ValidCommandWithHash`, with the parts of the command that the pool reads. -/
structure Command where
  hash : TransactionHash
  feePayer : AccountId
  fee : UInt64
  weight : ℕ
  nonce : Nonce
  validUntil : Slot
  feeToken : TokenId
  body : Body
  deriving DecidableEq

namespace Command

def feePerWu (cmd : Command) : FeeRate :=
  (cmd.fee.toNat : ℚ) / cmd.weight

def applicableAtNonce (cmd : Command) : Nonce :=
  cmd.nonce

def expectedTargetNonce (cmd : Command) : Nonce :=
  Nonce.incr cmd.applicableAtNonce

end Command

inductive CommandError
  | invalidNonce (accountNonce expected : Nonce)
  | insufficientFunds (balance consumed : UInt64)
  | insufficientReplaceFee (replaceFee fee : UInt64)
  | overflow
  | badToken
  | expired (validUntil globalSlotSinceGenesis : Slot)
  | unwantedFeeToken (tokenId : TokenId)
  | afterSlotTxEnd
  | backtrackNonceMismatch (expectedNonce firstNonce : Nonce)
  | invalidCurrencyConsumed
  | custom
  deriving DecidableEq

def replaceFee : UInt64 := 1

/-- `my_assert`: a failed assertion is the error `Custom`. -/
def myAssert (v : Bool) : Except CommandError Unit :=
  if v then .ok () else .error .custom

def fromExcept {α : Type} (x : Except CommandError α) : ExceptT CommandError Option α :=
  ExceptT.mk (some x)

@[simp] theorem fromExcept_run {α : Type} (x : Except CommandError α) : (fromExcept x).run = some x :=
  rfl

/-- `currency_consumed`: the fee, plus the amount of a payment. -/
def currencyConsumed (cmd : Command) : Except CommandError UInt64 :=
  let amount : UInt64 :=
    match cmd.body with
    | .payment amount => amount
    | .stakeDelegation => 0
    | .zkAppCommand => 0
  match checkedAdd cmd.fee amount with
  | some consumed => .ok consumed
  | none => .error .invalidCurrencyConsumed

/-! ## Maps of sets -/

section MapSet

variable {K V : Type} [DecidableEq K] [DecidableEq V]

def mapSetInsert (map : AList fun _ : K => List V) (key : K) (value : V) :
    AList fun _ : K => List V :=
  map.insert key (((map.lookup key).getD []).insert value)

/-- `map_set_remove`: a key whose set becomes empty is removed. -/
def mapSetRemove (map : AList fun _ : K => List V) (key : K) (value : V) :
    AList fun _ : K => List V :=
  match map.lookup key with
  | none => map
  | some set =>
    let set := set.erase value
    if set.isEmpty then map.erase key else map.insert key set

end MapSet

/-! ## The pool -/

structure IndexedPool where
  applicableByFee : AList fun _ : FeeRate => List Command
  allBySender : AList fun _ : AccountId => List Command × UInt64
  allByFee : AList fun _ : FeeRate => List Command
  allByHash : AList fun _ : TransactionHash => Command
  transactionsWithExpiration : AList fun _ : Slot => List Command
  size : ℕ
  /-- The only field of the configuration that the modelled operations read. -/
  slotTxEnd : Option Slot

inductive Update
  | add (command : Command) (feePerWu : FeeRate) (addToApplicableByFee : Bool)
  | removeAllByFeeAndHashAndExpiration (commands : List Command)
  | removeFromApplicableByFee (feePerWu : FeeRate) (command : Command)

structure SenderState where
  sender : AccountId
  state : Option (List Command × UInt64)

namespace IndexedPool

def new : IndexedPool :=
  ⟨∅, ∅, ∅, ∅, ∅, 0, none⟩

def member (self : IndexedPool) (cmd : Command) : Bool :=
  (self.allByHash.lookup cmd.hash).isSome

def checkExpiry (globalSlotSinceGenesis : Slot) (cmd : Command) : Except CommandError Unit :=
  if cmd.validUntil < globalSlotSinceGenesis then
    .error (.expired cmd.validUntil globalSlotSinceGenesis)
  else .ok ()

def updateExpirationMap (self : IndexedPool) (cmd : Command) (isAdd : Bool) : IndexedPool :=
  if cmd.validUntil = Slot.max then self
  else if isAdd then
    { self with
      transactionsWithExpiration := mapSetInsert self.transactionsWithExpiration cmd.validUntil cmd }
  else
    { self with
      transactionsWithExpiration := mapSetRemove self.transactionsWithExpiration cmd.validUntil cmd }

def updateAdd (self : IndexedPool) (cmd : Command) (feePerWu : FeeRate)
    (addToApplicableByFee : Bool) : IndexedPool :=
  let self :=
    if addToApplicableByFee then
      { self with applicableByFee := mapSetInsert self.applicableByFee feePerWu cmd }
    else self
  let self :=
    { self with
      allByFee := mapSetInsert self.allByFee feePerWu cmd
      allByHash := self.allByHash.insert cmd.hash cmd }
  let self := self.updateExpirationMap cmd true
  { self with size := self.size + 1 }

@[simp] theorem updateExpirationMap_allByHash (self : IndexedPool) (cmd : Command) (isAdd : Bool) :
    (self.updateExpirationMap cmd isAdd).allByHash = self.allByHash := by
  unfold updateExpirationMap
  split_ifs <;> rfl

@[simp] theorem updateExpirationMap_size (self : IndexedPool) (cmd : Command) (isAdd : Bool) :
    (self.updateExpirationMap cmd isAdd).size = self.size := by
  unfold updateExpirationMap
  split_ifs <;> rfl

@[simp] theorem updateAdd_allByHash (self : IndexedPool) (cmd : Command) (feePerWu : FeeRate)
    (addToApplicableByFee : Bool) :
    (self.updateAdd cmd feePerWu addToApplicableByFee).allByHash = self.allByHash.insert cmd.hash cmd := by
  unfold updateAdd
  split_ifs <;> simp

/-- One command of `update_remove_all_by_fee_and_hash_and_expiration`; the size
decrement is a `checked_sub(1).unwrap()`. -/
def removeOne (self : IndexedPool) (cmd : Command) : Option IndexedPool :=
  let self :=
    { self with
      allByFee := mapSetRemove self.allByFee cmd.feePerWu cmd
      allByHash := self.allByHash.erase cmd.hash }
  let self := self.updateExpirationMap cmd false
  if self.size = 0 then none else some { self with size := self.size - 1 }

theorem removeOne_of_pos (self : IndexedPool) (cmd : Command) (positive : self.size ≠ 0) :
    ∃ pool, self.removeOne cmd = some pool ∧ pool.allByHash = self.allByHash.erase cmd.hash ∧
      pool.size = self.size - 1 := by
  unfold removeOne
  simp only [updateExpirationMap_size, positive, if_false]
  exact ⟨_, rfl, by simp, by simp⟩

def updateRemoveAllByFeeAndHashAndExpiration (self : IndexedPool) (cmds : List Command) :
    Option IndexedPool :=
  cmds.foldlM removeOne self

def updateRemoveFromApplicableByFee (self : IndexedPool) (feePerWu : FeeRate) (command : Command) :
    IndexedPool :=
  { self with applicableByFee := mapSetRemove self.applicableByFee feePerWu command }

@[simp] theorem updateRemoveFromApplicableByFee_allByHash (self : IndexedPool) (feePerWu : FeeRate)
    (command : Command) : (self.updateRemoveFromApplicableByFee feePerWu command).allByHash = self.allByHash :=
  rfl

def applyUpdate (self : IndexedPool) : Update → Option IndexedPool
  | .add command feePerWu addToApplicableByFee =>
    some (self.updateAdd command feePerWu addToApplicableByFee)
  | .removeAllByFeeAndHashAndExpiration commands =>
    self.updateRemoveAllByFeeAndHashAndExpiration commands
  | .removeFromApplicableByFee feePerWu command =>
    some (self.updateRemoveFromApplicableByFee feePerWu command)

def applyUpdates (self : IndexedPool) (updates : List Update) : Option IndexedPool :=
  updates.foldlM applyUpdate self

def setSender (self : IndexedPool) (bySender : SenderState) : IndexedPool :=
  match bySender.state with
  | some state => { self with allBySender := self.allBySender.insert bySender.sender state }
  | none => { self with allBySender := self.allBySender.erase bySender.sender }

@[simp] theorem setSender_allByHash (self : IndexedPool) (bySender : SenderState) :
    (self.setSender bySender).allByHash = self.allByHash := by
  unfold setSender
  split <;> rfl

@[simp] theorem setSender_size (self : IndexedPool) (bySender : SenderState) :
    (self.setSender bySender).size = self.size := by
  unfold setSender
  split <;> rfl

/-- The `try_fold` of `remove_with_dependents_exn_impl`: the currency the dropped
commands consumed, with `checked_add(..).unwrap()`. -/
def currencyToRemove (dropQueue : List Command) : ExceptT CommandError Option UInt64 :=
  dropQueue.foldlM
    (fun acc cmd => do
      let consumed ← fromExcept (currencyConsumed cmd)
      ExceptT.lift (checkedAdd consumed acc))
    0

/-- `remove_with_dependents_exn_impl`: the sender's state and the updates come back
also with an error, since the caller writes them either way; the sender's queue is
already cut (`split_off`) when a later step fails. -/
def removeWithDependentsExnImpl (cmd : Command) (bySender : SenderState) (updates : List Update) :
    Option (SenderState × List Update × Except CommandError (List Command)) := do
  let (senderQueue, reservedCurrency) ← bySender.state
  if senderQueue.isEmpty then return (bySender, updates, .error .custom)
  let cmdNonce := cmd.applicableAtNonce
  let cmdIndex ← senderQueue.findIdx? fun queued => queued.applicableAtNonce == cmdNonce
  let dropQueue := senderQueue.drop cmdIndex
  let keepQueue := senderQueue.take cmdIndex
  let bySender := { bySender with state := some (keepQueue, reservedCurrency) }
  if dropQueue.isEmpty then return (bySender, updates, .error .custom)
  match ← (currencyToRemove dropQueue).run with
  | .error err => return (bySender, updates, .error err)
  | .ok currencyToRemove =>
    let reservedCurrency' ← checkedSub reservedCurrency currencyToRemove
    let updates := updates ++ [.removeAllByFeeAndHashAndExpiration dropQueue]
    let updates :=
      if cmdIndex = 0 then updates ++ [.removeFromApplicableByFee cmd.feePerWu cmd] else updates
    if !keepQueue.isEmpty then
      return ({ bySender with state := some (keepQueue, reservedCurrency') }, updates, .ok dropQueue)
    else if reservedCurrency' = 0 then
      return ({ bySender with state := none }, updates, .ok dropQueue)
    else return (bySender, updates, .error .custom)

/-- `remove_with_dependents_exn`: the sender's state and the updates are written back
whatever the result. -/
def removeWithDependentsExn (self : IndexedPool) (cmd : Command) :
    Option (IndexedPool × Except CommandError (List Command)) := do
  let bySender : SenderState := ⟨cmd.feePayer, self.allBySender.lookup cmd.feePayer⟩
  let (bySender, updates, result) ← removeWithDependentsExnImpl cmd bySender []
  let self ← (self.setSender bySender).applyUpdates updates
  return (self, result)

/-- Once a re-added command of the replaced tail has failed, the loop of the
replace-by-fee branch only charges the fees of the commands left, the failed one
first, against the fee increment. -/
def chargeFees (increment : UInt64) : List Command → Except CommandError UInt64
  | [] => .ok increment
  | cmd :: rest =>
    match checkedSub increment cmd.fee with
    | some increment => chargeFees increment rest
    | none => .error (.insufficientReplaceFee cmd.fee increment)

/-- The loop of the replace-by-fee branch over the tail of the replaced commands: each
is added again at the next nonce with `add`; at the first that fails, the sender's state
is restored, the commands after it are the dropped ones, and the fees of it and of them
are charged. The result is the increment left, the dropped commands if one failed, the
sender's state and the updates. -/
def readdTail
    (add : Command → Nonce → SenderState →
      ExceptT CommandError Option ((Command × List Command) × SenderState × List Update))
    (increment : UInt64) (currentNonce : Nonce) (bySender : SenderState) (updates : List Update) :
    List Command →
      ExceptT CommandError Option (UInt64 × Option (List Command) × SenderState × List Update)
  | [] => pure (increment, none, bySender, updates)
  | cmd :: rest => do
    let currentNonce := Nonce.incr currentNonce
    match ← ExceptT.lift (add cmd currentNonce bySender).run with
    | .ok ((_, dropped), bySender', thisUpdates) =>
      fromExcept (myAssert dropped.isEmpty)
      readdTail add increment currentNonce bySender' (updates ++ thisUpdates) rest
    | .error _ =>
      let increment ← fromExcept (chargeFees increment (cmd :: rest))
      pure (increment, some rest, bySender, updates)

/-- `add_from_gossip_exn_impl`, with `fuel` bounding the nesting of the replace-by-fee
branch, which adds the new command and the replaced tail again through this function. -/
def addFromGossipExnImpl (self : IndexedPool) (globalSlotSinceGenesis currentGlobalSlot : Slot)
    (balance : UInt64) :
    ℕ → Command → Nonce → SenderState → List Update →
      ExceptT CommandError Option ((Command × List Command) × SenderState × List Update)
  | 0, _, _, _, _ => ExceptT.lift none
  | fuel + 1, cmd, currentNonce, bySender, updates => do
    if !(self.slotTxEnd.map fun slotTxEnd => decide (currentGlobalSlot < slotTxEnd)).getD true then
      throw .afterSlotTxEnd
    let fee := cmd.fee
    let feePerWu := cmd.feePerWu
    let cmdApplicableAtNonce := cmd.applicableAtNonce
    fromExcept (checkExpiry globalSlotSinceGenesis cmd)
    let consumed ← fromExcept ((currencyConsumed cmd).mapError fun _ => .overflow)
    if cmd.feeToken ≠ TokenId.default then throw (.unwantedFeeToken cmd.feeToken)
    match bySender.state with
    | none =>
      if currentNonce ≠ cmdApplicableAtNonce then
        throw (.invalidNonce currentNonce cmdApplicableAtNonce)
      if consumed > balance then throw (.insufficientFunds balance consumed)
      pure ((cmd, []), { bySender with state := some ([cmd], consumed) },
        updates ++ [.add cmd feePerWu true])
    | some (queuedCmds, reservedCurrency) =>
      fromExcept (myAssert !queuedCmds.isEmpty)
      let first ← ExceptT.lift queuedCmds.head?
      let last ← ExceptT.lift queuedCmds.getLast?
      let queueApplicableAtNonce := first.applicableAtNonce
      let queueTargetNonce := last.expectedTargetNonce
      if queueTargetNonce = cmdApplicableAtNonce then
        let reservedCurrency ← okOr (checkedAdd consumed reservedCurrency) .overflow
        if reservedCurrency > balance then throw (.insufficientFunds balance reservedCurrency)
        pure ((cmd, []), { bySender with state := some (queuedCmds ++ [cmd], reservedCurrency) },
          updates ++ [.add cmd feePerWu false])
      else if queueApplicableAtNonce = currentNonce then
        if !(queueApplicableAtNonce ≤ cmdApplicableAtNonce && cmdApplicableAtNonce ≤ queueTargetNonce) then
          throw (.invalidNonce cmdApplicableAtNonce queueApplicableAtNonce)
        let replacementIndex ← ExceptT.lift
          (queuedCmds.findIdx? fun queued => decide (cmdApplicableAtNonce ≤ queued.applicableAtNonce))
        let dropQueue := queuedCmds.drop replacementIndex
        let toDrop ← ExceptT.lift dropQueue.head?
        fromExcept (myAssert (cmdApplicableAtNonce ≤ toDrop.applicableAtNonce))
        if fee < toDrop.fee then throw (.insufficientReplaceFee toDrop.fee fee)
        let (bySender, updates, removed) ←
          ExceptT.lift (removeWithDependentsExnImpl toDrop bySender updates)
        let dropped ← fromExcept removed
        fromExcept (myAssert (dropQueue == dropped))
        let ((cmd, addDropped), bySender, updates) ←
          addFromGossipExnImpl self globalSlotSinceGenesis currentGlobalSlot balance fuel cmd
            currentNonce bySender updates
        fromExcept (myAssert addDropped.isEmpty)
        let dropHead ← ExceptT.lift dropped.head?
        let increment ← ExceptT.lift (checkedSub fee toDrop.fee)
        let (increment, droppedTail, bySender, updates) ←
          readdTail
            (fun cmd currentNonce bySender =>
              addFromGossipExnImpl self globalSlotSinceGenesis currentGlobalSlot balance fuel cmd
                currentNonce bySender [])
            increment currentNonce bySender updates dropped.tail
        if increment < replaceFee then throw (.insufficientReplaceFee replaceFee increment)
        pure ((cmd, dropHead :: droppedTail.getD []), bySender, updates)
      else throw (.invalidNonce cmdApplicableAtNonce queueTargetNonce)

/-- `add_from_gossip_exn`: the sender's state and the updates are written only when the
command is accepted. -/
def addFromGossipExn (self : IndexedPool) (fuel : ℕ) (globalSlotSinceGenesis currentGlobalSlot : Slot)
    (cmd : Command) (currentNonce : Nonce) (balance : UInt64) :
    ExceptT CommandError Option (IndexedPool × Command × List Command) := do
  let bySender : SenderState := ⟨cmd.feePayer, self.allBySender.lookup cmd.feePayer⟩
  let (result, bySender, updates) ←
    self.addFromGossipExnImpl globalSlotSinceGenesis currentGlobalSlot balance fuel cmd currentNonce
      bySender []
  let self ← ExceptT.lift ((self.setSender bySender).applyUpdates updates)
  pure (self, result)

def removeApplicableExn (self : IndexedPool) (cmd : Command) : IndexedPool :=
  { self with applicableByFee := mapSetRemove self.applicableByFee cmd.feePerWu cmd }

/-- `add_from_backtrack`: a command of a block that left the best chain goes back in
front of its sender's queue, with no check of the balance. -/
def addFromBacktrack (self : IndexedPool) (globalSlotSinceGenesis currentGlobalSlot : Slot)
    (cmd : Command) : ExceptT CommandError Option IndexedPool := do
  if !(self.slotTxEnd.map fun slotTxEnd => decide (currentGlobalSlot < slotTxEnd)).getD true then
    throw .afterSlotTxEnd
  fromExcept (checkExpiry globalSlotSinceGenesis cmd)
  let feePayer := cmd.feePayer
  let feePerWu := cmd.feePerWu
  let consumed ← fromExcept (currencyConsumed cmd)
  match self.allBySender.lookup feePayer with
  | none =>
    let self := { self with allBySender := self.allBySender.insert feePayer ([cmd], consumed) }
    let self := { self with allByFee := mapSetInsert self.allByFee feePerWu cmd }
    let self := { self with allByHash := self.allByHash.insert cmd.hash cmd }
    let self := { self with applicableByFee := mapSetInsert self.applicableByFee feePerWu cmd }
    let self := self.updateExpirationMap cmd true
    pure { self with size := self.size + 1 }
  | some (queue, currencyReserved) =>
    let firstQueued ← ExceptT.lift queue.head?
    let expectedNonce := cmd.expectedTargetNonce
    let firstNonce := firstQueued.applicableAtNonce
    if expectedNonce ≠ firstNonce then throw (.backtrackNonceMismatch expectedNonce firstNonce)
    let currencyReserved ← ExceptT.lift (checkedAdd currencyReserved consumed)
    let self :=
      { self with allBySender := self.allBySender.insert feePayer (cmd :: queue, currencyReserved) }
    let self := self.removeApplicableExn firstQueued
    let self := { self with applicableByFee := mapSetInsert self.applicableByFee feePerWu cmd }
    let self := { self with allByFee := mapSetInsert self.allByFee feePerWu cmd }
    let self := { self with allByHash := self.allByHash.insert cmd.hash cmd }
    let self := self.updateExpirationMap cmd true
    pure { self with size := self.size + 1 }

def expiredByGlobalSlot (self : IndexedPool) (globalSlotSinceGenesis : Slot) : List Command :=
  (self.transactionsWithExpiration.entries.filter fun entry =>
    decide (entry.1 < globalSlotSinceGenesis)).flatMap fun entry => entry.2

/-- The loop of `remove_expired`: a command still in the pool is removed with its
dependents; the first error ends the loop, after the removals made so far. -/
def removeExpiredLoop : IndexedPool → List Command → List Command →
    Option (IndexedPool × Except CommandError (List Command))
  | self, dropped, [] => some (self, .ok dropped)
  | self, dropped, cmd :: rest =>
    if self.member cmd then do
      let (self, removed) ← self.removeWithDependentsExn cmd
      match removed with
      | .ok removed => removeExpiredLoop self (dropped ++ removed) rest
      | .error err => some (self, .error err)
    else removeExpiredLoop self dropped rest

def removeExpired (self : IndexedPool) (globalSlotSinceGenesis : Slot) :
    Option (IndexedPool × Except CommandError (List Command)) :=
  removeExpiredLoop self [] (self.expiredByGlobalSlot globalSlotSinceGenesis)

def minFee (self : IndexedPool) : Option FeeRate :=
  self.allByFee.keys.min?

/-- `remove_lowest_fee`: of the commands at the least fee rate, the one a `BTreeSet`
puts first (the order of `WithHash` is that of the hashes) goes with its dependents. -/
def removeLowestFee (self : IndexedPool) :
    Option (IndexedPool × Except CommandError (List Command)) :=
  match self.minFee.bind fun fee => self.allByFee.lookup fee with
  | none => some (self, .ok [])
  | some set => do
    let min ← set.argmin Command.hash
    self.removeWithDependentsExn min

/-- `drop_until_sufficient_balance`: commands leave the back of the queue until what
it reserves is covered by the balance. -/
def dropUntilSufficientBalance (queue : List Command) (currencyReserved currentBalance : UInt64)
    (droppedSoFar : List Command) :
    ExceptT CommandError Option (List Command × UInt64 × List Command) :=
  if currencyReserved > currentBalance then
    -- `pop_back().unwrap()`
    if empty : queue = [] then ExceptT.lift none
    else do
      let last := queue.getLast empty
      let consumed ← fromExcept (currencyConsumed last)
      let currencyReserved ← ExceptT.lift (checkedSub currencyReserved consumed)
      dropUntilSufficientBalance queue.dropLast currencyReserved currentBalance (droppedSoFar ++ [last])
  else pure (queue, currencyReserved, droppedSoFar)
termination_by queue.length
decreasing_by
  have positive : 0 < queue.length := List.length_pos_iff.mpr empty
  simp only [List.length_dropLast]
  omega

inductive RevalidateKind
  | entirePool
  | subset (accounts : List AccountId)

def RevalidateKind.requiresRevalidation : RevalidateKind → AccountId → Bool
  | .entirePool, _ => true
  | .subset accounts, accountId => accounts.contains accountId

/-- The loop of `revalidate` that takes the reservation of the commands dropped for
their nonce off the sender's reserved currency. -/
def subtractConsumed (currencyReserved : UInt64) (cmds : List Command) :
    ExceptT CommandError Option UInt64 :=
  cmds.foldlM
    (fun currencyReserved cmd => do
      let consumed ← fromExcept (currencyConsumed cmd)
      ExceptT.lift (checkedSub currencyReserved consumed))
    currencyReserved

/-- The `match` of `revalidate` on the first kept command, before the dropped commands
leave the other indices. -/
def revalidateSender (self : IndexedPool) (sender : AccountId) (firstCmd : Command)
    (keepQueue : List Command) (currencyReserved : UInt64) (keepingPrefix keepingSuffix : Bool) :
    IndexedPool :=
  if keepingPrefix && keepingSuffix then self
  else
    match keepQueue.head? with
    | none => { self.removeApplicableExn firstCmd with allBySender := self.allBySender.erase sender }
    | some firstKept =>
      if keepingPrefix then
        { self with allBySender := self.allBySender.insert sender (keepQueue, currencyReserved) }
      else
        let self :=
          { self with allBySender := self.allBySender.insert sender (keepQueue, currencyReserved) }
        let self := self.removeApplicableExn firstCmd
        { self with applicableByFee := mapSetInsert self.applicableByFee firstKept.feePerWu firstKept }

/-- The body of the loop of `revalidate` for one sender, from the queue and reserved
currency of the copy the loop runs over. -/
def revalidateOne (self : IndexedPool) (globalSlotSinceGenesis : Slot)
    (account : Openmina.TransactionLogic.Account) (sender : AccountId) (queue : List Command)
    (currencyReserved : UInt64) : Option (IndexedPool × Except CommandError (List Command)) := do
  let currentBalance ← account.liquidBalanceAtSlot globalSlotSinceGenesis.toNat
  let firstCmd ← queue.head?
  let firstNonce := firstCmd.applicableAtNonce
  let maySend ← account.hasPermissionToSend
  let permitted ← if maySend then account.hasPermissionToIncrementNonce else pure false
  if !permitted || account.nonce < firstNonce then
    self.removeWithDependentsExn firstCmd
  else
    let firstApplicableNonceIndex := queue.findIdx? fun cmd => cmd.applicableAtNonce == account.nonce
    let retainedForNonce :=
      match firstApplicableNonceIndex with
      | some index => queue.drop index
      | none => []
    let droppedForNonce :=
      match firstApplicableNonceIndex with
      | some index => queue.take index
      | none => queue
    match ← (subtractConsumed currencyReserved droppedForNonce).run with
    | .error err => pure (self, .error err)
    | .ok currencyReserved =>
      match ← (dropUntilSufficientBalance retainedForNonce currencyReserved currentBalance []).run with
      | .error err => pure (self, .error err)
      | .ok (keepQueue, currencyReserved, droppedForBalance) =>
        let toDrop := droppedForNonce ++ droppedForBalance
        let self :=
          revalidateSender self sender firstCmd keepQueue currencyReserved droppedForNonce.isEmpty
            droppedForBalance.isEmpty
        let self ← self.updateRemoveAllByFeeAndHashAndExpiration toDrop
        pure (self, .ok toDrop)

/-- The loop of `revalidate` over a copy of `all_by_sender`: the first error ends it,
after the changes made so far. -/
def revalidateLoop (globalSlotSinceGenesis : Slot) (kind : RevalidateKind)
    (getAccount : AccountId → Option Openmina.TransactionLogic.Account) :
    IndexedPool → List Command → List (Σ _ : AccountId, List Command × UInt64) →
      Option (IndexedPool × Except CommandError (List Command))
  | self, dropped, [] => some (self, .ok dropped)
  | self, dropped, ⟨sender, (queue, currencyReserved)⟩ :: rest =>
    if !kind.requiresRevalidation sender then
      revalidateLoop globalSlotSinceGenesis kind getAccount self dropped rest
    else
      match getAccount sender with
      -- "Account not find"
      | none => some (self, .error .custom)
      | some account => do
        let (self, result) ←
          self.revalidateOne globalSlotSinceGenesis account sender queue currencyReserved
        match result with
        | .ok thisDropped =>
          revalidateLoop globalSlotSinceGenesis kind getAccount self (dropped ++ thisDropped) rest
        | .error err => some (self, .error err)

def revalidate (self : IndexedPool) (globalSlotSinceGenesis : Slot) (kind : RevalidateKind)
    (getAccount : AccountId → Option Openmina.TransactionLogic.Account) :
    Option (IndexedPool × Except CommandError (List Command)) :=
  revalidateLoop globalSlotSinceGenesis kind getAccount self [] self.allBySender.entries

end IndexedPool

end Openmina.TransactionPool
