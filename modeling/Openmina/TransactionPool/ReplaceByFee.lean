import Openmina.TransactionPool.IndexedPool

/-!
# Replace by fee

The branch of `add_from_gossip_exn` that replaces a queued command by one with a higher
fee: the queue is removed from the replaced command on, the new command is added, and
the rest of the removed queue is added back one command at a time until one fails. The
command that fails is removed from the pool, but the list of dropped commands starts
after it.
-/

namespace Openmina.TransactionPool

open Openmina.Control.ExceptOption
open Openmina.TransactionLogic (AccountId checkedAdd checkedSub Nonce.incr)
open Openmina.ScanState.FeeExcessCombine (TokenId)

set_option autoImplicit false

theorem checkedAdd_zero (x : UInt64) : checkedAdd x 0 = some x := by
  simp [checkedAdd, x.toNat_lt]

namespace IndexedPool

variable {self : IndexedPool} {globalSlotSinceGenesis currentGlobalSlot : Slot} {balance : UInt64}

theorem addFromGossipExnImpl_new (fuel : ℕ) {cmd : Command} {spend : UInt64} (sender : AccountId)
    {updates : List Update} (opened : self.slotTxEnd = none)
    (live : ¬ cmd.validUntil < globalSlotSinceGenesis) (spent : currencyConsumed cmd = .ok spend)
    (token : cmd.feeToken = TokenId.default) (affordable : spend ≤ balance) :
    (self.addFromGossipExnImpl globalSlotSinceGenesis currentGlobalSlot balance (fuel + 1) cmd cmd.nonce
      ⟨sender, none⟩ updates).run =
      some (.ok ((cmd, []), ⟨sender, some ([cmd], spend)⟩, updates ++ [.add cmd cmd.feePerWu true])) := by
  simp [addFromGossipExnImpl, opened, checkExpiry, live, spent, token, Command.applicableAtNonce,
    UInt64.not_lt.mpr affordable, Except.mapError]

theorem addFromGossipExnImpl_follow_refused (fuel : ℕ) {cmd first last : Command}
    {queue : List Command} {reserved spend : UInt64} (currentNonce : Nonce) (sender : AccountId)
    (updates : List Update) (spent : currencyConsumed cmd = .ok spend)
    (firstIs : queue.head? = some first) (lastIs : queue.getLast? = some last)
    (follows : last.expectedTargetNonce = cmd.applicableAtNonce)
    (refused : ∀ total, checkedAdd spend reserved = some total → balance < total) :
    ∃ err, (self.addFromGossipExnImpl globalSlotSinceGenesis currentGlobalSlot balance (fuel + 1) cmd
      currentNonce ⟨sender, some (queue, reserved)⟩ updates).run = some (.error err) := by
  have nonempty : queue.isEmpty = false := by
    cases queue with
    | nil => cases firstIs
    | cons _ _ => rfl
  unfold addFromGossipExnImpl
  by_cases late : (self.slotTxEnd.map fun slotTxEnd => decide (currentGlobalSlot < slotTxEnd)).getD true
  · by_cases expired : cmd.validUntil < globalSlotSinceGenesis
    · simp [late, checkExpiry, expired]
    by_cases token : cmd.feeToken = TokenId.default
    · cases added : checkedAdd spend reserved with
      | none =>
        simp [late, checkExpiry, expired, spent, Except.mapError, token, nonempty, firstIs, lastIs,
          follows, added, okOr, myAssert]
      | some total =>
        have exceeds := refused total added
        simp [late, checkExpiry, expired, spent, Except.mapError, token, nonempty, firstIs, lastIs,
          follows, added, okOr, myAssert, exceeds]
    · simp [late, checkExpiry, expired, spent, Except.mapError, token]
  · simp [late]

theorem currencyToRemove_pair {head next : Command} {headSpend nextSpend total : UInt64}
    (headSpent : currencyConsumed head = .ok headSpend) (nextSpent : currencyConsumed next = .ok nextSpend)
    (summed : checkedAdd nextSpend headSpend = some total) :
    (currencyToRemove [head, next]).run = some (.ok total) := by
  simp [currencyToRemove, headSpent, nextSpent, checkedAdd_zero, summed]

theorem removeWithDependentsExnImpl_whole {head : Command} {rest : List Command} {reserved : UInt64}
    (sender : AccountId) (updates : List Update)
    (consumed : (currencyToRemove (head :: rest)).run = some (.ok reserved)) :
    removeWithDependentsExnImpl head ⟨sender, some (head :: rest, reserved)⟩ updates =
      some (⟨sender, none⟩,
        updates ++ [.removeAllByFeeAndHashAndExpiration (head :: rest),
          .removeFromApplicableByFee head.feePerWu head],
        .ok (head :: rest)) := by
  have found : (head :: rest).findIdx? (fun queued => queued.applicableAtNonce == head.applicableAtNonce) =
      some 0 := by
    simp [List.findIdx?_cons]
  simp [removeWithDependentsExnImpl, found, consumed, checkedSub]

/-- The first re-added command that fails ends the re-adding: the sender's state and
the updates are those from before it, the commands after it are the dropped ones, and
the fees of it and of them are charged. -/
theorem readdTail_of_error
    {add : Command → Nonce → SenderState →
      ExceptT CommandError Option ((Command × List Command) × SenderState × List Update)}
    {increment charged : UInt64} {currentNonce : Nonce} {bySender : SenderState}
    {updates : List Update} {cmd : Command} {rest : List Command} {err : CommandError}
    (fails : (add cmd (Nonce.incr currentNonce) bySender).run = some (.error err))
    (paid : chargeFees increment (cmd :: rest) = .ok charged) :
    (readdTail add increment currentNonce bySender updates (cmd :: rest)).run =
      some (.ok (charged, some rest, bySender, updates)) := by
  simp [readdTail, fails, paid, Except.map]

theorem addFromGossipExnImpl_replace_head (fuel : ℕ) {cmd head next : Command}
    {spend headSpend nextSpend reserved : UInt64} (sender : AccountId)
    (opened : self.slotTxEnd = none) (live : ¬ cmd.validUntil < globalSlotSinceGenesis)
    (token : cmd.feeToken = TokenId.default) (spent : currencyConsumed cmd = .ok spend)
    (headSpent : currencyConsumed head = .ok headSpend) (nextSpent : currencyConsumed next = .ok nextSpend)
    (reservedIs : checkedAdd nextSpend headSpend = some reserved)
    (headNonce : head.nonce = cmd.nonce) (nextNonce : next.nonce = Nonce.incr cmd.nonce)
    (room : cmd.nonce.toNat + 2 < 2 ^ 32) (affordable : spend ≤ balance)
    (refused : ∀ total, checkedAdd nextSpend spend = some total → balance < total)
    (fees : head.fee.toNat + next.fee.toNat + replaceFee.toNat ≤ cmd.fee.toNat) :
    (self.addFromGossipExnImpl globalSlotSinceGenesis currentGlobalSlot balance (fuel + 1 + 1) cmd cmd.nonce
      ⟨sender, some ([head, next], reserved)⟩ []).run =
      some (.ok ((cmd, [head]), ⟨sender, some ([cmd], spend)⟩,
        [.removeAllByFeeAndHashAndExpiration [head, next], .removeFromApplicableByFee head.feePerWu head,
          .add cmd cmd.feePerWu true])) := by
  have removed := removeWithDependentsExnImpl_whole sender []
    (currencyToRemove_pair headSpent nextSpent reservedIs)
  -- the second command does not fit behind the new one
  have readd : ∃ err, (self.addFromGossipExnImpl globalSlotSinceGenesis currentGlobalSlot balance (fuel + 1)
      next (Nonce.incr cmd.nonce) ⟨sender, some ([cmd], spend)⟩ []).run = some (.error err) :=
    addFromGossipExnImpl_follow_refused fuel (Nonce.incr cmd.nonce) sender [] nextSpent rfl rfl
      (by simp [Command.expectedTargetNonce, Command.applicableAtNonce, nextNonce]) refused
  obtain ⟨err, readdFails⟩ := readd
  have twoAhead : next.expectedTargetNonce.toNat = cmd.nonce.toNat + 2 := by
    simp only [Command.expectedTargetNonce, Command.applicableAtNonce, Nonce.incr, nextNonce,
      UInt32.toNat_add, UInt32.toNat_one]
    omega
  have notFollowing : next.expectedTargetNonce ≠ cmd.nonce := by
    intro same
    have := congrArg UInt32.toNat same
    omega
  have notBelow : ¬ next.expectedTargetNonce < cmd.nonce := by
    rw [UInt32.lt_iff_toNat_lt, twoAhead]
    omega
  have reaches : cmd.nonce ≤ next.expectedTargetNonce := by
    rw [UInt32.le_iff_toNat_le, twoAhead]
    omega
  have headCovered : head.fee ≤ cmd.fee := by
    rw [UInt64.le_iff_toNat_le]
    omega
  have increment : (cmd.fee - head.fee).toNat = cmd.fee.toNat - head.fee.toNat :=
    UInt64.toNat_sub_of_le _ _ headCovered
  have nextCovered : next.fee ≤ cmd.fee - head.fee := by
    rw [UInt64.le_iff_toNat_le, increment]
    omega
  have left : (cmd.fee - head.fee - next.fee).toNat = cmd.fee.toNat - head.fee.toNat - next.fee.toNat := by
    rw [UInt64.toNat_sub_of_le _ _ nextCovered, increment]
  have enough : ¬ cmd.fee - head.fee - next.fee < replaceFee := by
    rw [UInt64.lt_iff_toNat_lt, left]
    omega
  -- the loop over the tail stops at the second command and charges its fee
  have paid : chargeFees (cmd.fee - head.fee) [next] = .ok (cmd.fee - head.fee - next.fee) := by
    simp [chargeFees, checkedSub, nextCovered]
  have tail : (readdTail
      (fun cmd currentNonce bySender =>
        self.addFromGossipExnImpl globalSlotSinceGenesis currentGlobalSlot balance (fuel + 1) cmd
          currentNonce bySender [])
      (cmd.fee - head.fee) cmd.nonce ⟨sender, some ([cmd], spend)⟩
      [.removeAllByFeeAndHashAndExpiration [head, next], .removeFromApplicableByFee head.feePerWu head,
        .add cmd cmd.feePerWu true] [next]).run =
      some (.ok (cmd.fee - head.fee - next.fee, some [], ⟨sender, some ([cmd], spend)⟩,
        [.removeAllByFeeAndHashAndExpiration [head, next], .removeFromApplicableByFee head.feePerWu head,
          .add cmd cmd.feePerWu true])) :=
    readdTail_of_error readdFails paid
  rw [addFromGossipExnImpl.eq_2]
  simp [opened, checkExpiry, live, spent, token, Except.mapError, myAssert, Command.applicableAtNonce,
    notFollowing, reaches, headNonce, List.findIdx?_cons, removed, UInt64.not_lt.mpr headCovered,
    addFromGossipExnImpl_new fuel sender opened live spent token affordable, checkedSub, headCovered,
    tail, enough]

/-- A sender with two queued commands, and a command at the account's nonce whose fee
covers both of theirs and whose currency leaves too little of the balance for the second:
`add_from_gossip_exn` accepts it and reports only the first as dropped, but the second
is gone from the pool as well. -/
theorem replace_by_fee_drops_unreported {fuel : ℕ} {cmd head next : Command}
    {spend headSpend nextSpend reserved : UInt64} (opened : self.slotTxEnd = none)
    (queued : self.allBySender.lookup cmd.feePayer = some ([head, next], reserved))
    (sized : 2 ≤ self.size)
    (live : ¬ cmd.validUntil < globalSlotSinceGenesis) (token : cmd.feeToken = TokenId.default)
    (spent : currencyConsumed cmd = .ok spend) (headSpent : currencyConsumed head = .ok headSpend)
    (nextSpent : currencyConsumed next = .ok nextSpend)
    (reservedIs : checkedAdd nextSpend headSpend = some reserved)
    (headNonce : head.nonce = cmd.nonce) (nextNonce : next.nonce = Nonce.incr cmd.nonce)
    (room : cmd.nonce.toNat + 2 < 2 ^ 32) (affordable : spend ≤ balance)
    (refused : ∀ total, checkedAdd nextSpend spend = some total → balance < total)
    (fees : head.fee.toNat + next.fee.toNat + replaceFee.toNat ≤ cmd.fee.toNat)
    (distinct : cmd.hash ≠ next.hash) :
    ∃ pool, (self.addFromGossipExn (fuel + 1 + 1) globalSlotSinceGenesis currentGlobalSlot cmd cmd.nonce
        balance).run = some (.ok (pool, cmd, [head])) ∧
      next ∉ [head] ∧ ¬ pool.member next := by
  -- the updates remove both queued commands, then add the new one
  obtain ⟨afterHead, headRemoved, headHash, headSize⟩ :=
    (self.setSender ⟨cmd.feePayer, some ([cmd], spend)⟩).removeOne_of_pos head (by simp; omega)
  obtain ⟨afterNext, nextRemoved, nextHash, -⟩ :=
    afterHead.removeOne_of_pos next (by simp [headSize]; omega)
  have applied : (self.setSender ⟨cmd.feePayer, some ([cmd], spend)⟩).applyUpdates
      [.removeAllByFeeAndHashAndExpiration [head, next], .removeFromApplicableByFee head.feePerWu head,
        .add cmd cmd.feePerWu true] =
      some ((afterNext.updateRemoveFromApplicableByFee head.feePerWu head).updateAdd cmd cmd.feePerWu true) := by
    simp [applyUpdates, applyUpdate, updateRemoveAllByFeeAndHashAndExpiration, headRemoved, nextRemoved]
  refine ⟨(afterNext.updateRemoveFromApplicableByFee head.feePerWu head).updateAdd cmd cmd.feePerWu true,
    ?_, ?_, ?_⟩
  · simp [addFromGossipExn, queued, addFromGossipExnImpl_replace_head fuel cmd.feePayer opened live token
      spent headSpent nextSpent reservedIs headNonce nextNonce room affordable refused fees, applied,
      Except.map]
  · -- the two queued commands have different nonces
    intro same
    have := congrArg Command.nonce (List.mem_singleton.mp same)
    rw [nextNonce, headNonce] at this
    have := congrArg UInt32.toNat this
    simp only [Nonce.incr, UInt32.toNat_add, UInt32.toNat_one] at this
    omega
  · simp [member, AList.lookup_insert_ne (Ne.symm distinct), nextHash, headHash]

end IndexedPool

def paymentSender : AccountId :=
  ⟨⟨0, false⟩, TokenId.default⟩

def payment (hash : TransactionHash) (fee : UInt64) (nonce : Nonce) : Command :=
  ⟨hash, paymentSender, fee, 1, nonce, Slot.max, TokenId.default, .payment 10⟩

/-- `add_from_gossip_exn` at nonce zero and balance twenty-two, keeping the pool it
returns and ignoring a refusal. -/
def gossip (pool : IndexedPool) (cmd : Command) : IndexedPool :=
  match (pool.addFromGossipExn 2 0 0 cmd 0 22).run with
  | some (.ok (pool, _)) => pool
  | _ => pool

def twoPayments : IndexedPool :=
  gossip (gossip IndexedPool.new (payment 0 1 0)) (payment 1 1 1)

theorem replace_by_fee_drops_unreported_payments :
    twoPayments.member (payment 1 1 1) ∧
      ∃ pool, (twoPayments.addFromGossipExn (0 + 1 + 1) 0 0 (payment 2 5 0) (payment 2 5 0).nonce 22).run =
          some (.ok (pool, payment 2 5 0, [payment 0 1 0])) ∧
        payment 1 1 1 ∉ [payment 0 1 0] ∧ ¬ pool.member (payment 1 1 1) :=
  ⟨by decide +kernel,
    IndexedPool.replace_by_fee_drops_unreported (by decide +kernel) (by decide +kernel) (by decide +kernel)
      (by decide) rfl rfl rfl rfl rfl rfl rfl (by decide) (by decide)
      (fun total added => by
        simp only [checkedAdd] at added
        cases added
        decide)
      (by decide) (by decide)⟩

end Openmina.TransactionPool
