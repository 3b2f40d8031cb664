import Openmina.TransactionLogic.Effect

/-!
# The effect of fee transfers and coinbases

A receiver that may receive is fetched or created by `get_or_create` and written
back credited; one that may not is left alone and its amount burned. Both fee
transfers and coinbases are built from these two outcomes.
-/

namespace Openmina.TransactionLogic

open Openmina.Numbers.Checked
open Openmina.ScanState.FeeExcessCombine (TokenId)
open Openmina.Control.ExceptOption
open Openmina.Arith.FinmapTotal
open Openmina.Ledger.MinBalance (Timing)

set_option autoImplicit false

theorem getNewAccounts_toList (view : LedgerView) (id : AccountId) :
    (getNewAccounts (if id ∈ view then .existed else .added) id).toList =
      if id ∈ view then [] else [id] := by
  split_ifs <;> rfl

theorem credit_toNat {cc : ConstraintConstants} {action : AccountState}
    {balance fee amount result : UInt64}
    (subtracted : (subAccountCreationFee cc action fee).run = some (.ok amount))
    (added : (addAmount balance amount).run = some (.ok result)) :
    (result.toNat : ℤ) = balance.toNat + fee.toNat -
      (if action = .added then cc.accountCreationFee.toNat else 0) := by
  rw [addAmount_ok] at added
  rw [checkedAdd_toNat added, Nat.cast_add, subAccountCreationFee_toNat subtracted]
  omega

variable {L Loc : Type} {I : LedgerIntf L Loc} {view : L → LedgerView} (lawful : I.FiniteMap view)
include lawful

theorem receiveAfter_effect {ledger ledger1 ledger2 : L} {id : AccountId} {state : AccountState}
    {account updated : Account} {loc : Loc} {named newAccounts : List AccountId} {delta amount : ℤ}
    (default : id.tokenId = TokenId.default)
    (created : I.getOrCreate ledger id = .ok (state, account, loc, ledger1))
    (between : Effect (view ledger1) (view ledger2) named newAccounts delta)
    (keeps : Keeps I view ledger1 ledger2) (outside : id ∉ named)
    (identified : updated.id = account.id)
    (credited : (updated.balance.toNat : ℤ) = account.balance.toNat + amount) :
    Effect (view ledger) (view (I.set ledger2 loc updated)) ([id] ++ named ++ [id])
      ((if id ∈ view ledger then [] else [id]) ++ newAccounts ++ []) (0 + delta + amount) := by
  obtain ⟨looked, -, -⟩ := lawful.getOrCreate_lookup created
  have accountId : account.id = id := lawful.id_lookup looked
  have updatedId : updated.id = id := identified.trans accountId
  have located : I.locationOfAccount ledger2 id = some loc :=
    keeps.location_eq lawful (lawful.getOrCreate_location created).1
  have found : (view ledger2).lookup id = some account := by
    rw [between.lookup_eq_of_not_mem outside, looked]
  obtain ⟨-, written⟩ := lawful.set_balance_effect updatedId default located found
  refine ((lawful.getOrCreate_effect created).trans between).trans (written.cast rfl ?_)
  omega

theorem keeps_credit {ledger ledger' : L} {id : AccountId} {state : AccountState}
    {account updated : Account} {loc : Loc}
    (created : I.getOrCreate ledger id = .ok (state, account, loc, ledger'))
    (identified : updated.id = account.id) : Keeps I view ledger (I.set ledger' loc updated) := by
  obtain ⟨looked, -, -⟩ := lawful.getOrCreate_lookup created
  have located : I.locationOfAccount ledger' updated.id = some loc := by
    rw [identified, lawful.id_lookup looked]
    exact (lawful.getOrCreate_location created).1
  exact (lawful.keeps_getOrCreate created).trans (lawful.keeps_set located)

theorem credit_effect {ledger ledger' : L} {id : AccountId} {received account : Account}
    {action state : AccountState} {canReceive : Bool} {loc : Loc} {cf fee balance : UInt64}
    {timing : Timing} (default : id.tokenId = TokenId.default)
    (checked : hasPermissionToReceive I ledger id = some (received, action, canReceive))
    (credited : (balance.toNat : ℤ) = received.balance.toNat + fee.toNat -
      (if action = .added then cf.toNat else 0))
    (created : I.getOrCreate ledger id = .ok (state, account, loc, ledger')) :
    Effect (view ledger) (view (I.set ledger' loc { account with balance, timing })) [id]
      (getNewAccounts action id).toList
      (fee.toNat - cf.toNat * (getNewAccounts action id).toList.length) := by
  obtain ⟨receivedIs, actionIs⟩ := lawful.hasPermissionToReceive_spec checked
  obtain ⟨-, accountIs, -⟩ := lawful.getOrCreate_lookup created
  rw [receivedIs, ← accountIs] at credited
  subst actionIs
  have written : Effect (view ledger) (view (I.set ledger' loc { account with balance, timing })) _ _ _ :=
    receiveAfter_effect lawful default created (Effect.refl _) (Keeps.refl _) List.not_mem_nil rfl
      (credited.trans (add_sub_assoc _ _ _))
  refine (written.mono ?_).cast ?_ ?_
  · simp
  · rw [List.append_nil, List.append_nil, getNewAccounts_toList]
  · rw [getNewAccounts_toList]
    by_cases present : id ∈ view ledger
    · simp [present]
    · simp [present]

section FeeTransfers

variable {cf : UInt64}
  {modifyBalance : AccountState → AccountId → UInt64 → UInt64 → ExceptT TransactionError Option UInt64}
  (credits : ∀ {action id balance fee result}, (modifyBalance action id balance fee).run = some (.ok result) →
    (result.toNat : ℤ) = balance.toNat + fee.toNat - (if action = .added then cf.toNat else 0))
include credits

theorem processFeeTransfer_effect {ledger ledger' : L} {feeTransfer : FeeTransfer}
    {modifyTiming : Account → ExceptT TransactionError Option Timing}
    {newAccounts : List AccountId} {failures : FailureCollection} {burned : UInt64}
    (run : (processFeeTransfer I ledger feeTransfer modifyBalance modifyTiming).run =
      some (.ok (newAccounts, failures, burned, ledger'))) :
    Effect (view ledger) (view ledger') feeTransfer.receivers newAccounts
      ((feeTransfer.singles.toList.map fun single => (single.fee.toNat : ℤ)).sum - burned.toNat -
        cf.toNat * newAccounts.length) := by
  simp only [processFeeTransfer, run_bind_eq_ok, run_ite_eq_ok, run_throw_eq_ok, false_and,
    and_false, or_false, exists_false] at run
  obtain ⟨tokens, rest⟩ := run
  have defaults : ∀ single ∈ feeTransfer.singles.toList,
      single.receiver.tokenId = TokenId.default := by
    intro single member
    simpa [SingleFeeTransfer.receiver] using
      List.all_eq_true.mp tokens single.feeToken (List.mem_map_of_mem member)
  unfold FeeTransfer.receivers
  cases singles : feeTransfer.singles with
  | one single =>
    simp only [singles, run_bind_eq_ok, run_liftM_eq_ok] at rest defaults ⊢
    obtain ⟨⟨received, action, canReceive⟩, checked, timing, -, balance, balanced, rest⟩ := rest
    have default := defaults single (List.mem_singleton_self _)
    cases canReceive
    · simp only [Bool.false_eq_true, if_false, run_pure_eq_ok, Prod.mk.injEq] at rest
      obtain ⟨rfl, -, rfl, rfl⟩ := rest
      refine ((Effect.refl _).mono (by simp)).cast rfl ?_
      simp [OneOrTwo.toList]
    · simp only [if_true, run_bind_eq_ok, getOrCreate_ok, run_pure_eq_ok, Prod.mk.injEq] at rest
      obtain ⟨⟨state, account, loc, ledger1⟩, created, rfl, -, rfl, rfl⟩ := rest
      refine ((credit_effect lawful default checked (credits balanced) created).mono ?_).cast rfl ?_
      · simp [OneOrTwo.toList]
      · simp [OneOrTwo.toList]
  | two first second =>
    simp only [singles, run_bind_eq_ok, run_liftM_eq_ok] at rest defaults ⊢
    obtain ⟨⟨received1, action1, canReceive1⟩, checked1, rest⟩ := rest
    have default1 := defaults first (by simp [OneOrTwo.toList])
    have default2 := defaults second (by simp [OneOrTwo.toList])
    by_cases same : first.receiver = second.receiver
    · -- one account receives both fees at once
      rw [if_pos same] at rest
      simp only [run_bind_eq_ok, run_okOr_eq_ok] at rest
      obtain ⟨fee, summed, timing, -, balance, balanced, rest⟩ := rest
      have feeSum := checkedAdd_toNat summed
      cases canReceive1
      · simp only [Bool.false_eq_true, if_false, run_pure_eq_ok, Prod.mk.injEq] at rest
        obtain ⟨rfl, -, rfl, rfl⟩ := rest
        refine ((Effect.refl _).mono (by simp)).cast rfl ?_
        simp [OneOrTwo.toList, feeSum]
      · simp only [if_true, run_bind_eq_ok, getOrCreate_ok, run_pure_eq_ok, Prod.mk.injEq] at rest
        obtain ⟨⟨state, account, loc, ledger1⟩, created, rfl, -, rfl, rfl⟩ := rest
        refine ((credit_effect lawful default1 checked1 (credits balanced) created).mono ?_).cast rfl ?_
        · simp [OneOrTwo.toList]
        · simp [OneOrTwo.toList, feeSum]
    · rw [if_neg same] at rest
      simp only [run_bind_eq_ok, run_liftM_eq_ok] at rest
      obtain ⟨⟨received2, action2, canReceive2⟩, checked2, balance1, balanced1, timing2, -, balance2,
        balanced2, rest⟩ := rest
      -- the second receiver reads the ledger that the first one's write left
      have secondOutside : second.receiver ∉ [first.receiver] := by
        simpa using Ne.symm same
      cases canReceive1 <;> cases canReceive2 <;>
        simp only [Bool.false_eq_true, if_false, if_true, run_bind_eq_ok, run_pure_eq_ok,
          run_okOr_eq_ok, getOrCreate_ok, exists_eq_left', Prod.mk.injEq] at rest
      case false.false =>
        obtain ⟨burnt, added, rfl, -, rfl, rfl⟩ := rest
        refine ((Effect.refl _).mono (by simp)).cast rfl ?_
        simp [OneOrTwo.toList, checkedAdd_toNat added]
      case false.true =>
        obtain ⟨⟨state2, account2, loc2, ledger2⟩, created2, burnt, added, rfl, -, rfl, rfl⟩ := rest
        refine ((credit_effect lawful default2 checked2 (credits balanced2) created2).mono ?_).cast ?_ ?_
        · simp [OneOrTwo.toList]
        · simp
        · simp [OneOrTwo.toList, checkedAdd_toNat added]
      case true.false =>
        obtain ⟨⟨state1, account1, loc1, ledger1⟩, created1, burnt, added, rfl, -, rfl, rfl⟩ := rest
        refine ((credit_effect lawful default1 checked1 (credits balanced1) created1).mono ?_).cast ?_ ?_
        · simp [OneOrTwo.toList]
        · simp
        · simp [OneOrTwo.toList, checkedAdd_toNat added]
      case true.true =>
        obtain ⟨⟨state1, account1, loc1, ledger1⟩, created1, ⟨state2, account2, loc2, ledger2⟩,
          created2, burnt, added, rfl, -, rfl, rfl⟩ := rest
        have credited1 : Effect (view ledger) (view (I.set ledger1 loc1 { account1 with balance := balance1 }))
            _ _ _ :=
          credit_effect lawful default1 checked1 (credits balanced1) created1
        have checked2' := (lawful.hasPermissionToReceive_congr
          (credited1.lookup_eq_of_not_mem secondOutside)).trans checked2
        refine ((credited1.trans (credit_effect lawful default2 checked2' (credits balanced2)
          created2)).mono ?_).cast rfl ?_
        · simp [OneOrTwo.toList]
        · simp only [OneOrTwo.toList, List.map_cons, List.map_nil, List.sum_cons, List.sum_nil,
            checkedAdd_toNat added, UInt64.toNat_zero, List.length_append, Nat.cast_add, mul_add]
          omega

end FeeTransfers

theorem applyFeeTransfer_effect {cc : ConstraintConstants} {slot : UInt32} {ledger ledger' : L}
    {feeTransfer : FeeTransfer} {applied : FeeTransferApplied}
    (run : (applyFeeTransfer I cc slot ledger feeTransfer).run = some (.ok (applied, ledger'))) :
    Effect (view ledger) (view ledger') feeTransfer.receivers applied.newAccounts
      ((feeTransfer.singles.toList.map fun single => (single.fee.toNat : ℤ)).sum -
        applied.burnedTokens.toNat - cc.accountCreationFee.toNat * applied.newAccounts.length) := by
  simp only [applyFeeTransfer, run_bind_eq_ok, run_pure_eq_ok, Prod.mk.injEq] at run
  obtain ⟨⟨newAccounts, failures, burned, ledger1⟩, processed, rfl, rfl⟩ := run
  refine processFeeTransfer_effect lawful (fun credited => ?_) processed
  obtain ⟨amount, subtracted, added⟩ := (run_bind_eq_ok _ _ _).mp credited
  exact credit_toNat subtracted added

/-- A coinbase moves the total by its amount, less the amounts burned and the creation
fee of every new account. -/
theorem applyCoinbase_effect {cc : ConstraintConstants} {slot : UInt32} {ledger ledger' : L}
    {coinbase : Coinbase} {applied : CoinbaseApplied}
    (run : (applyCoinbase I cc slot ledger coinbase).run = some (.ok (applied, ledger'))) :
    Effect (view ledger) (view ledger') coinbase.accountsReferenced applied.newAccounts
      (coinbase.amount.toNat - applied.burnedTokens.toNat -
        cc.accountCreationFee.toNat * applied.newAccounts.length) := by
  simp only [applyCoinbase, run_bind_eq_ok] at run
  obtain ⟨⟨reward, newAccounts1, update, timingPrev, failures1, burned1, ledger1⟩, first, rest⟩ := run
  simp only [run_liftM_eq_ok, run_okOr_eq_ok, run_pure_eq_ok, Prod.mk.injEq] at rest
  obtain ⟨⟨received, action2, canReceive⟩, checked, timing, -, amount2, subtracted2, balance2, added2,
    ⟨failures, burned2, ledger2⟩, second, burnt, summed, rfl, rfl⟩ := rest
  have receiverDefault : coinbase.receiverId.tokenId = TokenId.default := rfl
  -- the receiver takes the reward, or burns it, over the ledger of the first stage
  have receiverStage : Keeps I view ledger1 ledger2 ∧
      Effect (view ledger1) (view ledger2) [coinbase.receiverId]
        (getNewAccounts action2 coinbase.receiverId).toList
        (reward.toNat - burned2.toNat -
          cc.accountCreationFee.toNat * (getNewAccounts action2 coinbase.receiverId).toList.length) := by
    cases canReceive
    · simp only [Bool.false_eq_true, if_false, run_pure_eq_ok, Prod.mk.injEq] at second
      obtain ⟨-, rfl, rfl⟩ := second
      rw [lawful.hasPermissionToReceive_refused checked]
      refine ⟨Keeps.refl _, ((Effect.refl _).mono (by simp)).cast rfl ?_⟩
      simp [getNewAccounts]
    · simp only [if_true, run_bind_eq_ok, getOrCreate_ok, run_pure_eq_ok, Prod.mk.injEq] at second
      obtain ⟨⟨state, account, loc, ledger3⟩, created, -, rfl, rfl⟩ := second
      refine ⟨keeps_credit lawful created rfl,
        (credit_effect lawful receiverDefault checked (credit_toNat subtracted2 added2) created).cast
          rfl ?_⟩
      simp
  have burntSum := checkedAdd_toNat summed
  dsimp only
  cases transfer : coinbase.feeTransfer with
  | none =>
    simp only [transfer, run_pure_eq_ok, Prod.mk.injEq] at first
    obtain ⟨rfl, rfl, rfl, rfl, -, rfl, rfl⟩ := first
    refine (receiverStage.2.mono ?_).cast ?_ ?_
    · simp [Coinbase.accountsReferenced]
    · simp
    · simp only [Option.toList_none, List.nil_append, burntSum, UInt64.toNat_zero, zero_add]
  | some ft =>
    simp only [transfer, run_ite_eq_ok, run_bind_eq_ok, run_lift_eq_ok, reduceCtorEq, false_and,
      exists_false, and_false, false_or, run_okOr_eq_ok, run_liftM_eq_ok] at first
    obtain ⟨distinct, reward', rewarded, ⟨received1, action1, canReceive1⟩, checked1, timing1, -,
      amount1, subtracted1, balance1, added1, rest1⟩ := first
    obtain ⟨rewardOrder, rewardIs⟩ := checkedSub_toNat rewarded
    have referenced : coinbase.accountsReferenced = [ft.receiver, coinbase.receiverId] := by
      simp [Coinbase.accountsReferenced, transfer]
    rcases rest1 with ⟨-, ⟨state1, account1, loc1, ledger0⟩, created1, rest1⟩ | ⟨refused, rest1⟩
    · -- the transferee is created first and written after the receiver
      simp only [getOrCreate_ok] at created1
      simp only [run_pure_eq_ok, Prod.mk.injEq] at rest1
      obtain ⟨rfl, rfl, rfl, rfl, -, rfl, rfl⟩ := rest1
      have outside : ft.receiver ∉ [coinbase.receiverId] := by
        simpa [CoinbaseFeeTransfer.receiver, Coinbase.receiverId] using distinct
      obtain ⟨receivedIs, actionIs⟩ := lawful.hasPermissionToReceive_spec checked1
      obtain ⟨-, accountIs, -⟩ := lawful.getOrCreate_lookup created1
      have credited := credit_toNat subtracted1 added1
      rw [receivedIs, ← accountIs] at credited
      have after : Effect (view ledger)
          (view (I.set ledger2 loc1 { account1 with balance := balance1, timing := timing1 })) _ _ _ :=
        receiveAfter_effect lawful rfl created1 receiverStage.2 receiverStage.1 outside rfl
          (credited.trans (add_sub_assoc _ _ _))
      subst actionIs
      refine (after.mono ?_).cast ?_ ?_
      · simp [referenced]
      · rw [List.append_nil, getNewAccounts_toList]
      · simp only [burntSum, UInt64.toNat_zero, List.length_append, Nat.cast_add, mul_add,
          rewardIs]
        by_cases present : ft.receiver ∈ view ledger
        · simp only [present, if_true, reduceCtorEq, if_false]
          simp [getNewAccounts]
          omega
        · simp only [present, if_false, if_true]
          simp [getNewAccounts]
          omega
    · simp only [Bool.not_eq_true] at refused
      subst refused
      simp only [run_pure_eq_ok, Prod.mk.injEq] at rest1
      obtain ⟨rfl, rfl, rfl, rfl, -, rfl, rfl⟩ := rest1
      refine (receiverStage.2.mono ?_).cast ?_ ?_
      · simp [referenced]
      · simp
      · simp only [Option.toList_none, List.nil_append, burntSum, rewardIs]
        omega

end Openmina.TransactionLogic
