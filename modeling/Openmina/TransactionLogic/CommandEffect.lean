import Openmina.TransactionLogic.Effect

/-!
# The effect of a signed command

`apply_user_command_unchecked` charges the fee before anything else and writes the
charged fee payer; `compute_updates` then writes the receiver and the fee payer again
(payment) or the fee payer alone (self-payment, stake delegation). Each write is
one `Effect`, and their composition says what the command did to the ledger.
-/

namespace Openmina.TransactionLogic

open Openmina.Numbers.Checked
open Openmina.ScanState.FeeExcessCombine (TokenId)
open Openmina.Control.ExceptOption
open Openmina.Arith.FinmapTotal

set_option autoImplicit false

variable {L Loc : Type} {I : LedgerIntf L Loc} {view : L → LedgerView} (lawful : I.FiniteMap view)
  (consSignedCommandPayload : SignedCommandPayload → Fp → Fp)
include lawful

theorem payFee_spec {cmd : SignedCommand} {signer : CompressedPubKey} {ledger : L} {slot : UInt32}
    {location : ExistingOrNew Loc} {account : Account}
    (paid : (payFee I consSignedCommandPayload cmd signer ledger slot).run = some (.ok (location, account))) :
    ∃ old loc, (view ledger).lookup cmd.feePayer = some old ∧
      I.locationOfAccount ledger cmd.feePayer = some loc ∧ location = .existing loc ∧
      account.id = cmd.feePayer ∧ account.nonce = Nonce.incr old.nonce ∧
      cmd.fee.toNat ≤ old.balance.toNat ∧ account.balance.toNat = old.balance.toNat - cmd.fee.toNat := by
  simp only [payFee, payFeeImpl, run_bind_eq_ok, run_liftM_eq_ok, run_ite_eq_ok, run_throw_eq_ok,
    false_and, and_false, false_or, exists_false, ne_eq, not_not] at paid
  obtain ⟨-, -, ⟨location₀, old⟩, got, rest⟩ := paid
  cases location₀ with
  | new => simp at rest
  | existing loc =>
    obtain ⟨located, found⟩ := lawful.getWithLocation_existing_inv got
    simp only [run_bind_eq_ok, subAmount_ok, validateNonces_ok, run_pure_eq_ok, Prod.mk.injEq] at rest
    obtain ⟨balance, subtracted, -, -, timing, -, rfl, rfl⟩ := rest
    obtain ⟨order, difference⟩ := checkedSub_toNat subtracted
    exact ⟨old, loc, found, located, rfl, lawful.id_lookup found ▸ rfl, rfl, order, difference⟩
theorem computeUpdates_payment_effect {cc : ConstraintConstants} {receiver : AccountId} {ledger ledger' : L} {slot : UInt32}
    {cmd : SignedCommand} {feePayer : AccountId} {feePayerAccount : Account} {l : Loc}
    {updates : Updates Loc} (payment : PaymentPayload) (body : cmd.payload.body = .payment payment)
    (located : I.locationOfAccount ledger feePayer = some l)
    (found : (view ledger).lookup feePayer = some feePayerAccount)
    (defaultPayer : feePayer.tokenId = TokenId.default)
    (defaultReceiver : receiver.tokenId = TokenId.default)
    (ok : (computeUpdates I cc receiver ledger slot cmd feePayer feePayerAccount (.existing l)).run =
      some (.ok updates))
    (written : (updates.locatedAccounts.foldlM
      (fun ledger (x : ExistingOrNew Loc × Account) => setWithLocation I ledger x.1 x.2) ledger).run =
        some (.ok ledger')) :
    ∃ account, (view ledger').lookup feePayer = some account ∧ account.nonce = feePayerAccount.nonce ∧
      Effect (view ledger) (view ledger') [feePayer, receiver]
        (SignedCommandApplied.newAccounts ⟨⟨cmd, .applied⟩, updates.appliedBody⟩)
        (-(cc.accountCreationFee.toNat *
          (SignedCommandApplied.newAccounts ⟨⟨cmd, .applied⟩, updates.appliedBody⟩).length : ℤ)) := by
  have payerId : feePayerAccount.id = feePayer := lawful.id_lookup found
  simp only [computeUpdates, body, run_bind_eq_ok, run_okOr_eq_ok, run_adapt_eq_ok, run_liftM_eq_ok,
    run_ite_eq_ok, run_throw_eq_ok, run_pure_eq_ok, run_lift_eq_ok, false_and, and_false,
    or_false, exists_false] at ok
  obtain ⟨charged, ⟨balance, subtracted, timingResult, -, timing, -, rfl⟩, rest⟩ := ok
  obtain ⟨paidOrder, paid⟩ := checkedSub_toNat subtracted
  by_cases self : feePayer = receiver
  · -- a self-payment writes the fee payer once, with the amount back
    simp only [self, true_and, not_true_eq_false, false_and, or_false, exists_eq_left', if_true] at rest
    obtain ⟨-, -, -, -, -, -, updated⟩ := rest
    simp only [run_bind_eq_ok, run_pure_eq_ok, run_okOr_eq_ok, exists_eq_left'] at updated
    obtain ⟨credited, added, rfl⟩ := updated
    have creditedBalance := checkedAdd_toNat added
    simp only [List.foldlM_cons, List.foldlM_nil, run_bind_eq_ok, run_pure_eq_ok, setWithLocation,
      exists_eq_right] at written
    subst written
    set final : Account := { feePayerAccount with balance := credited, timing } with finalIs
    have finalId : final.id = feePayer := payerId
    obtain ⟨finalFound, effect⟩ := lawful.set_balance_effect finalId defaultPayer located found
    refine ⟨final, finalFound, rfl, (effect.mono (by simp [self])).cast rfl ?_⟩
    have finalBalance : final.balance = credited := rfl
    simp only [SignedCommandApplied.newAccounts, List.length_nil, Nat.cast_zero, mul_zero, neg_zero,
      finalBalance]
    omega
  · simp only [self, false_and, false_or, not_false_eq_true, true_and, if_false] at rest
    obtain ⟨⟨receiverLocation, receiverAccount⟩, got, -, -, -, -, -, -, updated⟩ := rest
    set charged : Account := { feePayerAccount with balance, timing } with chargedIs
    have chargedId : charged.id = feePayer := payerId
    -- the fee payer is written last, over the account it had before the receiver's write
    have payerWrite : ∀ ledger1, Keeps I view ledger ledger1 →
        (view ledger1).lookup feePayer = some feePayerAccount →
        (view (I.set ledger1 l charged)).lookup feePayer = some charged ∧
          Effect (view ledger1) (view (I.set ledger1 l charged)) [feePayer] []
            (-(payment.amount.toNat : ℤ)) := by
      intro ledger1 keeps found1
      obtain ⟨chargedFound, effect⟩ := lawful.set_balance_effect chargedId defaultPayer
        (keeps.location_eq lawful located) found1
      have chargedBalance : charged.balance = balance := rfl
      rw [chargedBalance] at effect
      exact ⟨chargedFound, effect.cast rfl (by omega)⟩
    cases receiverLocation with
    | existing lr =>
      obtain ⟨receiverLocated, receiverFound⟩ := lawful.getWithLocation_existing_inv got
      simp only [run_bind_eq_ok, run_pure_eq_ok, run_okOr_eq_ok, exists_eq_left'] at updated
      obtain ⟨credited, added, rfl⟩ := updated
      simp only [List.foldlM_cons, List.foldlM_nil, run_bind_eq_ok, run_pure_eq_ok, setWithLocation,
        exists_eq_right] at written
      obtain ⟨ledger1, rfl, rfl⟩ := written
      set received : Account := { receiverAccount with balance := credited } with receivedIs
      have receivedId : received.id = receiver := lawful.id_lookup receiverFound ▸ rfl
      obtain ⟨-, first⟩ := lawful.set_balance_effect receivedId defaultReceiver receiverLocated
        receiverFound
      have receivedBalance : received.balance = credited := rfl
      rw [receivedBalance] at first
      have receivedLocated : I.locationOfAccount ledger received.id = some lr := receivedId ▸ receiverLocated
      have payerKept : (view (I.set ledger lr received)).lookup feePayer = some feePayerAccount := by
        rw [lawful.view_set receivedLocated, receivedId, Finmap.lookup_insert_of_ne _ self, found]
      obtain ⟨payerFound, second⟩ := payerWrite _ (lawful.keeps_set receivedLocated) payerKept
      refine ⟨charged, payerFound, rfl, ((first.trans second).mono (by simp)).cast rfl ?_⟩
      · have creditedBalance := checkedAdd_toNat added
        simp only [SignedCommandApplied.newAccounts, List.length_nil, Nat.cast_zero, mul_zero, neg_zero]
        omega
    | new =>
      obtain ⟨receiverAbsent, rfl⟩ := lawful.getWithLocation_new_inv got
      simp only [run_bind_eq_ok, run_pure_eq_ok, run_okOr_eq_ok] at updated
      obtain ⟨receivedAmount, subtractedFee, credited, added, rfl⟩ := updated
      simp only [List.foldlM_cons, List.foldlM_nil, run_bind_eq_ok, run_pure_eq_ok,
        exists_eq_right] at written
      obtain ⟨ledger1, created, chargedWritten⟩ := written
      simp only [setWithLocation, run_pure_eq_ok] at chargedWritten
      subst chargedWritten
      set received : Account := { Account.createWith receiver 0 with balance := credited }
        with receivedIs
      have receivedId : received.id = receiver := rfl
      obtain ⟨createdView, keeps⟩ := lawful.setWithLocation_spec (fun _ never => by cases never) created
      have first := Effect.insert (view ledger) receiver received
      rw [← receivedId, ← createdView, receivedId, if_neg (Finmap.lookup_eq_none.mp receiverAbsent)] at first
      have payerKept : (view ledger1).lookup feePayer = some feePayerAccount := by
        rw [createdView, receivedId, Finmap.lookup_insert_of_ne _ self, found]
      obtain ⟨payerFound, second⟩ := payerWrite ledger1 keeps payerKept
      refine ⟨charged, payerFound, rfl, ((first.trans second).mono (by simp)).cast rfl ?_⟩
      · have creditedBalance := checkedAdd_toNat added
        obtain ⟨feeOrder, feeTaken⟩ := checkedSub_toNat subtractedFee
        have receivedWeight : balanceWeight received = credited.toNat :=
          balanceWeight_of_default defaultReceiver
        simp only [SignedCommandApplied.newAccounts, List.length_singleton, Nat.cast_one, mul_one,
          receivedWeight, weightAt_of_lookup_eq_none _ _ receiverAbsent]
        simp only [Account.createWith_balance, UInt64.toNat_zero] at creditedBalance
        omega

theorem computeUpdates_stakeDelegation_effect {cc : ConstraintConstants} {receiver : AccountId}
    {ledger ledger' : L} {slot : UInt32} {cmd : SignedCommand} {feePayer : AccountId}
    {feePayerAccount : Account} {l : Loc} {updates : Updates Loc} (delegation : StakeDelegationPayload)
    (body : cmd.payload.body = .stakeDelegation delegation)
    (located : I.locationOfAccount ledger feePayer = some l)
    (found : (view ledger).lookup feePayer = some feePayerAccount)
    (ok : (computeUpdates I cc receiver ledger slot cmd feePayer feePayerAccount (.existing l)).run =
      some (.ok updates))
    (written : (updates.locatedAccounts.foldlM
      (fun ledger (x : ExistingOrNew Loc × Account) => setWithLocation I ledger x.1 x.2) ledger).run =
        some (.ok ledger')) :
    ∃ account, (view ledger').lookup feePayer = some account ∧ account.nonce = feePayerAccount.nonce ∧
      Effect (view ledger) (view ledger') [feePayer, receiver]
        (SignedCommandApplied.newAccounts ⟨⟨cmd, .applied⟩, updates.appliedBody⟩)
        (-(cc.accountCreationFee.toNat *
          (SignedCommandApplied.newAccounts ⟨⟨cmd, .applied⟩, updates.appliedBody⟩).length : ℤ)) := by
  simp only [computeUpdates, body, run_bind_eq_ok, run_liftM_eq_ok] at ok
  obtain ⟨⟨receiverLocation, _⟩, -, rest⟩ := ok
  cases receiverLocation with
  | new => simp at rest
  | existing lr =>
    simp only [run_bind_eq_ok, run_pure_eq_ok, run_ite_eq_ok, run_throw_eq_ok, run_liftM_eq_ok,
      run_adapt_eq_ok, false_and, and_false, or_false, exists_false] at rest
    obtain ⟨-, -, -, timingResult, -, timing, -, rfl⟩ := rest
    simp only [List.foldlM_cons, List.foldlM_nil, run_bind_eq_ok, run_pure_eq_ok, setWithLocation,
      exists_eq_right] at written
    subst written
    set delegated : Account := { feePayerAccount with delegate := some receiver.publicKey, timing }
      with delegatedIs
    have delegatedId : delegated.id = feePayer := lawful.id_lookup found ▸ rfl
    have delegatedLocated : I.locationOfAccount ledger delegated.id = some l := delegatedId ▸ located
    refine ⟨delegated, delegatedId ▸ lawful.lookup_set delegatedLocated, rfl, ?_⟩
    have effect := lawful.set_effect delegatedLocated (delegatedId ▸ found)
    rw [delegatedId] at effect
    refine (effect.mono (by simp)).cast rfl ?_
    simp [SignedCommandApplied.newAccounts, delegated, balanceWeight]

theorem computeUpdates_effect {cc : ConstraintConstants} {ledger ledger' : L} {slot : UInt32}
    {cmd : SignedCommand} {feePayerAccount : Account} {l : Loc} {updates : Updates Loc}
    (located : I.locationOfAccount ledger cmd.feePayer = some l)
    (found : (view ledger).lookup cmd.feePayer = some feePayerAccount)
    (ok : (computeUpdates I cc cmd.receiver ledger slot cmd cmd.feePayer feePayerAccount
      (.existing l)).run = some (.ok updates))
    (written : (updates.locatedAccounts.foldlM
      (fun ledger (x : ExistingOrNew Loc × Account) => setWithLocation I ledger x.1 x.2) ledger).run =
        some (.ok ledger')) :
    ∃ account, (view ledger').lookup cmd.feePayer = some account ∧
      account.nonce = feePayerAccount.nonce ∧
      Effect (view ledger) (view ledger') [cmd.feePayer, cmd.receiver]
        (SignedCommandApplied.newAccounts ⟨⟨cmd, .applied⟩, updates.appliedBody⟩)
        (-(cc.accountCreationFee.toNat *
          (SignedCommandApplied.newAccounts ⟨⟨cmd, .applied⟩, updates.appliedBody⟩).length : ℤ)) := by
  cases body : cmd.payload.body with
  | payment payment =>
    have receiverDefault : cmd.receiver.tokenId = TokenId.default := by
      simp [SignedCommand.receiver, body]
    exact computeUpdates_payment_effect lawful payment body located found rfl receiverDefault ok
      written
  | stakeDelegation delegation =>
    exact computeUpdates_stakeDelegation_effect lawful delegation body located found ok written

/-- A signed command charges its fee payer and increments its nonce, whether the
command is applied or fails; the total balance drops by the fee and by the creation
fee of every new account. -/
theorem applyUserCommand_effect {cc : ConstraintConstants} {slot : UInt32} {ledger ledger' : L}
    {cmd : SignedCommand} {applied : SignedCommandApplied}
    (run : (applyUserCommand I consSignedCommandPayload cc slot ledger cmd).run =
      some (.ok (applied, ledger'))) :
    ∃ old new, (view ledger).lookup cmd.feePayer = some old ∧
      (view ledger').lookup cmd.feePayer = some new ∧ new.nonce = Nonce.incr old.nonce ∧
      Effect (view ledger) (view ledger') cmd.accountsReferenced applied.newAccounts
        (-(cmd.fee.toNat : ℤ) - cc.accountCreationFee.toNat * applied.newAccounts.length) := by
  simp only [applyUserCommand, applyUserCommandUnchecked, run_bind_eq_ok, run_liftM_eq_ok,
    run_ite_eq_ok, run_throw_eq_ok, validateTime_ok, false_and, and_false, or_false,
    exists_false] at run
  obtain ⟨-, -, ⟨location, charged⟩, paid, -, -, -, -, -, -, ledger1, charging, result, computed,
    rest⟩ := run
  obtain ⟨old, loc, found, located, rfl, chargedId, nonce, feeOrder, chargedBalance⟩ :=
    payFee_spec lawful consSignedCommandPayload paid
  simp only [setWithLocation, run_pure_eq_ok] at charging
  subst charging
  -- the fee is charged first, on an account of the default token
  have payerDefault : cmd.feePayer.tokenId = TokenId.default := rfl
  have chargedLocated : I.locationOfAccount ledger charged.id = some loc := chargedId ▸ located
  obtain ⟨found1, charge⟩ := lawful.set_balance_effect chargedId payerDefault located found
  rw [chargedBalance] at charge
  have located1 : I.locationOfAccount (I.set ledger loc charged) cmd.feePayer = some loc :=
    (lawful.keeps_set chargedLocated).location_eq lawful located
  have referenced : ∀ id ∈ [cmd.feePayer] ++ [cmd.feePayer, cmd.receiver], id ∈ cmd.accountsReferenced := by
    simp [SignedCommand.accountsReferenced]
  -- the command then applies, fails with the fee charged, or is rejected
  cases result with
  | error error =>
    obtain ⟨failure, _ | _⟩ := error
    · simp only [run_pure_eq_ok, Prod.mk.injEq] at rest
      obtain ⟨rfl, rfl⟩ := rest
      refine ⟨old, charged, found, found1, nonce, (charge.mono ?_).cast rfl ?_⟩
      · simp [SignedCommand.accountsReferenced]
      · simp only [SignedCommandApplied.newAccounts, List.length_nil, Nat.cast_zero, mul_zero]
        omega
    · simp at rest
  | ok updates =>
    simp only [run_bind_eq_ok, run_pure_eq_ok, Prod.mk.injEq] at rest
    obtain ⟨ledger2, written, rfl, rfl⟩ := rest
    obtain ⟨new, newFound, newNonce, updated⟩ :=
      computeUpdates_effect lawful located1 found1 computed written
    refine ⟨old, new, found, newFound, newNonce.trans nonce,
      ((charge.trans updated).mono referenced).cast rfl ?_⟩
    simp only [SignedCommandApplied.newAccounts]
    omega

end Openmina.TransactionLogic
