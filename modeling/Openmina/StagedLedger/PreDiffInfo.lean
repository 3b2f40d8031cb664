import Mathlib
import Openmina.TransactionLogic.Apply
import Openmina.Arith.FinmapTotal
import Openmina.Control.ExceptOption

/-!
# Coinbases and fee transfers of a staged ledger prediff

`ledger/src/staged_ledger/pre_diff_info.rs`: `create_coinbase` splits the coinbase as
the prediff's `CoinbaseParts` ask, `fee_remainder` computes the block producer's share
of the command fees, and `create_fee_transfers` pays every other prover its work fees,
less what it already receives from a coinbase fee transfer, as pairs of single fee
transfers sorted by receiver. `get_transaction_data` runs the three in
`ExceptT PreDiffError Option`: the `expect` on the sum of the coinbase fee transfers
is the only panic.

The `BTreeMap` of `create_fee_transfers` is an `AList`; iterating it yields its entries
in key order, for which `CompressedPubKey` carries the order its `Ord` derives.
-/

namespace Openmina.TransactionLogic

open Openmina.ScanState.FeeExcessCombine (TokenId)

set_option autoImplicit false

/-- The order of mina_signer's `CompressedPubKey`, which derives `Ord`: by `x`, as the
canonical integer `ark_ff` compares, then by `is_odd`. -/
instance : LinearOrder CompressedPubKey :=
  LinearOrder.lift' (fun key => toLex (key.x.val, key.isOdd)) (by
    intro a b same
    have parts := Prod.ext_iff.mp (toLex.injective same)
    cases a
    cases b
    simp only [CompressedPubKey.mk.injEq]
    exact ⟨ZMod.val_injective _ parts.1, parts.2⟩)

/-! ## Constructors of coinbases and fee transfers -/

def Coinbase.isValid (coinbase : Coinbase) : Bool :=
  match coinbase.feeTransfer with
  | none => true
  | some ft => decide (ft.fee ≤ coinbase.amount)

/-- `Coinbase::create`: a fee transfer to the receiver itself is dropped. -/
def Coinbase.create (amount : UInt64) (receiver : CompressedPubKey)
    (feeTransfer : Option CoinbaseFeeTransfer) : Except String Coinbase :=
  let this : Coinbase := ⟨receiver, amount, feeTransfer⟩
  if this.isValid then
    let adjustedFeeTransfer :=
      this.feeTransfer.bind fun ft => if receiver ≠ ft.receiverPk then some ft else none
    .ok { this with feeTransfer := adjustedFeeTransfer }
  else .error "Coinbase.create: invalid coinbase"

def SingleFeeTransfer.create (receiverPk : CompressedPubKey) (fee : UInt64) (feeToken : TokenId) :
    SingleFeeTransfer :=
  ⟨receiverPk, fee, feeToken⟩

/-- `FeeTransfer::of_singles`. The message also shows the two singles, whose `Debug`
rendering is left out. -/
def FeeTransfer.ofSingles : OneOrTwo SingleFeeTransfer → Except String FeeTransfer
  | .one a => .ok ⟨.one a⟩
  | .two one two =>
    if one.feeToken = two.feeToken then .ok ⟨.two one two⟩
    else .error "Cannot combine single fee transfers with incompatible tokens"

end Openmina.TransactionLogic

namespace Openmina.StagedLedger

open Openmina.TransactionLogic
open Openmina.ScanState.FeeExcessCombine (TokenId)
open Openmina.Control.ExceptOption

set_option autoImplicit false

/-! ## Diffs and errors -/

/-- `work::Unchecked`; its proofs are not read here. -/
structure Work where
  fee : UInt64
  prover : CompressedPubKey
  deriving DecidableEq

/-- The errors of a prediff that the functions here raise. -/
inductive PreDiffError
  | coinbaseError (message : String)
  | insufficientFee (fees : UInt64 × UInt64)
  | unexpected (message : String)
  deriving DecidableEq

inductive CoinbaseParts
  | zero
  | one (x : Option CoinbaseFeeTransfer)
  | two (x : Option (CoinbaseFeeTransfer × Option CoinbaseFeeTransfer))

def debugAmount (amount : UInt64) : String :=
  "Amount(" ++ toString amount.toNat ++ ")"

def debugFee (fee : UInt64) : String :=
  "Fee(" ++ toString fee.toNat ++ ")"

/-! ## Coinbases -/

def coinbaseOrError (cb : Except String Coinbase) : Except PreDiffError Coinbase :=
  cb.mapError .coinbaseError

def underflowErr (a1 a2 : UInt64) : Except PreDiffError UInt64 :=
  match checkedSub a1 a2 with
  | some difference => .ok difference
  | none => .error (.coinbaseError ("underflow when splitting coinbase: Minuend: " ++
      debugAmount a1 ++ " Subtrahend: " ++ debugAmount a2))

/-- The closure `two_parts` of `create_coinbase`: `amt` for the first coinbase, the rest
of the coinbase amount for the second. -/
def twoParts (receiver : CompressedPubKey) (coinbaseAmount amt : UInt64)
    (ft1 ft2 : Option CoinbaseFeeTransfer) : Except PreDiffError (List Coinbase) := do
  let remCoinbase ← underflowErr coinbaseAmount amt
  let ft2Amount := (ft2.map CoinbaseFeeTransfer.fee).getD 0
  let _ ← underflowErr remCoinbase ft2Amount
  let cb1 ← coinbaseOrError (Coinbase.create amt receiver ft1)
  let cb2 ← coinbaseOrError (Coinbase.create remCoinbase receiver ft2)
  pure [cb1, cb2]

def createCoinbase (constraintConstants : ConstraintConstants) (coinbaseParts : CoinbaseParts)
    (receiver : CompressedPubKey) (coinbaseAmount : UInt64) : Except PreDiffError (List Coinbase) :=
  match coinbaseParts with
  | .zero => pure []
  | .one x => do
    let cb ← coinbaseOrError (Coinbase.create coinbaseAmount receiver x)
    pure [cb]
  | .two none =>
    twoParts receiver coinbaseAmount constraintConstants.accountCreationFee none none
  | .two (some (ft1, ft2)) => do
    let accountCreationFee := constraintConstants.accountCreationFee
    let fee ← match checkedAdd accountCreationFee ft1.fee with
      | some fee => pure fee
      | none => throw (.coinbaseError ("Overflow when trying to add account_creation_fee " ++
          debugFee accountCreationFee ++ " to a fee transfer " ++ debugFee ft1.fee))
    twoParts receiver coinbaseAmount fee (some ft1) ft2

/-! ## Fee transfers -/

/-- `sum_fees`: the checked sum of the fees of a list. -/
def sumFees {α : Type} (fees : List α) (fee : α → UInt64) : Except String UInt64 :=
  match fees.foldlM (fun accum elem => checkedAdd accum (fee elem)) 0 with
  | some total => .ok total
  | none => .error "Fee overflow"

section Commands

variable {Cmd : Type} (commandFee : Cmd → UInt64)

/-- `fee_remainder`: the command fees less the work fees that the coinbase fee transfers
do not already pay. -/
def feeRemainder (commands : List Cmd) (completedWorks : List Work) (coinbaseFee : UInt64) :
    Except PreDiffError UInt64 := do
  let budget ← (sumFees commands commandFee).mapError .unexpected
  let workFee ← (sumFees completedWorks Work.fee).mapError .unexpected
  let totalWorkFee := (checkedSub workFee coinbaseFee).getD 0
  match checkedSub budget totalWorkFee with
  | some remainder => pure remainder
  | none => throw (.insufficientFee (budget, totalWorkFee))

end Commands

abbrev FeeMap := AList fun _ : CompressedPubKey => UInt64

/-- One single of the loop of `fee_transfers_map`: its fee is added to what the map holds
for its receiver, `None` on an overflow. -/
def addSingle (map : FeeMap) (single : CompressedPubKey × UInt64) : Option FeeMap :=
  match map.lookup single.1 with
  | some old => (checkedAdd single.2 old).map fun sum => map.insert single.1 sum
  | none => some (map.insert single.1 single.2)

def feeTransfersMap (singles : List (CompressedPubKey × UInt64)) : Option FeeMap :=
  singles.foldlM addSingle ∅

/-- One coinbase fee transfer of the loop of `create_fee_transfers`: a receiver in the
map has the fee taken off, and is removed when nothing is left. -/
def subtractCoinbaseFeeTransfer (singlesMap : FeeMap) (ft : CoinbaseFeeTransfer) :
    Except PreDiffError FeeMap :=
  match singlesMap.lookup ft.receiverPk with
  | some fee =>
    match checkedSub fee ft.fee with
    | some newFee =>
      if newFee ≠ 0 then .ok (singlesMap.insert ft.receiverPk newFee)
      else .ok (singlesMap.erase ft.receiverPk)
    | none => .error (.unexpected "fee underflow")
  | none => .ok singlesMap

def intoIter (map : FeeMap) : List (CompressedPubKey × UInt64) :=
  (map.entries.mergeSort fun a b => decide (a.1 ≤ b.1)).map fun entry => (entry.1, entry.2)

/-- `group_list`: the chunks of two of `slice.chunks(2)`. -/
def groupList {α β : Type} (f : α → β) : List α → List (OneOrTwo β)
  | a :: b :: rest => .two (f a) (f b) :: groupList f rest
  | [a] => [.one (f a)]
  | [] => []

def createFeeTransfers (completedWorks : List Work) (delta : UInt64) (publicKey : CompressedPubKey)
    (coinbaseFts : List CoinbaseFeeTransfer) : Except PreDiffError (List FeeTransfer) := do
  let singles := ((publicKey, delta) :: completedWorks.map fun w => (w.prover, w.fee)).filter
    fun single => single.2 ≠ 0
  let singlesMap ← match feeTransfersMap singles with
    | some map => pure map
    | none => throw (.unexpected "fee overflow")
  let singlesMap ← coinbaseFts.foldlM subtractCoinbaseFeeTransfer singlesMap
  -- `sort_by` with `partial_cmp(..).unwrap()`, total on public keys
  let list := (intoIter singlesMap).mergeSort fun a b => decide (a.1 ≤ b.1)
  let sft := list.map fun single => SingleFeeTransfer.create single.1 single.2 TokenId.default
  ((groupList id sft).mapM FeeTransfer.ofSingles).mapError .unexpected

structure TransactionData (Cmd : Type) where
  commands : List Cmd
  coinbases : List Coinbase
  feeTransfers : List FeeTransfer
  deriving DecidableEq

def coinbaseFeeTransfers (coinbases : List Coinbase) : List CoinbaseFeeTransfer :=
  coinbases.flatMap fun cb => cb.feeTransfer.toList

section Commands

variable {Cmd : Type} (commandFee : Cmd → UInt64)

def getTransactionData (constraintConstants : ConstraintConstants) (coinbaseParts : CoinbaseParts)
    (receiver : CompressedPubKey) (coinbaseAmount : UInt64) (commands : List Cmd)
    (completedWorks : List Work) : ExceptT PreDiffError Option (TransactionData Cmd) := do
  let coinbases ← MonadExcept.ofExcept (createCoinbase constraintConstants coinbaseParts receiver coinbaseAmount)
  let coinbaseFts := coinbaseFeeTransfers coinbases
  -- `expect("OCaml throw here")`
  let coinbaseWorkFees ← ExceptT.lift (sumFees coinbaseFts CoinbaseFeeTransfer.fee).toOption
  let txnWorksOthers := completedWorks.filter fun w => w.prover ≠ receiver
  let delta ← MonadExcept.ofExcept (feeRemainder commandFee commands txnWorksOthers coinbaseWorkFees)
  let feeTransfers ← MonadExcept.ofExcept (createFeeTransfers txnWorksOthers delta receiver coinbaseFts)
  pure ⟨commands, coinbases, feeTransfers⟩

end Commands

/-! ## Checked sums -/

theorem checkedAdd_eq_none {x y : UInt64} : checkedAdd x y = none ↔ 2 ^ 64 ≤ x.toNat + y.toNat := by
  unfold checkedAdd
  split_ifs with fits <;> simp <;> omega

theorem checkedSub_eq_none {x y : UInt64} : checkedSub x y = none ↔ x.toNat < y.toNat := by
  unfold checkedSub
  split_ifs with order
  · simp [UInt64.le_iff_toNat_le.mp order]
  · simp only [true_iff]
    exact Nat.lt_of_not_le fun le => order (UInt64.le_iff_toNat_le.mpr le)

def feesOf {α : Type} (l : List α) (fee : α → UInt64) : ℕ :=
  (l.map fun a => (fee a).toNat).sum

section Fees

variable {α : Type} (fee : α → UInt64)

@[simp] theorem feesOf_nil : feesOf [] fee = 0 :=
  rfl

@[simp] theorem feesOf_cons (a : α) (l : List α) : feesOf (a :: l) fee = (fee a).toNat + feesOf l fee := by
  simp [feesOf]

@[simp] theorem feesOf_append (l l' : List α) : feesOf (l ++ l') fee = feesOf l fee + feesOf l' fee := by
  simp [feesOf]

theorem foldlM_checkedAdd (l : List α) (accum : UInt64) :
    l.foldlM (fun accum elem => checkedAdd accum (fee elem)) accum =
      if accum.toNat + feesOf l fee < 2 ^ 64 then some (UInt64.ofNat (accum.toNat + feesOf l fee))
      else none := by
  induction l generalizing accum with
  | nil => simp [accum.toNat_lt]
  | cons a l ih =>
    rw [List.foldlM_cons, feesOf_cons]
    cases added : checkedAdd accum (fee a) with
    | none =>
      have overflow := checkedAdd_eq_none.mp added
      rw [if_neg (by omega)]
      rfl
    | some sum =>
      have sumToNat := checkedAdd_toNat added
      simp only [Option.bind_eq_bind, Option.bind_some, ih, sumToNat, Nat.add_assoc]

def feesTo (l : List α) (keyOf : α → CompressedPubKey) (key : CompressedPubKey) : ℕ :=
  feesOf (l.filter fun a => keyOf a = key) fee

@[simp] theorem feesTo_nil (keyOf : α → CompressedPubKey) (key : CompressedPubKey) :
    feesTo fee [] keyOf key = 0 :=
  rfl

@[simp] theorem feesTo_cons (a : α) (l : List α) (keyOf : α → CompressedPubKey) (key : CompressedPubKey) :
    feesTo fee (a :: l) keyOf key =
      (if keyOf a = key then (fee a).toNat else 0) + feesTo fee l keyOf key := by
  unfold feesTo
  by_cases same : keyOf a = key <;> simp [same]

theorem feesTo_eq_zero {l : List α} {keyOf : α → CompressedPubKey} {key : CompressedPubKey}
    (absent : ∀ a ∈ l, keyOf a ≠ key) : feesTo fee l keyOf key = 0 := by
  induction l with
  | nil => rfl
  | cons a rest ih =>
    rw [feesTo_cons, if_neg (absent a List.mem_cons_self),
      ih fun other mem => absent other (List.mem_cons_of_mem _ mem), add_zero]

theorem feesTo_filter_ne (l : List α) (keyOf : α → CompressedPubKey) (dropped key : CompressedPubKey) :
    feesTo fee (l.filter fun a => keyOf a ≠ dropped) keyOf key =
      if key = dropped then 0 else feesTo fee l keyOf key := by
  induction l with
  | nil => simp
  | cons a rest ih =>
    by_cases kept : keyOf a = dropped
    · rw [List.filter_cons_of_neg (by simpa using kept), ih, feesTo_cons]
      split_ifs with same other <;> simp_all
    · rw [List.filter_cons_of_pos (by simpa using kept), feesTo_cons, ih, feesTo_cons]
      split_ifs with same other <;> simp_all

theorem feesTo_le_feesOf (l : List α) (keyOf : α → CompressedPubKey) (key : CompressedPubKey) :
    feesTo fee l keyOf key ≤ feesOf l fee := by
  induction l with
  | nil => rfl
  | cons a rest ih =>
    rw [feesTo_cons, feesOf_cons]
    split_ifs <;> omega

theorem feesOf_filter_nonzero (l : List α) : feesOf (l.filter fun a => fee a ≠ 0) fee = feesOf l fee := by
  induction l with
  | nil => rfl
  | cons a rest ih =>
    by_cases zero : fee a = 0
    · rw [List.filter_cons_of_neg (by simpa using zero), ih, feesOf_cons, zero, UInt64.toNat_zero,
        zero_add]
    · rw [List.filter_cons_of_pos (by simpa using zero), feesOf_cons, feesOf_cons, ih]

theorem feesTo_filter_nonzero (l : List α) (keyOf : α → CompressedPubKey) (key : CompressedPubKey) :
    feesTo fee (l.filter fun a => fee a ≠ 0) keyOf key = feesTo fee l keyOf key := by
  rw [feesTo, feesTo, List.filter_comm, feesOf_filter_nonzero]

theorem sumFees_eq (l : List α) :
    sumFees l fee =
      if feesOf l fee < 2 ^ 64 then .ok (UInt64.ofNat (feesOf l fee)) else .error "Fee overflow" := by
  unfold sumFees
  rw [foldlM_checkedAdd, UInt64.toNat_zero, Nat.zero_add]
  split_ifs <;> rfl

end Fees

theorem checkedSub_getD_toNat (x y : UInt64) :
    ((checkedSub x y).getD 0).toNat = x.toNat - y.toNat := by
  cases subtracted : checkedSub x y with
  | none =>
    have below := checkedSub_eq_none.mp subtracted
    simp only [Option.getD_none, UInt64.toNat_zero]
    omega
  | some difference => exact (checkedSub_toNat subtracted).2

section Commands

variable {Cmd : Type} (commandFee : Cmd → UInt64)

theorem feeRemainder_eq_ok {commands : List Cmd} {completedWorks : List Work}
    {coinbaseFee delta : UInt64}
    (ran : feeRemainder commandFee commands completedWorks coinbaseFee = .ok delta) :
    feesOf commands commandFee < 2 ^ 64 ∧ feesOf completedWorks Work.fee < 2 ^ 64 ∧
      feesOf completedWorks Work.fee - coinbaseFee.toNat ≤ feesOf commands commandFee ∧
      delta.toNat =
        feesOf commands commandFee - (feesOf completedWorks Work.fee - coinbaseFee.toNat) := by
  unfold feeRemainder at ran
  rw [sumFees_eq, sumFees_eq] at ran
  split_ifs at ran with budgetFits workFits
  all_goals simp only [Except.mapError, bind, Except.bind, reduceCtorEq] at ran
  have totalToNat :
      ((checkedSub (UInt64.ofNat (feesOf completedWorks Work.fee)) coinbaseFee).getD 0).toNat =
        feesOf completedWorks Work.fee - coinbaseFee.toNat := by
    rw [checkedSub_getD_toNat, UInt64.toNat_ofNat_of_lt' workFits]
  split at ran
  case h_1 remainder subtracted =>
    obtain ⟨order, value⟩ := checkedSub_toNat subtracted
    rw [UInt64.toNat_ofNat_of_lt' budgetFits, totalToNat] at order value
    injection ran with same
    subst same
    exact ⟨budgetFits, workFits, order, value⟩
  case h_2 => cases ran

theorem feeRemainder_insufficientFee_iff {commands : List Cmd} {completedWorks : List Work}
    {coinbaseFee : UInt64} (workFits : feesOf completedWorks Work.fee < 2 ^ 64) :
    (∃ fees, feeRemainder commandFee commands completedWorks coinbaseFee =
        .error (.insufficientFee fees)) ↔
      feesOf commands commandFee < feesOf completedWorks Work.fee - coinbaseFee.toNat := by
  unfold feeRemainder
  by_cases budgetFits : feesOf commands commandFee < 2 ^ 64
  case neg =>
    rw [sumFees_eq, if_neg budgetFits]
    simp only [Except.mapError, bind, Except.bind, Except.error.injEq, reduceCtorEq, exists_false, false_iff,
      not_lt]
    omega
  rw [sumFees_eq, sumFees_eq, if_pos budgetFits, if_pos workFits]
  simp only [Except.mapError, bind, Except.bind]
  have totalToNat :
      ((checkedSub (UInt64.ofNat (feesOf completedWorks Work.fee)) coinbaseFee).getD 0).toNat =
        feesOf completedWorks Work.fee - coinbaseFee.toNat := by
    rw [checkedSub_getD_toNat, UInt64.toNat_ofNat_of_lt' workFits]
  split
  case h_1 remainder subtracted =>
    obtain ⟨order, -⟩ := checkedSub_toNat subtracted
    rw [UInt64.toNat_ofNat_of_lt' budgetFits, totalToNat] at order
    simp only [pure, Except.pure, reduceCtorEq, exists_false, false_iff, not_lt]
    exact order
  case h_2 subtracted =>
    have below := checkedSub_eq_none.mp subtracted
    rw [UInt64.toNat_ofNat_of_lt' budgetFits, totalToNat] at below
    simp only [throw, throwThe, MonadExceptOf.throw, Except.error.injEq, PreDiffError.insufficientFee.injEq,
      exists_eq', true_iff]
    exact below

end Commands

/-! ## The fee map, key by key -/

open Openmina.Arith.FinmapTotal (weightAt total)

def feeWeight (fee : UInt64) : ℤ :=
  fee.toNat

def feeAt (map : FeeMap) (key : CompressedPubKey) : ℤ :=
  weightAt feeWeight map.toFinmap key

def totalFees (map : FeeMap) : ℤ :=
  total feeWeight map.toFinmap

def NonzeroFees (map : FeeMap) : Prop :=
  ∀ key fee, map.lookup key = some fee → fee ≠ 0

theorem feeAt_eq (map : FeeMap) (key : CompressedPubKey) :
    feeAt map key = ((map.lookup key).map feeWeight).getD 0 := by
  rw [feeAt, weightAt, Finmap.lookup_toFinmap]

theorem feeAt_of_lookup {map : FeeMap} {key : CompressedPubKey} {fee : UInt64}
    (found : map.lookup key = some fee) : feeAt map key = fee.toNat := by
  rw [feeAt_eq, found]
  rfl

theorem feeAt_of_lookup_eq_none {map : FeeMap} {key : CompressedPubKey}
    (absent : map.lookup key = none) : feeAt map key = 0 := by
  rw [feeAt_eq, absent]
  rfl

theorem feeAt_insert (map : FeeMap) (key key' : CompressedPubKey) (fee : UInt64) :
    feeAt (map.insert key fee) key' = if key' = key then (fee.toNat : ℤ) else feeAt map key' := by
  split_ifs with same
  · subst same
    exact feeAt_of_lookup (AList.lookup_insert map)
  · rw [feeAt_eq, feeAt_eq, AList.lookup_insert_ne same]

theorem feeAt_erase (map : FeeMap) (key key' : CompressedPubKey) :
    feeAt (map.erase key) key' = if key' = key then 0 else feeAt map key' := by
  split_ifs with same
  · subst same
    exact feeAt_of_lookup_eq_none (AList.lookup_erase key' map)
  · rw [feeAt_eq, feeAt_eq, AList.lookup_erase_ne same]

theorem totalFees_insert (map : FeeMap) (key : CompressedPubKey) (fee : UInt64) :
    totalFees (map.insert key fee) = totalFees map - feeAt map key + fee.toNat := by
  rw [totalFees, ← Finmap.insert_toFinmap, Openmina.Arith.FinmapTotal.total_insert]
  rfl

theorem totalFees_erase (map : FeeMap) (key : CompressedPubKey) :
    totalFees (map.erase key) = totalFees map - feeAt map key := by
  have split := Openmina.Arith.FinmapTotal.total_eq_weightAt_add_erase feeWeight map.toFinmap key
  rw [totalFees, ← Finmap.erase_toFinmap, totalFees, split, feeAt]
  ring

theorem totalFees_eq_sum (map : FeeMap) :
    totalFees map = (map.entries.map fun entry => feeWeight entry.2).sum := by
  rw [totalFees, total, AList.toFinmap_entries, Multiset.map_coe, Multiset.sum_coe]

theorem totalFees_empty : totalFees ∅ = 0 := by
  rw [totalFees_eq_sum]
  rfl

theorem toNat_ne_zero {x : UInt64} (nonzero : x ≠ 0) : x.toNat ≠ 0 := fun zero =>
  nonzero (UInt64.toNat_inj.mp (zero.trans UInt64.toNat_zero.symm))

theorem NonzeroFees.insert {map : FeeMap} (stored : NonzeroFees map) {fee : UInt64}
    (nonzero : fee ≠ 0) (key : CompressedPubKey) : NonzeroFees (map.insert key fee) := by
  intro key' fee' found
  by_cases same : key' = key
  · subst same
    rw [AList.lookup_insert, Option.some.injEq] at found
    exact found ▸ nonzero
  · rw [AList.lookup_insert_ne same] at found
    exact stored key' fee' found

theorem NonzeroFees.erase {map : FeeMap} (stored : NonzeroFees map) (key : CompressedPubKey) :
    NonzeroFees (map.erase key) := by
  intro key' fee' found
  by_cases same : key' = key
  · subst same
    rw [AList.lookup_erase] at found
    cases found
  · rw [AList.lookup_erase_ne same] at found
    exact stored key' fee' found

/-! ## The loops of `create_fee_transfers` -/

theorem addSingle_spec {map map' : FeeMap} {single : CompressedPubKey × UInt64}
    (nonzero : single.2 ≠ 0) (stored : NonzeroFees map) (added : addSingle map single = some map') :
    NonzeroFees map' ∧
      (∀ key, feeAt map' key = feeAt map key + if single.1 = key then (single.2.toNat : ℤ) else 0) ∧
      totalFees map' = totalFees map + single.2.toNat := by
  obtain ⟨receiver, fee⟩ := single
  dsimp only at nonzero ⊢
  unfold addSingle at added
  cases found : map.lookup receiver with
  | none =>
    simp only [found, Option.some.injEq] at added
    subst added
    refine ⟨stored.insert nonzero receiver, fun key => ?_, ?_⟩
    · rw [feeAt_insert]
      by_cases same : receiver = key
      · subst same
        rw [if_pos rfl, if_pos rfl, feeAt_of_lookup_eq_none found, zero_add]
      · rw [if_neg (Ne.symm same), if_neg same, add_zero]
    · rw [totalFees_insert, feeAt_of_lookup_eq_none found, sub_zero]
  | some old =>
    cases summed : checkedAdd fee old with
    | none => simp [found, summed] at added
    | some sum =>
      simp only [found, summed, Option.map_some, Option.some.injEq] at added
      subst added
      have sumToNat := checkedAdd_toNat summed
      have sumNonzero : sum ≠ 0 := fun zero => toNat_ne_zero nonzero (by
        rw [zero, UInt64.toNat_zero] at sumToNat
        omega)
      refine ⟨stored.insert sumNonzero receiver, fun key => ?_, ?_⟩
      · rw [feeAt_insert]
        by_cases same : receiver = key
        · subst same
          rw [if_pos rfl, if_pos rfl, feeAt_of_lookup found, sumToNat]
          push_cast
          ring
        · rw [if_neg (Ne.symm same), if_neg same, add_zero]
      · rw [totalFees_insert, feeAt_of_lookup found, sumToNat]
        push_cast
        ring

theorem foldlM_addSingle_spec (singles : List (CompressedPubKey × UInt64)) {map map' : FeeMap}
    (nonzero : ∀ single ∈ singles, single.2 ≠ 0) (stored : NonzeroFees map)
    (added : singles.foldlM addSingle map = some map') :
    NonzeroFees map' ∧
      (∀ key, feeAt map' key = feeAt map key + feesTo Prod.snd singles Prod.fst key) ∧
      totalFees map' = totalFees map + feesOf singles Prod.snd := by
  induction singles generalizing map with
  | nil =>
    simp only [List.foldlM_nil, pure, Option.some.injEq] at added
    subst added
    simp [stored]
  | cons single rest ih =>
    rw [List.foldlM_cons] at added
    cases step : addSingle map single with
    | none => simp [step] at added
    | some map1 =>
      rw [step, Option.bind_eq_bind, Option.bind_some] at added
      obtain ⟨stored1, at1, total1⟩ := addSingle_spec (nonzero single List.mem_cons_self) stored step
      obtain ⟨stored', at', total'⟩ :=
        ih (fun s mem => nonzero s (List.mem_cons_of_mem _ mem)) stored1 added
      refine ⟨stored', fun key => ?_, ?_⟩
      · rw [at', at1, feesTo_cons]
        split_ifs <;> push_cast <;> ring
      · rw [total', total1, feesOf_cons]
        push_cast
        ring

theorem subtractCoinbaseFeeTransfer_spec {map map' : FeeMap} {ft : CoinbaseFeeTransfer}
    (stored : NonzeroFees map) (covered : (ft.fee.toNat : ℤ) ≤ feeAt map ft.receiverPk)
    (subtracted : subtractCoinbaseFeeTransfer map ft = .ok map') :
    NonzeroFees map' ∧
      (∀ key, feeAt map' key =
        feeAt map key - if ft.receiverPk = key then (ft.fee.toNat : ℤ) else 0) ∧
      totalFees map' = totalFees map - ft.fee.toNat := by
  unfold subtractCoinbaseFeeTransfer at subtracted
  cases found : map.lookup ft.receiverPk with
  | none =>
    rw [found] at subtracted
    injection subtracted with same
    subst same
    rw [feeAt_of_lookup_eq_none found] at covered
    have zero : (ft.fee.toNat : ℤ) = 0 := le_antisymm covered (Int.natCast_nonneg _)
    refine ⟨stored, fun key => ?_, by rw [zero, sub_zero]⟩
    split_ifs <;> simp [zero]
  | some fee =>
    rw [feeAt_of_lookup found] at covered
    cases difference : checkedSub fee ft.fee with
    | none =>
      simp only [found, difference, reduceCtorEq] at subtracted
    | some newFee =>
      have newToNat := (checkedSub_toNat difference).2
      simp only [found, difference] at subtracted
      split_ifs at subtracted with kept
      · injection subtracted with same
        subst same
        refine ⟨stored.insert kept ft.receiverPk, fun key => ?_, ?_⟩
        · rw [feeAt_insert]
          by_cases same : ft.receiverPk = key
          · subst same
            rw [if_pos rfl, if_pos rfl, feeAt_of_lookup found, newToNat]
            omega
          · rw [if_neg (Ne.symm same), if_neg same, sub_zero]
        · rw [totalFees_insert, feeAt_of_lookup found, newToNat]
          omega
      · injection subtracted with same
        subst same
        have emptied : (fee.toNat : ℤ) = ft.fee.toNat := by
          rw [not_not] at kept
          rw [kept, UInt64.toNat_zero] at newToNat
          omega
        refine ⟨stored.erase ft.receiverPk, fun key => ?_, ?_⟩
        · rw [feeAt_erase]
          by_cases same : ft.receiverPk = key
          · subst same
            rw [if_pos rfl, if_pos rfl, feeAt_of_lookup found, emptied, sub_self]
          · rw [if_neg (Ne.symm same), if_neg same, sub_zero]
        · rw [totalFees_erase, feeAt_of_lookup found, emptied]

theorem foldlM_subtract_spec (fts : List CoinbaseFeeTransfer) {map map' : FeeMap}
    (stored : NonzeroFees map)
    (covered : ∀ key, (feesTo CoinbaseFeeTransfer.fee fts CoinbaseFeeTransfer.receiverPk key : ℤ) ≤
      feeAt map key)
    (subtracted : fts.foldlM subtractCoinbaseFeeTransfer map = .ok map') :
    NonzeroFees map' ∧
      (∀ key, feeAt map' key =
        feeAt map key - feesTo CoinbaseFeeTransfer.fee fts CoinbaseFeeTransfer.receiverPk key) ∧
      totalFees map' = totalFees map - feesOf fts CoinbaseFeeTransfer.fee := by
  induction fts generalizing map with
  | nil =>
    simp only [List.foldlM_nil, pure, Except.pure, Except.ok.injEq] at subtracted
    subst subtracted
    simp [stored]
  | cons ft rest ih =>
    rw [List.foldlM_cons] at subtracted
    cases step : subtractCoinbaseFeeTransfer map ft with
    | error e =>
      rw [step] at subtracted
      cases subtracted
    | ok map1 =>
      rw [step] at subtracted
      have coveredHead : (ft.fee.toNat : ℤ) ≤ feeAt map ft.receiverPk := by
        have atHead := covered ft.receiverPk
        rw [feesTo_cons, if_pos rfl] at atHead
        push_cast at atHead
        omega
      obtain ⟨stored1, at1, total1⟩ := subtractCoinbaseFeeTransfer_spec stored coveredHead step
      have coveredRest : ∀ key,
          (feesTo CoinbaseFeeTransfer.fee rest CoinbaseFeeTransfer.receiverPk key : ℤ) ≤ feeAt map1 key := by
        intro key
        have atKey := covered key
        rw [feesTo_cons] at atKey
        rw [at1 key]
        split_ifs at atKey ⊢ <;> push_cast at atKey <;> omega
      obtain ⟨stored', at', total'⟩ := ih stored1 coveredRest subtracted
      refine ⟨stored', fun key => ?_, ?_⟩
      · rw [at', at1, feesTo_cons]
        split_ifs <;> push_cast <;> ring
      · rw [total', total1, feesOf_cons]
        push_cast
        ring

/-! ## Iterating the fee map -/

theorem intoIter_pairwise (map : FeeMap) : (intoIter map).Pairwise fun a b => a.1 < b.1 := by
  have ordered : (map.entries.mergeSort fun a b => decide (a.1 ≤ b.1)).Pairwise
      fun a b => decide (a.1 ≤ b.1) = true :=
    List.pairwise_mergeSort
      (fun a b c ab bc => by simp only [decide_eq_true_eq] at ab bc ⊢; exact ab.trans bc)
      (fun a b => by simpa using le_total a.1 b.1) map.entries
  have distinct : (map.entries.mergeSort fun a b => decide (a.1 ≤ b.1)).Pairwise
      fun a b => a.1 ≠ b.1 :=
    ((List.mergeSort_perm _ _).pairwise_iff Ne.symm).mpr
      (List.nodupKeys_iff_pairwise.mp map.nodupKeys)
  rw [intoIter, List.pairwise_map]
  refine (ordered.and distinct).imp fun ⟨below, differ⟩ => ?_
  simp only [decide_eq_true_eq] at below
  exact lt_of_le_of_ne below differ

theorem mem_intoIter {map : FeeMap} {key : CompressedPubKey} {fee : UInt64} :
    (key, fee) ∈ intoIter map ↔ map.lookup key = some fee := by
  rw [intoIter, List.mem_map]
  constructor
  · rintro ⟨entry, mem, same⟩
    rw [List.mem_mergeSort] at mem
    obtain ⟨rfl, rfl⟩ := Prod.mk.inj same
    exact AList.mem_lookup_iff.mpr mem
  · intro found
    exact ⟨⟨key, fee⟩, List.mem_mergeSort.mpr (AList.mem_lookup_iff.mp found), rfl⟩

theorem feesOf_intoIter (map : FeeMap) : (feesOf (intoIter map) Prod.snd : ℤ) = totalFees map := by
  rw [totalFees_eq_sum, feesOf, intoIter, List.map_map, Nat.cast_list_sum, List.map_map]
  exact (List.mergeSort_perm _ _).map _ |>.sum_eq

section Distinct

variable {l : List (CompressedPubKey × UInt64)} {key : CompressedPubKey}

theorem feesTo_of_mem (distinct : l.Pairwise fun a b => a.1 ≠ b.1) {fee : UInt64}
    (mem : (key, fee) ∈ l) : feesTo Prod.snd l Prod.fst key = fee.toNat := by
  induction l with
  | nil => cases mem
  | cons pair rest ih =>
    rw [List.pairwise_cons] at distinct
    rw [feesTo_cons]
    rcases List.mem_cons.mp mem with same | later
    · subst same
      rw [if_pos rfl, feesTo_eq_zero Prod.snd fun other mem => (distinct.1 other mem).symm, add_zero]
    · have differ : pair.1 ≠ key := distinct.1 (key, fee) later
      rw [if_neg differ, ih distinct.2 later, zero_add]

end Distinct

theorem feesTo_intoIter (map : FeeMap) (key : CompressedPubKey) :
    (feesTo Prod.snd (intoIter map) Prod.fst key : ℤ) = feeAt map key := by
  cases found : map.lookup key with
  | none =>
    rw [feeAt_of_lookup_eq_none found, feesTo_eq_zero]
    · rfl
    · rintro ⟨other, fee⟩ mem same
      subst same
      rw [mem_intoIter, found] at mem
      cases mem
  | some fee =>
    have distinct := (intoIter_pairwise map).imp fun below => ne_of_lt below
    rw [feeAt_of_lookup found, feesTo_of_mem distinct (mem_intoIter.mpr found)]

/-! ## Pairing the singles -/

section Groups

variable {α β : Type} (f : α → β)

theorem flatMap_groupList (l : List α) : (groupList f l).flatMap OneOrTwo.toList = l.map f := by
  fun_induction groupList f l with
  | case1 a b rest ih => simp [OneOrTwo.toList, ih]
  | case2 a => simp [OneOrTwo.toList]
  | case3 => rfl

theorem groupList_pairs (l : List α) : ∀ group ∈ (groupList f l).dropLast, ∃ a b, group = .two a b := by
  fun_induction groupList f l with
  | case1 a b rest ih =>
    intro group mem
    by_cases last : groupList f rest = []
    · rw [last] at mem
      cases mem
    · rw [List.dropLast_cons_of_ne_nil last] at mem
      rcases List.mem_cons.mp mem with first | later
      · exact ⟨f a, f b, first⟩
      · exact ih group later
  | case2 a => simp
  | case3 => simp

end Groups

theorem mapM_ofSingles {groups : List (OneOrTwo SingleFeeTransfer)} {token : TokenId}
    (sameToken : ∀ group ∈ groups, ∀ single ∈ group.toList, single.feeToken = token) :
    groups.mapM FeeTransfer.ofSingles = .ok (groups.map FeeTransfer.mk) := by
  induction groups with
  | nil => rfl
  | cons group rest ih =>
    have combined : FeeTransfer.ofSingles group = .ok ⟨group⟩ := by
      cases group with
      | one a => rfl
      | two a b =>
        have tokens := sameToken (.two a b) List.mem_cons_self
        rw [FeeTransfer.ofSingles, if_pos ((tokens a (by simp [OneOrTwo.toList])).trans
          (tokens b (by simp [OneOrTwo.toList])).symm)]
    rw [List.mapM_cons, combined, ih fun other mem => sameToken other (List.mem_cons_of_mem _ mem)]
    rfl

/-! ## `create_fee_transfers` -/

theorem feesTo_map {α γ : Type} (g : γ → UInt64) (h : α → γ) (l : List α) (keyOf : γ → CompressedPubKey)
    (key : CompressedPubKey) : feesTo g (l.map h) keyOf key = feesTo (g ∘ h) l (keyOf ∘ h) key := by
  simp [feesTo, feesOf, List.filter_map, Function.comp_def]

theorem feesOf_map {α γ : Type} (g : γ → UInt64) (h : α → γ) (l : List α) :
    feesOf (l.map h) g = feesOf l (g ∘ h) := by
  simp [feesOf, Function.comp_def]

theorem createFeeTransfers_eq_ok {completedWorks : List Work} {delta : UInt64}
    {publicKey : CompressedPubKey} {coinbaseFts : List CoinbaseFeeTransfer} {transfers : List FeeTransfer}
    (ran : createFeeTransfers completedWorks delta publicKey coinbaseFts = .ok transfers) :
    ∃ singlesMap finalMap,
      feeTransfersMap (((publicKey, delta) :: completedWorks.map fun w => (w.prover, w.fee)).filter
        fun single => single.2 ≠ 0) = some singlesMap ∧
      coinbaseFts.foldlM subtractCoinbaseFeeTransfer singlesMap = .ok finalMap ∧
      transfers = (groupList id ((intoIter finalMap).map fun single =>
        SingleFeeTransfer.create single.1 single.2 TokenId.default)).map FeeTransfer.mk := by
  unfold createFeeTransfers at ran
  simp only [bind, Except.bind, pure, Except.pure] at ran
  split at ran
  case h_2 => cases ran
  case h_1 singlesMap mapped =>
    split at ran
    case h_1 => cases ran
    case h_2 finalMap folded =>
      refine ⟨singlesMap, finalMap, mapped, folded, ?_⟩
      have sorted := (intoIter_pairwise finalMap).imp fun (below : _ < _) => decide_eq_true below.le
      have tokens : ∀ group ∈ groupList id ((intoIter finalMap).map fun single =>
          SingleFeeTransfer.create single.1 single.2 TokenId.default),
          ∀ single ∈ group.toList, single.feeToken = TokenId.default := by
        intro group mem single inGroup
        have listed : single ∈ ((intoIter finalMap).map fun single =>
            SingleFeeTransfer.create single.1 single.2 TokenId.default).map id := by
          rw [← flatMap_groupList]
          exact List.mem_flatMap.mpr ⟨group, mem, inGroup⟩
        obtain ⟨pair, -, rfl⟩ := List.mem_map.mp (List.map_id _ ▸ listed)
        rfl
      rw [List.mergeSort_of_pairwise sorted, mapM_ofSingles tokens] at ran
      injection ran with same
      exact same.symm

def singlesOf (transfers : List FeeTransfer) : List SingleFeeTransfer :=
  transfers.flatMap fun ft => ft.singles.toList

/-- What `create_fee_transfers` pays, when every coinbase fee transfer goes to a key
that the producer's share and the works pay at least as much: single fee transfers in
the default token with distinct receivers and non-zero fees, sorted by receiver and
paired in that order, each key receiving its share less its coinbase fee transfers. -/
theorem createFeeTransfers_spec {completedWorks : List Work} {delta : UInt64}
    {publicKey : CompressedPubKey} {coinbaseFts : List CoinbaseFeeTransfer} {transfers : List FeeTransfer}
    (covered : ∀ key, feesTo CoinbaseFeeTransfer.fee coinbaseFts CoinbaseFeeTransfer.receiverPk key ≤
      (if publicKey = key then delta.toNat else 0) + feesTo Work.fee completedWorks Work.prover key)
    (ran : createFeeTransfers completedWorks delta publicKey coinbaseFts = .ok transfers) :
    (∀ single ∈ singlesOf transfers,
        single.feeToken = TokenId.default ∧ single.fee ≠ 0) ∧
      ((singlesOf transfers).map SingleFeeTransfer.receiverPk).Pairwise (· < ·) ∧
      (∀ ft ∈ transfers.dropLast, ∃ one two, ft.singles = .two one two) ∧
      (∀ key, feesTo SingleFeeTransfer.fee (singlesOf transfers)
          SingleFeeTransfer.receiverPk key =
        (if publicKey = key then delta.toNat else 0) + feesTo Work.fee completedWorks Work.prover key -
          feesTo CoinbaseFeeTransfer.fee coinbaseFts CoinbaseFeeTransfer.receiverPk key) ∧
      (feesOf (singlesOf transfers) SingleFeeTransfer.fee : ℤ) =
        delta.toNat + feesOf completedWorks Work.fee - feesOf coinbaseFts CoinbaseFeeTransfer.fee := by
  obtain ⟨singlesMap, finalMap, mapped, folded, transfersIs⟩ := createFeeTransfers_eq_ok ran
  -- the map before the coinbase fee transfers: the producer's share and the work fees
  have singlesNonzero : ∀ single ∈ ((publicKey, delta) :: completedWorks.map fun w => (w.prover, w.fee)).filter
      (fun single => single.2 ≠ 0), single.2 ≠ 0 := fun single mem => by
    simpa using (List.mem_filter.mp mem).2
  obtain ⟨stored, at1, total1⟩ := foldlM_addSingle_spec _ singlesNonzero (fun _ _ found => by cases found) mapped
  have share : ∀ key, feeAt singlesMap key =
      ((if publicKey = key then delta.toNat else 0) + feesTo Work.fee completedWorks Work.prover key : ℕ) := by
    intro key
    rw [at1, feesTo_filter_nonzero, feesTo_cons, feesTo_map, feeAt_eq, AList.lookup_empty,
      Option.map_none, Option.getD_none, zero_add]
    rfl
  obtain ⟨storedFinal, atFinal, totalFinal⟩ := foldlM_subtract_spec coinbaseFts stored
    (fun key => by rw [share key]; exact_mod_cast covered key) folded
  have singlesIs : singlesOf transfers = (intoIter finalMap).map fun single =>
      SingleFeeTransfer.create single.1 single.2 TokenId.default := by
    rw [singlesOf, transfersIs, List.flatMap_map]
    exact (flatMap_groupList id _).trans (List.map_id _)
  rw [singlesIs]
  refine ⟨?_, ?_, ?_, fun key => ?_, ?_⟩
  · intro single mem
    obtain ⟨⟨key, fee⟩, listed, rfl⟩ := List.mem_map.mp mem
    exact ⟨rfl, storedFinal key fee (mem_intoIter.mp listed)⟩
  · rw [List.map_map]
    exact List.pairwise_map.mpr (intoIter_pairwise finalMap)
  · rw [transfersIs, ← List.map_dropLast]
    intro ft mem
    obtain ⟨group, grouped, rfl⟩ := List.mem_map.mp mem
    exact groupList_pairs id _ group grouped
  · have received := feesTo_intoIter finalMap key
    rw [atFinal, share key] at received
    have coveredKey := covered key
    rw [feesTo_map]
    change feesTo Prod.snd (intoIter finalMap) Prod.fst key = _
    omega
  · have summed := feesOf_intoIter finalMap
    rw [totalFinal, total1, totalFees_empty, feesOf_filter_nonzero, feesOf_cons, feesOf_map] at summed
    rw [feesOf_map]
    change (feesOf (intoIter finalMap) Prod.snd : ℤ) = _
    rw [summed]
    change (0 : ℤ) + ((delta.toNat + feesOf completedWorks Work.fee : ℕ) : ℤ) - _ = _
    push_cast
    ring

/-! ## `create_coinbase` -/

def FeeTransfersWithin (receiver : CompressedPubKey) (bound : ℕ) (coinbases : List Coinbase) : Prop :=
  (∀ ft ∈ coinbaseFeeTransfers coinbases, ft.receiverPk ≠ receiver) ∧
    feesOf (coinbaseFeeTransfers coinbases) CoinbaseFeeTransfer.fee ≤ bound

theorem FeeTransfersWithin.append {receiver : CompressedPubKey} {bound bound' : ℕ}
    {coinbases coinbases' : List Coinbase} (within : FeeTransfersWithin receiver bound coinbases)
    (within' : FeeTransfersWithin receiver bound' coinbases') :
    FeeTransfersWithin receiver (bound + bound') (coinbases ++ coinbases') := by
  unfold FeeTransfersWithin coinbaseFeeTransfers at *
  rw [List.flatMap_append, feesOf_append]
  refine ⟨fun ft mem => ?_, by omega⟩
  rcases List.mem_append.mp mem with early | late
  · exact within.1 ft early
  · exact within'.1 ft late

theorem Coinbase.create_within {amount : UInt64} {receiver : CompressedPubKey}
    {feeTransfer : Option CoinbaseFeeTransfer} {cb : Coinbase}
    (created : Coinbase.create amount receiver feeTransfer = .ok cb) :
    FeeTransfersWithin receiver amount.toNat [cb] := by
  unfold Coinbase.create at created
  dsimp only at created
  split_ifs at created with valid
  injection created with same
  subst same
  cases feeTransfer with
  | none => simp [FeeTransfersWithin, coinbaseFeeTransfers]
  | some ft =>
    have paid : ft.fee ≤ amount := by simpa [Coinbase.isValid] using valid
    by_cases other : receiver = ft.receiverPk
    · simp [FeeTransfersWithin, coinbaseFeeTransfers, other]
    · simp only [FeeTransfersWithin, coinbaseFeeTransfers, Option.bind_some, if_pos other,
        List.flatMap_cons, List.flatMap_nil, List.append_nil, Option.toList_some, List.mem_singleton,
        forall_eq, feesOf_cons, feesOf_nil, add_zero]
      exact ⟨Ne.symm other, UInt64.le_iff_toNat_le.mp paid⟩

theorem coinbaseOrError_eq_ok {cb : Except String Coinbase} {coinbase : Coinbase} :
    coinbaseOrError cb = .ok coinbase ↔ cb = .ok coinbase := by
  cases cb <;> simp [coinbaseOrError, Except.mapError]

theorem underflowErr_eq_ok {a1 a2 difference : UInt64} :
    underflowErr a1 a2 = .ok difference ↔ checkedSub a1 a2 = some difference := by
  unfold underflowErr
  cases checkedSub a1 a2 <;> simp

theorem twoParts_within {receiver : CompressedPubKey} {coinbaseAmount amt : UInt64}
    {ft1 ft2 : Option CoinbaseFeeTransfer} {coinbases : List Coinbase}
    (split : twoParts receiver coinbaseAmount amt ft1 ft2 = .ok coinbases) :
    FeeTransfersWithin receiver coinbaseAmount.toNat coinbases := by
  unfold twoParts at split
  cases remainder : underflowErr coinbaseAmount amt with
  | error e => simp [remainder, bind, Except.bind] at split
  | ok remCoinbase =>
    cases room : underflowErr remCoinbase ((ft2.map CoinbaseFeeTransfer.fee).getD 0) with
    | error e => simp [remainder, room, bind, Except.bind] at split
    | ok _ =>
      cases first : coinbaseOrError (Coinbase.create amt receiver ft1) with
      | error e => simp [remainder, room, first, bind, Except.bind] at split
      | ok cb1 =>
        cases second : coinbaseOrError (Coinbase.create remCoinbase receiver ft2) with
        | error e => simp [remainder, room, first, second, bind, Except.bind] at split
        | ok cb2 =>
          simp only [remainder, room, first, second, bind, Except.bind, pure, Except.pure,
            Except.ok.injEq] at split
          subst split
          have rest := (checkedSub_toNat (underflowErr_eq_ok.mp remainder)).2
          have both := (Coinbase.create_within (coinbaseOrError_eq_ok.mp first)).append
            (Coinbase.create_within (coinbaseOrError_eq_ok.mp second))
          rw [rest, List.singleton_append] at both
          have fits := (checkedSub_toNat (underflowErr_eq_ok.mp remainder)).1
          exact ⟨both.1, by have := both.2; omega⟩

theorem createCoinbase_within {constraintConstants : ConstraintConstants} {coinbaseParts : CoinbaseParts}
    {receiver : CompressedPubKey} {coinbaseAmount : UInt64} {coinbases : List Coinbase}
    (created : createCoinbase constraintConstants coinbaseParts receiver coinbaseAmount = .ok coinbases) :
    FeeTransfersWithin receiver coinbaseAmount.toNat coinbases := by
  cases coinbaseParts with
  | zero =>
    injection created with same
    subst same
    simp [FeeTransfersWithin, coinbaseFeeTransfers]
  | one x =>
    simp only [createCoinbase] at created
    cases made : coinbaseOrError (Coinbase.create coinbaseAmount receiver x) with
    | error e => simp [made, bind, Except.bind] at created
    | ok cb =>
      simp only [made, bind, Except.bind, pure, Except.pure, Except.ok.injEq] at created
      subst created
      exact Coinbase.create_within (coinbaseOrError_eq_ok.mp made)
  | two x =>
    rcases x with _ | ⟨ft1, ft2⟩
    · exact twoParts_within created
    · simp only [createCoinbase] at created
      -- the first part carries the account creation fee on top of the first fee transfer
      cases added : checkedAdd constraintConstants.accountCreationFee ft1.fee with
      | none => simp [added, bind, Except.bind, throw, throwThe, MonadExceptOf.throw] at created
      | some fee =>
        simp only [added, bind, Except.bind, pure, Except.pure] at created
        exact twoParts_within created

theorem createCoinbase_fits {constraintConstants : ConstraintConstants} {coinbaseParts : CoinbaseParts}
    {receiver : CompressedPubKey} {coinbaseAmount : UInt64} {coinbases : List Coinbase}
    (created : createCoinbase constraintConstants coinbaseParts receiver coinbaseAmount = .ok coinbases) :
    feesOf (coinbaseFeeTransfers coinbases) CoinbaseFeeTransfer.fee < 2 ^ 64 :=
  lt_of_le_of_lt (createCoinbase_within created).2 coinbaseAmount.toNat_lt

/-! ## `get_transaction_data` -/

theorem foldlM_subtract_error (fts : List CoinbaseFeeTransfer) {map : FeeMap} {e : PreDiffError}
    (failed : fts.foldlM subtractCoinbaseFeeTransfer map = .error e) : e = .unexpected "fee underflow" := by
  induction fts generalizing map with
  | nil => cases failed
  | cons ft rest ih =>
    rw [List.foldlM_cons] at failed
    cases step : subtractCoinbaseFeeTransfer map ft with
    | error e' =>
      rw [step] at failed
      injection failed with same
      subst same
      unfold subtractCoinbaseFeeTransfer at step
      split at step
      · split at step
        · split_ifs at step
        · injection step with same
          exact same.symm
      · cases step
    | ok map1 =>
      rw [step] at failed
      exact ih failed

theorem createFeeTransfers_error {completedWorks : List Work} {delta : UInt64}
    {publicKey : CompressedPubKey} {coinbaseFts : List CoinbaseFeeTransfer} {e : PreDiffError}
    (failed : createFeeTransfers completedWorks delta publicKey coinbaseFts = .error e) :
    ∃ message, e = .unexpected message := by
  unfold createFeeTransfers at failed
  simp only [bind, Except.bind, pure, Except.pure] at failed
  split at failed
  case h_2 =>
    injection failed with same
    exact ⟨_, same.symm⟩
  case h_1 singlesMap mapped =>
    split at failed
    case h_1 e' folded =>
      injection failed with same
      exact ⟨_, same ▸ foldlM_subtract_error coinbaseFts folded⟩
    case h_2 finalMap folded =>
      cases grouped : (groupList id (((intoIter finalMap).mergeSort fun a b => decide (a.1 ≤ b.1)).map
          fun single => SingleFeeTransfer.create single.1 single.2 TokenId.default)).mapM
          FeeTransfer.ofSingles with
      | error message =>
        rw [grouped] at failed
        injection failed with same
        exact ⟨message, same.symm⟩
      | ok transfers =>
        rw [grouped] at failed
        cases failed

section Commands

variable {Cmd : Type} (commandFee : Cmd → UInt64)
variable {constraintConstants : ConstraintConstants} {coinbaseParts : CoinbaseParts}
  {receiver : CompressedPubKey} {coinbaseAmount : UInt64} {commands : List Cmd} {completedWorks : List Work}

theorem getTransactionData_of_createCoinbase {coinbases : List Coinbase}
    (created : createCoinbase constraintConstants coinbaseParts receiver coinbaseAmount = .ok coinbases) :
    (getTransactionData commandFee constraintConstants coinbaseParts receiver coinbaseAmount commands
        completedWorks).run =
      (do
        let delta ← MonadExcept.ofExcept (feeRemainder commandFee commands
          (completedWorks.filter fun w => w.prover ≠ receiver)
          (UInt64.ofNat (feesOf (coinbaseFeeTransfers coinbases) CoinbaseFeeTransfer.fee)))
        let feeTransfers ← MonadExcept.ofExcept (createFeeTransfers
          (completedWorks.filter fun w => w.prover ≠ receiver) delta receiver (coinbaseFeeTransfers coinbases))
        pure (⟨commands, coinbases, feeTransfers⟩ : TransactionData Cmd) :
        ExceptT PreDiffError Option (TransactionData Cmd)).run := by
  unfold getTransactionData
  simp only [ExceptT.run_bind, run_ofExcept, created, Option.bind_eq_bind, Option.bind_some]
  rw [sumFees_eq, if_pos (createCoinbase_fits created)]
  rfl

/-- A successful `get_transaction_data`, taken apart. -/
theorem getTransactionData_eq_ok {data : TransactionData Cmd}
    (ran : (getTransactionData commandFee constraintConstants coinbaseParts receiver coinbaseAmount commands
        completedWorks).run = some (.ok data)) :
    ∃ delta, createCoinbase constraintConstants coinbaseParts receiver coinbaseAmount = .ok data.coinbases ∧
      feeRemainder commandFee commands (completedWorks.filter fun w => w.prover ≠ receiver)
        (UInt64.ofNat (feesOf (coinbaseFeeTransfers data.coinbases) CoinbaseFeeTransfer.fee)) = .ok delta ∧
      createFeeTransfers (completedWorks.filter fun w => w.prover ≠ receiver) delta receiver
        (coinbaseFeeTransfers data.coinbases) = .ok data.feeTransfers ∧
      data.commands = commands := by
  cases created : createCoinbase constraintConstants coinbaseParts receiver coinbaseAmount with
  | error e =>
    unfold getTransactionData at ran
    simp [created] at ran
  | ok coinbases =>
    rw [getTransactionData_of_createCoinbase commandFee created] at ran
    simp only [run_bind_eq_ok, run_ofExcept, Option.some.injEq, run_pure_eq_ok] at ran
    obtain ⟨delta, remainder, transfers, made, rfl⟩ := ran
    exact ⟨delta, rfl, remainder, made, rfl⟩

end Commands

/-! ## What a prediff's fee transfers pay -/

/-- What a list of fee transfers pays: single fee transfers in the default token with
non-zero fees and increasing receivers, paired in that order, paying `total` in all,
`share` to the block producer and `owed` to every other key. -/
structure FeeTransfersPay (transfers : List FeeTransfer) (producer : CompressedPubKey) (total share : ℕ)
    (owed : CompressedPubKey → ℕ) : Prop where
  defaultToken : ∀ single ∈ singlesOf transfers, single.feeToken = TokenId.default
  nonzero : ∀ single ∈ singlesOf transfers, single.fee ≠ 0
  sorted : ((singlesOf transfers).map SingleFeeTransfer.receiverPk).Pairwise (· < ·)
  paired : ∀ ft ∈ transfers.dropLast, ∃ one two, ft.singles = .two one two
  sum : feesOf (singlesOf transfers) SingleFeeTransfer.fee = total
  toProducer : feesTo SingleFeeTransfer.fee (singlesOf transfers) SingleFeeTransfer.receiverPk producer = share
  toOthers : ∀ key, key ≠ producer →
    feesTo SingleFeeTransfer.fee (singlesOf transfers) SingleFeeTransfer.receiverPk key = owed key

section Commands

variable {Cmd : Type} (commandFee : Cmd → UInt64)

variable {constraintConstants : ConstraintConstants} {coinbaseParts : CoinbaseParts}
  {receiver : CompressedPubKey} {coinbaseAmount : UInt64} {commands : List Cmd} {completedWorks : List Work}
  {coinbases : List Coinbase}

theorem getTransactionData_pays
    (created : createCoinbase constraintConstants coinbaseParts receiver coinbaseAmount = .ok coinbases)
    (covered : ∀ prover, feesTo CoinbaseFeeTransfer.fee (coinbaseFeeTransfers coinbases)
      CoinbaseFeeTransfer.receiverPk prover ≤ feesTo Work.fee completedWorks Work.prover prover)
    {data : TransactionData Cmd}
    (ran : (getTransactionData commandFee constraintConstants coinbaseParts receiver coinbaseAmount
        commands completedWorks).run = some (.ok data)) :
    FeeTransfersPay data.feeTransfers receiver (feesOf commands commandFee)
      (feesOf commands commandFee - (feesOf (completedWorks.filter fun w => w.prover ≠ receiver) Work.fee -
        feesOf (coinbaseFeeTransfers coinbases) CoinbaseFeeTransfer.fee))
      fun prover => feesTo Work.fee completedWorks Work.prover prover -
        feesTo CoinbaseFeeTransfer.fee (coinbaseFeeTransfers coinbases) CoinbaseFeeTransfer.receiverPk prover := by
  have noneToProducer :
      feesTo CoinbaseFeeTransfer.fee (coinbaseFeeTransfers coinbases) CoinbaseFeeTransfer.receiverPk receiver = 0 :=
    feesTo_eq_zero _ fun ft mem => (createCoinbase_within created).1 ft mem
  obtain ⟨delta, created', remainder, made, -⟩ := getTransactionData_eq_ok commandFee ran
  rw [created, Except.ok.injEq] at created'
  rw [← created'] at remainder made
  obtain ⟨-, -, order, deltaIs⟩ := feeRemainder_eq_ok commandFee remainder
  rw [UInt64.toNat_ofNat_of_lt' (createCoinbase_fits created)] at order deltaIs
  have coveredShare : ∀ key, feesTo CoinbaseFeeTransfer.fee (coinbaseFeeTransfers coinbases)
      CoinbaseFeeTransfer.receiverPk key ≤ (if receiver = key then delta.toNat else 0) +
        feesTo Work.fee (completedWorks.filter fun w => w.prover ≠ receiver) Work.prover key := by
    intro key
    rw [feesTo_filter_ne]
    by_cases producer : key = receiver
    · subst producer
      rw [noneToProducer]
      exact Nat.zero_le _
    · rw [if_neg (Ne.symm producer), if_neg producer, zero_add]
      exact covered key
  obtain ⟨tokens, sorted, paired, received, summed⟩ := createFeeTransfers_spec coveredShare made
  have toProducer : feesTo SingleFeeTransfer.fee (singlesOf data.feeTransfers)
      SingleFeeTransfer.receiverPk receiver = delta.toNat := by
    rw [received receiver, if_pos rfl, feesTo_filter_ne, if_pos rfl, noneToProducer]
    rfl
  -- the producer's share is part of the total, so the coinbase fee transfers cost the
  -- works of others no more than they are owed
  have coinbaseLe : feesOf (coinbaseFeeTransfers coinbases) CoinbaseFeeTransfer.fee ≤
      feesOf (completedWorks.filter fun w => w.prover ≠ receiver) Work.fee := by
    have part := feesTo_le_feesOf SingleFeeTransfer.fee (singlesOf data.feeTransfers)
      SingleFeeTransfer.receiverPk receiver
    rw [toProducer] at part
    omega
  refine ⟨fun single mem => (tokens single mem).1, fun single mem => (tokens single mem).2, sorted,
    paired, ?_, toProducer.trans deltaIs, fun key other => ?_⟩
  · omega
  · rw [received key, if_neg (Ne.symm other), zero_add, feesTo_filter_ne, if_neg other]

theorem getTransactionData_insufficientFee_iff
    (created : createCoinbase constraintConstants coinbaseParts receiver coinbaseAmount = .ok coinbases)
    (workFits : feesOf (completedWorks.filter fun w => w.prover ≠ receiver) Work.fee < 2 ^ 64) :
    (∃ fees, (getTransactionData commandFee constraintConstants coinbaseParts receiver coinbaseAmount
        commands completedWorks).run = some (.error (.insufficientFee fees))) ↔
      feesOf commands commandFee <
        feesOf (completedWorks.filter fun w => w.prover ≠ receiver) Work.fee -
          feesOf (coinbaseFeeTransfers coinbases) CoinbaseFeeTransfer.fee := by
  have insufficient : (∃ fees, feeRemainder commandFee commands
      (completedWorks.filter fun w => w.prover ≠ receiver)
      (UInt64.ofNat (feesOf (coinbaseFeeTransfers coinbases) CoinbaseFeeTransfer.fee)) =
        .error (.insufficientFee fees)) ↔
      feesOf commands commandFee < feesOf (completedWorks.filter fun w => w.prover ≠ receiver) Work.fee -
        (UInt64.ofNat (feesOf (coinbaseFeeTransfers coinbases) CoinbaseFeeTransfer.fee)).toNat :=
    feeRemainder_insufficientFee_iff commandFee workFits
  rw [UInt64.toNat_ofNat_of_lt' (createCoinbase_fits created)] at insufficient
  rw [getTransactionData_of_createCoinbase commandFee created, ← insufficient]
  cases remainder : feeRemainder commandFee commands (completedWorks.filter fun w => w.prover ≠ receiver)
      (UInt64.ofNat (feesOf (coinbaseFeeTransfers coinbases) CoinbaseFeeTransfer.fee)) with
  | error e => simp [ExceptT.run_bind]
  | ok delta =>
    simp only [ExceptT.run_bind, run_ofExcept, Option.bind_eq_bind, Option.bind_some]
    cases made : createFeeTransfers (completedWorks.filter fun w => w.prover ≠ receiver) delta receiver
        (coinbaseFeeTransfers coinbases) with
    | error e =>
      obtain ⟨message, rfl⟩ := createFeeTransfers_error made
      simp
    | ok transfers => simp

theorem get_transaction_data_fee_transfers (constraintConstants : ConstraintConstants)
    (coinbaseParts : CoinbaseParts) (receiver : CompressedPubKey) (coinbaseAmount : UInt64)
    (commands : List Cmd) (completedWorks : List Work) (coinbases : List Coinbase)
    (created : createCoinbase constraintConstants coinbaseParts receiver coinbaseAmount = .ok coinbases)
    (covered : ∀ prover, feesTo CoinbaseFeeTransfer.fee (coinbaseFeeTransfers coinbases)
      CoinbaseFeeTransfer.receiverPk prover ≤ feesTo Work.fee completedWorks Work.prover prover) :
    (∀ data, (getTransactionData commandFee constraintConstants coinbaseParts receiver coinbaseAmount
        commands completedWorks).run = some (.ok data) →
      FeeTransfersPay data.feeTransfers receiver (feesOf commands commandFee)
        (feesOf commands commandFee - (feesOf (completedWorks.filter fun w => w.prover ≠ receiver) Work.fee -
          feesOf (coinbaseFeeTransfers coinbases) CoinbaseFeeTransfer.fee))
        fun prover => feesTo Work.fee completedWorks Work.prover prover -
          feesTo CoinbaseFeeTransfer.fee (coinbaseFeeTransfers coinbases) CoinbaseFeeTransfer.receiverPk prover) ∧
    (feesOf (completedWorks.filter fun w => w.prover ≠ receiver) Work.fee < 2 ^ 64 →
      ((∃ fees, (getTransactionData commandFee constraintConstants coinbaseParts receiver coinbaseAmount
          commands completedWorks).run = some (.error (.insufficientFee fees))) ↔
        feesOf commands commandFee <
          feesOf (completedWorks.filter fun w => w.prover ≠ receiver) Work.fee -
            feesOf (coinbaseFeeTransfers coinbases) CoinbaseFeeTransfer.fee)) :=
  ⟨fun _ ran => getTransactionData_pays commandFee created covered ran,
    fun workFits => getTransactionData_insufficientFee_iff commandFee created workFits⟩

end Commands

def producerPk : CompressedPubKey :=
  ⟨0, false⟩

def proverPk : CompressedPubKey :=
  ⟨1, false⟩

def proverCoinbase : List Coinbase :=
  [⟨producerPk, 10, some ⟨proverPk, 3⟩⟩]

def proverWorks : List Work :=
  [⟨5, proverPk⟩]

theorem get_transaction_data_fee_transfers_prover :
    createCoinbase ⟨1000000000⟩ (.one (some ⟨proverPk, 3⟩)) producerPk 10 = .ok proverCoinbase ∧
    (∀ prover, feesTo CoinbaseFeeTransfer.fee (coinbaseFeeTransfers proverCoinbase)
      CoinbaseFeeTransfer.receiverPk prover ≤ feesTo Work.fee proverWorks Work.prover prover) ∧
    (∀ data, (getTransactionData id ⟨1000000000⟩ (.one (some ⟨proverPk, 3⟩)) producerPk 10 [4]
        proverWorks).run = some (.ok data) →
      FeeTransfersPay data.feeTransfers producerPk (feesOf [4] id)
        (feesOf [4] id - (feesOf (proverWorks.filter fun w => w.prover ≠ producerPk) Work.fee -
          feesOf (coinbaseFeeTransfers proverCoinbase) CoinbaseFeeTransfer.fee))
        fun prover => feesTo Work.fee proverWorks Work.prover prover -
          feesTo CoinbaseFeeTransfer.fee (coinbaseFeeTransfers proverCoinbase) CoinbaseFeeTransfer.receiverPk
            prover) ∧
    (feesOf (proverWorks.filter fun w => w.prover ≠ producerPk) Work.fee < 2 ^ 64 →
      ((∃ fees, (getTransactionData id ⟨1000000000⟩ (.one (some ⟨proverPk, 3⟩)) producerPk 10 [4]
          proverWorks).run = some (.error (.insufficientFee fees))) ↔
        feesOf [4] id < feesOf (proverWorks.filter fun w => w.prover ≠ producerPk) Work.fee -
          feesOf (coinbaseFeeTransfers proverCoinbase) CoinbaseFeeTransfer.fee)) := by
  have created : createCoinbase ⟨1000000000⟩ (.one (some ⟨proverPk, 3⟩)) producerPk 10 =
      .ok proverCoinbase := by
    decide
  have covered : ∀ prover, feesTo CoinbaseFeeTransfer.fee (coinbaseFeeTransfers proverCoinbase)
      CoinbaseFeeTransfer.receiverPk prover ≤ feesTo Work.fee proverWorks Work.prover prover := by
    intro prover
    by_cases same : proverPk = prover
    · subst same
      decide
    · simp [proverCoinbase, proverWorks, coinbaseFeeTransfers, same]
  exact ⟨created, covered,
    get_transaction_data_fee_transfers id ⟨1000000000⟩ _ producerPk 10 [4] proverWorks _ created covered⟩

def overflowingWorks : List Work :=
  [⟨2 ^ 63, proverPk⟩, ⟨2 ^ 63, proverPk⟩]

/-- Without a coinbase and without commands, the prover's work fees exceed the command
fees, yet `get_transaction_data` fails with `Unexpected("Fee overflow")` and not with
`InsufficientFee`: the work fees leave 64 bits before `fee_remainder` compares. -/
theorem get_transaction_data_work_fee_overflow :
    createCoinbase ⟨1000000000⟩ .zero producerPk 0 = .ok [] ∧
    feesOf ([] : List UInt64) id <
      feesOf (overflowingWorks.filter fun w => w.prover ≠ producerPk) Work.fee -
        feesOf (coinbaseFeeTransfers []) CoinbaseFeeTransfer.fee ∧
    (getTransactionData id ⟨1000000000⟩ .zero producerPk 0 [] overflowingWorks).run =
      some (.error (.unexpected "Fee overflow")) :=
  ⟨rfl, by decide +kernel, by decide +kernel⟩

end Openmina.StagedLedger
