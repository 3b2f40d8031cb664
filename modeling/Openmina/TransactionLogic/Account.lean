import Mathlib
import Openmina.Ledger.MinBalance
import Openmina.ScanState.FeeExcessCombine

/-!
# Accounts and the ledger interface of the transaction logic

The parts of `ledger/src/account/account.rs` that signed commands, fee transfers
and coinbases read or write, the `u64` and `u32` arithmetic of
`scan_state/currency.rs` they use, and the operations of `LedgerIntf`
(`ledger/src/base.rs`) over which the transaction logic is generic. A panic is
`none`: `check_permission` on the legacy `Both` is `unimplemented!`.
-/

namespace Openmina.TransactionLogic

open Openmina.Numbers.Checked
open Openmina.ScanState.FeeExcessCombine (TokenId)
open Openmina.Ledger.MinBalance (Timing)

set_option autoImplicit false

instance : DecidableEq Openmina.Ledger.MinBalance.Vesting := fun a b =>
  decidable_of_iff
    (a.initialMinimumBalance = b.initialMinimumBalance ∧ a.cliffTime = b.cliffTime ∧
      a.cliffAmount = b.cliffAmount ∧ a.vestingPeriod = b.vestingPeriod ∧
      a.vestingIncrement = b.vestingIncrement)
    (by cases a; cases b; simp)
deriving instance DecidableEq for Openmina.Ledger.MinBalance.Timing

structure CompressedPubKey where
  x : Fp
  isOdd : Bool
  deriving DecidableEq

structure AccountId where
  publicKey : CompressedPubKey
  tokenId : TokenId
  deriving DecidableEq

/-! ## Machine arithmetic -/

def checkedAdd (x y : UInt64) : Option UInt64 :=
  if x.toNat + y.toNat < 2 ^ 64 then some (x + y) else none

def checkedSub (x y : UInt64) : Option UInt64 :=
  if y ≤ x then some (x - y) else none

def checkedMul (x y : UInt64) : Option UInt64 :=
  if x.toNat * y.toNat < 2 ^ 64 then some (x * y) else none

def Balance.subAmount (balance amount : UInt64) : Option UInt64 :=
  checkedSub balance amount

def Balance.addAmount (balance amount : UInt64) : Option UInt64 :=
  checkedAdd balance amount

/-- `Nonce::incr`: `wrapping_add(1)` on the `u32`. -/
def Nonce.incr (nonce : UInt32) : UInt32 :=
  nonce + 1

theorem checkedAdd_toNat {x y z : UInt64} (added : checkedAdd x y = some z) :
    z.toNat = x.toNat + y.toNat := by
  unfold checkedAdd at added
  split_ifs at added with fits
  cases added
  rw [UInt64.toNat_add, Nat.mod_eq_of_lt fits]

theorem checkedSub_toNat {x y z : UInt64} (subtracted : checkedSub x y = some z) :
    y.toNat ≤ x.toNat ∧ z.toNat = x.toNat - y.toNat := by
  unfold checkedSub at subtracted
  split_ifs at subtracted with order
  cases subtracted
  exact ⟨UInt64.le_iff_toNat_le.mp order, UInt64.toNat_sub_of_le _ _ order⟩

theorem checkedMul_toNat {x y z : UInt64} (multiplied : checkedMul x y = some z) :
    z.toNat = x.toNat * y.toNat := by
  unfold checkedMul at multiplied
  split_ifs at multiplied with fits
  cases multiplied
  rw [UInt64.toNat_mul, Nat.mod_eq_of_lt fits]

/-! ## Permissions -/

inductive AuthRequired
  | none
  | either
  | proof
  | signature
  | impossible
  | both
  deriving DecidableEq

inductive ControlTag
  | proof
  | signature
  | noneGiven
  deriving DecidableEq

inductive PermissionTo
  | access
  | send
  | receive
  | setDelegate
  | incrementNonce
  deriving DecidableEq

/-- The fields of `Permissions<AuthRequired>` that the modelled commands check. -/
structure Permissions where
  access : AuthRequired
  send : AuthRequired
  receive : AuthRequired
  setDelegate : AuthRequired
  incrementNonce : AuthRequired
  deriving DecidableEq

def Permissions.userDefault : Permissions :=
  { access := .none
    send := .signature
    receive := .none
    setDelegate := .signature
    incrementNonce := .signature }

def checkPermission : AuthRequired → ControlTag → Option Bool
  | .impossible, _ => some false
  | .none, _ => some true
  | .proof, .proof => some true
  | .signature, .signature => some true
  -- the signatures and proofs have already been checked by this point
  | .either, .proof | .either, .signature => some true
  | .signature, .proof => some false
  | .proof, .signature => some false
  | .proof, .noneGiven | .signature, .noneGiven | .either, .noneGiven => some false
  | .both, _ => none

/-! ## Accounts -/

/-- The fields of `Account` that the modelled commands read or write. -/
structure Account where
  publicKey : CompressedPubKey
  tokenId : TokenId
  balance : UInt64
  nonce : UInt32
  receiptChainHash : Fp
  delegate : Option CompressedPubKey
  timing : Timing
  permissions : Permissions
  deriving DecidableEq

/-- `ReceiptChainHash::empty`: the hex string of `empty_legacy` read as the
little-endian bytes of a field element. -/
def receiptChainHashEmpty : Fp :=
  0x0ab197ce2129a8a3698bf40d0a3f94db030e34668fb8a787597a4945063c140b

namespace Account

def id (account : Account) : AccountId :=
  ⟨account.publicKey, account.tokenId⟩

def createWith (accountId : AccountId) (balance : UInt64) : Account :=
  { publicKey := accountId.publicKey
    tokenId := accountId.tokenId
    balance
    nonce := 0
    receiptChainHash := receiptChainHashEmpty
    -- only accounts of the default token may delegate
    delegate := if accountId.tokenId = TokenId.default then some accountId.publicKey else none
    timing := .untimed
    permissions := Permissions.userDefault }

def initial (accountId : AccountId) : Account :=
  createWith accountId 0

def hasPermissionTo (account : Account) (control : ControlTag) : PermissionTo → Option Bool
  | .access => checkPermission account.permissions.access control
  | .send => checkPermission account.permissions.send control
  | .receive => checkPermission account.permissions.receive control
  | .setDelegate => checkPermission account.permissions.setDelegate control
  | .incrementNonce => checkPermission account.permissions.incrementNonce control

/-- The shape shared by the `has_permission_to_*` checks: access, then the
permission itself, with the `&&` short-circuit. -/
def hasAccessAndPermissionTo (account : Account) (control : ControlTag) (permission : PermissionTo) :
    Option Bool := do
  if ← account.hasPermissionTo control .access then account.hasPermissionTo control permission
  else pure false

def hasPermissionToSend (account : Account) : Option Bool :=
  account.hasAccessAndPermissionTo .signature .send

def hasPermissionToReceive (account : Account) : Option Bool :=
  account.hasAccessAndPermissionTo .noneGiven .receive

def hasPermissionToSetDelegate (account : Account) : Option Bool :=
  account.hasAccessAndPermissionTo .signature .setDelegate

def hasPermissionToIncrementNonce (account : Account) : Option Bool :=
  account.hasAccessAndPermissionTo .signature .incrementNonce

def toMinBalance (account : Account) : Openmina.Ledger.MinBalance.Account :=
  ⟨account.balance.toNat, account.timing, account.balance.toNat_lt⟩

/-- `Account::liquid_balance_at_slot`: the balance above what the timing still locks;
the `sub_amount(..).unwrap()` panics when the lock exceeds the balance. -/
def liquidBalanceAtSlot (account : Account) (globalSlot : ℕ) : Option UInt64 :=
  match account.timing with
  | .untimed => some account.balance
  | .timed _ => do
    let minBalance ← Openmina.Ledger.MinBalance.minBalanceAtSlot account.timing globalSlot
    Balance.subAmount account.balance (UInt64.ofNat minBalance)

@[simp] theorem id_createWith (accountId : AccountId) (balance : UInt64) :
    (createWith accountId balance).id = accountId :=
  rfl

@[simp] theorem createWith_balance (accountId : AccountId) (balance : UInt64) :
    (createWith accountId balance).balance = balance :=
  rfl

theorem initial_receives (accountId : AccountId) (control : ControlTag) :
    (initial accountId).hasPermissionTo control .receive = some true ∧
      (initial accountId).hasAccessAndPermissionTo control .receive = some true := by
  cases control <;> exact ⟨rfl, rfl⟩

end Account

/-! ## The ledger interface -/

inductive AccountState
  | added
  | existed
  deriving DecidableEq

inductive ExistingOrNew (Loc : Type)
  | existing (location : Loc)
  | new
  deriving DecidableEq

/-- The operations of `LedgerIntf` that the modelled commands call; `&mut self`
methods return the ledger after the call. -/
structure LedgerIntf (L Loc : Type) where
  get : L → Loc → Option Account
  locationOfAccount : L → AccountId → Option Loc
  set : L → Loc → Account → L
  getOrCreate : L → AccountId → Except String (AccountState × Account × Loc × L)
  createNewAccount : L → AccountId → Account → Except Unit L
  merkleRoot : L → Fp × L

end Openmina.TransactionLogic
