import Mathlib
import Openmina.Ledger.MaskCommit
import Openmina.TransactionLogic.Account

/-!
# Child accounts in the snarked-ledger sync

The effect of `TransitionFrontierSyncLedgerSnarkedAction::ChildAccountsReceived`
(`node/src/transition_frontier/sync/ledger/snarked/..._effects.rs`) and the service call
it makes, `LedgerCtx::accounts_set` (`node/src/ledger/ledger_service.rs`). The sync
ledger is `Mask::create(LEDGER_DEPTH)`, a root mask: the chain at level `0` with no
attached mask. `accounts_set` converts the received accounts, writes them under the
address with `set_all_accounts_rooted_at`, and only then reads the hash at the address;
the effect unwraps its result. A `BigInt` on the wire is any 256-bit value, and
`Fp::try_from` refuses one that is not below the modulus.
-/

namespace Openmina.Sync

open Openmina.Ledger
open Openmina.Numbers.Checked (Fp fpModulus)
open Openmina.TransactionLogic (Account AccountId Permissions)
open Openmina.Ledger.MinBalance (Timing)
open Openmina.ScanState.FeeExcessCombine (TokenId)

set_option autoImplicit false

/-- A `BigInteger256` as `BigInt::binprot_read` reads it. -/
structure BigInt where
  value : ℕ
  lt : value < 2 ^ 256
  deriving DecidableEq

inductive InvalidBigInt
  | invalidBigInt
  deriving DecidableEq

def BigInt.toField (n : BigInt) : Except InvalidBigInt Fp :=
  if n.value < fpModulus then .ok n.value else .error .invalidBigInt

/-- The fields of `MinaBaseAccountBinableArgStableV2` that the conversion reads for the
modelled account, with timing and permissions already in their (infallible) converted
form. -/
structure WireAccount where
  publicKey : BigInt × Bool
  tokenId : BigInt
  balance : UInt64
  nonce : UInt32
  receiptChainHash : BigInt
  delegate : Option (BigInt × Bool)
  votingFor : BigInt
  timing : Timing
  permissions : Permissions

/-- `TryFrom<&MinaBaseAccountBinableArgStableV2> for Account`; `voting_for` is converted
and then not kept by the modelled account. -/
def WireAccount.toAccount (acc : WireAccount) : Except InvalidBigInt Account := do
  let x ← acc.publicKey.1.toField
  let tokenId ← acc.tokenId.toField
  let receiptChainHash ← acc.receiptChainHash.toField
  let delegate ← match acc.delegate with
    | some (x, isOdd) => do
      let x ← x.toField
      pure (some ⟨x, isOdd⟩)
    | none => pure none
  let _ ← acc.votingFor.toField
  pure
    { publicKey := ⟨x, acc.publicKey.2⟩
      tokenId := ⟨tokenId⟩
      balance := acc.balance
      nonce := acc.nonce
      receiptChainHash
      delegate
      timing := acc.timing
      permissions := acc.permissions }

def iterChildren (addr : Address) (length : ℕ) : List Address :=
  (List.range (2 ^ (length - addr.length))).map fun i =>
    Address.fromIndex (addr.index * 2 ^ (length - addr.length) + i) length

variable {AccountId : Type} [DecidableEq AccountId] (V : TreeVersion Account AccountId)

/-- `MaskImpl::set_all_accounts_rooted_at`: the accounts go to the children in order, as
far as the shorter of the two lists goes. -/
def setAllAccountsRootedAt (level : ℕ) (addr : Address) (accounts : List Account)
    (chain : MaskChain Account AccountId) : Option (Except Unit (MaskChain Account AccountId)) :=
  if chain.depth < addr.length then some (.error ())
  else
    (((iterChildren addr chain.depth).zip accounts).foldlM
      (fun (chain : MaskChain Account AccountId) (childAddr, account) =>
        chain.set V level childAddr account) chain).map .ok

/-- `MaskImpl::get_inner_hash_at_addr`. -/
def getInnerHashAtAddr (level : ℕ) (addr : Address) (chain : MaskChain Account AccountId) :
    Option (Except String (Fp × MaskChain Account AccountId)) :=
  if chain.depth < addr.length then some (.error "Inner hash not found at address")
  else (chain.emulateTreeToGetHashAt V level addr).map .ok

/-- `LedgerCtx::accounts_set` on the sync ledger. -/
def accountsSet (ledger : MaskChain Account AccountId) (parent : Address)
    (accounts : List WireAccount) : Option (Except String (Fp × MaskChain Account AccountId)) :=
  match accounts.mapM WireAccount.toAccount with
  | .error _ => some (.error "InvalidBigInt")
  | .ok accounts => do
    match ← setAllAccountsRootedAt V 0 parent accounts ledger with
    | .error () => pure (.error "Failed when setting accounts")
    | .ok ledger => getInnerHashAtAddr V 0 parent ledger

inductive ChildAccountsResult
  | accepted (count : ℕ)
  | rejected
  deriving DecidableEq

/-- The effect of `ChildAccountsReceived` for an address whose pending entry expects
`parentHash`: `accounts_set(..).unwrap()`, the comparison, and for an accepted response
`compute_snarked_ledger_hashes`, which forces the merkle root. -/
def childAccountsReceived (ledger : MaskChain Account AccountId) (address : Address)
    (parentHash : Fp) (accounts : List WireAccount) :
    Option (ChildAccountsResult × MaskChain Account AccountId) := do
  let .ok (computedHash, ledger) ← accountsSet V ledger address accounts | none
  if computedHash ≠ parentHash then pure (.rejected, ledger)
  else do
    let (_, ledger) ← ledger.merkleRoot V 0
    pure (.accepted accounts.length, ledger)

/-! ## What the effect does with a response -/

theorem mapM_toAccount_error {accounts : List WireAccount} {acc : WireAccount} (mem : acc ∈ accounts)
    {error : InvalidBigInt} (fails : acc.toAccount = .error error) :
    ∃ error', accounts.mapM WireAccount.toAccount = .error error' := by
  induction accounts with
  | nil => cases mem
  | cons head rest ih =>
    rw [List.mapM_cons]
    rcases List.mem_cons.mp mem with rfl | later
    · exact ⟨error, by rw [fails]; rfl⟩
    · cases converted : head.toAccount with
      | error error' => exact ⟨error', rfl⟩
      | ok _ =>
        obtain ⟨error', restFails⟩ := ih later
        exact ⟨error', by rw [restFails]; rfl⟩

theorem childAccountsReceived_of_invalid (ledger : MaskChain Account AccountId) (address : Address)
    (parentHash : Fp) {accounts : List WireAccount} {acc : WireAccount} (mem : acc ∈ accounts)
    {error : InvalidBigInt} (fails : acc.toAccount = .error error) :
    childAccountsReceived V ledger address parentHash accounts = none := by
  obtain ⟨error', failed⟩ := mapM_toAccount_error mem fails
  simp [childAccountsReceived, accountsSet, failed]

theorem set_root (db : DatabaseImpl Account AccountId) (addr : Address) (account : Account) :
    (⟨db, []⟩ : MaskChain Account AccountId).set V 0 addr account = some ⟨db.set V addr account, []⟩ :=
  rfl

theorem foldlM_set_root (pairs : List (Address × Account)) :
    ∀ db : DatabaseImpl Account AccountId,
      pairs.foldlM (fun (chain : MaskChain Account AccountId) (childAddr, account) =>
          chain.set V 0 childAddr account) ⟨db, []⟩ =
        some ⟨pairs.foldl (fun db (childAddr, account) => db.set V childAddr account) db, []⟩ := by
  induction pairs with
  | nil => intro db; rfl
  | cons pair rest ih =>
    obtain ⟨childAddr, account⟩ := pair
    intro db
    rw [List.foldlM_cons]
    dsimp only
    rw [set_root]
    exact ih _

theorem depth_foldl_set (pairs : List (Address × Account)) :
    ∀ db : DatabaseImpl Account AccountId,
      (pairs.foldl (fun db pair => db.set V pair.1 pair.2) db).depth = db.depth := by
  induction pairs with
  | nil => intro db; rfl
  | cons pair rest ih => intro db; exact ih _

/-- A response whose accounts all convert is written under the address before its hash
is compared: the verdict only decides whether the merkle root is then computed. -/
theorem childAccountsReceived_of_converted (db : DatabaseImpl Account AccountId) {address : Address}
    (fits : address.length ≤ db.depth) (parentHash : Fp) {wire : List WireAccount}
    {accounts : List Account} (converted : wire.mapM WireAccount.toAccount = .ok accounts) :
    childAccountsReceived V ⟨db, []⟩ address parentHash wire =
      let written : MaskChain Account AccountId :=
        ⟨((iterChildren address db.depth).zip accounts).foldl
          (fun db (childAddr, account) => db.set V childAddr account) db, []⟩
      (written.emulateTreeToGetHashAt V 0 address).bind fun (computedHash, hashed) =>
        if computedHash ≠ parentHash then some (.rejected, hashed)
        else (hashed.merkleRoot V 0).bind fun (_, rooted) => some (.accepted wire.length, rooted) := by
  have deep : ¬ db.depth < address.length := Nat.not_lt.mpr fits
  simp only [childAccountsReceived, accountsSet, converted, setAllAccountsRootedAt,
    MaskChain.depth, deep, if_false, foldlM_set_root, getInnerHashAtAddr, Option.map_some,
    Option.bind_eq_bind, Option.bind_some, Option.pure_def, depth_foldl_set]
  cases (MaskChain.emulateTreeToGetHashAt V 0 address _) with
  | none => rfl
  | some computed => simp only [Option.map_some, Option.bind_some]

theorem iterChildren_zip_singleton (addr : Address) (length : ℕ) (account : Account) :
    (iterChildren addr length).zip [account] =
      [(Address.fromIndex (addr.index * 2 ^ (length - addr.length)) length, account)] := by
  obtain ⟨count, children⟩ : ∃ count, 2 ^ (length - addr.length) = count + 1 :=
    Nat.exists_eq_add_one.mpr (Nat.two_pow_pos _)
  rw [iterChildren, children, List.range_succ_eq_map]
  simp

/-! ## A rejected response is kept -/

/-- An account whose field elements are all canonical. -/
def canonicalWireAccount : WireAccount :=
  { publicKey := (⟨0, by decide⟩, false)
    tokenId := ⟨1, by decide⟩
    balance := 0
    nonce := 0
    receiptChainHash := ⟨0, by decide⟩
    delegate := none
    votingFor := ⟨0, by decide⟩
    timing := .untimed
    permissions := Permissions.userDefault }

def nonCanonicalWireAccount : WireAccount :=
  { canonicalWireAccount with receiptChainHash := ⟨fpModulus, by decide⟩ }

def emptySyncLedger (depth : ℕ) : MaskChain Account AccountId :=
  ⟨DatabaseImpl.create depth, []⟩

theorem child_accounts_rejected_keeps_accounts (depth : ℕ) :
    (∀ parentHash, childAccountsReceived V (emptySyncLedger depth) Address.root parentHash
      [nonCanonicalWireAccount] = none) ∧
    ∃ parentHash account ledger, canonicalWireAccount.toAccount = .ok account ∧
      childAccountsReceived V (emptySyncLedger depth) Address.root parentHash
        [canonicalWireAccount] = some (.rejected, ledger) ∧
      ledger.get 0 (Address.first depth) = some account ∧
      (emptySyncLedger depth : MaskChain Account AccountId).get 0 (Address.first depth) = none := by
  constructor
  · intro parentHash
    exact childAccountsReceived_of_invalid V _ _ parentHash (List.mem_singleton_self _)
      (show nonCanonicalWireAccount.toAccount = .error .invalidBigInt from rfl)
  · obtain ⟨account, converted⟩ : ∃ account, canonicalWireAccount.toAccount = .ok account :=
      ⟨_, rfl⟩
    have mapped : [canonicalWireAccount].mapM WireAccount.toAccount = .ok [account] := by
      rw [List.mapM_cons, converted]
      rfl
    have fits : Address.root.length ≤ (DatabaseImpl.create depth : DatabaseImpl Account AccountId).depth :=
      Nat.zero_le _
    have createDepth : (DatabaseImpl.create depth : DatabaseImpl Account AccountId).depth = depth :=
      rfl
    have firstChild :
        Address.fromIndex (Address.root.index * 2 ^ (depth - Address.root.length)) depth =
          Address.first depth := by
      apply Address.ext_index <;> simp [Address.fromIndex, Address.root, Address.first]
    -- the database after the write computes its root: its memo is as long as its depth,
    -- and a tree of depth `0` is the account's leaf
    set written : MaskChain Account AccountId :=
      ⟨(DatabaseImpl.create depth).set V (Address.first depth) account, []⟩
    obtain ⟨computed, computedIs⟩ : ∃ computed, written.emulateTreeToGetHashAt V 0 Address.root = some computed := by
      rcases Nat.eq_zero_or_pos depth with rfl | deep
      · exact ⟨_, rfl⟩
      · exact MaskChain.emulateTreeToGetHashAt_isSome V Address.root deep
          ⟨by simp [written, MaskChain.depth, DatabaseImpl.create, HashesMatrix.new, DatabaseImpl.set],
            fun _ lt => absurd lt (Nat.not_lt_zero _)⟩
    have received := childAccountsReceived_of_converted V (DatabaseImpl.create depth) fits
      (computed.1 + 1) mapped
    simp only [iterChildren_zip_singleton, createDepth, firstChild, List.foldl_cons, List.foldl_nil] at received
    -- every expected hash but the one computed after the write rejects the response
    have differs : computed.1 ≠ computed.1 + 1 := fun same => one_ne_zero (left_eq_add.mp same)
    refine ⟨computed.1 + 1, account, computed.2, converted, ?_, ?_, rfl⟩
    · rw [emptySyncLedger, received, computedIs, Option.bind_some, if_pos differs]
    · rw [(MaskChain.emulateTreeToGetHashAt_fillsUpTo V computedIs).get_eq]
      change ((DatabaseImpl.create depth).set V (Address.first depth) account).get _ = _
      rw [DatabaseImpl.get_set, if_pos rfl]

end Openmina.Sync
