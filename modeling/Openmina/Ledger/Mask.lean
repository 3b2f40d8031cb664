import Mathlib
import Openmina.Ledger.Database

/-!
# Masks

`MaskImpl` of `ledger/src/mask/mask_impl.rs`. A root mask wraps the database; an
attached mask owns the accounts written through it and caches the inner hashes
of its own view, reading everything else from its parent. The model is a chain:
the root mask (level `0`) and the attached masks `masks[0]`, `masks[1]`, ... at
levels `1`, `2`, ..., each the only child of the one before, all of the
database's depth. A node's height is that depth minus the length of its address.
The `HashMap`s of a mask are association lists. Token owners and uuids are read
by no modelled function. Panics are `none`.
-/

namespace Openmina.Ledger

open Openmina.Numbers.Checked

set_option autoImplicit false

/-- The fields of `MaskImpl::Attached` other than its parent and children. -/
structure MaskState (Account AccountId : Type) where
  owningAccount : AList (fun _ : ℕ => Account)
  idToAddr : AList (fun _ : AccountId => Address)
  lastLocation : Option Address
  depth : ℕ
  hashes : HashesMatrix

structure MaskChain (Account AccountId : Type) where
  database : DatabaseImpl Account AccountId
  masks : List (MaskState Account AccountId)

namespace MaskState

variable {Account AccountId : Type} [DecidableEq AccountId] (V : TreeVersion Account AccountId)

/-- `empty_hash_at_height` of a mask, from the memo of its cache. -/
def emptyHashAtHeight (height : ℕ) (mask : MaskState Account AccountId) :
    Option (Fp × MaskState Account AccountId) :=
  (mask.hashes.emptyHashAtHeight V.emptyHashAtHeight height).map fun (hash, hashes) =>
    (hash, { mask with hashes })

def ownsUnder (mask : MaskState Account AccountId) (addr : Address) : Bool :=
  mask.idToAddr.entries.any fun entry => addr.isParentOf entry.2

/-- One iteration of the removal loop of `remove_own_account`. -/
def removeOwnAt (mask : MaskState Account AccountId) (addr : Address) :
    Option (MaskState Account AccountId) := do
  let hashes := mask.hashes.invalidateHashes addr.toIndex
  -- `owning_account.remove(..).unwrap()`
  let _ ← mask.owningAccount.lookup addr.toIndex
  pure { mask with
    hashes
    owningAccount := mask.owningAccount.erase addr.toIndex
    lastLocation := if mask.lastLocation = some addr then addr.prev else mask.lastLocation }

def removeOwnAccount (mask : MaskState Account AccountId) (ids : List AccountId) :
    Option (MaskState Account AccountId) := do
  let (addrs, idToAddr) ← ids.foldlM (fun (addrs, idToAddr) accountId =>
    match idToAddr.lookup accountId with
    | some addr => some (addrs ++ [addr], idToAddr.erase accountId)
    | none => none) (([] : List Address), mask.idToAddr)
  let sorted := addrs.mergeSort fun addr other => decide (addr.toIndex ≤ other.toIndex)
  let mask ← sorted.reverse.foldlM removeOwnAt { mask with idToAddr }
  pure (if mask.owningAccount.entries = [] then { mask with lastLocation := none } else mask)

/-- `parent_set_notify` on one mask: drop the hashes above the account, and the own
copy of the account if it equals the parent's new one. -/
def parentSetNotify [DecidableEq Account] (mask : MaskState Account AccountId)
    (accountIndex : ℕ) (account : Account) : Option (MaskState Account AccountId) :=
  let accountId := V.id account
  let mask := { mask with hashes := mask.hashes.invalidateHashes accountIndex }
  match (mask.idToAddr.lookup accountId).bind fun addr => mask.owningAccount.lookup addr.toIndex with
  | none => some mask
  | some ownAccount =>
    -- do not delete our account if it is different than the parent one
    if ownAccount ≠ account then some mask
    else mask.removeOwnAccount [accountId]

end MaskState

namespace MaskChain

variable {Account AccountId : Type} [DecidableEq AccountId] (V : TreeVersion Account AccountId)

section Reads

variable (chain : MaskChain Account AccountId)

def depth : ℕ :=
  chain.database.depth

/-- `get` at a level: the own account, else the parent's. -/
def get : ℕ → Address → Option Account
  | 0, addr => chain.database.get addr
  | level + 1, addr =>
    match chain.masks[level]? with
    | none => none
    | some mask => (mask.owningAccount.lookup addr.toIndex).or (get level addr)

/-- `last_filled` at a level: the later of the own and the parent's. -/
def lastFilled : ℕ → Option Address
  | 0 => chain.database.lastFilled
  | level + 1 =>
    match chain.masks[level]? with
    | none => none
    | some mask =>
      match lastFilled level with
      | none => mask.lastLocation
      | some lastFilledParent =>
        match mask.lastLocation with
        | none => some lastFilledParent
        | some last => if last.toIndex > lastFilledParent.toIndex then some last else some lastFilledParent

def locationOfAccount : ℕ → AccountId → Option Address
  | 0, accountId => chain.database.idToAddr accountId
  | level + 1, accountId =>
    match chain.masks[level]? with
    | none => none
    | some mask => (mask.idToAddr.lookup accountId).or (locationOfAccount level accountId)

def getCachedHash : ℕ → Address → Option Fp
  | 0, addr => chain.database.hashesMatrix.get addr
  | level + 1, addr => chain.masks[level]?.bind fun mask => mask.hashes.get addr

def view (level : ℕ) (index : ℕ) : Option Account :=
  chain.get level (Address.fromIndex index chain.depth)

end Reads

def modifyMask (chain : MaskChain Account AccountId) (level : ℕ)
    (f : MaskState Account AccountId → MaskState Account AccountId) : MaskChain Account AccountId :=
  { chain with masks := chain.masks.modify level f }

/-- `set_cached_hash` at a level, where nothing is cached (every caller checks). -/
def setCachedHash (chain : MaskChain Account AccountId) : ℕ → Address → Fp → MaskChain Account AccountId
  | 0, addr, hash =>
    { chain with database := { chain.database with
        hashesMatrix := chain.database.hashesMatrix.insertAt addr.toLinearIndex hash } }
  | level + 1, addr, hash =>
    chain.modifyMask level fun mask =>
      { mask with hashes := mask.hashes.insertAt addr.toLinearIndex hash }

/-- `get_account_hash` at a level: an own account's hash is cached in the mask,
any other is asked of the parent. -/
def getAccountHash : ℕ → ℕ → MaskChain Account AccountId → Option Fp × MaskChain Account AccountId
  | 0, accountIndex, chain =>
    let (hash, database) := chain.database.getAccountHash V accountIndex
    (hash, { chain with database })
  | level + 1, accountIndex, chain =>
    match chain.masks[level]? with
    | none => (none, chain)
    | some mask =>
      match mask.owningAccount.lookup accountIndex with
      | some account =>
        let addr := Address.fromIndex accountIndex mask.depth
        match mask.hashes.get addr with
        | some hash => (some hash, chain)
        | none =>
          let hash := V.hashLeaf account
          (some hash, chain.setCachedHash (level + 1) addr hash)
      | none => getAccountHash level accountIndex chain

/-- `empty_hash_at_height` at a level: the root mask asks the database. -/
def emptyHashAtHeight (level height : ℕ) (chain : MaskChain Account AccountId) :
    Option (Fp × MaskChain Account AccountId) :=
  match level with
  | 0 => (chain.database.emptyHashAtHeight V height).map fun (hash, database) => (hash, { chain with database })
  | level + 1 => do
    let mask ← chain.masks[level]?
    let (hash, mask) ← mask.emptyHashAtHeight V height
    pure (hash, { chain with masks := chain.masks.set level mask })

/-! ## Root hash -/

section RootHash

variable (lastAccount : Address)

/-- The `get_child_hash` closure of `emulate_tree_recursive` of a mask at `level`:
the cached hash, else the subtree's (`compute`) if it is not past the last account,
else the empty hash. -/
def childHashAt (level height : ℕ)
    (compute : Address → MaskChain Account AccountId → Option (Fp × MaskChain Account AccountId))
    (child : Address) (chain : MaskChain Account AccountId) : Option (Fp × MaskChain Account AccountId) :=
  match chain.getCachedHash level child with
  | some hash => some (hash, chain)
  | none =>
    if child.isBefore lastAccount then compute child chain
    else chain.emptyHashAtHeight V level height

/-- The end of `emulate_tree_recursive` at a level: the cached hash of the node,
else `hash`, which is then cached. -/
def cacheHashAt (level : ℕ) (addr : Address) (hash : Fp) (chain : MaskChain Account AccountId) :
    Fp × MaskChain Account AccountId :=
  match chain.getCachedHash level addr with
  | some cached => (cached, chain)
  | none => (hash, chain.setCachedHash level addr hash)

/-- The inner node case of `emulate_tree_recursive` of a mask at `level`, for a
node of `height + 1`; `childHash` is `compute_hash_or_parent` one height lower. -/
def emulateNode (level height : ℕ)
    (childHash : Address → MaskChain Account AccountId → Option (Fp × MaskChain Account AccountId))
    (addr : Address) (chain : MaskChain Account AccountId) : Option (Fp × MaskChain Account AccountId) := do
  let (leftHash, chain) ← childHashAt V lastAccount level height childHash addr.childLeft chain
  let (rightHash, chain) ← childHashAt V lastAccount level height childHash addr.childRight chain
  pure (cacheHashAt level addr (V.hashNode height leftHash rightHash) chain)

/-- `compute_hash_or_parent` for one height: the root mask asks the database, a
mask with an own account under the node emulates it (`emulate`), any other asks
its parent. -/
def computeAtLevel
    (emulate : ℕ → Address → MaskChain Account AccountId → Option (Fp × MaskChain Account AccountId)) :
    ℕ → Address → MaskChain Account AccountId → Option (Fp × MaskChain Account AccountId)
  | 0, addr, chain =>
    (DatabaseImpl.emulateTreeRecursive V lastAccount (chain.database.depth - addr.length) addr
      chain.database).map fun (hash, database) => (hash, { chain with database })
  | level + 1, addr, chain =>
    match chain.getCachedHash (level + 1) addr with
    | some hash => some (hash, chain)
    | none =>
      if (chain.masks[level]?.map fun mask => mask.ownsUnder addr).getD false then
        emulate (level + 1) addr chain
      else computeAtLevel emulate level addr chain

/-- The leaf case of `emulate_tree_recursive` of a mask at `level`: the account's
hash, else the empty one. -/
def emulateLeaf (level : ℕ) (addr : Address) (chain : MaskChain Account AccountId) :
    Option (Fp × MaskChain Account AccountId) :=
  match getAccountHash V level addr.toIndex chain with
  | (some hash, chain) => some (hash, chain)
  | (none, chain) => chain.emptyHashAtHeight V level 0

/-- `compute_hash_or_parent`, with `emulate_tree_recursive` of the masks, on the
height of the node. -/
def computeHashOrParent :
    ℕ → ℕ → Address → MaskChain Account AccountId → Option (Fp × MaskChain Account AccountId)
  | 0 => computeAtLevel V lastAccount (emulateLeaf V)
  | height + 1 =>
    computeAtLevel V lastAccount fun level addr chain =>
      emulateNode V lastAccount level height (computeHashOrParent height level) addr chain

end RootHash

def emulateTreeToGetHashAt (level : ℕ) (addr : Address) (chain : MaskChain Account AccountId) :
    Option (Fp × MaskChain Account AccountId) :=
  match chain.getCachedHash level addr with
  | some hash => some (hash, chain)
  | none =>
    let lastAccount := (chain.lastFilled level).getD (Address.first chain.depth)
    computeHashOrParent V lastAccount (chain.depth - addr.length) level addr chain

def merkleRoot (level : ℕ) (chain : MaskChain Account AccountId) :
    Option (Fp × MaskChain Account AccountId) :=
  emulateTreeToGetHashAt V level Address.root chain

/-! ## Merkle paths -/

abbrev PathState (Account AccountId : Type) :=
  MaskChain Account AccountId × List Direction × List MerklePath

section Path

variable (lastAccount : Address)

/-- The inner node case of `emulate_merkle_path_recursive` of a mask at `level`:
`descend` is the same function one height lower, `childHash` is
`compute_hash_or_parent_for_merkle_path` one height lower (with `first = false`). -/
def emulatePathNode (level height : ℕ)
    (descend : Address → PathState Account AccountId → Option (Fp × PathState Account AccountId))
    (childHash : Address → PathState Account AccountId → Option (Fp × PathState Account AccountId))
    (addr : Address) (state : PathState Account AccountId) : Option (Fp × PathState Account AccountId) := do
  let (chain, path, merklePath) := state
  let nextDirection := path.head?
  let state : PathState Account AccountId := (chain, path.tail, merklePath)
  let state ←
    match nextDirection with
    | some .left => (descend addr.childLeft state).map Prod.snd
    | some .right => (descend addr.childRight state).map Prod.snd
    | none => some state
  let getChildHash (child : Address) (state : PathState Account AccountId) :=
    match state.1.getCachedHash level child with
    | some hash => some (hash, state)
    | none =>
      if child.isBefore lastAccount then childHash child state
      else (state.1.emptyHashAtHeight V level height).map fun (hash, chain) => (hash, (chain, state.2))
  let (left, state) ← getChildHash addr.childLeft state
  let (right, (chain, path, merklePath)) ← getChildHash addr.childRight state
  let merklePath :=
    match nextDirection with
    | some .left => merklePath ++ [.left right]
    | some .right => merklePath ++ [.right left]
    | none => merklePath
  match chain.getCachedHash level addr with
  | some hash => pure (hash, (chain, path, merklePath))
  | none =>
    let hash := V.hashNode height left right
    pure (hash, (chain.setCachedHash level addr hash, path, merklePath))

/-- `compute_hash_or_parent_for_merkle_path` for one height, given the masks'
`emulate_merkle_path_recursive` at that height: the cache is skipped for the
first call only. -/
def computePathAtLevel
    (emulate : ℕ → Address → PathState Account AccountId → Option (Fp × PathState Account AccountId)) :
    ℕ → Address → Bool → PathState Account AccountId → Option (Fp × PathState Account AccountId)
  | 0, addr, _, (chain, path, merklePath) =>
    (DatabaseImpl.emulateTreeToGetPath V lastAccount (chain.database.depth - addr.length) addr
      (chain.database, path, merklePath)).map fun (hash, (database, path, merklePath)) =>
        (hash, ({ chain with database }, path, merklePath))
  | level + 1, addr, first, state =>
    match (if first then none else state.1.getCachedHash (level + 1) addr) with
    | some hash => some (hash, state)
    | none =>
      if (state.1.masks[level]?.map fun mask => mask.ownsUnder addr).getD false then
        emulate (level + 1) addr state
      else computePathAtLevel emulate level addr first state

/-- `emulate_merkle_path_recursive` of the mask at `level`, on the height of the
node. -/
def emulateMerklePathRecursive :
    ℕ → ℕ → Address → PathState Account AccountId → Option (Fp × PathState Account AccountId)
  | 0, level, addr, (chain, path, merklePath) =>
    (emulateLeaf V level addr chain).map fun (hash, chain) => (hash, (chain, path, merklePath))
  | height + 1, level, addr, state =>
    emulatePathNode V lastAccount level height (emulateMerklePathRecursive height level)
      (fun child state => computePathAtLevel V lastAccount (emulateMerklePathRecursive height)
        level child false state) addr state

end Path

def merklePath (level : ℕ) (addr : Address) (chain : MaskChain Account AccountId) :
    Option (List MerklePath × MaskChain Account AccountId) :=
  match level with
  | 0 => (chain.database.merklePath V addr).map fun (merklePath, database) => (merklePath, { chain with database })
  | level + 1 => do
    let lastAccount := (chain.lastFilled (level + 1)).getD (Address.first chain.depth)
    let (_, (chain, _, merklePath)) ← computePathAtLevel V lastAccount
      (emulateMerklePathRecursive V lastAccount chain.depth) (level + 1) Address.root true
      (chain, addr.directions, [])
    pure (merklePath, chain)

/-! ## Writes -/

/-- `make_child` of the last mask: a new mask attached below it, whose last
location is its parent's last filled address. -/
def makeChild (chain : MaskChain Account AccountId) : MaskChain Account AccountId :=
  { chain with
    masks := chain.masks ++
      [⟨∅, ∅, chain.lastFilled chain.masks.length, chain.depth, HashesMatrix.new chain.depth⟩] }

/-- `set_impl` of the mask at `level` with its only child ignored (as `commit`
calls it on its parent): no mask is notified, the account is written. -/
def setImplIgnoringChild (level : ℕ) (addr : Address) (account : Account)
    (chain : MaskChain Account AccountId) : MaskChain Account AccountId :=
  let accountIndex := addr.toIndex
  match level with
  | 0 => { chain with database := chain.database.set V addr account }
  | level + 1 =>
    chain.modifyMask level fun mask =>
      { mask with
        owningAccount := mask.owningAccount.insert accountIndex account
        idToAddr := mask.idToAddr.insert (V.id account) addr
        lastLocation :=
          if (mask.lastLocation.map fun last => decide (last.toIndex < addr.toIndex)).getD true
          then some addr else mask.lastLocation
        hashes := mask.hashes.invalidateHashes accountIndex }

/-- `set` of the mask at `level`, which is `set_impl` with no child to ignore: every
mask below is notified first, then the account is written. -/
def set [DecidableEq Account] (level : ℕ) (addr : Address) (account : Account)
    (chain : MaskChain Account AccountId) : Option (MaskChain Account AccountId) := do
  let below ← (chain.masks.drop level).mapM fun child =>
    child.parentSetNotify V addr.toIndex account
  pure (setImplIgnoringChild V level addr account { chain with masks := chain.masks.take level ++ below })

def getOrCreateAccount (level : ℕ) (accountId : AccountId) (account : Account)
    (chain : MaskChain Account AccountId) :
    Option (Except DatabaseError GetOrCreated × MaskChain Account AccountId) :=
  match chain.locationOfAccount level accountId with
  | some addr => some (.ok (.existed addr), chain)
  | none =>
    let lastFilled := chain.lastFilled level
    match level with
    | 0 => do
      let (result, database) ← chain.database.getOrCreateAccount accountId account
      pure (result, { chain with database })
    | level + 1 =>
      let location : Except DatabaseError Address :=
        match lastFilled with
        | some last =>
          match last.next with
          | some location => .ok location
          | none => .error .outOfLeaves
        | none => .ok (Address.first chain.depth)
      match location with
      | .error error => some (.error error, chain)
      | .ok location =>
        let accountIndex := location.toIndex
        some (.ok (.added location), chain.modifyMask level fun mask =>
          { mask with
            idToAddr := mask.idToAddr.insert accountId location
            lastLocation := some location
            owningAccount := mask.owningAccount.insert accountIndex account
            hashes := mask.hashes.invalidateHashes accountIndex })

/-- `transfert_hashes` at a level: the given hashes override the cached ones. -/
def transfertHashes (chain : MaskChain Account AccountId) : ℕ → HashesMatrix → MaskChain Account AccountId
  | 0, hashes =>
    { chain with database := { chain.database with
        hashesMatrix := chain.database.hashesMatrix.transfertHashes hashes } }
  | level + 1, hashes => chain.modifyMask level fun mask =>
    { mask with hashes := mask.hashes.transfertHashes hashes }

/-- `commit` of the mask at `level + 1`: its own accounts are written into its
parent in the iteration order of the map, then its cached hashes override the
parent's. The mask keeps its last location. -/
def commit (level : ℕ) (chain : MaskChain Account AccountId) : Option (MaskChain Account AccountId) :=
  match chain.masks[level]? with
  | none => none
  | some mask =>
    let depth := mask.depth
    let (hashes, left) := mask.hashes.take
    let chain := chain.modifyMask level fun mask =>
      { mask with owningAccount := ∅, idToAddr := ∅, hashes := left }
    let chain := mask.owningAccount.entries.foldl (fun chain entry =>
      setImplIgnoringChild V level (Address.fromIndex entry.1 depth) entry.2 chain) chain
    some (chain.transfertHashes level hashes)

/-- `remove_accounts_without_notif` at a level: the ids a mask indexes are removed
from it, the others from its parent. -/
def removeAccountsWithoutNotif : ℕ → List AccountId → MaskChain Account AccountId →
    Option (MaskChain Account AccountId)
  | 0, ids, chain => do
    let database ← chain.database.removeAccounts V ids
    pure { chain with database }
  | level + 1, ids, chain =>
    match chain.masks[level]? with
    | none => none
    | some mask => do
      let maskKeys := ids.filter fun accountId => (mask.idToAddr.lookup accountId).isSome
      let parentKeys := ids.filter fun accountId => (mask.idToAddr.lookup accountId).isNone
      let chain ←
        if parentKeys.isEmpty then pure chain
        else removeAccountsWithoutNotif level parentKeys chain
      let mask ← mask.removeOwnAccount maskKeys
      pure { chain with masks := chain.masks.set level mask }

/-- `remove_accounts` at a level: then every mask below drops the hashes above the
removed locations. -/
def removeAccounts (level : ℕ) (ids : List AccountId) (chain : MaskChain Account AccountId) :
    Option (MaskChain Account AccountId) := do
  let indexes := ids.filterMap fun accountId =>
    (chain.locationOfAccount level accountId).map Address.toIndex
  let chain ← removeAccountsWithoutNotif V level ids chain
  pure { chain with
    masks := chain.masks.take level ++ (chain.masks.drop level).map fun child =>
      { child with hashes := indexes.foldl HashesMatrix.invalidateHashes child.hashes } }

end MaskChain

end Openmina.Ledger
