import Mathlib
import Openmina.Ledger.Address
import Openmina.Ledger.HashesMatrix
import Openmina.Merkle.Tree

/-!
# The ledger database

`DatabaseImpl<V2>` of `ledger/src/database/database_impl.rs`: the accounts in a
vector indexed by leaf, an index from account ids to addresses, the last filled
location, a counter and the cache of inner hashes. The token owners, the uuid
and the directory are read by no modelled function. The account type, its id and
the hashes are those of a `TreeVersion`, kept abstract. Panics (`assert!`,
`unwrap`, `expect`) are `none`.
-/

namespace Openmina.Ledger

open Openmina.Numbers.Checked Openmina.Merkle

set_option autoImplicit false

/-- `TreeVersion`: the account type with its id and the Poseidon hashes of leaves
and inner nodes. -/
structure TreeVersion (Account AccountId : Type) where
  id : Account → AccountId
  hashNode : ℕ → Fp → Fp → Fp
  hashLeaf : Account → Fp
  emptyAccount : Account

namespace TreeVersion

variable {Account AccountId : Type} (V : TreeVersion Account AccountId)

def emptyHashAtHeight (height : ℕ) : Fp :=
  (List.range height).foldl (fun prevHash height => V.hashNode height prevHash prevHash)
    (V.hashLeaf V.emptyAccount)

def hasher : Hasher Account Fp :=
  ⟨V.hashNode, V.hashLeaf, V.hashLeaf V.emptyAccount⟩

theorem emptyHashAtHeight_eq (height : ℕ) : V.emptyHashAtHeight height = V.hasher.emptyHash height := by
  induction height with
  | zero => rfl
  | succ height ih =>
    rw [emptyHashAtHeight, List.range_succ, List.foldl_append, ← emptyHashAtHeight, ih]
    rfl

end TreeVersion

inductive DatabaseError
  | outOfLeaves
  deriving DecidableEq, Repr

inductive GetOrCreated
  | added (addr : Address)
  | existed (addr : Address)
  deriving DecidableEq

inductive MerklePath
  | left (hash : Fp)
  | right (hash : Fp)
  deriving DecidableEq

structure DatabaseImpl (Account AccountId : Type) where
  accounts : List (Option Account)
  hashesMatrix : HashesMatrix
  idToAddr : AccountId → Option Address
  depth : ℕ
  lastLocation : Option Address
  naccounts : ℕ

namespace DatabaseImpl

variable {Account AccountId : Type} [DecidableEq AccountId] (V : TreeVersion Account AccountId)

def create (depth : ℕ) : DatabaseImpl Account AccountId :=
  ⟨[], HashesMatrix.new depth, fun _ => none, depth, none, 0⟩

variable (db : DatabaseImpl Account AccountId)

def getAccountRef (addr : Address) : Option Account :=
  db.accounts[addr.toIndex]?.join

def get (addr : Address) : Option Account :=
  db.getAccountRef addr

def lastFilled : Option Address :=
  db.lastLocation

def numAccounts : ℕ :=
  db.naccounts

/-- `remove`: take the account out of its slot, keeping the slot. -/
def remove (addr : Address) : Option Account × DatabaseImpl Account AccountId :=
  match db.accounts[addr.toIndex]? with
  | some account => (account, { db with accounts := db.accounts.set addr.toIndex none })
  | none => (none, db)

/-- The location `create_account` picks: right after the last one. -/
def nextLocation : Except DatabaseError Address :=
  match db.lastLocation with
  | some last =>
    match last.next with
    | some location => .ok location
    | none => .error .outOfLeaves
  | none => .ok (Address.first db.depth)

/-- `create_account`, which asserts that the new location is the end of the
vector. -/
def createAccount (accountId : AccountId) (account : Account) :
    Option (Except DatabaseError GetOrCreated × DatabaseImpl Account AccountId) :=
  match db.idToAddr accountId with
  | some addr => some (.ok (.existed addr), db)
  | none =>
    match db.nextLocation with
    | .error error => some (.error error, db)
    | .ok location =>
      if location.toIndex = db.accounts.length then
        some (.ok (.added location),
          { db with
            accounts := db.accounts ++ [some account]
            lastLocation := some location
            naccounts := db.naccounts + 1
            idToAddr := Function.update db.idToAddr accountId (some location) })
      else none

/-- `get_or_create_account`: `create_account`, then the new leaf's hashes are
dropped. -/
def getOrCreateAccount (accountId : AccountId) (account : Account) :
    Option (Except DatabaseError GetOrCreated × DatabaseImpl Account AccountId) := do
  let (result, db) ← db.createAccount accountId account
  match result with
  | .ok (.added addr) =>
    pure (result, { db with hashesMatrix := db.hashesMatrix.invalidateHashes addr.toIndex })
  | _ => pure (result, db)

/-- `set`: the vector grows with empty slots up to the address. -/
def set (addr : Address) (account : Account) : DatabaseImpl Account AccountId :=
  let index := addr.toIndex
  let hashesMatrix := db.hashesMatrix.invalidateHashes index
  let accounts :=
    if db.accounts.length ≤ index then
      db.accounts ++ List.replicate (index + 1 - db.accounts.length) none
    else db.accounts
  let (idToAddr, naccounts) :=
    match accounts[index]?.join with
    | some old => (Function.update db.idToAddr (V.id old) none, db.naccounts)
    | none => (db.idToAddr, db.naccounts + 1)
  let lastLocation :=
    if (db.lastLocation.map fun last => decide (last.toIndex < addr.toIndex)).getD true then
      some addr
    else db.lastLocation
  { db with
    hashesMatrix
    accounts := accounts.set index (some account)
    idToAddr := Function.update idToAddr (V.id account) (some addr)
    naccounts
    lastLocation }

def setBatch (list : List (Address × Account)) : Option (DatabaseImpl Account AccountId) :=
  list.foldlM (fun db (addr, account) =>
    if addr.length = db.depth then some (db.set V addr account) else none) db

/-- One iteration of the removal loop of `remove_accounts`. -/
def removeAt (addr : Address) : Option (DatabaseImpl Account AccountId) :=
  let db := { db with hashesMatrix := db.hashesMatrix.invalidateHashes addr.toIndex }
  match db.remove addr with
  | (none, db) => some db
  | (some account, db) =>
    -- `naccounts.checked_sub(1).expect(..)`
    if db.naccounts = 0 then none
    else
      some { db with
        idToAddr := Function.update db.idToAddr (V.id account) none
        naccounts := db.naccounts - 1
        lastLocation := if db.lastLocation = some addr then addr.prev else db.lastLocation }

/-- `remove_accounts`: every id must be indexed (`unwrap`); the addresses are then
removed from the highest index down. -/
def removeAccounts (ids : List AccountId) : Option (DatabaseImpl Account AccountId) := do
  let (addrs, idToAddr) ← ids.foldlM (fun (addrs, idToAddr) accountId =>
    match idToAddr accountId with
    | some addr => some (addrs ++ [addr], Function.update idToAddr accountId none)
    | none => none) (([] : List Address), db.idToAddr)
  let sorted := addrs.mergeSort fun addr other => decide (addr.toIndex ≤ other.toIndex)
  sorted.reverse.foldlM (fun db addr => db.removeAt V addr) { db with idToAddr }

/-! ## Hashes -/

/-- `get_account_hash`: the cached hash of a leaf, or the hash of its account,
then cached. -/
def getAccountHash (accountIndex : ℕ) : Option Fp × DatabaseImpl Account AccountId :=
  let addr := Address.fromIndex accountIndex db.depth
  match db.hashesMatrix.get addr with
  | some hash => (some hash, db)
  | none =>
    match db.getAccountRef addr with
    | none => (none, db)
    | some account =>
      let hash := V.hashLeaf account
      -- the assertion of `set` holds: the slot was just read empty
      (some hash, { db with hashesMatrix := db.hashesMatrix.insertAt addr.toLinearIndex hash })

def emptyHashAtHeight (height : ℕ) : Option (Fp × DatabaseImpl Account AccountId) :=
  (db.hashesMatrix.emptyHashAtHeight V.emptyHashAtHeight height).map fun (hash, hashesMatrix) =>
    (hash, { db with hashesMatrix })

/-- The `get_child_hash` closure of `emulate_tree_recursive`: the cached hash, else
the subtree's if it is not past the last account, else the empty hash. -/
def childHash (lastAccount : Address) (height : ℕ)
    (compute : Address → DatabaseImpl Account AccountId → Option (Fp × DatabaseImpl Account AccountId))
    (child : Address) (db : DatabaseImpl Account AccountId) : Option (Fp × DatabaseImpl Account AccountId) :=
  match db.hashesMatrix.get child with
  | some hash => some (hash, db)
  | none =>
    if child.isBefore lastAccount then compute child db
    else db.emptyHashAtHeight V height

/-- The end of `emulate_tree_recursive`: the cached hash of the node, else `hash`,
which is then cached. -/
def cacheHash (addr : Address) (hash : Fp) (db : DatabaseImpl Account AccountId) :
    Fp × DatabaseImpl Account AccountId :=
  match db.hashesMatrix.get addr with
  | some cached => (cached, db)
  | none => (hash, { db with hashesMatrix := db.hashesMatrix.insertAt addr.toLinearIndex hash })

/-- `emulate_tree_recursive`, on the height `depth - addr.length()` of the node. -/
def emulateTreeRecursive (lastAccount : Address) :
    ℕ → Address → DatabaseImpl Account AccountId → Option (Fp × DatabaseImpl Account AccountId)
  | 0, addr, db =>
    match db.getAccountHash V addr.toIndex with
    | (some hash, db) => some (hash, db)
    | (none, db) => db.emptyHashAtHeight V 0
  | height + 1, addr, db => do
    let (leftHash, db) ←
      childHash V lastAccount height (emulateTreeRecursive lastAccount height) addr.childLeft db
    let (rightHash, db) ←
      childHash V lastAccount height (emulateTreeRecursive lastAccount height) addr.childRight db
    pure (cacheHash addr (V.hashNode height leftHash rightHash) db)

def emulateTreeToGetHashAt (addr : Address) : Option (Fp × DatabaseImpl Account AccountId) :=
  match db.hashesMatrix.get addr with
  | some hash => some (hash, db)
  | none =>
    let lastAccount := db.lastFilled.getD (Address.first db.depth)
    emulateTreeRecursive V lastAccount (db.depth - addr.length) addr db

def rootHash : Option (Fp × DatabaseImpl Account AccountId) :=
  db.emulateTreeToGetHashAt V Address.root

abbrev PathState (Account AccountId : Type) :=
  DatabaseImpl Account AccountId × List Direction × List MerklePath

/-- `emulate_tree_to_get_path`: descend along the path first, then compute both
children, pushing the sibling of the path's child. Sibling subtrees share the
iterator, which is empty by then. -/
def emulateTreeToGetPath (lastAccount : Address) :
    ℕ → Address → PathState Account AccountId → Option (Fp × PathState Account AccountId)
  | 0, addr, (db, path, merklePath) =>
    match db.getAccountHash V addr.toIndex with
    | (some hash, db) => some (hash, (db, path, merklePath))
    | (none, db) => (db.emptyHashAtHeight V 0).map fun (hash, db) => (hash, (db, path, merklePath))
  | height + 1, addr, (db, path, merklePath) => do
    let nextDirection := path.head?
    let state : PathState Account AccountId := (db, path.tail, merklePath)
    let state ←
      match nextDirection with
      | some .left => (emulateTreeToGetPath lastAccount height addr.childLeft state).map Prod.snd
      | some .right => (emulateTreeToGetPath lastAccount height addr.childRight state).map Prod.snd
      | none => some state
    let getChildHash (child : Address) (state : PathState Account AccountId) :=
      match state.1.hashesMatrix.get child with
      | some hash => some (hash, state)
      | none =>
        if child.isBefore lastAccount then emulateTreeToGetPath lastAccount height child state
        else (state.1.emptyHashAtHeight V height).map fun (hash, db) => (hash, (db, state.2))
    let (left, state) ← getChildHash addr.childLeft state
    let (right, (db, path, merklePath)) ← getChildHash addr.childRight state
    let merklePath :=
      match nextDirection with
      | some .left => merklePath ++ [.left right]
      | some .right => merklePath ++ [.right left]
      | none => merklePath
    match db.hashesMatrix.get addr with
    | some hash => pure (hash, (db, path, merklePath))
    | none =>
      let hash := V.hashNode height left right
      pure (hash, ({ db with hashesMatrix := db.hashesMatrix.insertAt addr.toLinearIndex hash },
        path, merklePath))

def merklePath (addr : Address) : Option (List MerklePath × DatabaseImpl Account AccountId) := do
  let lastAccount := db.lastFilled.getD (Address.first db.depth)
  let (_, (db, _, merklePath)) ←
    emulateTreeToGetPath V lastAccount db.depth Address.root (db, addr.directions, [])
  pure (merklePath, db)

end DatabaseImpl

end Openmina.Ledger
