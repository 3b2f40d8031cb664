import Mathlib
import Openmina.Ledger.MaskHashes

/-!
# Unattached masks

`MaskImpl::Unattached` of `ledger/src/mask/mask_impl.rs`: a mask with the fields of an
attached one and no parent. Where an attached mask asks its parent,
`compute_hash_or_parent` of an unattached one calls `parent.as_ref().unwrap()` on
`None`, and `get_account_hash` gives `None`. Its `last_filled` is its own
`last_location`. A panic is `none`. The children of the mask are not modelled: an
unattached mask is written before it is registered under a parent.

`merkle_root` visits the tree depth first, left child first. It descends towards the
own account with the least index, because every left child on that path lies before
the last location. Where that account's path turns right, the left subtree has no own
account, so the mask unwraps its missing parent. Unless index `0` is owned, a mask that
has cached nothing panics before it writes anything to its cache.
-/

namespace Openmina.Ledger

open Openmina.Numbers.Checked

set_option autoImplicit false

namespace MaskState

variable {Account AccountId : Type} (V : TreeVersion Account AccountId)

def newUnattached (depth : ℕ) : MaskState Account AccountId :=
  ⟨∅, ∅, none, depth, HashesMatrix.new depth⟩

def setCachedHash (mask : MaskState Account AccountId) (addr : Address) (hash : Fp) :
    MaskState Account AccountId :=
  { mask with hashes := mask.hashes.insertAt addr.toLinearIndex hash }

section Writes

variable [DecidableEq AccountId]

/-- `set_impl` of a mask with no children: the account is written at `addr`. -/
def setImpl (addr : Address) (account : Account) (mask : MaskState Account AccountId) :
    MaskState Account AccountId :=
  let accountIndex := addr.toIndex
  { mask with
    owningAccount := mask.owningAccount.insert accountIndex account
    idToAddr := mask.idToAddr.insert (V.id account) addr
    lastLocation :=
      if (mask.lastLocation.map fun last => decide (last.toIndex < addr.toIndex)).getD true
      then some addr else mask.lastLocation
    hashes := mask.hashes.invalidateHashes accountIndex }

def setBatch (list : List (Address × Account)) (mask : MaskState Account AccountId) :
    MaskState Account AccountId :=
  list.foldl (fun mask write => mask.setImpl V write.1 write.2) mask

/-- `get_or_create_account` of an unattached mask: an account it indexes exists, any other
goes to the leaf after the last location, or to the first leaf of an empty mask. -/
def getOrCreateAccount (accountId : AccountId) (account : Account) (mask : MaskState Account AccountId) :
    Except DatabaseError GetOrCreated × MaskState Account AccountId :=
  match mask.idToAddr.lookup accountId with
  | some addr => (.ok (.existed addr), mask)
  | none =>
    let location : Except DatabaseError Address :=
      match mask.lastLocation with
      | some last =>
        match last.next with
        | some location => .ok location
        | none => .error .outOfLeaves
      | none => .ok (Address.first mask.depth)
    match location with
    | .error error => (.error error, mask)
    | .ok location =>
      let accountIndex := location.toIndex
      (.ok (.added location), { mask with
        idToAddr := mask.idToAddr.insert accountId location
        lastLocation := some location
        owningAccount := mask.owningAccount.insert accountIndex account
        hashes := mask.hashes.invalidateHashes accountIndex })

end Writes

/-- `get_account_hash` of an unattached mask: an own account's hash, cached in the mask;
`None` at any other index, as there is no parent to ask. -/
def getAccountHash (accountIndex : ℕ) (mask : MaskState Account AccountId) :
    Option Fp × MaskState Account AccountId :=
  match mask.owningAccount.lookup accountIndex with
  | some account =>
    let addr := Address.fromIndex accountIndex mask.depth
    match mask.hashes.get addr with
    | some hash => (some hash, mask)
    | none =>
      let hash := V.hashLeaf account
      (some hash, mask.setCachedHash addr hash)
  | none => (none, mask)

section RootHash

variable (lastAccount : Address)

/-- The `get_child_hash` closure of `emulate_tree_recursive`: the cached hash, else the
subtree's (`compute`) if it is not past the last account, else the empty hash. -/
def getChildHash (height : ℕ)
    (compute : Address → MaskState Account AccountId → Option (Fp × MaskState Account AccountId))
    (child : Address) (mask : MaskState Account AccountId) : Option (Fp × MaskState Account AccountId) :=
  match mask.hashes.get child with
  | some hash => some (hash, mask)
  | none =>
    if child.isBefore lastAccount then compute child mask
    else mask.emptyHashAtHeight V height

/-- `compute_hash_or_parent` of an unattached mask, given its `emulate_tree_recursive`
at the node's height. -/
def computeOrUnwrap
    (emulate : Address → MaskState Account AccountId → Option (Fp × MaskState Account AccountId))
    (addr : Address) (mask : MaskState Account AccountId) : Option (Fp × MaskState Account AccountId) :=
  match mask.hashes.get addr with
  | some hash => some (hash, mask)
  | none =>
    if mask.ownsUnder addr then emulate addr mask
    -- `parent.as_ref().unwrap()` on the `None` parent
    else none

/-- `emulate_tree_recursive` of an unattached mask, on the height of the node. -/
def emulateTreeRecursive :
    ℕ → Address → MaskState Account AccountId → Option (Fp × MaskState Account AccountId)
  | 0, addr, mask =>
    match mask.getAccountHash V addr.toIndex with
    | (some hash, mask) => some (hash, mask)
    | (none, mask) => mask.emptyHashAtHeight V 0
  | height + 1, addr, mask => do
    let childHash := getChildHash V lastAccount height
      (computeOrUnwrap (emulateTreeRecursive height))
    let (leftHash, mask) ← childHash addr.childLeft mask
    let (rightHash, mask) ← childHash addr.childRight mask
    match mask.hashes.get addr with
    | some hash => pure (hash, mask)
    | none =>
      let hash := V.hashNode height leftHash rightHash
      pure (hash, mask.setCachedHash addr hash)

def computeHashOrParent (height : ℕ) :
    Address → MaskState Account AccountId → Option (Fp × MaskState Account AccountId) :=
  computeOrUnwrap (emulateTreeRecursive V lastAccount height)

end RootHash

/-- `emulate_tree_to_get_hash_at` of an unattached mask: its last filled address is its
own last location. -/
def emulateTreeToGetHashAt (addr : Address) (mask : MaskState Account AccountId) :
    Option (Fp × MaskState Account AccountId) :=
  match mask.hashes.get addr with
  | some hash => some (hash, mask)
  | none =>
    let lastAccount := mask.lastLocation.getD (Address.first mask.depth)
    computeHashOrParent V lastAccount (mask.depth - addr.length) addr mask

def merkleRoot (mask : MaskState Account AccountId) : Option (Fp × MaskState Account AccountId) :=
  emulateTreeToGetHashAt V Address.root mask

def getInnerHashAtAddr (addr : Address) (mask : MaskState Account AccountId) :
    Option (Except String Fp × MaskState Account AccountId) :=
  if addr.length > mask.depth then some (.error "Inner hash not found at address", mask)
  else (emulateTreeToGetHashAt V addr mask).map fun (hash, mask) => (.ok hash, mask)

/-! ## The missing parent -/

section RootHash

variable (lastAccount : Address)

theorem getChildHash_of_before {height : ℕ}
    {compute : Address → MaskState Account AccountId → Option (Fp × MaskState Account AccountId)}
    {child : Address} {mask : MaskState Account AccountId} (empty : mask.hashes.get child = none)
    (before : child.isBefore lastAccount = true) :
    getChildHash V lastAccount height compute child mask = compute child mask := by
  simp [getChildHash, empty, before]

theorem computeHashOrParent_of_unowned (height : ℕ) {addr : Address}
    {mask : MaskState Account AccountId} (empty : mask.hashes.get addr = none)
    (unowned : mask.ownsUnder addr = false) :
    computeHashOrParent V lastAccount height addr mask = none := by
  simp [computeHashOrParent, computeOrUnwrap, empty, unowned]

theorem emulateTreeRecursive_of_left_none {height : ℕ} {addr : Address}
    {mask : MaskState Account AccountId}
    (left : getChildHash V lastAccount height (computeHashOrParent V lastAccount height)
      addr.childLeft mask = none) :
    emulateTreeRecursive V lastAccount (height + 1) addr mask = none := by
  simp only [emulateTreeRecursive, Option.bind_eq_bind]
  rw [show getChildHash V lastAccount height (computeOrUnwrap (emulateTreeRecursive V lastAccount height))
    addr.childLeft mask = none from left]
  rfl

theorem ownsUnder_eq_true {addr : Address} {mask : MaskState Account AccountId} {entry : Σ _ : AccountId, Address}
    (owned : entry ∈ mask.idToAddr.entries) (under : addr.isParentOf entry.2 = true) :
    mask.ownsUnder addr = true :=
  List.any_eq_true.mpr ⟨entry, owned, under⟩

theorem computeHashOrParent_above_least (mask : MaskState Account AccountId)
    (cold : ∀ addr, mask.hashes.get addr = none)
    {first : Address} {owned : Σ _ : AccountId, Address} (ownedMem : owned ∈ mask.idToAddr.entries)
    (ownedFirst : owned.2 = first)
    (least : ∀ entry ∈ mask.idToAddr.entries, entry.2.length = first.length ∧ first.index ≤ entry.2.index)
    (lastLength : lastAccount.length = first.length) (beforeLast : first.index ≤ lastAccount.index) :
    ∀ height (addr : Address), addr.length + height = first.length →
      addr.index = first.index / 2 ^ height → first.index % 2 ^ height ≠ 0 →
      computeHashOrParent V lastAccount height addr mask = none := by
  intro height
  induction height with
  | zero =>
    intro addr _ _ turns
    rw [Nat.pow_zero, Nat.mod_one] at turns
    exact absurd rfl turns
  | succ height ih =>
    intro addr length onPath turns
    have owns : mask.ownsUnder addr = true := by
      refine ownsUnder_eq_true ownedMem ?_
      simp [Address.isParentOf, Address.prefixIndex, ownedFirst, onPath, ← length]
    have emulates : computeHashOrParent V lastAccount (height + 1) addr mask =
        emulateTreeRecursive V lastAccount (height + 1) addr mask := by
      simp [computeHashOrParent, computeOrUnwrap, cold addr, owns]
    have split : first.index / 2 ^ height = 2 * addr.index + first.index / 2 ^ height % 2 := by
      rw [onPath, Nat.pow_succ, ← Nat.div_div_eq_div_mul]
      omega
    have prefixOf : ∀ other : Address, other.length = first.length →
        Address.prefixIndex (addr.length + 1) other = other.index / 2 ^ height := by
      intro other same
      simp only [Address.prefixIndex, same]
      congr 2
      omega
    have before : addr.childLeft.isBefore lastAccount = true := by
      have monotone : first.index / 2 ^ height ≤ lastAccount.index / 2 ^ height :=
        Nat.div_le_div_right beforeLast
      simp only [Address.isBefore, Address.childLeft_length, prefixOf lastAccount lastLength,
        Address.childLeft_index, decide_eq_true_eq]
      omega
    rw [emulates]
    apply emulateTreeRecursive_of_left_none
    rw [getChildHash_of_before V lastAccount (cold _) before]
    by_cases bit : first.index / 2 ^ height % 2 = 0
    · -- `first` lies under the left child: descend
      have remainder : first.index % 2 ^ (height + 1) = first.index % 2 ^ height := by
        rw [Nat.mod_pow_succ, bit, Nat.mul_zero, Nat.add_zero]
      exact ih addr.childLeft (by simp; omega) (by simp; omega) (by rwa [← remainder])
    · -- `first` lies under the right child: the left one has no own account
      apply computeHashOrParent_of_unowned V lastAccount height (cold _)
      refine List.any_eq_false.mpr fun entry mem under => ?_
      obtain ⟨same, le⟩ := least entry mem
      have monotone : first.index / 2 ^ height ≤ entry.2.index / 2 ^ height :=
        Nat.div_le_div_right le
      simp only [Address.isParentOf, Address.childLeft_length, Nat.add_eq_zero_iff, one_ne_zero,
        and_false, decide_false, Bool.false_or, decide_eq_true_eq, prefixOf entry.2 same,
        Address.childLeft_index] at under
      omega

end RootHash

/-! ## Masks written only past the first leaf -/

/-- What writes at full-depth addresses other than the first leaf keep in an unattached
mask that has hashed nothing: the cache is empty, every own account is at such an
address, and the last location is a full-depth address at or after each of them. -/
structure SkipsFirst (mask : MaskState Account AccountId) : Prop where
  cold : ∀ addr, mask.hashes.get addr = none
  full : ∀ entry ∈ mask.idToAddr.entries, entry.2.length = mask.depth
  skips : ∀ entry ∈ mask.idToAddr.entries, entry.2.index ≠ 0
  lastFull : ∀ last, mask.lastLocation = some last → last.length = mask.depth
  last : ∀ entry ∈ mask.idToAddr.entries, ∃ last, mask.lastLocation = some last ∧ entry.2.index ≤ last.index

theorem skipsFirst_newUnattached (depth : ℕ) :
    (newUnattached depth : MaskState Account AccountId).SkipsFirst where
  cold _ := rfl
  full _ mem := by simp [newUnattached] at mem
  skips _ mem := by simp [newUnattached] at mem
  lastFull _ found := by simp [newUnattached] at found
  last _ mem := by simp [newUnattached] at mem

section Writes

variable [DecidableEq AccountId]

theorem mem_setImpl_entries {addr : Address} {account : Account} {mask : MaskState Account AccountId}
    {entry : Σ _ : AccountId, Address} (mem : entry ∈ (mask.setImpl V addr account).idToAddr.entries) :
    entry.2 = addr ∨ entry ∈ mask.idToAddr.entries := by
  simp only [setImpl, AList.entries_insert, List.mem_cons] at mem
  rcases mem with new | old
  · exact Or.inl (by rw [new])
  · exact Or.inr ((List.kerase_sublist _ _).subset old)

theorem lastLocation_setImpl (addr : Address) (account : Account) (mask : MaskState Account AccountId) :
    ∃ last', (mask.setImpl V addr account).lastLocation = some last' ∧
      (last' = addr ∨ mask.lastLocation = some last') ∧ addr.index ≤ last'.index ∧
      ∀ last, mask.lastLocation = some last → last.index ≤ last'.index := by
  cases found : mask.lastLocation with
  | none => exact ⟨addr, by simp [setImpl, found], Or.inl rfl, le_rfl, by simp⟩
  | some last =>
    by_cases lt : last.index < addr.index
    · refine ⟨addr, by simp [setImpl, found, Address.toIndex, lt], Or.inl rfl, le_rfl, ?_⟩
      simp only [Option.some.injEq, forall_eq']
      exact lt.le
    · refine ⟨last, by simp [setImpl, found, Address.toIndex, lt], Or.inr rfl, by omega, ?_⟩
      simp

theorem SkipsFirst.setImpl {mask : MaskState Account AccountId} (keeps : mask.SkipsFirst)
    {addr : Address} (account : Account) (full : addr.length = mask.depth) (skips : addr.index ≠ 0) :
    (mask.setImpl V addr account).SkipsFirst := by
  obtain ⟨last', found, written, above, later⟩ := lastLocation_setImpl V addr account mask
  refine ⟨fun other => ?_, fun entry mem => ?_, fun entry mem => ?_, fun last found' => ?_,
    fun entry mem => ⟨last', found, ?_⟩⟩
  · cases cached : (mask.setImpl V addr account).hashes.get other with
    | none => rfl
    | some hash =>
      have := HashesMatrix.invalidatePath_get_of_some _ _ _ other cached
      rw [keeps.cold other] at this
      cases this
  · rcases mem_setImpl_entries V mem with new | old
    · rw [new]
      exact full
    · exact keeps.full entry old
  · rcases mem_setImpl_entries V mem with new | old
    · rw [new]
      exact skips
    · exact keeps.skips entry old
  · rw [found, Option.some.injEq] at found'
    subst found'
    rcases written with new | old
    · rw [new]
      exact full
    · exact keeps.lastFull _ old
  · rcases mem_setImpl_entries V mem with new | old
    · rw [new]
      exact above
    · obtain ⟨last, was, le⟩ := keeps.last entry old
      exact le.trans (later last was)

theorem SkipsFirst.setBatch {mask : MaskState Account AccountId} (keeps : mask.SkipsFirst)
    (list : List (Address × Account)) (full : ∀ write ∈ list, write.1.length = mask.depth)
    (skips : ∀ write ∈ list, write.1.index ≠ 0) :
    (mask.setBatch V list).SkipsFirst := by
  induction list generalizing mask with
  | nil => exact keeps
  | cons write rest ih =>
    have first := keeps.setImpl V write.2 (full write (by simp)) (skips write (by simp))
    exact ih first (fun other mem => full other (by simp [mem])) (fun other mem => skips other (by simp [mem]))

end Writes

/-- The computation of the root of a mask that has cached nothing and owns no account
at index `0` unwraps the missing parent: at once if it owns nothing, else on the way
to the own account with the least index. -/
theorem emulateTreeToGetHashAt_root_of_skipsFirst {mask : MaskState Account AccountId}
    (keeps : mask.SkipsFirst) :
    mask.emulateTreeToGetHashAt V Address.root = none := by
  have root : mask.emulateTreeToGetHashAt V Address.root =
      computeHashOrParent V (mask.lastLocation.getD (Address.first mask.depth)) mask.depth
        Address.root mask := by
    simp [emulateTreeToGetHashAt, keeps.cold, Address.root]
  rw [root]
  by_cases empty : mask.idToAddr.entries = []
  · apply computeHashOrParent_of_unowned V _ _ (keeps.cold _)
    simp [ownsUnder, empty]
  · classical
    have exists_index : ∃ n, ∃ owned ∈ mask.idToAddr.entries, owned.2.index = n := by
      obtain ⟨entry, mem⟩ := List.exists_mem_of_ne_nil _ empty
      exact ⟨_, entry, mem, rfl⟩
    obtain ⟨owned, ownedMem, ownedIndex⟩ := Nat.find_spec exists_index
    have ownedFull := keeps.full owned ownedMem
    have least : ∀ entry ∈ mask.idToAddr.entries,
        entry.2.length = owned.2.length ∧ owned.2.index ≤ entry.2.index := by
      intro entry mem
      refine ⟨(keeps.full entry mem).trans ownedFull.symm, ?_⟩
      rw [ownedIndex]
      exact Nat.find_min' exists_index ⟨entry, mem, rfl⟩
    obtain ⟨last, found, beforeLast⟩ := keeps.last owned ownedMem
    have lastLength := (keeps.lastFull last found).trans ownedFull.symm
    have below : owned.2.index < 2 ^ mask.depth := ownedFull ▸ owned.2.indexLt
    rw [found, Option.getD_some]
    apply computeHashOrParent_above_least V last mask keeps.cold ownedMem rfl least lastLength beforeLast
    · simp [Address.root, ownedFull]
    · simp [Address.root, Nat.div_eq_of_lt below]
    · rw [Nat.mod_eq_of_lt below]
      exact keeps.skips owned ownedMem

/-- An unattached mask written only at full-depth addresses past the first leaf, in any
number and order, panics on `merkle_root` and on `get_inner_hash_at_addr` of the root:
a subtree before its last location holds none of its accounts, and it asks its missing
parent for that subtree's hash. -/
theorem unattached_merkle_root_unwraps_missing_parent [DecidableEq AccountId] (depth : ℕ)
    (writes : List (Address × Account)) (full : ∀ write ∈ writes, write.1.length = depth)
    (skips : ∀ write ∈ writes, write.1.index ≠ 0) :
    ((newUnattached depth).setBatch V writes).merkleRoot V = none ∧
      ((newUnattached depth).setBatch V writes).getInnerHashAtAddr V Address.root = none := by
  have keeps := (skipsFirst_newUnattached depth).setBatch V writes full skips
  have root := emulateTreeToGetHashAt_root_of_skipsFirst V keeps
  refine ⟨root, ?_⟩
  have within : ¬Address.root.length > ((newUnattached depth).setBatch V writes).depth := by
    simp [Address.root]
  rw [getInnerHashAtAddr, if_neg within, root]
  rfl

/-- A mask of depth `2` with one account written at the last leaf `11`. -/
theorem unattached_merkle_root_unwraps_missing_parent_last_leaf :
    ((newUnattached 2 : MaskState ℕ ℕ).setBatch MaskChain.rightHashes [(⟨2, 3, by decide⟩, 5)]).merkleRoot
        MaskChain.rightHashes = none ∧
      ((newUnattached 2 : MaskState ℕ ℕ).setBatch MaskChain.rightHashes [(⟨2, 3, by decide⟩, 5)]).getInnerHashAtAddr
        MaskChain.rightHashes Address.root = none :=
  unattached_merkle_root_unwraps_missing_parent MaskChain.rightHashes 2 _ (by decide) (by decide)

end MaskState

end Openmina.Ledger
