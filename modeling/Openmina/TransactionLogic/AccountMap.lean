import Openmina.TransactionLogic.FiniteMap

/-!
# A ledger that is a map of accounts

The smallest `LedgerIntf`: the accounts by id, each account at the location of its
own id, with a constant Merkle root. It satisfies the laws of `LedgerIntf.FiniteMap`,
so the results over lawful ledgers are not vacuous, and it runs the transactions of
the examples.
-/

namespace Openmina.TransactionLogic

set_option autoImplicit false

/-- Accounts by id; every account is stored under its own id. -/
structure AccountMap where
  accounts : LedgerView
  wellKeyed : ∀ {id account}, accounts.lookup id = some account → account.id = id

namespace AccountMap

def empty : AccountMap :=
  ⟨∅, fun found => by cases found⟩

def insert (ledger : AccountMap) (account : Account) : AccountMap :=
  ⟨ledger.accounts.insert account.id account, by
    intro id stored found
    by_cases same : id = account.id
    · subst same
      rw [Finmap.lookup_insert] at found
      cases found
      rfl
    · rw [Finmap.lookup_insert_of_ne _ same] at found
      exact ledger.wellKeyed found⟩

/-- The location of an account is its id, so a write goes to the id of the account
written. -/
def intf : LedgerIntf AccountMap AccountId where
  get ledger location := ledger.accounts.lookup location
  locationOfAccount ledger id := if id ∈ ledger.accounts then some id else none
  set ledger _ account := ledger.insert account
  getOrCreate ledger id :=
    match ledger.accounts.lookup id with
    | some account => .ok (.existed, account, id, ledger)
    | none => .ok (.added, Account.initial id, id, ledger.insert (Account.initial id))
  createNewAccount ledger id account :=
    if id ∈ ledger.accounts then .error () else .ok (ledger.insert account)
  merkleRoot ledger := (0, ledger)

theorem locationOfAccount_eq (ledger : AccountMap) (id : AccountId) :
    intf.locationOfAccount ledger id = if id ∈ ledger.accounts then some id else none :=
  rfl

theorem locationOfAccount_insert {ledger : AccountMap} {account : Account}
    (present : account.id ∈ ledger.accounts) :
    intf.locationOfAccount (ledger.insert account) = intf.locationOfAccount ledger := by
  funext id
  simp only [locationOfAccount_eq, insert, Finmap.mem_insert]
  by_cases same : id = account.id
  · subst same
    simp [present]
  · simp [same]

theorem locationOfAccount_insert_of_mem {ledger : AccountMap} {account : Account} {id : AccountId}
    (present : id ∈ ledger.accounts) :
    intf.locationOfAccount (ledger.insert account) id = intf.locationOfAccount ledger id := by
  simp [locationOfAccount_eq, insert, Finmap.mem_insert, present]

theorem lawful : intf.FiniteMap AccountMap.accounts where
  get_location := by
    intro ledger id loc located
    rw [locationOfAccount_eq] at located
    split_ifs at located
    cases located
    rfl
  location_eq_none := by
    intro ledger id
    rw [locationOfAccount_eq]
    split_ifs with present <;> simp [present]
  id_lookup := fun found => AccountMap.wellKeyed _ found
  view_set := fun _ => rfl
  location_set := by
    intro ledger loc account located
    rw [locationOfAccount_eq] at located
    split_ifs at located with present
    exact locationOfAccount_insert present
  getOrCreate_location := by
    intro ledger id state account loc ledger' created
    simp only [intf] at created
    split at created
    · rename_i stored found
      cases created
      exact ⟨by simp [locationOfAccount_eq, Finmap.mem_of_lookup_eq_some found], fun _ _ => rfl⟩
    · cases created
      refine ⟨by simp [locationOfAccount_eq, insert], fun other present => ?_⟩
      exact locationOfAccount_insert_of_mem present
  getOrCreate_existed := by
    intro ledger id state account loc ledger' old created found
    simp only [intf, found] at created
    cases created
    exact ⟨rfl, rfl, rfl⟩
  getOrCreate_added := by
    intro ledger id state account loc ledger' created absent
    simp only [intf, absent] at created
    cases created
    exact ⟨rfl, rfl, rfl⟩
  createNewAccount_view := by
    intro ledger account ledger' created
    simp only [intf] at created
    split_ifs at created
    cases created
    exact ⟨rfl, fun _ present => locationOfAccount_insert_of_mem present⟩
  merkleRoot_view := fun _ => rfl
  merkleRoot_location := fun _ => rfl

end AccountMap

end Openmina.TransactionLogic
