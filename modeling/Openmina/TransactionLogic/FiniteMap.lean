import Openmina.TransactionLogic.Apply
import Openmina.Control.ExceptOption

/-!
# A ledger viewed as a finite map

The transaction logic is generic over `LedgerIntf`. What it needs of a ledger is
stated here as laws over a view of the ledger as a finite map from account ids to
accounts: `get` at an account's location reads the view, `set` at an account's own
location writes it, `get_or_create` and `create_new_account` add an account, and
accounts already in the ledger keep their locations. From the laws, the results of
`get_with_location` and `has_permission_to_receive` are read off the view.

`AccountMap` is a ledger that is such a map: it satisfies the laws.
-/

namespace Openmina.TransactionLogic

open Openmina.ScanState.FeeExcessCombine (TokenId)
open Openmina.Control.ExceptOption

set_option autoImplicit false

abbrev LedgerView : Type :=
  Finmap fun _ : AccountId => Account

/-- The laws of a `LedgerIntf` whose ledgers are seen through `view`. -/
structure LedgerIntf.FiniteMap {L Loc : Type} (I : LedgerIntf L Loc) (view : L → LedgerView) :
    Prop where
  get_location : ∀ {ledger id loc}, I.locationOfAccount ledger id = some loc →
    I.get ledger loc = (view ledger).lookup id
  location_eq_none : ∀ {ledger id}, I.locationOfAccount ledger id = none ↔ id ∉ view ledger
  id_lookup : ∀ {ledger id account}, (view ledger).lookup id = some account → account.id = id
  view_set : ∀ {ledger loc account}, I.locationOfAccount ledger account.id = some loc →
    view (I.set ledger loc account) = (view ledger).insert account.id account
  location_set : ∀ {ledger loc account}, I.locationOfAccount ledger account.id = some loc →
    I.locationOfAccount (I.set ledger loc account) = I.locationOfAccount ledger
  getOrCreate_location : ∀ {ledger id state account loc ledger'},
    I.getOrCreate ledger id = .ok (state, account, loc, ledger') →
      I.locationOfAccount ledger' id = some loc ∧
        ∀ other ∈ view ledger, I.locationOfAccount ledger' other = I.locationOfAccount ledger other
  getOrCreate_existed : ∀ {ledger id state account loc ledger' old},
    I.getOrCreate ledger id = .ok (state, account, loc, ledger') → (view ledger).lookup id = some old →
      state = .existed ∧ account = old ∧ view ledger' = view ledger
  getOrCreate_added : ∀ {ledger id state account loc ledger'},
    I.getOrCreate ledger id = .ok (state, account, loc, ledger') → (view ledger).lookup id = none →
      state = .added ∧ account = Account.initial id ∧
        view ledger' = (view ledger).insert id (Account.initial id)
  createNewAccount_view : ∀ {ledger account ledger'},
    I.createNewAccount ledger account.id account = .ok ledger' →
      view ledger' = (view ledger).insert account.id account ∧
        ∀ other ∈ view ledger, I.locationOfAccount ledger' other = I.locationOfAccount ledger other
  merkleRoot_view : ∀ ledger, view (I.merkleRoot ledger).2 = view ledger
  merkleRoot_location : ∀ ledger, I.locationOfAccount (I.merkleRoot ledger).2 = I.locationOfAccount ledger

@[simp] theorem Account.id_publicKey (account : Account) : account.id.publicKey = account.publicKey :=
  rfl

@[simp] theorem Account.id_tokenId (account : Account) : account.id.tokenId = account.tokenId :=
  rfl

@[simp] theorem Account.id_initial (accountId : AccountId) : (Account.initial accountId).id = accountId :=
  rfl

namespace LedgerIntf.FiniteMap

variable {L Loc : Type} {I : LedgerIntf L Loc} {view : L → LedgerView} (lawful : I.FiniteMap view)
include lawful

theorem location_of_mem {ledger : L} {id : AccountId} (present : id ∈ view ledger) :
    ∃ loc, I.locationOfAccount ledger id = some loc := by
  cases located : I.locationOfAccount ledger id with
  | none => exact absurd present (lawful.location_eq_none.mp located)
  | some loc => exact ⟨loc, rfl⟩

theorem mem_of_location {ledger : L} {id : AccountId} {loc : Loc}
    (located : I.locationOfAccount ledger id = some loc) : id ∈ view ledger := by
  by_contra absent
  rw [lawful.location_eq_none.mpr absent] at located
  cases located

theorem getWithLocation_existing_inv {ledger : L} {id : AccountId} {loc : Loc} {account : Account}
    (got : getWithLocation I ledger id = some (.existing loc, account)) :
    I.locationOfAccount ledger id = some loc ∧ (view ledger).lookup id = some account := by
  unfold getWithLocation at got
  split at got
  · rename_i loc' located
    split at got
    · rename_i account' fetched
      cases got
      exact ⟨located, by rw [← lawful.get_location located, fetched]⟩
    · cases got
  · cases got

theorem getWithLocation_new_inv {ledger : L} {id : AccountId} {account : Account}
    (got : getWithLocation I ledger id = some (.new, account)) :
    (view ledger).lookup id = none ∧ account = Account.createWith id 0 := by
  unfold getWithLocation at got
  split at got
  · split at got <;> cases got
  · rename_i unlocated
    cases got
    exact ⟨Finmap.lookup_eq_none.mpr (lawful.location_eq_none.mp unlocated), rfl⟩

theorem hasPermissionToReceive_existing {ledger : L} {id : AccountId} {account : Account}
    (found : (view ledger).lookup id = some account) :
    hasPermissionToReceive I ledger id =
      (account.hasPermissionTo .noneGiven .receive).map fun perm => (account, .existed, perm) := by
  obtain ⟨loc, located⟩ := lawful.location_of_mem (Finmap.mem_of_lookup_eq_some found)
  simp only [hasPermissionToReceive, located, lawful.get_location located, found]
  cases account.hasPermissionTo .noneGiven .receive <;> rfl

theorem hasPermissionToReceive_new {ledger : L} {id : AccountId}
    (absent : (view ledger).lookup id = none) :
    hasPermissionToReceive I ledger id = some (Account.initial id, .added, true) := by
  have unlocated := lawful.location_eq_none.mpr (Finmap.lookup_eq_none.mp absent)
  simp only [hasPermissionToReceive, unlocated, (Account.initial_receives id .noneGiven).1]
  rfl

theorem hasPermissionToReceive_congr {ledger ledger' : L} {id : AccountId}
    (same : (view ledger').lookup id = (view ledger).lookup id) :
    hasPermissionToReceive I ledger' id = hasPermissionToReceive I ledger id := by
  cases found : (view ledger).lookup id with
  | none =>
    rw [lawful.hasPermissionToReceive_new found, lawful.hasPermissionToReceive_new (same.trans found)]
  | some account =>
    rw [lawful.hasPermissionToReceive_existing found,
      lawful.hasPermissionToReceive_existing (same.trans found)]

theorem hasPermissionToReceive_spec {ledger : L} {id : AccountId} {account : Account}
    {action : AccountState} {perm : Bool}
    (received : hasPermissionToReceive I ledger id = some (account, action, perm)) :
    account = ((view ledger).lookup id).getD (Account.initial id) ∧
      action = if id ∈ view ledger then .existed else .added := by
  cases found : (view ledger).lookup id with
  | none =>
    rw [lawful.hasPermissionToReceive_new found] at received
    cases received
    simp [Finmap.lookup_eq_none.mp found]
  | some old =>
    rw [lawful.hasPermissionToReceive_existing found] at received
    obtain ⟨_, -, received⟩ := Option.map_eq_some_iff.mp received
    cases received
    simp [Finmap.mem_of_lookup_eq_some found]

theorem hasPermissionToReceive_refused {ledger : L} {id : AccountId} {account : Account}
    {action : AccountState} (refused : hasPermissionToReceive I ledger id = some (account, action, false)) :
    action = .existed := by
  obtain ⟨-, actionIs⟩ := lawful.hasPermissionToReceive_spec refused
  by_cases present : id ∈ view ledger
  · rw [actionIs, if_pos present]
  · rw [lawful.hasPermissionToReceive_new (Finmap.lookup_eq_none.mpr present)] at refused
    cases refused

end LedgerIntf.FiniteMap

/-! ## Accounts keep their locations -/

section Keeps

variable {L Loc : Type} (I : LedgerIntf L Loc) (view : L → LedgerView)

/-- The accounts of `ledger` are still in `ledger'`, at the same locations. -/
structure Keeps (ledger ledger' : L) : Prop where
  mem : ∀ id ∈ view ledger, id ∈ view ledger'
  location : ∀ id ∈ view ledger, I.locationOfAccount ledger' id = I.locationOfAccount ledger id

variable {I view}

theorem Keeps.refl (ledger : L) : Keeps I view ledger ledger :=
  ⟨fun _ present => present, fun _ _ => rfl⟩

theorem Keeps.trans {ledger ledger' ledger'' : L} (first : Keeps I view ledger ledger')
    (second : Keeps I view ledger' ledger'') : Keeps I view ledger ledger'' := by
  constructor
  · intro id present
    exact second.mem id (first.mem id present)
  · intro id present
    rw [second.location id (first.mem id present), first.location id present]

theorem Keeps.location_eq {ledger ledger' : L} (keeps : Keeps I view ledger ledger')
    (lawful : I.FiniteMap view) {id : AccountId} {loc : Loc}
    (located : I.locationOfAccount ledger id = some loc) :
    I.locationOfAccount ledger' id = some loc := by
  rw [keeps.location id (lawful.mem_of_location located), located]

namespace LedgerIntf.FiniteMap

variable (lawful : I.FiniteMap view)
include lawful

theorem keeps_set {ledger : L} {loc : Loc} {account : Account}
    (located : I.locationOfAccount ledger account.id = some loc) :
    Keeps I view ledger (I.set ledger loc account) := by
  constructor
  · intro id present
    rw [lawful.view_set located, Finmap.mem_insert]
    exact Or.inr present
  · intro id _
    rw [lawful.location_set located]

theorem keeps_getOrCreate {ledger : L} {id : AccountId} {state : AccountState} {account : Account}
    {loc : Loc} {ledger' : L} (created : I.getOrCreate ledger id = .ok (state, account, loc, ledger')) :
    Keeps I view ledger ledger' := by
  constructor
  · intro other present
    cases found : (view ledger).lookup id with
    | none =>
      rw [(lawful.getOrCreate_added created found).2.2, Finmap.mem_insert]
      exact Or.inr present
    | some old =>
      rw [(lawful.getOrCreate_existed created found).2.2]
      exact present
  · exact (lawful.getOrCreate_location created).2

theorem keeps_createNewAccount {ledger : L} {account : Account} {ledger' : L}
    (created : I.createNewAccount ledger account.id account = .ok ledger') :
    Keeps I view ledger ledger' := by
  constructor
  · intro id present
    rw [(lawful.createNewAccount_view created).1, Finmap.mem_insert]
    exact Or.inr present
  · exact (lawful.createNewAccount_view created).2

end LedgerIntf.FiniteMap

end Keeps

/-! ## Writes through the interface -/

namespace LedgerIntf.FiniteMap

variable {L Loc : Type} {I : LedgerIntf L Loc} {view : L → LedgerView} (lawful : I.FiniteMap view)
include lawful

theorem setWithLocation_spec {ledger ledger' : L} {location : ExistingOrNew Loc} {account : Account}
    (located : ∀ loc, location = .existing loc → I.locationOfAccount ledger account.id = some loc)
    (written : (setWithLocation I ledger location account).run = some (.ok ledger')) :
    view ledger' = (view ledger).insert account.id account ∧ Keeps I view ledger ledger' := by
  cases location with
  | existing loc =>
    simp only [setWithLocation, run_pure_eq_ok] at written
    subst written
    exact ⟨lawful.view_set (located loc rfl), lawful.keeps_set (located loc rfl)⟩
  | new =>
    simp only [setWithLocation] at written
    split at written
    · rename_i ledger'' created
      simp only [run_pure_eq_ok] at written
      subst written
      exact ⟨(lawful.createNewAccount_view created).1, lawful.keeps_createNewAccount created⟩
    · simp at written

end LedgerIntf.FiniteMap

end Openmina.TransactionLogic
