import Openmina.Ledger.Database

/-!
# Locations of the database after removals

`create_account` places a new account right after `last_location` and asserts that
this is the end of the account vector. `remove_accounts` empties slots without
shrinking the vector and steps `last_location` back by `prev()`, so once the last
account is removed the two disagree and the next creation panics.
-/

namespace Openmina.Ledger.DatabaseImpl

set_option autoImplicit false

variable {Account AccountId : Type} [DecidableEq AccountId] (V : TreeVersion Account AccountId)

omit [DecidableEq AccountId] in
@[simp] theorem remove_accounts_length (db : DatabaseImpl Account AccountId) (addr : Address) :
    (db.remove addr).2.accounts.length = db.accounts.length := by
  unfold remove
  split <;> simp

theorem createAccount_eq_none (db : DatabaseImpl Account AccountId) {accountId : AccountId}
    (account : Account) (fresh : db.idToAddr accountId = none) {location : Address}
    (next : db.nextLocation = .ok location) (gap : location.toIndex ≠ db.accounts.length) :
    db.createAccount accountId account = none := by
  rw [createAccount, fresh]
  simp only [next, if_neg gap]

theorem getOrCreateAccount_eq_none (db : DatabaseImpl Account AccountId) {accountId : AccountId}
    (account : Account) (fresh : db.idToAddr accountId = none) {location : Address}
    (next : db.nextLocation = .ok location) (gap : location.toIndex ≠ db.accounts.length) :
    db.getOrCreateAccount accountId account = none := by
  rw [getOrCreateAccount, createAccount_eq_none db account fresh next gap]
  rfl

theorem removeAt_last (db : DatabaseImpl Account AccountId) {last : Address} {account : Account}
    (lastLocation : db.lastLocation = some last)
    (present : db.accounts[last.toIndex]? = some (some account)) (counted : 0 < db.naccounts) :
    ∃ removed, db.removeAt V last = some removed ∧
      removed.accounts.length = db.accounts.length ∧ removed.lastLocation = last.prev ∧
      ∀ accountId, db.idToAddr accountId = none → removed.idToAddr accountId = none := by
  unfold removeAt
  simp only [remove, present]
  rw [if_neg (by simpa using Nat.pos_iff_ne_zero.mp counted)]
  refine ⟨_, rfl, by simp, by simp [lastLocation], fun accountId fresh => ?_⟩
  simp [Function.update_apply, fresh]

theorem getOrCreateAccount_panics_after_removing_last (db : DatabaseImpl Account AccountId)
    {last : Address} {accountId : AccountId} {account : Account}
    (located : db.idToAddr accountId = some last) (lastLocation : db.lastLocation = some last)
    (full : db.accounts.length = last.toIndex + 1)
    (present : db.accounts[last.toIndex]? = some (some account)) (counted : 0 < db.naccounts)
    (notFirst : 0 < last.toIndex) :
    ∃ removed, db.removeAccounts V [accountId] = some removed ∧
      ∀ freshId newAccount, db.idToAddr freshId = none →
        removed.getOrCreateAccount freshId newAccount = none := by
  let unindexed := { db with idToAddr := Function.update db.idToAddr accountId none }
  obtain ⟨removed, removal, length, stepped, unindexes⟩ :=
    removeAt_last V unindexed lastLocation present counted
  refine ⟨removed, ?_, ?_⟩
  · simp only [removeAccounts, List.foldlM_cons, List.foldlM_nil, located]
    simpa using removal
  · intro freshId newAccount freshBefore
    have fresh : removed.idToAddr freshId = none :=
      unindexes freshId (by simp [unindexed, Function.update_apply, freshBefore])
    -- the previous address, whose successor is the emptied slot
    have indexLt := last.indexLt
    obtain ⟨previous, previousEq⟩ : ∃ previous, last.prev = some previous := by
      cases found : last.prev with
      | none => exact absurd ((Address.prev_eq_none_iff last).mp found) (by
          unfold Address.toIndex at notFirst; omega)
      | some previous => exact ⟨previous, rfl⟩
    obtain ⟨previousLength, previousIndex⟩ := Address.prev_eq_some previousEq
    have lengthPos : 0 < last.length := by
      rcases Nat.eq_zero_or_pos last.length with zero | pos
      · rw [zero] at indexLt
        unfold Address.toIndex at notFirst
        omega
      · exact pos
    have successor : previous.next = some last := by
      have fits : previous.index + 1 < 2 ^ previous.length := by
        rw [previousLength, previousIndex]
        exact indexLt
      unfold Address.next
      rw [if_neg (by rw [previousLength]; omega), dif_pos fits]
      exact congrArg some (Address.ext_index previousLength previousIndex)
    have next : removed.nextLocation = .ok last := by
      rw [nextLocation, stepped, previousEq]
      simp only [successor]
    exact getOrCreateAccount_eq_none removed newAccount fresh next (by
      rw [length]
      simp only [unindexed, full]
      omega)

/-- The run `get_or_create_account(1)`, `get_or_create_account(2)`,
`remove_accounts([2])`, `get_or_create_account(3)` on an empty database of depth
two: the removal leaves `last_location` at the first leaf and one account, yet the
third creation panics. -/
theorem create_after_removing_last_panics :
    let V : TreeVersion ℕ ℕ := ⟨id, fun _ _ _ => 0, fun _ => 0, 0⟩
    (do
        let (_, db) ← (DatabaseImpl.create 2 : DatabaseImpl ℕ ℕ).getOrCreateAccount 1 1
        let (_, db) ← db.getOrCreateAccount 2 2
        let db ← db.removeAccounts V [2]
        pure (db.lastFilled.map Address.toIndex, db.numAccounts)) = some (some 0, 1) ∧
      (do
        let (_, db) ← (DatabaseImpl.create 2 : DatabaseImpl ℕ ℕ).getOrCreateAccount 1 1
        let (_, db) ← db.getOrCreateAccount 2 2
        let db ← db.removeAccounts V [2]
        db.getOrCreateAccount 3 3) = none := by
  intro V
  refine ⟨by decide +kernel, ?_⟩
  -- the database after the two creations: its last account sits at leaf 1
  let created := (((DatabaseImpl.create 2 : DatabaseImpl ℕ ℕ).getOrCreateAccount 1 1).bind fun created =>
    created.2.getOrCreateAccount 2 2).map Prod.snd |>.getD (DatabaseImpl.create 2)
  obtain ⟨removed, removal, panics⟩ := @getOrCreateAccount_panics_after_removing_last ℕ ℕ _ V created
    (Address.fromIndex 1 2) 2 2 (by decide +kernel) (by decide +kernel) (by decide +kernel) (by decide +kernel)
    (by decide +kernel) (by decide +kernel)
  change (created.removeAccounts V [2]).bind (fun db => db.getOrCreateAccount 3 3) = none
  rw [removal]
  exact panics 3 3 (by decide +kernel)

end Openmina.Ledger.DatabaseImpl
