import Openmina.TransactionLogic.FiniteMap
import Openmina.Arith.FinmapTotal

/-!
# What a transaction does to the ledger

The accounting of a transaction, in terms of the ledger's view: by how much the
total balance of the default-token accounts moves, which ids may change, and which
accounts are created. An `Effect` composes along the writes of a transaction, and
one write is one `Finmap.insert`.
-/

namespace Openmina.TransactionLogic

open Openmina.ScanState.FeeExcessCombine (TokenId)
open Openmina.Arith.FinmapTotal

set_option autoImplicit false

def balanceWeight (account : Account) : ℤ :=
  if account.tokenId = TokenId.default then account.balance.toNat else 0

def totalBalance (view : LedgerView) : ℤ :=
  total balanceWeight view

theorem balanceWeight_of_default {account : Account} (default : account.tokenId = TokenId.default) :
    balanceWeight account = account.balance.toNat := by
  simp [balanceWeight, default]

theorem balanceWeight_of_id {account : Account} {accountId : AccountId}
    (identified : account.id = accountId) (default : accountId.tokenId = TokenId.default) :
    balanceWeight account = account.balance.toNat := by
  apply balanceWeight_of_default
  rw [← Account.id_tokenId, identified, default]

@[simp] theorem balanceWeight_initial (accountId : AccountId) :
    balanceWeight (Account.initial accountId) = 0 := by
  simp [balanceWeight, Account.initial, Account.createWith]

/-- From `view` to `view'`, the total balance moves by `delta`, no account
disappears, only the ids in `named` change, and `newAccounts` lists, once each,
the accounts created. -/
structure Effect (view view' : LedgerView) (named newAccounts : List AccountId) (delta : ℤ) :
    Prop where
  total : totalBalance view' = totalBalance view + delta
  grows : ∀ id ∈ view, id ∈ view'
  frame : ∀ id, view'.lookup id ≠ view.lookup id → id ∈ named
  created : ∀ id, id ∈ newAccounts ↔ id ∉ view ∧ id ∈ view'
  nodup : newAccounts.Nodup

namespace Effect

theorem refl (view : LedgerView) : Effect view view [] [] 0 := by
  constructor
  · rw [add_zero]
  · intro id present
    exact present
  · intro id changed
    exact absurd rfl changed
  · intro id
    simp only [List.not_mem_nil, false_iff, not_and]
    intro absent
    exact absent
  · exact List.nodup_nil

theorem insert (view : LedgerView) (id : AccountId) (account : Account) :
    Effect view (view.insert id account) [id] (if id ∈ view then [] else [id])
      (balanceWeight account - weightAt balanceWeight view id) := by
  constructor
  · rw [totalBalance, totalBalance, total_insert]
    omega
  · intro other present
    rw [Finmap.mem_insert]
    exact Or.inr present
  · intro other changed
    by_cases same : other = id
    · rw [same]
      exact List.mem_singleton_self id
    · exact absurd (Finmap.lookup_insert_of_ne view same) changed
  · intro other
    by_cases present : id ∈ view
    · simp only [present, if_true, List.not_mem_nil, false_iff, not_and, Finmap.mem_insert,
        not_or]
      intro absent
      exact ⟨fun same => absent (same ▸ present), absent⟩
    · simp only [present, if_false, List.mem_singleton, Finmap.mem_insert]
      constructor
      · rintro rfl
        exact ⟨present, Or.inl rfl⟩
      · rintro ⟨absent, rfl | inside⟩
        · rfl
        · exact absurd inside absent
  · split_ifs
    · exact List.nodup_nil
    · exact List.nodup_singleton id

theorem trans {view view' view'' : LedgerView} {named named' newAccounts newAccounts' : List AccountId}
    {delta delta' : ℤ} (first : Effect view view' named newAccounts delta)
    (second : Effect view' view'' named' newAccounts' delta') :
    Effect view view'' (named ++ named') (newAccounts ++ newAccounts') (delta + delta') := by
  constructor
  · rw [second.total, first.total]
    omega
  · intro id present
    exact second.grows id (first.grows id present)
  · intro id changed
    rw [List.mem_append]
    by_cases moved : view''.lookup id = view'.lookup id
    · rw [moved] at changed
      exact Or.inl (first.frame id changed)
    · exact Or.inr (second.frame id moved)
  · intro id
    rw [List.mem_append, first.created, second.created]
    constructor
    · rintro (⟨absent, present⟩ | ⟨absent, present⟩)
      · exact ⟨absent, second.grows id present⟩
      · exact ⟨fun before => absent (first.grows id before), present⟩
    · rintro ⟨absent, present⟩
      by_cases between : id ∈ view'
      · exact Or.inl ⟨absent, between⟩
      · exact Or.inr ⟨between, present⟩
  · rw [List.nodup_append]
    refine ⟨first.nodup, second.nodup, ?_⟩
    intro id early id' late same
    subst same
    exact ((second.created id).mp late).1 ((first.created id).mp early).2

theorem cast {view view' : LedgerView} {named newAccounts newAccounts' : List AccountId}
    {delta delta' : ℤ} (effect : Effect view view' named newAccounts delta)
    (sameNew : newAccounts = newAccounts') (sameDelta : delta = delta') :
    Effect view view' named newAccounts' delta' := by
  subst sameNew sameDelta
  exact effect

theorem lookup_eq_of_not_mem {view view' : LedgerView} {named newAccounts : List AccountId}
    {delta : ℤ} (effect : Effect view view' named newAccounts delta) {id : AccountId}
    (outside : id ∉ named) : view'.lookup id = view.lookup id := by
  by_contra changed
  exact outside (effect.frame id changed)

theorem newAccounts_subset {view view' : LedgerView} {named newAccounts : List AccountId}
    {delta : ℤ} (effect : Effect view view' named newAccounts delta) : newAccounts ⊆ named := by
  intro id member
  obtain ⟨absent, present⟩ := (effect.created id).mp member
  apply effect.frame id
  intro same
  rw [Finmap.lookup_eq_none.mpr absent] at same
  exact Finmap.lookup_eq_none.mp same present

theorem length_newAccounts_le {view view' : LedgerView} {named newAccounts : List AccountId}
    {delta : ℤ} (effect : Effect view view' named newAccounts delta) :
    newAccounts.length ≤ named.length :=
  (List.subperm_of_subset effect.nodup effect.newAccounts_subset).length_le

theorem mono {view view' : LedgerView} {named named' newAccounts : List AccountId} {delta : ℤ}
    (effect : Effect view view' named newAccounts delta) (wider : ∀ id ∈ named, id ∈ named') :
    Effect view view' named' newAccounts delta :=
  { effect with frame := fun id changed => wider id (effect.frame id changed) }

end Effect

/-! ## The effects of the ledger operations -/

namespace LedgerIntf.FiniteMap

variable {L Loc : Type} {I : LedgerIntf L Loc} {view : L → LedgerView} (lawful : I.FiniteMap view)
include lawful

theorem lookup_set {ledger : L} {loc : Loc} {account : Account}
    (located : I.locationOfAccount ledger account.id = some loc) :
    (view (I.set ledger loc account)).lookup account.id = some account := by
  rw [lawful.view_set located, Finmap.lookup_insert]

theorem set_effect {ledger : L} {loc : Loc} {account old : Account}
    (located : I.locationOfAccount ledger account.id = some loc)
    (found : (view ledger).lookup account.id = some old) :
    Effect (view ledger) (view (I.set ledger loc account)) [account.id] []
      (balanceWeight account - balanceWeight old) := by
  have written := Effect.insert (view ledger) account.id account
  rw [if_pos (Finmap.mem_of_lookup_eq_some found), weightAt_of_lookup _ _ found] at written
  rw [lawful.view_set located]
  exact written

theorem set_balance_effect {ledger : L} {loc : Loc} {accountId : AccountId} {account old : Account}
    (identified : account.id = accountId) (default : accountId.tokenId = TokenId.default)
    (located : I.locationOfAccount ledger accountId = some loc)
    (found : (view ledger).lookup accountId = some old) :
    (view (I.set ledger loc account)).lookup accountId = some account ∧
      Effect (view ledger) (view (I.set ledger loc account)) [accountId] []
        ((account.balance.toNat : ℤ) - old.balance.toNat) := by
  subst identified
  have effect := lawful.set_effect located found
  rw [balanceWeight_of_id rfl default, balanceWeight_of_id (lawful.id_lookup found) default] at effect
  exact ⟨lawful.lookup_set located, effect⟩

theorem getOrCreate_effect {ledger ledger' : L} {id : AccountId} {state : AccountState}
    {account : Account} {loc : Loc}
    (created : I.getOrCreate ledger id = .ok (state, account, loc, ledger')) :
    Effect (view ledger) (view ledger') [id] (if id ∈ view ledger then [] else [id]) 0 := by
  cases found : (view ledger).lookup id with
  | none =>
    have absent : id ∉ view ledger := Finmap.lookup_eq_none.mp found
    have written := Effect.insert (view ledger) id (Account.initial id)
    rw [(lawful.getOrCreate_added created found).2.2]
    simpa [weightAt, found] using written
  | some old =>
    rw [(lawful.getOrCreate_existed created found).2.2, if_pos (Finmap.mem_of_lookup_eq_some found)]
    exact (Effect.refl (view ledger)).mono fun _ none => absurd none (List.not_mem_nil)

theorem getOrCreate_lookup {ledger ledger' : L} {id : AccountId} {state : AccountState}
    {account : Account} {loc : Loc}
    (created : I.getOrCreate ledger id = .ok (state, account, loc, ledger')) :
    (view ledger').lookup id = some account ∧
      account = ((view ledger).lookup id).getD (Account.initial id) ∧
      state = if id ∈ view ledger then .existed else .added := by
  cases found : (view ledger).lookup id with
  | none =>
    obtain ⟨rfl, rfl, viewed⟩ := lawful.getOrCreate_added created found
    rw [viewed, Finmap.lookup_insert, if_neg (Finmap.lookup_eq_none.mp found)]
    exact ⟨rfl, rfl, rfl⟩
  | some old =>
    obtain ⟨rfl, rfl, viewed⟩ := lawful.getOrCreate_existed created found
    rw [viewed, found, if_pos (Finmap.mem_of_lookup_eq_some found)]
    exact ⟨rfl, rfl, rfl⟩

end LedgerIntf.FiniteMap

end Openmina.TransactionLogic
