import Openmina.Ledger.Mask

/-!
# Cached hashes of masks

A mask caches the inner hashes of its view. `set_impl` notifies every child, which
drops the hashes above the written leaf, but `get_or_create_account` does not: the
loop over the children is commented out in `mask_impl.rs`. A child that computed
its root before its parent created an account keeps returning that root, while its
`merkle_path` reads the new account from the parent and climbs to the new root.
-/

namespace Openmina.Ledger

open Openmina.Numbers.Checked Openmina.Merkle

set_option autoImplicit false

def MerklePath.toStep : MerklePath → Step Fp
  | .left hash => .left hash
  | .right hash => .right hash

namespace MaskChain

variable {Account : Type} [DecidableEq Account] (V : TreeVersion Account ℕ)

/-- A database of depth one holds `a` at leaf 0 (id 1); a child mask writes `a'`
there and computes its root; the root mask then creates `b` (id 2) at leaf 1. -/
def parentCreationRun (a a' b : Account) : Option (MaskChain Account ℕ) := do
  let (_, chain) ← (⟨DatabaseImpl.create 1, []⟩ : MaskChain Account ℕ).getOrCreateAccount 0 1 a
  let chain := chain.makeChild
  let chain ← chain.set V 1 (Address.fromIndex 0 1) a'
  let (_, chain) ← merkleRoot V 1 chain
  let (_, chain) ← chain.getOrCreateAccount 0 2 b
  pure chain

theorem parentCreationRun_spec (a a' b : Account) :
    ∃ chain, parentCreationRun V a a' b = some chain ∧
      chain.view 1 0 = some a' ∧ chain.view 1 1 = some b ∧
      (merkleRoot V 1 chain).map Prod.fst = some (V.hashNode 0 (V.hashLeaf a') (V.emptyHashAtHeight 0)) ∧
      (merklePath V 1 (Address.fromIndex 0 1) chain).map Prod.fst = some [.left (V.hashLeaf b)] := by
  with_unfolding_all exact ⟨_, rfl, rfl, rfl, rfl, rfl⟩

omit [DecidableEq Account] in
theorem hasher_root_one (view : ℕ → Option Account) :
    V.hasher.root view 1 = V.hashNode 0 (V.hasher.leafHash (view 0)) (V.hasher.leafHash (view 1)) :=
  rfl

/-- After the parent creates an account, the child's `merkle_root` is not the root
of the child's view, for any hashes that tell the new leaf from the empty one. -/
theorem child_root_stale_after_parent_creates (a a' b : Account)
    (separates : V.hashNode 0 (V.hashLeaf a') (V.hashLeaf b) ≠
      V.hashNode 0 (V.hashLeaf a') (V.emptyHashAtHeight 0)) :
    ∃ chain, parentCreationRun V a a' b = some chain ∧
      chain.view 1 0 = some a' ∧ chain.view 1 1 = some b ∧
      ∃ root computed, merkleRoot V 1 chain = some (root, computed) ∧
        root ≠ V.hasher.root (chain.view 1) 1 := by
  obtain ⟨chain, run, left, right, stale, -⟩ := parentCreationRun_spec V a a' b
  obtain ⟨⟨root, computed⟩, rooted, rfl⟩ := Option.map_eq_some_iff.mp stale
  refine ⟨chain, run, left, right, _, computed, rooted, ?_⟩
  rw [hasher_root_one, left, right]
  exact separates.symm

/-- The identity-like hashes of the witnesses: a leaf hashes to the account, an
inner node to its right child. -/
def rightHashes : TreeVersion ℕ ℕ :=
  ⟨id, fun _ _ right => right, fun account => (account : Fp), 0⟩

theorem child_root_stale_after_parent_creates_right_hashes :
    rightHashes.hashNode 0 (rightHashes.hashLeaf 3) (rightHashes.hashLeaf 2) ≠
        rightHashes.hashNode 0 (rightHashes.hashLeaf 3) (rightHashes.emptyHashAtHeight 0) ∧
      ∃ chain, parentCreationRun rightHashes 1 3 2 = some chain ∧
        chain.view 1 0 = some 3 ∧ chain.view 1 1 = some 2 ∧
        ∃ root computed, merkleRoot rightHashes 1 chain = some (root, computed) ∧
          root ≠ rightHashes.hasher.root (chain.view 1) 1 :=
  ⟨by decide, child_root_stale_after_parent_creates rightHashes 1 3 2 (by decide)⟩

/-- In the same state the child's path to leaf 0 has one entry and climbs to the
root of its view, which is not what its `merkle_root` returns. -/
theorem child_path_misses_stale_root (a a' b : Account)
    (separates : V.hashNode 0 (V.hashLeaf a') (V.hashLeaf b) ≠
      V.hashNode 0 (V.hashLeaf a') (V.emptyHashAtHeight 0)) :
    ∃ chain, parentCreationRun V a a' b = some chain ∧
      ∃ root computed path walked, merkleRoot V 1 chain = some (root, computed) ∧
        merklePath V 1 (Address.fromIndex 0 1) chain = some (path, walked) ∧ path.length = 1 ∧
        V.hasher.foldPath 0 (V.hashLeaf a') (path.map MerklePath.toStep) = V.hasher.root (chain.view 1) 1 ∧
        V.hasher.foldPath 0 (V.hashLeaf a') (path.map MerklePath.toStep) ≠ root := by
  obtain ⟨chain, run, left, right, stale, pathIs⟩ := parentCreationRun_spec V a a' b
  obtain ⟨⟨root, computed⟩, rooted, rfl⟩ := Option.map_eq_some_iff.mp stale
  obtain ⟨⟨path, walked⟩, pathed, rfl⟩ := Option.map_eq_some_iff.mp pathIs
  have climbs : V.hasher.foldPath 0 (V.hashLeaf a') ([MerklePath.left (V.hashLeaf b)].map MerklePath.toStep) =
      V.hashNode 0 (V.hashLeaf a') (V.hashLeaf b) :=
    rfl
  refine ⟨chain, run, _, computed, _, walked, rooted, pathed, rfl, ?_, ?_⟩
  · rw [climbs, hasher_root_one, left, right]
    rfl
  · rw [climbs]
    exact separates

theorem child_path_misses_stale_root_right_hashes :
    rightHashes.hashNode 0 (rightHashes.hashLeaf 3) (rightHashes.hashLeaf 2) ≠
        rightHashes.hashNode 0 (rightHashes.hashLeaf 3) (rightHashes.emptyHashAtHeight 0) ∧
      ∃ chain, parentCreationRun rightHashes 1 3 2 = some chain ∧
        ∃ root computed path walked, merkleRoot rightHashes 1 chain = some (root, computed) ∧
          merklePath rightHashes 1 (Address.fromIndex 0 1) chain = some (path, walked) ∧ path.length = 1 ∧
          rightHashes.hasher.foldPath 0 (rightHashes.hashLeaf 3) (path.map MerklePath.toStep) =
            rightHashes.hasher.root (chain.view 1) 1 ∧
          rightHashes.hasher.foldPath 0 (rightHashes.hashLeaf 3) (path.map MerklePath.toStep) ≠ root :=
  ⟨by decide, child_path_misses_stale_root rightHashes 1 3 2 (by decide)⟩

end MaskChain

end Openmina.Ledger
