import Mathlib

/-!
# Binary Merkle trees over a sparse view

A tree of a fixed depth whose leaves are read from a view `ℕ → Option α` (leaf
`k` is `view k`, an absent leaf hashes to a fixed empty leaf hash) and whose inner
nodes at height `h` combine their children with `hashNode h`. A node is named by
its height and the index of its leftmost leaf. Authentication paths list the
sibling hashes from the leaf upward.
-/

namespace Openmina.Merkle

set_option autoImplicit false

structure Hasher (α H : Type) where
  hashNode : ℕ → H → H → H
  hashLeaf : α → H
  emptyLeaf : H

/-- One step of an authentication path: the node is the left child and the sibling
is to its right, or the other way round. -/
inductive Step (H : Type)
  | left (sibling : H)
  | right (sibling : H)
  deriving DecidableEq, Repr

namespace Hasher

variable {α H : Type} (hasher : Hasher α H)

def emptyHash : ℕ → H
  | 0 => hasher.emptyLeaf
  | height + 1 => hasher.hashNode height (emptyHash height) (emptyHash height)

def leafHash : Option α → H
  | some leaf => hasher.hashLeaf leaf
  | none => hasher.emptyLeaf

/-- The root of the subtree of `height` whose leftmost leaf is `start`. -/
def subtreeRoot (view : ℕ → Option α) : ℕ → ℕ → H
  | 0, start => hasher.leafHash (view start)
  | height + 1, start =>
    hasher.hashNode height (subtreeRoot view height start)
      (subtreeRoot view height (start + 2 ^ height))

def root (view : ℕ → Option α) (depth : ℕ) : H :=
  hasher.subtreeRoot view depth 0

/-- Climb from a leaf hash along an authentication path, the lowest step first. -/
def foldPath : ℕ → H → List (Step H) → H
  | _, current, [] => current
  | height, current, .left sibling :: rest =>
    foldPath (height + 1) (hasher.hashNode height current sibling) rest
  | height, current, .right sibling :: rest =>
    foldPath (height + 1) (hasher.hashNode height sibling current) rest

theorem subtreeRoot_of_absent (view : ℕ → Option α) (height start : ℕ)
    (absent : ∀ k, start ≤ k → k < start + 2 ^ height → view k = none) :
    hasher.subtreeRoot view height start = hasher.emptyHash height := by
  induction height generalizing start with
  | zero =>
    rw [subtreeRoot, absent start le_rfl (by simp), leafHash, emptyHash]
  | succ height ih =>
    have split : 2 ^ (height + 1) = 2 ^ height + 2 ^ height := by omega
    rw [subtreeRoot, emptyHash,
      ih start (fun k lower upper => absent k lower (by omega)),
      ih (start + 2 ^ height) (fun k lower upper => absent k (by omega) (by omega))]

theorem subtreeRoot_congr {view view' : ℕ → Option α} (height start : ℕ)
    (agree : ∀ k, start ≤ k → k < start + 2 ^ height → view k = view' k) :
    hasher.subtreeRoot view height start = hasher.subtreeRoot view' height start := by
  induction height generalizing start with
  | zero =>
    rw [subtreeRoot, subtreeRoot, agree start le_rfl (by simp)]
  | succ height ih =>
    have split : 2 ^ (height + 1) = 2 ^ height + 2 ^ height := by omega
    rw [subtreeRoot, subtreeRoot,
      ih start (fun k lower upper => agree k lower (by omega)),
      ih (start + 2 ^ height) (fun k lower upper => agree k (by omega) (by omega))]

end Hasher

end Openmina.Merkle
