import Mathlib
import Openmina.Ledger.Address
import Openmina.Numbers.Checked

/-!
# The cache of inner hashes

`HashesMatrix` of `ledger/src/tree.rs`: a map from the linear index of an address
to the hash cached for it, and the memo `empty_hashes` of the empty-subtree hash
at each height. `empty_hash_at_height` writes into the memo, and panics past its
end: `new` makes it as long as the depth, `take` leaves it empty. The table
`HASH_EMPTIES` it reads is a parameter, the tree version's empty hashes; its bound
of 36 heights (the ledger depth is 35) is not modelled. Neither is the counter
`nhashes`, which no modelled function reads.
-/

namespace Openmina.Ledger

open Openmina.Numbers.Checked

set_option autoImplicit false

structure HashesMatrix where
  matrix : ℕ → Option Fp
  emptyHashes : List (Option Fp)
  ledgerDepth : ℕ

namespace HashesMatrix

def new (ledgerDepth : ℕ) : HashesMatrix :=
  ⟨fun _ => none, List.replicate ledgerDepth none, ledgerDepth⟩

def get (hashes : HashesMatrix) (addr : Address) : Option Fp :=
  hashes.matrix addr.toLinearIndex

def insertAt (hashes : HashesMatrix) (linear : ℕ) (hash : Fp) : HashesMatrix :=
  { hashes with matrix := Function.update hashes.matrix linear (some hash) }

/-- `set`, which asserts that nothing was cached at the address. -/
def set (hashes : HashesMatrix) (addr : Address) (hash : Fp) : Option HashesMatrix :=
  if (hashes.get addr).isSome then none else some (hashes.insertAt addr.toLinearIndex hash)

def removeAtIndex (hashes : HashesMatrix) (linear : ℕ) : HashesMatrix :=
  { hashes with matrix := Function.update hashes.matrix linear none }

def remove (hashes : HashesMatrix) (addr : Address) : HashesMatrix :=
  hashes.removeAtIndex addr.toLinearIndex

/-- The loop of `invalidate_hashes`: the node at `length` and `index` and all its
ancestors, climbing by `parent()`. -/
def invalidatePath (hashes : HashesMatrix) : (length index : ℕ) → HashesMatrix
  | 0, index => hashes.removeAtIndex (2 ^ 0 + index - 1)
  | length + 1, index =>
    (hashes.removeAtIndex (2 ^ (length + 1) + index - 1)).invalidatePath length (index / 2)

def invalidateHashes (hashes : HashesMatrix) (accountIndex : ℕ) : HashesMatrix :=
  let addr := Address.fromIndex accountIndex hashes.ledgerDepth
  hashes.invalidatePath addr.length addr.index

def transfertHashes (hashes other : HashesMatrix) : HashesMatrix :=
  { hashes with matrix := fun linear => (other.matrix linear).or (hashes.matrix linear) }

/-- `empty_hash_at_height`: the memo's hash, else the table's, written into the memo. -/
def emptyHashAtHeight (hashEmpties : ℕ → Fp) (height : ℕ) (hashes : HashesMatrix) :
    Option (Fp × HashesMatrix) :=
  match hashes.emptyHashes[height]? with
  | some (some hash) => some (hash, hashes)
  | some none =>
    let hash := hashEmpties height
    some (hash, { hashes with emptyHashes := hashes.emptyHashes.set height (some hash) })
  -- `self.empty_hashes[height] = Some(hash)` past the end of the memo
  | none => none

/-- `take`: the matrix and the memo move out; what is left has neither, and keeps
the depth. -/
def take (hashes : HashesMatrix) : HashesMatrix × HashesMatrix :=
  (hashes, ⟨fun _ => none, [], hashes.ledgerDepth⟩)

@[simp] theorem get_insertAt (hashes : HashesMatrix) (addr : Address) (linear : ℕ) (hash : Fp) :
    (hashes.insertAt linear hash).get addr =
      if addr.toLinearIndex = linear then some hash else hashes.get addr := by
  simp only [get, insertAt, Function.update_apply]

@[simp] theorem get_removeAtIndex (hashes : HashesMatrix) (addr : Address) (linear : ℕ) :
    (hashes.removeAtIndex linear).get addr =
      if addr.toLinearIndex = linear then none else hashes.get addr := by
  simp only [get, removeAtIndex, Function.update_apply]

@[simp] theorem insertAt_emptyHashes (hashes : HashesMatrix) (linear : ℕ) (hash : Fp) :
    (hashes.insertAt linear hash).emptyHashes = hashes.emptyHashes :=
  rfl

@[simp] theorem insertAt_ledgerDepth (hashes : HashesMatrix) (linear : ℕ) (hash : Fp) :
    (hashes.insertAt linear hash).ledgerDepth = hashes.ledgerDepth :=
  rfl

@[simp] theorem removeAtIndex_ledgerDepth (hashes : HashesMatrix) (linear : ℕ) :
    (hashes.removeAtIndex linear).ledgerDepth = hashes.ledgerDepth :=
  rfl

theorem invalidatePath_ledgerDepth (hashes : HashesMatrix) (length index : ℕ) :
    (hashes.invalidatePath length index).ledgerDepth = hashes.ledgerDepth := by
  induction length generalizing hashes index with
  | zero => rfl
  | succ length ih => rw [invalidatePath, ih, removeAtIndex_ledgerDepth]

@[simp] theorem invalidateHashes_ledgerDepth (hashes : HashesMatrix) (accountIndex : ℕ) :
    (hashes.invalidateHashes accountIndex).ledgerDepth = hashes.ledgerDepth :=
  invalidatePath_ledgerDepth _ _ _

theorem invalidatePath_emptyHashes (hashes : HashesMatrix) (length index : ℕ) :
    (hashes.invalidatePath length index).emptyHashes = hashes.emptyHashes := by
  induction length generalizing hashes index with
  | zero => rfl
  | succ length ih =>
    rw [invalidatePath, ih]
    rfl

@[simp] theorem invalidateHashes_emptyHashes (hashes : HashesMatrix) (accountIndex : ℕ) :
    (hashes.invalidateHashes accountIndex).emptyHashes = hashes.emptyHashes :=
  invalidatePath_emptyHashes _ _ _

theorem invalidatePath_get_of_some (hashes : HashesMatrix) (length index : ℕ) (addr : Address)
    {hash : Fp} (cached : (hashes.invalidatePath length index).get addr = some hash) :
    hashes.get addr = some hash := by
  induction length generalizing hashes index with
  | zero =>
    rw [invalidatePath, get_removeAtIndex] at cached
    split_ifs at cached
    exact cached
  | succ length ih =>
    rw [invalidatePath] at cached
    have below := ih _ _ cached
    rw [get_removeAtIndex] at below
    split_ifs at below
    exact below

theorem get_invalidatePath_of_onPath (hashes : HashesMatrix) (length index : ℕ) (addr : Address)
    (above : addr.length ≤ length) (onPath : addr.index = index / 2 ^ (length - addr.length)) :
    (hashes.invalidatePath length index).get addr = none := by
  induction length generalizing hashes index with
  | zero =>
    have root : addr.length = 0 := by omega
    rw [invalidatePath, get_removeAtIndex, if_pos]
    simp [Address.toLinearIndex, root, onPath]
  | succ length ih =>
    rw [invalidatePath]
    by_cases here : addr.length = length + 1
    · -- `addr` is removed first; the rest of the path only forgets more
      cases cached : ((hashes.removeAtIndex (2 ^ (length + 1) + index - 1)).invalidatePath length
          (index / 2)).get addr with
      | none => rfl
      | some hash =>
        have before := invalidatePath_get_of_some _ _ _ addr cached
        rw [get_removeAtIndex, if_pos (by simp [Address.toLinearIndex, here, onPath])] at before
        cases before
    · apply ih _ _ (by omega)
      rw [onPath, show length + 1 - addr.length = length - addr.length + 1 by omega, Nat.pow_succ,
        Nat.mul_comm, ← Nat.div_div_eq_div_mul]

/-- `invalidate_hashes` drops the hash of every ancestor of the account's leaf. -/
theorem get_invalidateHashes_of_onPath (hashes : HashesMatrix) {accountIndex : ℕ}
    (fits : accountIndex < 2 ^ hashes.ledgerDepth) (addr : Address) (above : addr.length ≤ hashes.ledgerDepth)
    (onPath : addr.index = accountIndex / 2 ^ (hashes.ledgerDepth - addr.length)) :
    (hashes.invalidateHashes accountIndex).get addr = none := by
  apply get_invalidatePath_of_onPath _ _ _ _ above
  change addr.index = accountIndex % 2 ^ hashes.ledgerDepth / 2 ^ (hashes.ledgerDepth - addr.length)
  rw [Nat.mod_eq_of_lt fits]
  exact onPath

/-! ## The memo of empty hashes -/

section Memo

variable {hashEmpties : ℕ → Fp} {height : ℕ} {hashes : HashesMatrix}

/-- What `empty_hash_at_height` can do: below the end of the memo, return the
memo's hash or the table's, and leave that hash in the memo; nothing else changes. -/
theorem emptyHashAtHeight_eq_some {result : Fp × HashesMatrix}
    (run : hashes.emptyHashAtHeight hashEmpties height = some result) :
    height < hashes.emptyHashes.length ∧
      result.2 = { hashes with emptyHashes := hashes.emptyHashes.set height (some result.1) } ∧
      (hashes.emptyHashes[height]? = some (some result.1) ∨ result.1 = hashEmpties height) := by
  unfold emptyHashAtHeight at run
  split at run
  · rename_i hash found
    cases run
    obtain ⟨lt, entry⟩ := List.getElem?_eq_some_iff.mp found
    refine ⟨lt, ?_, .inl found⟩
    rw [← entry, List.set_getElem_self]
  · rename_i found
    cases run
    exact ⟨(List.getElem?_eq_some_iff.mp found).1, rfl, .inr rfl⟩
  · cases run

theorem emptyHashAtHeight_isSome (hashEmpties : ℕ → Fp) (lt : height < hashes.emptyHashes.length) :
    ∃ result, hashes.emptyHashAtHeight hashEmpties height = some result := by
  unfold emptyHashAtHeight
  rw [List.getElem?_eq_getElem lt]
  cases hashes.emptyHashes[height] <;> simp

/-- Every hash in the memo is the table's at its height. -/
def MemoSound (hashEmpties : ℕ → Fp) (hashes : HashesMatrix) : Prop :=
  ∀ height hash, hashes.emptyHashes[height]? = some (some hash) → hash = hashEmpties height

theorem MemoSound.emptyHashAtHeight (sound : MemoSound hashEmpties hashes) {result : Fp × HashesMatrix}
    (run : hashes.emptyHashAtHeight hashEmpties height = some result) :
    result.1 = hashEmpties height ∧ MemoSound hashEmpties result.2 := by
  obtain ⟨-, written, fromMemo⟩ := emptyHashAtHeight_eq_some run
  have value : result.1 = hashEmpties height := fromMemo.elim (sound height result.1) id
  refine ⟨value, fun other hash found => ?_⟩
  rw [written, List.getElem?_set] at found
  split_ifs at found with same
  · simp only [Option.some.injEq] at found
    rw [← found, ← same, value]
  · exact sound other hash found

end Memo

end HashesMatrix

end Openmina.Ledger
