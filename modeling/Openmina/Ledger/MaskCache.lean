import Openmina.Arith.ListIndex
import Openmina.Ledger.Mask

/-!
# What the hash computations change

`emulate_tree_recursive` and `compute_hash_or_parent` only fill cache slots that
were empty and slots of the memos of empty hashes: the accounts, the indexes and
the last locations stay, and a computation started at a mask writes only to that
mask and the ones above it. A node whose hash a computation cached is read back
from the cache by the next one, whatever its last account. A computation panics
only where it reads an empty hash past the end of a memo, and none does while the
memos of the levels it reads hold every height of the tree.
-/

namespace Openmina.Ledger

open Openmina.Numbers.Checked Openmina.Arith.ListIndex

set_option autoImplicit false

namespace HashesMatrix

def clear (hashes : HashesMatrix) : HashesMatrix :=
  { hashes with matrix := fun _ => none, emptyHashes := hashes.emptyHashes.map fun _ => none }

theorem emptyHashAtHeight_keeps {hashEmpties : ℕ → Fp} {height : ℕ} {hashes : HashesMatrix}
    {result : Fp × HashesMatrix} (run : hashes.emptyHashAtHeight hashEmpties height = some result) :
    result.2.clear = hashes.clear ∧ result.2.matrix = hashes.matrix := by
  obtain ⟨-, written, -⟩ := emptyHashAtHeight_eq_some run
  rw [written]
  exact ⟨by simp [clear], rfl⟩

theorem length_emptyHashes_clear (hashes : HashesMatrix) :
    hashes.clear.emptyHashes.length = hashes.emptyHashes.length :=
  List.length_map _

end HashesMatrix

namespace DatabaseImpl

variable {Account AccountId : Type} (V : TreeVersion Account AccountId)

def clearHashes (db : DatabaseImpl Account AccountId) : DatabaseImpl Account AccountId :=
  { db with hashesMatrix := db.hashesMatrix.clear }

@[simp] theorem get_clearHashes (db : DatabaseImpl Account AccountId) (addr : Address) :
    db.clearHashes.get addr = db.get addr :=
  rfl

/-- `db'` is `db` with some empty cache slots and memo slots filled. -/
structure Fills (db db' : DatabaseImpl Account AccountId) : Prop where
  data : db'.clearHashes = db.clearHashes
  keeps : ∀ addr hash, db.hashesMatrix.get addr = some hash → db'.hashesMatrix.get addr = some hash

theorem Fills.refl (db : DatabaseImpl Account AccountId) : Fills db db :=
  ⟨rfl, fun _ _ cached => cached⟩

theorem Fills.trans {db db' db'' : DatabaseImpl Account AccountId} (first : Fills db db')
    (second : Fills db' db'') : Fills db db'' :=
  ⟨second.data.trans first.data, fun addr hash cached => second.keeps addr hash (first.keeps addr hash cached)⟩

theorem Fills.memo_length {db db' : DatabaseImpl Account AccountId} (fills : Fills db db') :
    db'.hashesMatrix.emptyHashes.length = db.hashesMatrix.emptyHashes.length := by
  have cleared := congrArg (fun db => db.hashesMatrix.clear.emptyHashes.length) fills.data
  simpa only [clearHashes, HashesMatrix.clear, HashesMatrix.length_emptyHashes_clear, List.length_map]
    using cleared

theorem fills_insertAt (db : DatabaseImpl Account AccountId) {addr : Address}
    (empty : db.hashesMatrix.get addr = none) (hash : Fp) :
    Fills db { db with hashesMatrix := db.hashesMatrix.insertAt addr.toLinearIndex hash } where
  data := rfl
  keeps other cachedHash cached := by
    rw [HashesMatrix.get_insertAt]
    split_ifs with same
    · -- `other` names the slot of `addr`, which was empty
      rw [HashesMatrix.get, same] at cached
      rw [HashesMatrix.get] at empty
      rw [empty] at cached
      exact absurd cached (by simp)
    · exact cached

theorem emptyHashAtHeight_fills {height : ℕ} {db : DatabaseImpl Account AccountId}
    {result : Fp × DatabaseImpl Account AccountId} (run : db.emptyHashAtHeight V height = some result) :
    Fills db result.2 := by
  obtain ⟨⟨hash, hashes⟩, memo, rfl⟩ := Option.map_eq_some_iff.mp run
  obtain ⟨cleared, same⟩ := HashesMatrix.emptyHashAtHeight_keeps memo
  dsimp only at cleared same
  refine ⟨by simp only [clearHashes, cleared], fun addr hash cached => ?_⟩
  simpa only [HashesMatrix.get, same] using cached

theorem emptyHashAtHeight_isSome {height : ℕ} {db : DatabaseImpl Account AccountId}
    (lt : height < db.hashesMatrix.emptyHashes.length) :
    ∃ result, db.emptyHashAtHeight V height = some result := by
  obtain ⟨result, memo⟩ := HashesMatrix.emptyHashAtHeight_isSome V.emptyHashAtHeight lt
  exact ⟨_, by rw [emptyHashAtHeight, memo]; rfl⟩

theorem getAccountHash_fills (db : DatabaseImpl Account AccountId)
    (accountIndex : ℕ) : Fills db (db.getAccountHash V accountIndex).2 := by
  unfold getAccountHash
  dsimp only
  split
  · exact .refl db
  · rename_i empty
    split
    · exact .refl db
    · exact fills_insertAt db empty _

section Emulate

variable (lastAccount : Address)

theorem childHash_fills (height : ℕ)
    {compute : Address → DatabaseImpl Account AccountId → Option (Fp × DatabaseImpl Account AccountId)}
    (computeFills : ∀ child db result, compute child db = some result → Fills db result.2)
    {child : Address} {db : DatabaseImpl Account AccountId} {result : Fp × DatabaseImpl Account AccountId}
    (run : childHash V lastAccount height compute child db = some result) : Fills db result.2 := by
  unfold childHash at run
  split at run
  · cases run
    exact .refl db
  · split at run
    · exact computeFills child db result run
    · exact emptyHashAtHeight_fills V run

theorem cacheHash_fills (addr : Address) (hash : Fp) (db : DatabaseImpl Account AccountId) :
    Fills db (cacheHash addr hash db).2 := by
  unfold cacheHash
  split
  · exact .refl db
  · rename_i empty
    exact fills_insertAt db empty hash

theorem emulateTreeRecursive_zero_fills {addr : Address} {db : DatabaseImpl Account AccountId}
    {result : Fp × DatabaseImpl Account AccountId}
    (run : emulateTreeRecursive V lastAccount 0 addr db = some result) : Fills db result.2 := by
  have fills := getAccountHash_fills V db addr.toIndex
  unfold emulateTreeRecursive at run
  split at run
  · rename_i hash db' found
    cases run
    rw [found] at fills
    exact fills
  · rename_i db' found
    rw [found] at fills
    exact fills.trans (emptyHashAtHeight_fills V run)

theorem emulateTreeRecursive_succ (height : ℕ)
    (below : ∀ addr db result, emulateTreeRecursive V lastAccount height addr db = some result →
      Fills db result.2)
    {addr : Address} {db : DatabaseImpl Account AccountId} {result : Fp × DatabaseImpl Account AccountId}
    (run : emulateTreeRecursive V lastAccount (height + 1) addr db = some result) :
    ∃ hash db', Fills db db' ∧ result = cacheHash addr hash db' := by
  simp only [emulateTreeRecursive, Option.bind_eq_bind, Option.bind_eq_some_iff, Option.pure_def,
    Option.some.injEq] at run
  obtain ⟨left, leftRun, right, rightRun, rfl⟩ := run
  exact ⟨_, right.2, (childHash_fills V lastAccount height below leftRun).trans
    (childHash_fills V lastAccount height below rightRun), rfl⟩

theorem emulateTreeRecursive_fills :
    ∀ (height : ℕ) (addr : Address) (db : DatabaseImpl Account AccountId) (result : Fp × DatabaseImpl Account AccountId),
      emulateTreeRecursive V lastAccount height addr db = some result → Fills db result.2
  | 0, _, _, _, run => emulateTreeRecursive_zero_fills V lastAccount run
  | height + 1, _, _, _, run => by
    obtain ⟨hash, db', children, rfl⟩ :=
      emulateTreeRecursive_succ V lastAccount height (emulateTreeRecursive_fills height) run
    exact children.trans (cacheHash_fills _ _ _)

theorem emulateTreeRecursive_isSome :
    ∀ (height : ℕ) (addr : Address) (db : DatabaseImpl Account AccountId),
      0 < db.hashesMatrix.emptyHashes.length → height ≤ db.hashesMatrix.emptyHashes.length →
      ∃ result, emulateTreeRecursive V lastAccount height addr db = some result
  | 0, addr, db, nonempty, _ => by
    have fills := getAccountHash_fills V db addr.toIndex
    unfold emulateTreeRecursive
    split
    · exact ⟨_, rfl⟩
    · rename_i db' found
      rw [found] at fills
      exact emptyHashAtHeight_isSome V (by rw [fills.memo_length]; exact nonempty)
  | height + 1, addr, db, nonempty, reach => by
    -- each child is cached, computed one height lower, or empty at `height`
    have child : ∀ (child : Address) (db' : DatabaseImpl Account AccountId), Fills db db' →
        ∃ result, childHash V lastAccount height (emulateTreeRecursive V lastAccount height) child db' =
          some result := by
      intro child db' fills
      unfold childHash
      split
      · exact ⟨_, rfl⟩
      · split
        · exact emulateTreeRecursive_isSome height child db' (by rw [fills.memo_length]; exact nonempty)
            (by rw [fills.memo_length]; omega)
        · exact emptyHashAtHeight_isSome V (by rw [fills.memo_length]; omega)
    obtain ⟨left, leftRun⟩ := child addr.childLeft db (.refl db)
    obtain ⟨right, rightRun⟩ := child addr.childRight left.2
      (childHash_fills V lastAccount height (emulateTreeRecursive_fills V lastAccount height) leftRun)
    exact ⟨cacheHash addr (V.hashNode height left.1 right.1) right.2, by
      simp only [emulateTreeRecursive, Option.bind_eq_bind, leftRun, rightRun, Option.bind_some,
        Option.pure_def]⟩

end Emulate

end DatabaseImpl

namespace MaskState

variable {Account AccountId : Type} (V : TreeVersion Account AccountId)

def clearHashes (mask : MaskState Account AccountId) : MaskState Account AccountId :=
  { mask with hashes := mask.hashes.clear }

theorem emptyHashAtHeight_keeps {height : ℕ} {mask : MaskState Account AccountId}
    {result : Fp × MaskState Account AccountId} (run : mask.emptyHashAtHeight V height = some result) :
    result.2.clearHashes = mask.clearHashes ∧ result.2.hashes.matrix = mask.hashes.matrix := by
  obtain ⟨⟨hash, hashes⟩, memo, rfl⟩ := Option.map_eq_some_iff.mp run
  obtain ⟨cleared, same⟩ := HashesMatrix.emptyHashAtHeight_keeps memo
  dsimp only at cleared same
  exact ⟨by simp only [clearHashes, cleared], same⟩

end MaskState

namespace MaskChain

variable {Account AccountId : Type} (V : TreeVersion Account AccountId)

def clearHashes (chain : MaskChain Account AccountId) : MaskChain Account AccountId :=
  ⟨chain.database.clearHashes, chain.masks.map MaskState.clearHashes⟩

@[simp] theorem get_clearHashes (chain : MaskChain Account AccountId) :
    ∀ (level : ℕ) (addr : Address), chain.clearHashes.get level addr = chain.get level addr
  | 0, _ => rfl
  | level + 1, addr => by
    simp only [get, clearHashes, List.getElem?_map]
    cases chain.masks[level]? with
    | none => rfl
    | some mask => exact congrArg (mask.owningAccount.lookup addr.toIndex).or (get_clearHashes chain level addr)

@[simp] theorem lastFilled_clearHashes (chain : MaskChain Account AccountId) :
    ∀ level : ℕ, chain.clearHashes.lastFilled level = chain.lastFilled level
  | 0 => rfl
  | level + 1 => by
    simp only [lastFilled, clearHashes, List.getElem?_map]
    cases chain.masks[level]? with
    | none => rfl
    | some mask => simp [MaskState.clearHashes, ← lastFilled_clearHashes chain level, clearHashes]

/-- `chain'` is `chain` with some cache and memo slots of the levels up to `level`
written. -/
structure FillsUpTo (level : ℕ) (chain chain' : MaskChain Account AccountId) : Prop where
  data : chain'.clearHashes = chain.clearHashes
  above : chain'.masks.drop level = chain.masks.drop level

/-- The memos of the database and of the masks below `level` hold every height of
the tree, so that no computation at `level` reads past their end. -/
structure MemosReach (level : ℕ) (chain : MaskChain Account AccountId) : Prop where
  database : chain.depth ≤ chain.database.hashesMatrix.emptyHashes.length
  masks : ∀ i < level, ∀ mask, chain.masks[i]? = some mask → chain.depth ≤ mask.hashes.emptyHashes.length

theorem MemosReach.mono {level level' : ℕ} {chain : MaskChain Account AccountId}
    (reach : MemosReach level chain) (le : level' ≤ level) : MemosReach level' chain :=
  ⟨reach.database, fun i lt => reach.masks i (by omega)⟩

namespace FillsUpTo

variable {level : ℕ} {chain chain' chain'' : MaskChain Account AccountId}

theorem refl (level : ℕ) (chain : MaskChain Account AccountId) : FillsUpTo level chain chain :=
  ⟨rfl, rfl⟩

theorem trans (first : FillsUpTo level chain chain') (second : FillsUpTo level chain' chain'') :
    FillsUpTo level chain chain'' :=
  ⟨second.data.trans first.data, second.above.trans first.above⟩

theorem mono (fills : FillsUpTo level chain chain') {level' : ℕ} (le : level ≤ level') :
    FillsUpTo level' chain chain' := by
  refine ⟨fills.data, ?_⟩
  have split : level' = level + (level' - level) := by omega
  rw [split, ← List.drop_drop, fills.above, List.drop_drop]

theorem get_eq (fills : FillsUpTo level chain chain') (level' : ℕ) (addr : Address) :
    chain'.get level' addr = chain.get level' addr := by
  rw [← get_clearHashes, fills.data, get_clearHashes]

theorem depth_eq (fills : FillsUpTo level chain chain') : chain'.depth = chain.depth :=
  congrArg (fun chain => chain.database.depth) fills.data

theorem length_eq (fills : FillsUpTo level chain chain') :
    chain'.masks.length = chain.masks.length := by
  simpa [clearHashes] using congrArg (fun chain => chain.masks.length) fills.data

theorem getElem?_clearHashes (fills : FillsUpTo level chain chain') (i : ℕ) :
    chain'.masks[i]?.map MaskState.clearHashes = chain.masks[i]?.map MaskState.clearHashes := by
  simpa [clearHashes] using congrArg (fun chain => chain.masks[i]?) fills.data

theorem memosReach (fills : FillsUpTo level chain chain') {level' : ℕ} (reach : MemosReach level' chain) :
    MemosReach level' chain' := by
  have database := congrArg (fun chain => chain.database.hashesMatrix.clear.emptyHashes.length) fills.data
  simp only [clearHashes, DatabaseImpl.clearHashes, HashesMatrix.clear, List.length_map] at database
  refine ⟨by rw [fills.depth_eq, database]; exact reach.database, fun i lt mask' found' => ?_⟩
  obtain ⟨mask, found, cleared⟩ : ∃ mask, chain.masks[i]? = some mask ∧ mask'.clearHashes = mask.clearHashes := by
    have same := fills.getElem?_clearHashes i
    rw [found'] at same
    obtain ⟨mask, found, cleared⟩ := Option.map_eq_some_iff.mp same.symm
    exact ⟨mask, found, cleared.symm⟩
  have length := congrArg (fun mask => mask.hashes.clear.emptyHashes.length) cleared
  simp only [MaskState.clearHashes, HashesMatrix.clear, List.length_map] at length
  rw [fills.depth_eq, length]
  exact reach.masks i lt mask found

end FillsUpTo

theorem fillsUpTo_of_database (chain : MaskChain Account AccountId)
    {database : DatabaseImpl Account AccountId} (fills : DatabaseImpl.Fills chain.database database) :
    FillsUpTo 0 chain { chain with database } := by
  refine ⟨?_, rfl⟩
  simp only [clearHashes, fills.data]

theorem setCachedHash_fillsUpTo (chain : MaskChain Account AccountId) (level : ℕ) (addr : Address)
    (hash : Fp) : FillsUpTo level chain (chain.setCachedHash level addr hash) := by
  cases level with
  | zero => exact ⟨rfl, rfl⟩
  | succ level =>
    refine ⟨?_, List.drop_modify_of_lt _ _ _ _ (by omega)⟩
    simp only [setCachedHash, modifyMask, clearHashes]
    congr 1
    exact map_modify_of_forgets _ _ _ _ fun mask => rfl

theorem emptyHashAtHeight_fillsUpTo {level height : ℕ} {chain : MaskChain Account AccountId}
    {result : Fp × MaskChain Account AccountId} (run : chain.emptyHashAtHeight V level height = some result) :
    FillsUpTo level chain result.2 := by
  cases level with
  | zero =>
    obtain ⟨⟨hash, database⟩, memo, rfl⟩ := Option.map_eq_some_iff.mp run
    exact fillsUpTo_of_database chain (DatabaseImpl.emptyHashAtHeight_fills V memo)
  | succ level =>
    simp only [emptyHashAtHeight, Option.bind_eq_bind, Option.bind_eq_some_iff, Option.pure_def,
      Option.some.injEq] at run
    obtain ⟨mask, found, written, memo, rfl⟩ := run
    have cleared := (MaskState.emptyHashAtHeight_keeps V memo).1
    refine ⟨?_, List.drop_set_of_lt (by omega)⟩
    simp only [clearHashes, List.map_set, cleared]
    obtain ⟨lt, entry⟩ := List.getElem?_eq_some_iff.mp found
    rw [← List.map_set, ← entry, List.set_getElem_self]

theorem emptyHashAtHeight_isSome {level height : ℕ} {chain : MaskChain Account AccountId}
    (reach : MemosReach (level + 1) chain) (present : level < chain.masks.length) (lt : height < chain.depth) :
    ∃ result, chain.emptyHashAtHeight V (level + 1) height = some result := by
  have found : chain.masks[level]? = some chain.masks[level] := List.getElem?_eq_getElem present
  have memoReach : height < chain.masks[level].hashes.emptyHashes.length := by
    have := reach.masks level (by omega) _ found
    omega
  obtain ⟨memoed, memo⟩ := HashesMatrix.emptyHashAtHeight_isSome V.emptyHashAtHeight memoReach
  exact ⟨_, by
    simp only [emptyHashAtHeight, MaskState.emptyHashAtHeight, found, memo, Option.bind_eq_bind,
      Option.bind_some, Option.map_some, Option.pure_def]
    rfl⟩

theorem getAccountHash_fillsUpTo :
    ∀ (level accountIndex : ℕ) (chain : MaskChain Account AccountId),
      FillsUpTo level chain (getAccountHash V level accountIndex chain).2
  | 0, accountIndex, chain => by
    have fills := chain.database.getAccountHash_fills V accountIndex
    rw [getAccountHash]
    generalize chain.database.getAccountHash V accountIndex = result at fills
    obtain ⟨hash, database⟩ := result
    exact fillsUpTo_of_database chain fills
  | level + 1, accountIndex, chain => by
    rw [getAccountHash]
    split
    · exact .refl _ _
    · split
      · dsimp only
        split
        · exact .refl _ _
        · exact setCachedHash_fillsUpTo _ _ _ _
      · exact (getAccountHash_fillsUpTo level accountIndex chain).mono (by omega)

theorem emulateLeaf_fillsUpTo {level : ℕ} {addr : Address} {chain : MaskChain Account AccountId}
    {result : Fp × MaskChain Account AccountId} (run : emulateLeaf V level addr chain = some result) :
    FillsUpTo level chain result.2 := by
  have fills := getAccountHash_fillsUpTo V level addr.toIndex chain
  unfold emulateLeaf at run
  split at run
  · rename_i hash chain' found
    cases run
    rw [found] at fills
    exact fills
  · rename_i chain' found
    rw [found] at fills
    exact fills.trans (emptyHashAtHeight_fillsUpTo V run)

section Compute

variable (lastAccount : Address)

theorem childHashAt_fillsUpTo (level height : ℕ)
    {compute : Address → MaskChain Account AccountId → Option (Fp × MaskChain Account AccountId)}
    (computeFills : ∀ child chain result, compute child chain = some result → FillsUpTo level chain result.2)
    {child : Address} {chain : MaskChain Account AccountId} {result : Fp × MaskChain Account AccountId}
    (run : childHashAt V lastAccount level height compute child chain = some result) :
    FillsUpTo level chain result.2 := by
  unfold childHashAt at run
  split at run
  · cases run
    exact .refl _ _
  · split at run
    · exact computeFills child chain result run
    · exact emptyHashAtHeight_fillsUpTo V run

theorem cacheHashAt_fillsUpTo (level : ℕ) (addr : Address) (hash : Fp)
    (chain : MaskChain Account AccountId) : FillsUpTo level chain (cacheHashAt level addr hash chain).2 := by
  unfold cacheHashAt
  split
  · exact .refl _ _
  · exact setCachedHash_fillsUpTo _ _ _ _

theorem emulateNode_spec (level height : ℕ)
    {childHash : Address → MaskChain Account AccountId → Option (Fp × MaskChain Account AccountId)}
    (childFills : ∀ child chain result, childHash child chain = some result → FillsUpTo level chain result.2)
    {addr : Address} {chain : MaskChain Account AccountId} {result : Fp × MaskChain Account AccountId}
    (run : emulateNode V lastAccount level height childHash addr chain = some result) :
    ∃ hash chain', FillsUpTo level chain chain' ∧ result = cacheHashAt level addr hash chain' := by
  simp only [emulateNode, Option.bind_eq_bind, Option.bind_eq_some_iff, Option.pure_def,
    Option.some.injEq] at run
  obtain ⟨left, leftRun, right, rightRun, rfl⟩ := run
  exact ⟨_, right.2, (childHashAt_fillsUpTo V lastAccount level height childFills leftRun).trans
    (childHashAt_fillsUpTo V lastAccount level height childFills rightRun), rfl⟩

theorem emulateNode_fillsUpTo (level height : ℕ)
    {childHash : Address → MaskChain Account AccountId → Option (Fp × MaskChain Account AccountId)}
    (childFills : ∀ child chain result, childHash child chain = some result → FillsUpTo level chain result.2)
    {addr : Address} {chain : MaskChain Account AccountId} {result : Fp × MaskChain Account AccountId}
    (run : emulateNode V lastAccount level height childHash addr chain = some result) :
    FillsUpTo level chain result.2 := by
  obtain ⟨hash, chain', fills, rfl⟩ := emulateNode_spec V lastAccount level height childFills run
  exact fills.trans (cacheHashAt_fillsUpTo _ _ _ _)

section Step

variable {emulate : ℕ → Address → MaskChain Account AccountId → Option (Fp × MaskChain Account AccountId)}
  {level : ℕ} {addr : Address} {chain : MaskChain Account AccountId}

theorem computeAtLevel_zero_eq_some {result : Fp × MaskChain Account AccountId}
    (run : computeAtLevel V lastAccount emulate 0 addr chain = some result) :
    ∃ computed, DatabaseImpl.emulateTreeRecursive V lastAccount (chain.database.depth - addr.length) addr
        chain.database = some computed ∧ result = (computed.1, { chain with database := computed.2 }) := by
  obtain ⟨⟨hash, database⟩, computed, rfl⟩ := Option.map_eq_some_iff.mp run
  exact ⟨_, computed, rfl⟩

theorem computeAtLevel_succ_of_cached {hash : Fp} (found : chain.getCachedHash (level + 1) addr = some hash) :
    computeAtLevel V lastAccount emulate (level + 1) addr chain = some (hash, chain) := by
  simp only [computeAtLevel, found]

theorem computeAtLevel_succ_of_owned (empty : chain.getCachedHash (level + 1) addr = none)
    (owned : (chain.masks[level]?.map fun mask => mask.ownsUnder addr).getD false = true) :
    computeAtLevel V lastAccount emulate (level + 1) addr chain = emulate (level + 1) addr chain := by
  simp only [computeAtLevel, empty, owned, if_true]

theorem computeAtLevel_succ_of_not_owned (empty : chain.getCachedHash (level + 1) addr = none)
    (notOwned : (chain.masks[level]?.map fun mask => mask.ownsUnder addr).getD false = false) :
    computeAtLevel V lastAccount emulate (level + 1) addr chain =
      computeAtLevel V lastAccount emulate level addr chain := by
  simp only [computeAtLevel, empty, notOwned, Bool.false_eq_true, if_false]

theorem present_of_owned
    (owned : (chain.masks[level]?.map fun mask => mask.ownsUnder addr).getD false = true) :
    level < chain.masks.length := by
  cases found : chain.masks[level]? with
  | none => simp [found] at owned
  | some mask => exact (List.getElem?_eq_some_iff.mp found).1

end Step

/-- What `compute_hash_or_parent` does at a mask: return its cached hash, emulate
the node where an own account lies under it, or ask the parent. -/
theorem computeAtLevel_succ_cases
    (emulate : ℕ → Address → MaskChain Account AccountId → Option (Fp × MaskChain Account AccountId))
    (level : ℕ) (addr : Address) (chain : MaskChain Account AccountId) :
    (∃ hash, chain.getCachedHash (level + 1) addr = some hash ∧
        computeAtLevel V lastAccount emulate (level + 1) addr chain = some (hash, chain)) ∨
      (chain.getCachedHash (level + 1) addr = none ∧
        (chain.masks[level]?.map fun mask => mask.ownsUnder addr).getD false = true ∧
        computeAtLevel V lastAccount emulate (level + 1) addr chain = emulate (level + 1) addr chain) ∨
      (chain.getCachedHash (level + 1) addr = none ∧
        (chain.masks[level]?.map fun mask => mask.ownsUnder addr).getD false = false ∧
        computeAtLevel V lastAccount emulate (level + 1) addr chain =
          computeAtLevel V lastAccount emulate level addr chain) := by
  cases cached : chain.getCachedHash (level + 1) addr with
  | some hash => exact .inl ⟨hash, rfl, computeAtLevel_succ_of_cached V lastAccount cached⟩
  | none =>
    cases owned : (chain.masks[level]?.map fun mask => mask.ownsUnder addr).getD false with
    | true => exact .inr (.inl ⟨rfl, rfl, computeAtLevel_succ_of_owned V lastAccount cached owned⟩)
    | false => exact .inr (.inr ⟨rfl, rfl, computeAtLevel_succ_of_not_owned V lastAccount cached owned⟩)

theorem computeAtLevel_fillsUpTo
    {emulate : ℕ → Address → MaskChain Account AccountId → Option (Fp × MaskChain Account AccountId)}
    (emulateFills : ∀ level addr chain result, emulate level addr chain = some result →
      FillsUpTo level chain result.2) :
    ∀ (level : ℕ) (addr : Address) (chain : MaskChain Account AccountId) (result : Fp × MaskChain Account AccountId),
      computeAtLevel V lastAccount emulate level addr chain = some result → FillsUpTo level chain result.2
  | 0, addr, chain, result, run => by
    obtain ⟨computed, computedRun, rfl⟩ := computeAtLevel_zero_eq_some V lastAccount run
    exact fillsUpTo_of_database chain (DatabaseImpl.emulateTreeRecursive_fills V lastAccount _ _ _ _ computedRun)
  | level + 1, addr, chain, result, run => by
    rcases computeAtLevel_succ_cases V lastAccount emulate level addr chain with
      ⟨hash, -, cachedRun⟩ | ⟨-, -, emulated⟩ | ⟨-, -, delegated⟩
    · rw [cachedRun, Option.some.injEq] at run
      subst run
      exact .refl _ _
    · rw [emulated] at run
      exact emulateFills _ _ _ _ run
    · rw [delegated] at run
      exact (computeAtLevel_fillsUpTo emulateFills level addr chain result run).mono (by omega)

theorem computeHashOrParent_fillsUpTo :
    ∀ (height level : ℕ) (addr : Address) (chain : MaskChain Account AccountId)
      (result : Fp × MaskChain Account AccountId),
      computeHashOrParent V lastAccount height level addr chain = some result → FillsUpTo level chain result.2
  | 0, level, addr, chain, result, run => by
    rw [computeHashOrParent] at run
    exact computeAtLevel_fillsUpTo V lastAccount (fun _ _ _ _ leaf => emulateLeaf_fillsUpTo V leaf)
      level addr chain result run
  | height + 1, level, addr, chain, result, run => by
    rw [computeHashOrParent] at run
    exact computeAtLevel_fillsUpTo V lastAccount (fun level _ _ _ node =>
      emulateNode_fillsUpTo V lastAccount level height (computeHashOrParent_fillsUpTo height level) node)
      level addr chain result run

theorem computeAtLevel_isSome
    {emulate : ℕ → Address → MaskChain Account AccountId → Option (Fp × MaskChain Account AccountId)}
    {chain : MaskChain Account AccountId} (deep : 0 < chain.depth)
    (emulateSome : ∀ level addr, level < chain.masks.length → MemosReach (level + 1) chain →
      ∃ result, emulate (level + 1) addr chain = some result) :
    ∀ (level : ℕ) (addr : Address), MemosReach level chain →
      ∃ result, computeAtLevel V lastAccount emulate level addr chain = some result
  | 0, addr, reach => by
    have memo := reach.database
    unfold depth at deep memo
    obtain ⟨computed, computedRun⟩ := DatabaseImpl.emulateTreeRecursive_isSome V lastAccount
      (chain.database.depth - addr.length) addr chain.database (by omega) (by omega)
    exact ⟨_, by rw [computeAtLevel, computedRun]; rfl⟩
  | level + 1, addr, reach => by
    rcases computeAtLevel_succ_cases V lastAccount emulate level addr chain with
      ⟨hash, -, cachedRun⟩ | ⟨-, owned, emulated⟩ | ⟨-, -, delegated⟩
    · exact ⟨_, cachedRun⟩
    · rw [emulated]
      exact emulateSome level addr (present_of_owned owned) reach
    · rw [delegated]
      exact computeAtLevel_isSome deep emulateSome level addr (reach.mono (by omega))

theorem emulateLeaf_isSome {level : ℕ} (addr : Address) {chain : MaskChain Account AccountId}
    (deep : 0 < chain.depth) (present : level < chain.masks.length) (reach : MemosReach (level + 1) chain) :
    ∃ result, emulateLeaf V (level + 1) addr chain = some result := by
  have fills := getAccountHash_fillsUpTo V (level + 1) addr.toIndex chain
  unfold emulateLeaf
  split
  · exact ⟨_, rfl⟩
  · rename_i chain' found
    rw [found] at fills
    exact emptyHashAtHeight_isSome V (fills.memosReach reach) (by rw [fills.length_eq]; exact present)
      (by rw [fills.depth_eq]; exact deep)

/-- Every computation of a node at most as high as the tree, at a level whose memos
hold every height, returns. -/
theorem computeHashOrParent_isSome :
    ∀ (height level : ℕ) (addr : Address) (chain : MaskChain Account AccountId), 0 < chain.depth →
      height ≤ chain.depth → MemosReach level chain →
      ∃ result, computeHashOrParent V lastAccount height level addr chain = some result
  | 0, level, addr, chain, deep, _, reach => by
    rw [computeHashOrParent]
    exact computeAtLevel_isSome V lastAccount deep
      (fun level addr present reach => emulateLeaf_isSome V addr deep present reach) level addr reach
  | height + 1, level, addr, chain, deep, high, reach => by
    rw [computeHashOrParent]
    refine computeAtLevel_isSome V lastAccount deep (fun level addr present reach => ?_) level addr reach
    -- a child is cached, computed one height lower, or empty at `height`
    have child : ∀ (child : Address) (chain' : MaskChain Account AccountId),
        FillsUpTo (level + 1) chain chain' → ∃ result, childHashAt V lastAccount (level + 1) height
          (computeHashOrParent V lastAccount height (level + 1)) child chain' = some result := by
      intro child chain' fills
      unfold childHashAt
      split
      · exact ⟨_, rfl⟩
      · split
        · exact computeHashOrParent_isSome height (level + 1) child chain' (by rw [fills.depth_eq]; exact deep)
            (by rw [fills.depth_eq]; omega) (fills.memosReach reach)
        · exact emptyHashAtHeight_isSome V (fills.memosReach reach) (by rw [fills.length_eq]; exact present)
            (by rw [fills.depth_eq]; omega)
    obtain ⟨left, leftRun⟩ := child addr.childLeft chain (.refl _ _)
    obtain ⟨right, rightRun⟩ := child addr.childRight left.2 (childHashAt_fillsUpTo V lastAccount (level + 1)
      height (computeHashOrParent_fillsUpTo V lastAccount height (level + 1)) leftRun)
    exact ⟨cacheHashAt (level + 1) addr (V.hashNode height left.1 right.1) right.2, by
      simp only [emulateNode, Option.bind_eq_bind, leftRun, rightRun, Option.bind_some, Option.pure_def]⟩

end Compute

theorem emulateTreeToGetHashAt_of_cached {level : ℕ} {addr : Address} {chain : MaskChain Account AccountId}
    {hash : Fp} (found : chain.getCachedHash level addr = some hash) :
    emulateTreeToGetHashAt V level addr chain = some (hash, chain) := by
  simp only [emulateTreeToGetHashAt, found]

theorem emulateTreeToGetHashAt_of_empty {level : ℕ} {addr : Address} {chain : MaskChain Account AccountId}
    (empty : chain.getCachedHash level addr = none) :
    emulateTreeToGetHashAt V level addr chain =
      computeHashOrParent V ((chain.lastFilled level).getD (Address.first chain.depth))
        (chain.depth - addr.length) level addr chain := by
  simp only [emulateTreeToGetHashAt, empty]

theorem emulateTreeToGetHashAt_fillsUpTo {level : ℕ} {addr : Address} {chain : MaskChain Account AccountId}
    {result : Fp × MaskChain Account AccountId} (run : emulateTreeToGetHashAt V level addr chain = some result) :
    FillsUpTo level chain result.2 := by
  cases cached : chain.getCachedHash level addr with
  | some hash =>
    rw [emulateTreeToGetHashAt_of_cached V cached, Option.some.injEq] at run
    subst run
    exact .refl _ _
  | none =>
    rw [emulateTreeToGetHashAt_of_empty V cached] at run
    exact computeHashOrParent_fillsUpTo V _ _ _ _ _ _ run

theorem emulateTreeToGetHashAt_isSome {level : ℕ} (addr : Address) {chain : MaskChain Account AccountId}
    (deep : 0 < chain.depth) (reach : MemosReach level chain) :
    ∃ result, emulateTreeToGetHashAt V level addr chain = some result := by
  cases cached : chain.getCachedHash level addr with
  | some hash => exact ⟨_, emulateTreeToGetHashAt_of_cached V cached⟩
  | none =>
    rw [emulateTreeToGetHashAt_of_empty V cached]
    exact computeHashOrParent_isSome V _ _ _ _ _ deep (Nat.sub_le _ _) reach

end MaskChain

end Openmina.Ledger
