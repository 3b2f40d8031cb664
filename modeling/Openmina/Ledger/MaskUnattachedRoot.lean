import Mathlib
import Openmina.Ledger.MaskUnattached

/-!
# The root of a filled unattached mask

When the accounts of an unattached mask fill the first leaves of its tree, every subtree
before its last location holds one of them, so the mask never asks its missing parent
there, and every subtree after it is empty. Its `merkle_root` is then the Merkle root of
its accounts. `get_or_create_account` keeps the accounts that way. It fills the next
leaf and drops the cached hashes above it, and the other cached hashes are the roots of
subtrees that do not hold that leaf. A node past the last location that nothing cached is
still asked of the missing parent.
-/

namespace Openmina.Ledger

open Openmina.Numbers.Checked Openmina.Merkle

set_option autoImplicit false

namespace MaskState

variable {Account AccountId : Type} (V : TreeVersion Account AccountId)

def view (mask : MaskState Account AccountId) (index : ℕ) : Option Account :=
  mask.owningAccount.lookup index

def subtreeRootAt (mask : MaskState Account AccountId) (addr : Address) : Fp :=
  V.hasher.subtreeRoot mask.view (mask.depth - addr.length) (addr.index * 2 ^ (mask.depth - addr.length))

/-- Every hash the mask caches for a node of its tree is the root of that node's subtree,
and its memo holds the tree version's empty hashes, at every height of the tree. -/
structure CacheSound (mask : MaskState Account AccountId) : Prop where
  cached : ∀ addr, addr.length ≤ mask.depth → ∀ hash, mask.hashes.get addr = some hash →
    hash = mask.subtreeRootAt V addr
  memo : HashesMatrix.MemoSound V.emptyHashAtHeight mask.hashes
  memoReach : mask.depth ≤ mask.hashes.emptyHashes.length

/-- The own accounts fill the leaves `0, ..., last`, each at a full-depth address the mask
indexes, and the last location is leaf `last`. -/
structure FilledTo (mask : MaskState Account AccountId) (last : ℕ) : Prop where
  fits : last < 2 ^ mask.depth
  lastLocation : mask.lastLocation = some (Address.fromIndex last mask.depth)
  owned : ∀ i, (mask.view i).isSome ↔ i ≤ last
  indexed : ∀ i ≤ last, ∃ entry ∈ mask.idToAddr.entries, entry.2 = Address.fromIndex i mask.depth
  within : ∀ entry ∈ mask.idToAddr.entries, entry.2.length = mask.depth ∧ entry.2.index ≤ last

/-- A hash computation of `addr` gives the root of its subtree, changes only the cache
(not its depth), and leaves the cache sound. -/
def Computes (mask : MaskState Account AccountId) (addr : Address)
    (result : Option (Fp × MaskState Account AccountId)) : Prop :=
  ∃ hashes : HashesMatrix, hashes.ledgerDepth = mask.hashes.ledgerDepth ∧
    result = some (mask.subtreeRootAt V addr, { mask with hashes }) ∧
    ({ mask with hashes } : MaskState Account AccountId).CacheSound V

theorem computes_self {mask : MaskState Account AccountId} (sound : mask.CacheSound V) (addr : Address) :
    Computes V mask addr (some (mask.subtreeRootAt V addr, mask)) :=
  ⟨mask.hashes, rfl, rfl, sound⟩

theorem computes_of_cached {mask : MaskState Account AccountId} (sound : mask.CacheSound V) {addr : Address}
    (le : addr.length ≤ mask.depth) {hash : Fp} (cached : mask.hashes.get addr = some hash) :
    Computes V mask addr (some (hash, mask)) := by
  rw [sound.cached addr le hash cached]
  exact computes_self V sound addr

theorem CacheSound.setCachedHash {mask : MaskState Account AccountId} (sound : mask.CacheSound V)
    {addr : Address} {hash : Fp} (right : hash = mask.subtreeRootAt V addr) :
    (mask.setCachedHash addr hash).CacheSound V := by
  refine ⟨fun other le cached found => ?_, sound.memo, sound.memoReach⟩
  simp only [MaskState.setCachedHash, HashesMatrix.get_insertAt] at found
  split_ifs at found with same
  · cases found
    rw [Address.toLinearIndex_injective same]
    exact right
  · exact sound.cached other le cached found

theorem CacheSound.emptyHashAtHeight {mask : MaskState Account AccountId} (sound : mask.CacheSound V)
    {height : ℕ} (lt : height < mask.depth) :
    ∃ hashes : HashesMatrix, hashes.ledgerDepth = mask.hashes.ledgerDepth ∧
      mask.emptyHashAtHeight V height = some (V.emptyHashAtHeight height, { mask with hashes }) ∧
      ({ mask with hashes } : MaskState Account AccountId).CacheSound V := by
  obtain ⟨memoed, memo⟩ := HashesMatrix.emptyHashAtHeight_isSome V.emptyHashAtHeight
    (lt.trans_le sound.memoReach)
  obtain ⟨value, memoSound⟩ := sound.memo.emptyHashAtHeight memo
  obtain ⟨-, written, -⟩ := HashesMatrix.emptyHashAtHeight_eq_some memo
  refine ⟨memoed.2, by rw [written], ?_, ⟨fun addr le hash found => ?_, memoSound, ?_⟩⟩
  · simp only [MaskState.emptyHashAtHeight, memo, Option.map_some, ← value]
  · -- the memo is not the cache of inner hashes
    rw [written] at found
    exact sound.cached addr le hash found
  · rw [written]
    simpa using sound.memoReach

@[simp] theorem subtreeRootAt_withHashes (mask : MaskState Account AccountId) (hashes : HashesMatrix)
    (addr : Address) :
    ({ mask with hashes } : MaskState Account AccountId).subtreeRootAt V addr = mask.subtreeRootAt V addr :=
  rfl

theorem subtreeRootAt_leaf {mask : MaskState Account AccountId} {addr : Address} (length : addr.length = mask.depth) :
    mask.subtreeRootAt V addr = V.hasher.leafHash (mask.view addr.index) := by
  simp [subtreeRootAt, length, Hasher.subtreeRoot]

theorem subtreeRootAt_node {mask : MaskState Account AccountId} {addr : Address} {height : ℕ}
    (length : addr.length + (height + 1) = mask.depth) :
    mask.subtreeRootAt V addr =
      V.hashNode height (mask.subtreeRootAt V addr.childLeft) (mask.subtreeRootAt V addr.childRight) := by
  have above : mask.depth - addr.length = height + 1 := by omega
  have below : mask.depth - (addr.length + 1) = height := by omega
  have left : addr.index * 2 ^ (height + 1) = 2 * addr.index * 2 ^ height := by ring
  have right : 2 * addr.index * 2 ^ height + 2 ^ height = (2 * addr.index + 1) * 2 ^ height := by ring
  simp only [subtreeRootAt, above, Address.childLeft_length, Address.childRight_length, below,
    Address.childLeft_index, Address.childRight_index, Hasher.subtreeRoot, left, right]
  rfl

section Filled

variable {mask : MaskState Account AccountId} {last : ℕ}

theorem FilledTo.withHashes (filled : mask.FilledTo last) (hashes : HashesMatrix) :
    ({ mask with hashes } : MaskState Account AccountId).FilledTo last :=
  ⟨filled.fits, filled.lastLocation, filled.owned, filled.indexed, filled.within⟩

theorem FilledTo.isBefore (filled : mask.FilledTo last) {addr : Address} {height : ℕ}
    (length : addr.length + height = mask.depth) :
    addr.isBefore (Address.fromIndex last mask.depth) = decide (addr.index * 2 ^ height ≤ last) := by
  have fits := filled.fits
  simp only [Address.isBefore, Address.prefixIndex, Address.fromIndex, Nat.mod_eq_of_lt fits,
    show mask.depth - addr.length = height by omega]
  exact decide_eq_decide.mpr (Nat.le_div_iff_mul_le (Nat.two_pow_pos height))

theorem FilledTo.ownsUnder (filled : mask.FilledTo last) {addr : Address} {height : ℕ}
    (length : addr.length + height = mask.depth) (before : addr.index * 2 ^ height ≤ last) :
    mask.ownsUnder addr = true := by
  obtain ⟨entry, mem, located⟩ := filled.indexed _ before
  refine ownsUnder_eq_true mem ?_
  have small : addr.index * 2 ^ height < 2 ^ mask.depth := lt_of_le_of_lt before filled.fits
  rw [located]
  simp only [Address.isParentOf, Address.prefixIndex, Address.fromIndex, Nat.mod_eq_of_lt small,
    show mask.depth - addr.length = height by omega, Nat.mul_div_cancel _ (Nat.two_pow_pos height)]
  simp

theorem FilledTo.ownsUnder_eq_false (filled : mask.FilledTo last) {addr : Address} {height : ℕ}
    (length : addr.length + height = mask.depth) (past : last < addr.index * 2 ^ height) :
    mask.ownsUnder addr = false := by
  refine List.any_eq_false.mpr fun entry mem under => ?_
  obtain ⟨full, le⟩ := filled.within entry mem
  have positive : addr.length ≠ 0 := by
    intro root
    have := addr.indexLt
    simp only [root, pow_zero, Nat.lt_one_iff] at this
    simp [this] at past
  simp only [Address.isParentOf, positive, decide_false, Bool.false_or, decide_eq_true_eq,
    Address.prefixIndex, full, show mask.depth - addr.length = height by omega] at under
  have bound := Nat.div_mul_le_self entry.2.index (2 ^ height)
  rw [← under] at bound
  omega

theorem getAccountHash_of_filled {addr : Address} (length : addr.length = mask.depth) {account : Account}
    (found : mask.view addr.index = some account) (empty : mask.hashes.get addr = none) :
    mask.getAccountHash V addr.toIndex = (some (V.hashLeaf account), mask.setCachedHash addr (V.hashLeaf account)) := by
  have leaf : Address.fromIndex addr.index mask.depth = addr := by
    rw [← length, Address.fromIndex_self]
  simp only [getAccountHash, Address.toIndex]
  rw [show mask.owningAccount.lookup addr.index = some account from found, leaf, empty]

theorem getChildHash_computes (filled : mask.FilledTo last) (sound : mask.CacheSound V)
    {child : Address} {height : ℕ} (length : child.length + height = mask.depth) (lt : height < mask.depth)
    {compute : Address → MaskState Account AccountId → Option (Fp × MaskState Account AccountId)}
    (computes : child.index * 2 ^ height ≤ last → Computes V mask child (compute child mask)) :
    Computes V mask child (getChildHash V (Address.fromIndex last mask.depth) height compute child mask) := by
  cases cached : mask.hashes.get child with
  | some hash =>
    simp only [getChildHash, cached]
    exact computes_of_cached V sound (by omega) cached
  | none =>
    by_cases before : child.index * 2 ^ height ≤ last
    · rw [getChildHash_of_before V _ cached (by rw [filled.isBefore length]; simp [before])]
      exact computes before
    · -- every leaf under the child is after the last one
      have empty : V.emptyHashAtHeight height = mask.subtreeRootAt V child := by
        rw [V.emptyHashAtHeight_eq, subtreeRootAt, show mask.depth - child.length = height by omega,
          Hasher.subtreeRoot_of_absent]
        intro k lower upper
        have absent := (filled.owned k).not.mpr (by omega)
        simpa using absent
      obtain ⟨hashes, depth, memo, memoSound⟩ := sound.emptyHashAtHeight V lt
      simp only [getChildHash, cached, filled.isBefore length, before, decide_false, Bool.false_eq_true,
        if_false, memo]
      rw [empty]
      exact ⟨hashes, depth, rfl, memoSound⟩

theorem emulateTreeRecursive_succ (lastAccount : Address) (height : ℕ) (addr : Address)
    (mask : MaskState Account AccountId) :
    emulateTreeRecursive V lastAccount (height + 1) addr mask =
      (getChildHash V lastAccount height (computeHashOrParent V lastAccount height) addr.childLeft mask).bind
        fun left =>
          (getChildHash V lastAccount height (computeHashOrParent V lastAccount height) addr.childRight
            left.2).bind fun right =>
            match right.2.hashes.get addr with
            | some hash => some (hash, right.2)
            | none => some (V.hashNode height left.1 right.1,
                right.2.setCachedHash addr (V.hashNode height left.1 right.1)) :=
  rfl

theorem computeOrUnwrap_computes (filled : mask.FilledTo last) (sound : mask.CacheSound V)
    {addr : Address} {height : ℕ} (length : addr.length + height = mask.depth)
    (before : addr.index * 2 ^ height ≤ last)
    {emulate : Address → MaskState Account AccountId → Option (Fp × MaskState Account AccountId)}
    (emulates : mask.hashes.get addr = none → Computes V mask addr (emulate addr mask)) :
    Computes V mask addr (computeOrUnwrap emulate addr mask) := by
  cases cached : mask.hashes.get addr with
  | some hash =>
    simp only [computeOrUnwrap, cached]
    exact computes_of_cached V sound (by omega) cached
  | none =>
    simp only [computeOrUnwrap, cached, filled.ownsUnder length before, if_true]
    exact emulates cached

theorem emulateTreeRecursive_zero_computes (filled : mask.FilledTo last) (sound : mask.CacheSound V)
    (lastAccount : Address) {addr : Address} (length : addr.length = mask.depth) (before : addr.index ≤ last)
    (empty : mask.hashes.get addr = none) :
    Computes V mask addr (emulateTreeRecursive V lastAccount 0 addr mask) := by
  obtain ⟨account, found⟩ := Option.isSome_iff_exists.mp ((filled.owned addr.index).mpr before)
  have leaf : V.hashLeaf account = mask.subtreeRootAt V addr := by
    rw [subtreeRootAt_leaf V length, found]
    rfl
  simp only [emulateTreeRecursive, getAccountHash_of_filled V length found empty]
  refine ⟨(mask.setCachedHash addr (V.hashLeaf account)).hashes, HashesMatrix.insertAt_ledgerDepth _ _ _, ?_,
    CacheSound.setCachedHash V sound leaf⟩
  rw [leaf]
  rfl

theorem emulateTreeRecursive_succ_computes (filled : mask.FilledTo last) (sound : mask.CacheSound V)
    {addr : Address} {height : ℕ} (length : addr.length + (height + 1) = mask.depth)
    (children : ∀ hashes, ({ mask with hashes } : MaskState Account AccountId).CacheSound V →
      ∀ child : Address, child.length + height = mask.depth → child.index * 2 ^ height ≤ last →
        Computes V { mask with hashes } child
          (computeHashOrParent V (Address.fromIndex last mask.depth) height child { mask with hashes })) :
    Computes V mask addr (emulateTreeRecursive V (Address.fromIndex last mask.depth) (height + 1) addr mask) := by
  have leftLength : addr.childLeft.length + height = mask.depth := by
    rw [Address.childLeft_length]
    omega
  have rightLength : addr.childRight.length + height = mask.depth := by
    rw [Address.childRight_length]
    omega
  obtain ⟨leftHashes, leftDepth, leftRun, leftSound⟩ :=
    getChildHash_computes V filled sound leftLength (by omega) (children mask.hashes sound _ leftLength)
  obtain ⟨rightHashes, rightDepth, rightRun, rightSound⟩ :=
    getChildHash_computes V (filled.withHashes leftHashes) leftSound rightLength (by simp; omega)
      (children leftHashes leftSound _ rightLength)
  rw [emulateTreeRecursive_succ, leftRun, Option.bind_some]
  dsimp only
  rw [rightRun, Option.bind_some]
  dsimp only
  have node := (subtreeRootAt_node V length).symm
  cases cached : rightHashes.get addr with
  | some hash =>
    have right := rightSound.cached addr (show addr.length ≤ mask.depth by omega) hash cached
    refine ⟨rightHashes, rightDepth.trans leftDepth, ?_, rightSound⟩
    simp only [right, subtreeRootAt_withHashes]
  | none =>
    refine ⟨_, (HashesMatrix.insertAt_ledgerDepth _ _ _).trans (rightDepth.trans leftDepth), ?_,
      CacheSound.setCachedHash V rightSound node⟩
    simp only [subtreeRootAt_withHashes]
    rw [node]
    rfl

/-- The computation of a node whose first leaf is filled gives the root of its subtree. The
induction is on the height of the node, over every sound cache. -/
theorem computeHashOrParent_computes (filled : mask.FilledTo last) :
    ∀ height (hashes : HashesMatrix), ({ mask with hashes } : MaskState Account AccountId).CacheSound V →
      ∀ addr : Address, addr.length + height = mask.depth → addr.index * 2 ^ height ≤ last →
        Computes V { mask with hashes } addr
          (computeHashOrParent V (Address.fromIndex last mask.depth) height addr { mask with hashes }) := by
  intro height
  induction height with
  | zero =>
    intro hashes sound addr length before
    apply computeOrUnwrap_computes V (filled.withHashes hashes) sound length before
    intro empty
    exact emulateTreeRecursive_zero_computes V (filled.withHashes hashes) sound _ (by omega)
      (by simpa using before) empty
  | succ height ih =>
    intro hashes sound addr length before
    apply computeOrUnwrap_computes V (filled.withHashes hashes) sound length before
    intro _
    apply emulateTreeRecursive_succ_computes V (filled.withHashes hashes) sound length
    intro hashes' sound' child childLength childBefore
    exact ih hashes' sound' child childLength childBefore

theorem emulateTreeToGetHashAt_computes (filled : mask.FilledTo last) (sound : mask.CacheSound V)
    {addr : Address} {height : ℕ} (length : addr.length + height = mask.depth)
    (before : addr.index * 2 ^ height ≤ last) :
    Computes V mask addr (mask.emulateTreeToGetHashAt V addr) := by
  cases cached : mask.hashes.get addr with
  | some hash =>
    simp only [emulateTreeToGetHashAt, cached]
    exact computes_of_cached V sound (by omega) cached
  | none =>
    simp only [emulateTreeToGetHashAt, cached, filled.lastLocation, Option.getD_some,
      show mask.depth - addr.length = height by omega]
    exact computeHashOrParent_computes V filled height mask.hashes sound addr length before

end Filled

/-! ## Runs of an unattached mask -/

/-- What every run of an unattached mask keeps: the cache is sound and of the tree's depth,
and the mask is empty or its accounts fill the first leaves. -/
structure Consistent (mask : MaskState Account AccountId) : Prop where
  matrixDepth : mask.hashes.ledgerDepth = mask.depth
  sound : mask.CacheSound V
  filled : (mask.idToAddr.entries = [] ∧ (∀ i, mask.view i = none) ∧ mask.lastLocation = none) ∨
    ∃ last, mask.FilledTo last

theorem CacheSound.of_write {mask mask' : MaskState Account AccountId} (sound : mask.CacheSound V)
    (matrixDepth : mask.hashes.ledgerDepth = mask.depth) {index : ℕ} (fits : index < 2 ^ mask.depth)
    (depth : mask'.depth = mask.depth) (hashes : mask'.hashes = mask.hashes.invalidateHashes index)
    (others : ∀ i, i ≠ index → mask'.view i = mask.view i) :
    mask'.CacheSound V := by
  refine ⟨fun addr le hash found => ?_, ?_, ?_⟩
  rotate_left
  · -- the memo is not touched
    intro height hash found
    rw [hashes, HashesMatrix.invalidateHashes_emptyHashes] at found
    exact sound.memo height hash found
  · rw [depth, hashes, HashesMatrix.invalidateHashes_emptyHashes]
    exact sound.memoReach
  rw [depth] at le
  rw [hashes] at found
  have before := HashesMatrix.invalidatePath_get_of_some _ _ _ addr found
  -- the ancestors of the leaf were dropped, so `addr` is not one of them
  have offPath : addr.index ≠ index / 2 ^ (mask.depth - addr.length) := by
    intro onPath
    rw [← matrixDepth] at fits le onPath
    rw [HashesMatrix.get_invalidateHashes_of_onPath _ fits addr le onPath] at found
    cases found
  rw [sound.cached addr le hash before, subtreeRootAt, subtreeRootAt, depth]
  apply Hasher.subtreeRoot_congr
  intro k lower upper
  symm
  apply others
  rintro rfl
  apply offPath
  symm
  apply Nat.div_eq_of_lt_le lower
  rw [Nat.succ_mul]
  exact upper

section Writes

variable [DecidableEq AccountId]

theorem Consistent.added {mask : MaskState Account AccountId} (consistent : mask.Consistent V)
    {accountId : AccountId} (absent : mask.idToAddr.lookup accountId = none) (account : Account)
    {location : Address} {next : ℕ} (length : location.length = mask.depth) (index : location.toIndex = next)
    (fits : next < 2 ^ mask.depth) (filledBelow : ∀ i, (mask.view i).isSome ↔ i < next)
    (indexedBelow : ∀ i < next, ∃ entry ∈ mask.idToAddr.entries, entry.2 = Address.fromIndex i mask.depth)
    (withinBelow : ∀ entry ∈ mask.idToAddr.entries, entry.2.length = mask.depth ∧ entry.2.index < next) :
    ({ mask with
        idToAddr := mask.idToAddr.insert accountId location
        lastLocation := some location
        owningAccount := mask.owningAccount.insert location.toIndex account
        hashes := mask.hashes.invalidateHashes location.toIndex } : MaskState Account AccountId).Consistent V := by
  have located : location = Address.fromIndex next mask.depth := by
    apply Address.ext_index length
    show location.index = next % 2 ^ mask.depth
    rw [Nat.mod_eq_of_lt fits]
    exact index
  subst located
  rw [index]
  have entries : (mask.idToAddr.insert accountId (Address.fromIndex next mask.depth)).entries =
      ⟨accountId, Address.fromIndex next mask.depth⟩ :: mask.idToAddr.entries :=
    AList.entries_insert_of_notMem (AList.lookup_eq_none.mp absent)
  have view : ∀ i, (mask.owningAccount.insert next account).lookup i = if i = next then some account else mask.view i := by
    intro i
    split_ifs with here
    · rw [here, AList.lookup_insert]
    · exact AList.lookup_insert_ne here
  refine ⟨(HashesMatrix.invalidateHashes_ledgerDepth _ _).trans consistent.matrixDepth, ?_,
    Or.inr ⟨next, fits, rfl, fun i => ?_, fun i le => ?_, fun entry mem => ?_⟩⟩
  · refine CacheSound.of_write V consistent.sound consistent.matrixDepth fits rfl rfl fun i differ => ?_
    exact (view i).trans (if_neg differ)
  · change ((mask.owningAccount.insert next account).lookup i).isSome ↔ i ≤ next
    rw [view]
    split_ifs with here
    · simp [here]
    · rw [filledBelow]
      omega
  · rw [entries]
    rcases Nat.lt_or_eq_of_le le with below | here
    · obtain ⟨entry, mem, located⟩ := indexedBelow i below
      exact ⟨entry, List.mem_cons_of_mem _ mem, located⟩
    · exact ⟨_, List.mem_cons_self, by rw [here]⟩
  · rw [entries, List.mem_cons] at mem
    rcases mem with new | old
    · rw [new]
      exact ⟨rfl, index.le⟩
    · obtain ⟨full, below⟩ := withinBelow entry old
      exact ⟨full, below.le⟩

theorem Consistent.getOrCreateAccount {mask : MaskState Account AccountId} (consistent : mask.Consistent V)
    (accountId : AccountId) (account : Account) :
    (mask.getOrCreateAccount accountId account).2.Consistent V := by
  cases found : mask.idToAddr.lookup accountId with
  | some addr =>
    simp only [MaskState.getOrCreateAccount, found]
    exact consistent
  | none =>
    rcases consistent.filled with ⟨noEntries, noAccounts, noLast⟩ | ⟨last, filled⟩
    · -- the first account goes to the first leaf
      simp only [MaskState.getOrCreateAccount, found, noLast]
      exact consistent.added V found account rfl rfl (Nat.two_pow_pos _)
        (by simp [noAccounts, Address.first, Address.toIndex]) (by simp [Address.first, Address.toIndex])
        (by simp [noEntries])
    · -- the next one goes to the leaf after the last, if there is one
      simp only [MaskState.getOrCreateAccount, found, filled.lastLocation]
      cases next : (Address.fromIndex last mask.depth).next with
      | none => exact consistent
      | some location =>
        obtain ⟨length, index⟩ := Address.next_eq_some next
        have lastIndex : (Address.fromIndex last mask.depth).index = last := Nat.mod_eq_of_lt filled.fits
        have fits : last + 1 < 2 ^ mask.depth := by
          have below := location.indexLt
          rw [index, lastIndex, length] at below
          exact below
        refine consistent.added V found account length (by rw [Address.toIndex, index, lastIndex]) fits
          (fun i => ?_) (fun i below => filled.indexed i (by omega)) (fun entry mem => ?_)
        · rw [filled.owned]
          omega
        · obtain ⟨full, le⟩ := filled.within entry mem
          exact ⟨full, by omega⟩

end Writes

theorem Consistent.emulateTreeToGetHashAt {mask mask' : MaskState Account AccountId}
    (consistent : mask.Consistent V) {addr : Address} (le : addr.length ≤ mask.depth) {hash : Fp}
    (run : mask.emulateTreeToGetHashAt V addr = some (hash, mask')) :
    mask'.Consistent V := by
  cases cached : mask.hashes.get addr with
  | some cachedHash =>
    simp only [MaskState.emulateTreeToGetHashAt, cached, Option.some.injEq, Prod.mk.injEq] at run
    rw [← run.2]
    exact consistent
  | none =>
    have length : addr.length + (mask.depth - addr.length) = mask.depth := by omega
    rcases consistent.filled with ⟨noEntries, -, -⟩ | ⟨last, filled⟩
    · -- an empty mask owns nothing, so it unwraps its missing parent
      have unowned : mask.ownsUnder addr = false := by simp [ownsUnder, noEntries]
      have unwraps := computeHashOrParent_of_unowned V (mask.lastLocation.getD (Address.first mask.depth))
        (mask.depth - addr.length) cached unowned
      simp only [MaskState.emulateTreeToGetHashAt, cached, unwraps, reduceCtorEq] at run
    · by_cases before : addr.index * 2 ^ (mask.depth - addr.length) ≤ last
      · obtain ⟨hashes, depth, computed, sound⟩ :=
          emulateTreeToGetHashAt_computes V filled consistent.sound length before
        rw [computed, Option.some.injEq, Prod.mk.injEq] at run
        rw [← run.2]
        exact ⟨depth.trans consistent.matrixDepth, sound, Or.inr ⟨last, filled.withHashes hashes⟩⟩
      · have unwraps := computeHashOrParent_of_unowned V (Address.fromIndex last mask.depth)
          (mask.depth - addr.length) cached (filled.ownsUnder_eq_false length (by omega))
        simp only [MaskState.emulateTreeToGetHashAt, cached, filled.lastLocation, Option.getD_some, unwraps,
          reduceCtorEq] at run

/-- The operations of an unattached mask: `get_or_create_account`, and `merkle_root` and
`get_inner_hash_at_addr` where they return. -/
inductive Step [DecidableEq AccountId] : MaskState Account AccountId → MaskState Account AccountId → Prop
  | getOrCreateAccount (accountId : AccountId) (account : Account) (mask : MaskState Account AccountId) :
      Step mask (mask.getOrCreateAccount accountId account).2
  | merkleRoot {mask mask' : MaskState Account AccountId} {hash : Fp} :
      mask.merkleRoot V = some (hash, mask') → Step mask mask'
  | getInnerHashAtAddr {mask mask' : MaskState Account AccountId} (addr : Address) {result : Except String Fp} :
      mask.getInnerHashAtAddr V addr = some (result, mask') → Step mask mask'

theorem Consistent.step [DecidableEq AccountId] {mask mask' : MaskState Account AccountId}
    (consistent : mask.Consistent V) (step : Step V mask mask') : mask'.Consistent V := by
  cases step with
  | getOrCreateAccount accountId account => exact consistent.getOrCreateAccount V accountId account
  | merkleRoot run => exact consistent.emulateTreeToGetHashAt V (Nat.zero_le _) run
  | getInnerHashAtAddr addr run =>
    unfold MaskState.getInnerHashAtAddr at run
    split_ifs at run with deeper
    · simp only [Option.some.injEq, Prod.mk.injEq] at run
      rw [← run.2]
      exact consistent
    · cases computed : mask.emulateTreeToGetHashAt V addr with
      | none => simp [computed] at run
      | some result =>
        rw [computed, Option.map_some, Option.some.injEq, Prod.mk.injEq] at run
        rw [← run.2]
        exact consistent.emulateTreeToGetHashAt V (by omega) computed

end MaskState

end Openmina.Ledger
