import Mathlib

/-!
# Fork choice

`core/src/consensus.rs`: `is_short_range_fork`, `relative_min_window_density`,
`short_range_fork_take`, `long_range_fork_take` and `consensus_take`, over the fields
of the consensus state they read. Arithmetic on `u32` wraps as in release builds; the
remainder by a zero `slots_per_epoch` and an index past the sub-window densities
panic, and a panic is `none`. The VRF output is compared through its `blake2b`
digest, a parameter with any linear order, and state hashes are of any linear order.
-/

namespace Openmina.Consensus.ForkChoice

set_option autoImplicit false

structure GlobalSlotSinceHardFork where
  slotNumber : UInt32
  slotsPerEpoch : UInt32
  deriving DecidableEq

structure EpochData (Checkpoint : Type) where
  lockCheckpoint : Checkpoint
  deriving DecidableEq

/-- The fields of `ConsensusProofOfStakeDataConsensusStateValueStableV2` that fork
choice reads. -/
structure ConsensusState (Vrf Checkpoint : Type) where
  blockchainLength : UInt32
  epochCount : UInt32
  minWindowDensity : UInt32
  subWindowDensities : List UInt32
  lastVrfOutput : Vrf
  currGlobalSlotSinceHardFork : GlobalSlotSinceHardFork
  stakingEpochData : EpochData Checkpoint
  nextEpochData : EpochData Checkpoint

inductive ShortRangeForkDecisionReason
  | chainLength
  | vrf
  | stateHash
  deriving DecidableEq

inductive LongRangeForkDecisionReason
  | subWindowDensity
  | chainLength
  | vrf
  | stateHash
  deriving DecidableEq

def gracePeriodEnd : UInt32 := 1440

def subWindowsPerWindow : UInt32 := 11

def slotsPerSubWindow : UInt32 := 7

variable {Vrf Checkpoint Digest Hash : Type} [DecidableEq Checkpoint] [LinearOrder Digest]
  [LinearOrder Hash]

def ConsensusState.globalSlot (state : ConsensusState Vrf Checkpoint) : UInt32 :=
  state.currGlobalSlotSinceHardFork.slotNumber

/-! ## Short-range forks -/

/-- The closure `check` of `is_short_range_fork`: `s1` one epoch ahead of `s2`, and
`s2` past the seed update range of its epoch. -/
def isShortRangeForkCheck (s1 s2 : ConsensusState Vrf Checkpoint) : Option Bool :=
  let slotsPerEpoch := s2.currGlobalSlotSinceHardFork.slotsPerEpoch
  -- the remainder by zero panics
  if slotsPerEpoch = 0 then none
  else
    let s2EpochSlot := s2.globalSlot % slotsPerEpoch
    if s1.epochCount = s2.epochCount + 1 ∧ s2EpochSlot ≥ slotsPerEpoch * 2 / 3 then
      some (decide (s1.stakingEpochData.lockCheckpoint = s2.nextEpochData.lockCheckpoint))
    else some false

def isShortRangeFork (a b : ConsensusState Vrf Checkpoint) : Option Bool :=
  if a.epochCount = b.epochCount then
    some (decide (a.stakingEpochData.lockCheckpoint = b.stakingEpochData.lockCheckpoint))
  else do
    -- `||` runs the second orientation only when the first one fails
    if ← isShortRangeForkCheck a b then pure true else isShortRangeForkCheck b a

/-! ## Relative minimum window density -/

def relativeSubWindowFromGlobalSlot (globalSlot : UInt32) : UInt32 :=
  (globalSlot / slotsPerSubWindow) % subWindowsPerWindow

/-- The ring shift of `relative_min_window_density`: `count` times, step to the next
sub-window and clear it. An index past the end of the densities panics. -/
def ringShift : ℕ → UInt32 → List UInt32 → Option (List UInt32)
  | 0, _, window => some window
  | count + 1, i, window =>
    let next := (i + 1) % subWindowsPerWindow
    if next.toNat < window.length then ringShift count next (window.set next.toNat 0) else none

/-- `density`: `iter().sum()`, wrapping on `u32`. -/
def density (projectedWindow : List UInt32) : UInt32 :=
  projectedWindow.sum

def saturatingSub (x y : UInt32) : UInt32 :=
  if y ≤ x then x - y else 0

def relativeMinWindowDensity (b1 b2 : ConsensusState Vrf Checkpoint) : Option UInt32 :=
  let maxSlot := max b1.globalSlot b2.globalSlot
  if maxSlot < gracePeriodEnd then some b1.minWindowDensity
  else do
    let shiftCount := min (saturatingSub maxSlot (b1.globalSlot + 1)) subWindowsPerWindow
    -- `for _ in 0..=shift_count`
    let projectedWindow ← ringShift (shiftCount.toNat + 1)
      (relativeSubWindowFromGlobalSlot b1.globalSlot) b1.subWindowDensities
    pure (min b1.minWindowDensity (density projectedWindow))

/-! ## The decisions -/

def shortRangeForkTake (blake2b : Vrf → Digest) (tipCs candidateCs : ConsensusState Vrf Checkpoint)
    (tipHash candidateHash : Hash) : Bool × ShortRangeForkDecisionReason :=
  match compare candidateCs.blockchainLength.toNat tipCs.blockchainLength.toNat with
  | .gt => (true, .chainLength)
  | .lt => (false, .chainLength)
  | .eq =>
    match compare (blake2b candidateCs.lastVrfOutput) (blake2b tipCs.lastVrfOutput) with
    | .gt => (true, .vrf)
    | .lt => (false, .vrf)
    | .eq => (decide (candidateHash > tipHash), .stateHash)

def longRangeForkTake (blake2b : Vrf → Digest) (tipCs candidateCs : ConsensusState Vrf Checkpoint)
    (tipHash candidateHash : Hash) : Option (Bool × LongRangeForkDecisionReason) := do
  let tipDensity ← relativeMinWindowDensity tipCs candidateCs
  let candidateDensity ← relativeMinWindowDensity candidateCs tipCs
  match compare candidateDensity.toNat tipDensity.toNat with
  | .gt => pure (true, .subWindowDensity)
  | .lt => pure (false, .subWindowDensity)
  | .eq =>
    match compare candidateCs.blockchainLength.toNat tipCs.blockchainLength.toNat with
    | .gt => pure (true, .chainLength)
    | .lt => pure (false, .chainLength)
    | .eq =>
      match compare (blake2b candidateCs.lastVrfOutput) (blake2b tipCs.lastVrfOutput) with
      | .gt => pure (true, .vrf)
      | .lt => pure (false, .vrf)
      | .eq => pure (decide (candidateHash > tipHash), .stateHash)

/-- `consensus_take`: whether the candidate is preferred over the tip. -/
def consensusTake (blake2b : Vrf → Digest) (tipCs candidateCs : ConsensusState Vrf Checkpoint)
    (tipHash candidateHash : Hash) : Option Bool := do
  if ← isShortRangeFork tipCs candidateCs then
    pure (shortRangeForkTake blake2b tipCs candidateCs tipHash candidateHash).1
  else
    let (take, _) ← longRangeForkTake blake2b tipCs candidateCs tipHash candidateHash
    pure take

/-! ## Both orders decide, and oppositely -/

/-- The shape of every consensus state the protocol produces: a positive epoch length
and a density for each sub-window. -/
structure ConsensusState.WellFormed (state : ConsensusState Vrf Checkpoint) : Prop where
  slotsPerEpochPos : state.currGlobalSlotSinceHardFork.slotsPerEpoch ≠ 0
  subWindowsCovered : subWindowsPerWindow.toNat ≤ state.subWindowDensities.length

theorem isShortRangeForkCheck_isSome (s1 : ConsensusState Vrf Checkpoint)
    {s2 : ConsensusState Vrf Checkpoint} (positive : s2.currGlobalSlotSinceHardFork.slotsPerEpoch ≠ 0) :
    ∃ short, isShortRangeForkCheck s1 s2 = some short := by
  unfold isShortRangeForkCheck
  rw [if_neg positive]
  dsimp only
  split_ifs
  · exact ⟨_, rfl⟩
  · exact ⟨_, rfl⟩

theorem isShortRangeFork_symm {a b : ConsensusState Vrf Checkpoint} {x y : Bool}
    (forward : isShortRangeFork a b = some x) (backward : isShortRangeFork b a = some y) :
    x = y := by
  unfold isShortRangeFork at forward backward
  by_cases same : a.epochCount = b.epochCount
  · rw [if_pos same] at forward
    rw [if_pos same.symm] at backward
    cases forward
    cases backward
    exact decide_eq_decide.mpr eq_comm
  · rw [if_neg same] at forward
    rw [if_neg (Ne.symm same)] at backward
    cases ab : isShortRangeForkCheck a b with
    | none => simp [ab] at forward
    | some u =>
      cases ba : isShortRangeForkCheck b a with
      | none => simp [ba] at backward
      | some v =>
        simp only [ab, ba, Option.bind_eq_bind, Option.bind_some] at forward backward
        cases u <;> cases v <;> simp_all

theorem isShortRangeFork_isSome {a b : ConsensusState Vrf Checkpoint} (wellA : a.WellFormed)
    (wellB : b.WellFormed) : ∃ short, isShortRangeFork a b = some short := by
  unfold isShortRangeFork
  split_ifs
  · exact ⟨_, rfl⟩
  · obtain ⟨u, ab⟩ := isShortRangeForkCheck_isSome a wellB.slotsPerEpochPos
    obtain ⟨v, ba⟩ := isShortRangeForkCheck_isSome b wellA.slotsPerEpochPos
    cases u
    · exact ⟨v, by simp [ab, ba]⟩
    · exact ⟨true, by simp [ab]⟩

theorem ringShift_isSome (count : ℕ) (i : UInt32) {window : List UInt32}
    (covered : subWindowsPerWindow.toNat ≤ window.length) :
    ∃ shifted, ringShift count i window = some shifted := by
  induction count generalizing i window with
  | zero => exact ⟨window, rfl⟩
  | succ count ih =>
    -- the next index is taken modulo the number of sub-windows, so it is in range
    have inRange : ((i + 1) % subWindowsPerWindow).toNat < window.length := by
      have bounded : ((i + 1) % subWindowsPerWindow).toNat < subWindowsPerWindow.toNat := by
        rw [UInt32.toNat_mod]
        exact Nat.mod_lt _ (by decide)
      omega
    simp only [ringShift, if_pos inRange]
    exact ih _ (by rw [List.length_set]; exact covered)

omit [DecidableEq Checkpoint] in
theorem relativeMinWindowDensity_isSome {b1 : ConsensusState Vrf Checkpoint}
    (b2 : ConsensusState Vrf Checkpoint) (well : b1.WellFormed) :
    ∃ density, relativeMinWindowDensity b1 b2 = some density := by
  unfold relativeMinWindowDensity
  dsimp only
  split_ifs
  · exact ⟨_, rfl⟩
  · obtain ⟨shifted, shiftedIs⟩ := ringShift_isSome
      ((min (saturatingSub (max b1.globalSlot b2.globalSlot) (b1.globalSlot + 1))
        subWindowsPerWindow).toNat + 1)
      (relativeSubWindowFromGlobalSlot b1.globalSlot) well.subWindowsCovered
    exact ⟨min b1.minWindowDensity (density shifted), by simp [shiftedIs]⟩

/-! ## What the ring shift clears -/

/-- The sub-windows that `count` steps of the ring shift from sub-window `start` clear:
the `count` that follow it, cyclically. -/
def clearedSubWindows (start count : ℕ) : List ℕ :=
  (List.range count).map fun k => (start + k + 1) % subWindowsPerWindow.toNat

def clearFollowing (window : List UInt32) (start count : ℕ) : List UInt32 :=
  window.mapIdx fun j density => if j ∈ clearedSubWindows start count then 0 else density

theorem mem_clearedSubWindows_succ (start count j : ℕ) :
    j ∈ clearedSubWindows start (count + 1) ↔
      j = (start + 1) % subWindowsPerWindow.toNat ∨
        j ∈ clearedSubWindows ((start + 1) % subWindowsPerWindow.toNat) count := by
  simp only [clearedSubWindows, List.range_succ_eq_map, List.map_cons, List.map_map,
    List.mem_cons, List.mem_map, Function.comp, Nat.succ_eq_add_one, Nat.add_zero]
  have shifted : ∀ k, (start + (k + 1) + 1) % subWindowsPerWindow.toNat =
      ((start + 1) % subWindowsPerWindow.toNat + k + 1) % subWindowsPerWindow.toNat := by
    intro k
    rw [Nat.add_assoc ((start + 1) % _), Nat.mod_add_mod]
    congr 1
    omega
  simp only [shifted, eq_comm]

theorem clearFollowing_zero (window : List UInt32) (start : ℕ) :
    clearFollowing window start 0 = window := by
  apply List.ext_getElem (List.length_mapIdx)
  intro j _ _
  simp [clearedSubWindows]

theorem clearFollowing_succ (window : List UInt32) (start count : ℕ) :
    clearFollowing window start (count + 1) =
      clearFollowing (window.set ((start + 1) % subWindowsPerWindow.toNat) 0)
        ((start + 1) % subWindowsPerWindow.toNat) count := by
  apply List.ext_getElem (by simp [clearFollowing])
  intro j _ _
  simp only [clearFollowing, List.getElem_mapIdx, List.getElem_set, mem_clearedSubWindows_succ]
  split_ifs <;> simp_all

/-- `count` steps of the ring shift from a sub-window in range clear the `count`
sub-windows that follow it. -/
theorem ringShift_eq_clearFollowing (count : ℕ) (i : UInt32) {window : List UInt32}
    (inRange : i.toNat < subWindowsPerWindow.toNat)
    (covered : subWindowsPerWindow.toNat ≤ window.length) :
    ringShift count i window = some (clearFollowing window i.toNat count) := by
  induction count generalizing i window with
  | zero => rw [clearFollowing_zero]; rfl
  | succ count ih =>
    have next : ((i + 1) % subWindowsPerWindow).toNat = (i.toNat + 1) % subWindowsPerWindow.toNat := by
      have small : i.toNat + 1 < 2 ^ 32 := by
        have : subWindowsPerWindow.toNat = 11 := rfl
        omega
      rw [UInt32.toNat_mod, UInt32.toNat_add, UInt32.toNat_one, Nat.mod_eq_of_lt small]
    have nextInRange : ((i + 1) % subWindowsPerWindow).toNat < subWindowsPerWindow.toNat := by
      rw [next]
      exact Nat.mod_lt _ (by decide)
    simp only [ringShift, if_pos (Nat.lt_of_lt_of_le nextInRange covered)]
    rw [ih _ nextInRange (by rw [List.length_set]; exact covered), clearFollowing_succ, next]

theorem saturatingSub_toNat (x y : UInt32) : (saturatingSub x y).toNat = x.toNat - y.toNat := by
  unfold saturatingSub
  split_ifs with order
  · exact UInt32.toNat_sub_of_le x y order
  · have below : x.toNat < y.toNat := UInt32.lt_iff_toNat_lt.mp (UInt32.not_le.mp order)
    simp only [UInt32.toNat_zero]
    omega

theorem relativeSubWindowFromGlobalSlot_lt (globalSlot : UInt32) :
    (relativeSubWindowFromGlobalSlot globalSlot).toNat < subWindowsPerWindow.toNat := by
  rw [relativeSubWindowFromGlobalSlot, UInt32.toNat_mod]
  exact Nat.mod_lt _ (by decide)

omit [DecidableEq Checkpoint] in
/-- Past the grace period, the projected window is b1's densities with the
`shift_count + 1` sub-windows after b1's own cleared: the loop runs over
`0..=shift_count`, with `shift_count` the saturating difference of the slots, at most
the number of sub-windows. -/
theorem relativeMinWindowDensity_clears_following (b1 b2 : ConsensusState Vrf Checkpoint)
    (covered : subWindowsPerWindow.toNat ≤ b1.subWindowDensities.length)
    (late : gracePeriodEnd ≤ max b1.globalSlot b2.globalSlot) :
    relativeMinWindowDensity b1 b2 =
      some (min b1.minWindowDensity
        (density (clearFollowing b1.subWindowDensities
          (relativeSubWindowFromGlobalSlot b1.globalSlot).toNat
          (min ((max b1.globalSlot b2.globalSlot).toNat - (b1.globalSlot.toNat + 1) % 2 ^ 32) 11 + 1)))) := by
  have shiftCount : (min (saturatingSub (max b1.globalSlot b2.globalSlot) (b1.globalSlot + 1))
      subWindowsPerWindow).toNat =
      min ((max b1.globalSlot b2.globalSlot).toNat - (b1.globalSlot.toNat + 1) % 2 ^ 32) 11 := by
    rw [UInt32.toNat_min, saturatingSub_toNat, UInt32.toNat_add, UInt32.toNat_one]
    rfl
  unfold relativeMinWindowDensity
  rw [if_neg (UInt32.not_lt.mpr late)]
  simp only [shiftCount, ringShift_eq_clearFollowing _ _ (relativeSubWindowFromGlobalSlot_lt _) covered,
    Option.pure_def, Option.bind_eq_bind, Option.bind_some]

/-- A state at the end of the grace period whose eleven sub-windows each saw one block. -/
def pastGracePeriod : ConsensusState Unit Unit where
  blockchainLength := 1
  epochCount := 0
  minWindowDensity := 11
  subWindowDensities := List.replicate 11 1
  lastVrfOutput := ()
  currGlobalSlotSinceHardFork := ⟨1440, 7140⟩
  stakingEpochData := ⟨()⟩
  nextEpochData := ⟨()⟩

theorem relativeMinWindowDensity_clears_following_pastGracePeriod :
    relativeMinWindowDensity pastGracePeriod pastGracePeriod =
      some (min 11 (density (clearFollowing (List.replicate 11 1) 7 1))) :=
  relativeMinWindowDensity_clears_following pastGracePeriod pastGracePeriod (by decide) (by decide)

/-- Against itself, a state past the grace period loses the sub-window after its own:
the density falls from 11 to 10 although no slot separates the two states. -/
theorem relative_min_window_density_clears_one_more :
    gracePeriodEnd ≤ max pastGracePeriod.globalSlot pastGracePeriod.globalSlot ∧
      min pastGracePeriod.minWindowDensity (density pastGracePeriod.subWindowDensities) = 11 ∧
      relativeMinWindowDensity pastGracePeriod pastGracePeriod = some 10 := by
  decide

/-- The answer of one three-way comparison: greater takes, less keeps, a tie defers to
the next criterion. -/
def preferGreater (order : Ordering) (tie : Bool) : Bool :=
  match order with
  | .gt => true
  | .lt => false
  | .eq => tie

theorem preferGreater_swap (order : Ordering) (tie : Bool) :
    preferGreater order.swap (!tie) = !preferGreater order tie := by
  cases order <;> rfl

theorem decide_gt_swap {ha hb : Hash} (distinct : ha ≠ hb) :
    decide (ha > hb) = !decide (hb > ha) := by
  rcases lt_or_gt_of_ne distinct with lt | gt
  · simp [lt, lt_asymm lt]
  · simp [gt, lt_asymm gt]

omit [DecidableEq Checkpoint] in
theorem shortRangeForkTake_fst (blake2b : Vrf → Digest) (tipCs candidateCs : ConsensusState Vrf Checkpoint)
    (tipHash candidateHash : Hash) :
    (shortRangeForkTake blake2b tipCs candidateCs tipHash candidateHash).1 =
      preferGreater (compare candidateCs.blockchainLength.toNat tipCs.blockchainLength.toNat)
        (preferGreater (compare (blake2b candidateCs.lastVrfOutput) (blake2b tipCs.lastVrfOutput))
          (decide (candidateHash > tipHash))) := by
  unfold shortRangeForkTake preferGreater
  cases compare candidateCs.blockchainLength.toNat tipCs.blockchainLength.toNat
  · rfl
  · cases compare (blake2b candidateCs.lastVrfOutput) (blake2b tipCs.lastVrfOutput) <;> rfl
  · rfl

omit [DecidableEq Checkpoint] in
theorem longRangeForkTake_fst (blake2b : Vrf → Digest) {tipCs candidateCs : ConsensusState Vrf Checkpoint}
    (tipHash candidateHash : Hash) {tipDensity candidateDensity : UInt32}
    (tipIs : relativeMinWindowDensity tipCs candidateCs = some tipDensity)
    (candidateIs : relativeMinWindowDensity candidateCs tipCs = some candidateDensity) :
    (longRangeForkTake blake2b tipCs candidateCs tipHash candidateHash).map Prod.fst =
      some (preferGreater (compare candidateDensity.toNat tipDensity.toNat)
        (shortRangeForkTake blake2b tipCs candidateCs tipHash candidateHash).1) := by
  rw [shortRangeForkTake_fst]
  simp only [longRangeForkTake, tipIs, candidateIs, Option.bind_eq_bind, Option.bind_some]
  unfold preferGreater
  -- the long-range rule is the short-range one behind a density comparison
  cases compare candidateDensity.toNat tipDensity.toNat
  · rfl
  · cases compare candidateCs.blockchainLength.toNat tipCs.blockchainLength.toNat
    · rfl
    · cases compare (blake2b candidateCs.lastVrfOutput) (blake2b tipCs.lastVrfOutput) <;> rfl
    · rfl
  · rfl

omit [DecidableEq Checkpoint] in
theorem shortRangeForkTake_swap (blake2b : Vrf → Digest) (a b : ConsensusState Vrf Checkpoint)
    {ha hb : Hash} (distinct : ha ≠ hb) :
    (shortRangeForkTake blake2b b a hb ha).1 = !(shortRangeForkTake blake2b a b ha hb).1 := by
  rw [shortRangeForkTake_fst, shortRangeForkTake_fst, Std.OrientedOrd.eq_swap (a := a.blockchainLength.toNat),
    Std.OrientedOrd.eq_swap (a := blake2b a.lastVrfOutput), decide_gt_swap distinct,
    preferGreater_swap, preferGreater_swap]

omit [DecidableEq Checkpoint] in
theorem longRangeForkTake_isSome (blake2b : Vrf → Digest) {a b : ConsensusState Vrf Checkpoint}
    (ha hb : Hash) (wellA : a.WellFormed) (wellB : b.WellFormed) :
    ∃ da db, relativeMinWindowDensity a b = some da ∧ relativeMinWindowDensity b a = some db ∧
      (longRangeForkTake blake2b a b ha hb).map Prod.fst =
        some (preferGreater (compare db.toNat da.toNat) (shortRangeForkTake blake2b a b ha hb).1) := by
  obtain ⟨da, daIs⟩ := relativeMinWindowDensity_isSome b wellA
  obtain ⟨db, dbIs⟩ := relativeMinWindowDensity_isSome a wellB
  exact ⟨da, db, daIs, dbIs, longRangeForkTake_fst blake2b ha hb daIs dbIs⟩

omit [DecidableEq Checkpoint] in
theorem longRangeForkTake_swap (blake2b : Vrf → Digest) {a b : ConsensusState Vrf Checkpoint}
    {ha hb : Hash} (distinct : ha ≠ hb) {da db : UInt32}
    (daIs : relativeMinWindowDensity a b = some da) (dbIs : relativeMinWindowDensity b a = some db) :
    (longRangeForkTake blake2b b a hb ha).map Prod.fst =
      (longRangeForkTake blake2b a b ha hb).map (fun taken => !taken.1) := by
  have forward := longRangeForkTake_fst blake2b ha hb daIs dbIs
  have backward := longRangeForkTake_fst blake2b hb ha dbIs daIs
  calc (longRangeForkTake blake2b b a hb ha).map Prod.fst
      = some (preferGreater (compare da.toNat db.toNat) (shortRangeForkTake blake2b b a hb ha).1) :=
        backward
    _ = ((longRangeForkTake blake2b a b ha hb).map Prod.fst).map not := by
        rw [forward, Option.map_some, shortRangeForkTake_swap blake2b a b distinct,
          Std.OrientedOrd.eq_swap (a := da.toNat), preferGreater_swap]
    _ = (longRangeForkTake blake2b a b ha hb).map (fun taken => !taken.1) := Option.map_map _ _ _

/-! ## Consensus take -/

theorem consensusTake_of_isShortRangeFork (blake2b : Vrf → Digest) {a b : ConsensusState Vrf Checkpoint}
    (ha hb : Hash) {short : Bool} (decided : isShortRangeFork a b = some short) :
    consensusTake blake2b a b ha hb =
      if short then some (shortRangeForkTake blake2b a b ha hb).1
      else (longRangeForkTake blake2b a b ha hb).map Prod.fst := by
  cases short
  · simp only [consensusTake, decided, Option.map_eq_bind, Option.bind_eq_bind, Option.bind_some]
    rfl
  · simp [consensusTake, decided]

/-- Whenever both orders of the fork choice return, they disagree: the candidate is
taken over the tip exactly when the tip would not be taken over the candidate. -/
theorem consensusTake_swap (blake2b : Vrf → Digest) {a b : ConsensusState Vrf Checkpoint}
    {ha hb : Hash} (distinct : ha ≠ hb) {x y : Bool}
    (forward : consensusTake blake2b a b ha hb = some x)
    (backward : consensusTake blake2b b a hb ha = some y) : y = !x := by
  -- a panic of `is_short_range_fork` in either order is a panic of that order
  obtain ⟨short, shortIs⟩ : ∃ short, isShortRangeFork a b = some short := by
    cases decided : isShortRangeFork a b
    · simp [consensusTake, decided] at forward
    · exact ⟨_, rfl⟩
  obtain ⟨short', shortIs'⟩ : ∃ short, isShortRangeFork b a = some short := by
    cases decided : isShortRangeFork b a
    · simp [consensusTake, decided] at backward
    · exact ⟨_, rfl⟩
  have same := isShortRangeFork_symm shortIs shortIs'
  subst same
  rw [consensusTake_of_isShortRangeFork blake2b ha hb shortIs] at forward
  rw [consensusTake_of_isShortRangeFork blake2b hb ha shortIs'] at backward
  cases short
  · -- long range: both densities were computed
    obtain ⟨da, daIs⟩ : ∃ da, relativeMinWindowDensity a b = some da := by
      cases found : relativeMinWindowDensity a b
      · simp [longRangeForkTake, found] at forward
      · exact ⟨_, rfl⟩
    obtain ⟨db, dbIs⟩ : ∃ db, relativeMinWindowDensity b a = some db := by
      cases found : relativeMinWindowDensity b a
      · simp [longRangeForkTake, found] at backward
      · exact ⟨_, rfl⟩
    simp only [Bool.false_eq_true, if_false] at forward backward
    rw [longRangeForkTake_swap blake2b distinct daIs dbIs] at backward
    obtain ⟨taken, takenIs, rfl⟩ := Option.map_eq_some_iff.mp forward
    rw [takenIs] at backward
    simpa using backward.symm
  · simp only [if_true, Option.some.injEq] at forward backward
    rw [← forward, ← backward, shortRangeForkTake_swap blake2b a b distinct]

theorem consensusTake_isSome (blake2b : Vrf → Digest) {a b : ConsensusState Vrf Checkpoint}
    (ha hb : Hash) (wellA : a.WellFormed) (wellB : b.WellFormed) :
    ∃ take, consensusTake blake2b a b ha hb = some take := by
  obtain ⟨short, shortIs⟩ := isShortRangeFork_isSome wellA wellB
  rw [consensusTake_of_isShortRangeFork blake2b ha hb shortIs]
  cases short
  · obtain ⟨_, _, _, _, long⟩ := longRangeForkTake_isSome blake2b ha hb wellA wellB
    exact ⟨_, long⟩
  · exact ⟨_, rfl⟩

/-- Between well-formed states with distinct hashes, exactly one order of the fork choice
takes the candidate. -/
theorem consensus_take_antisymmetric (blake2b : Vrf → Digest) {a b : ConsensusState Vrf Checkpoint}
    {ha hb : Hash} (wellA : a.WellFormed) (wellB : b.WellFormed) (distinct : ha ≠ hb) :
    ∃ take, consensusTake blake2b a b ha hb = some take ∧
      consensusTake blake2b b a hb ha = some (!take) := by
  obtain ⟨x, forward⟩ := consensusTake_isSome blake2b ha hb wellA wellB
  obtain ⟨y, backward⟩ := consensusTake_isSome blake2b hb ha wellB wellA
  refine ⟨x, forward, ?_⟩
  rw [backward, consensusTake_swap blake2b distinct forward backward]

/-- A state of epoch 1 past two thirds of it, with the mainnet epoch length. -/
def lateInEpoch (length : UInt32) (slot : UInt32) (stakingLock nextLock : ℕ) : ConsensusState ℕ ℕ where
  blockchainLength := length
  epochCount := 1
  minWindowDensity := 77
  subWindowDensities := List.replicate 11 7
  lastVrfOutput := 0
  currGlobalSlotSinceHardFork := ⟨slot, 7140⟩
  stakingEpochData := ⟨stakingLock⟩
  nextEpochData := ⟨nextLock⟩

/-- The successor epoch's state with the given epoch length and window densities. -/
def nextEpochState (length slotsPerEpoch density : UInt32) (stakingLock : ℕ) : ConsensusState ℕ ℕ where
  blockchainLength := length
  epochCount := 2
  minWindowDensity := 11 * density
  subWindowDensities := List.replicate 11 density
  lastVrfOutput := 0
  currGlobalSlotSinceHardFork := ⟨14280, slotsPerEpoch⟩
  stakingEpochData := ⟨stakingLock⟩
  nextEpochData := ⟨stakingLock⟩

theorem consensus_take_antisymmetric_same_epoch :
    ∃ take, consensusTake id (lateInEpoch 10 14279 0 2) (lateInEpoch 11 14000 0 1) 1 2 = some take ∧
      consensusTake id (lateInEpoch 11 14000 0 1) (lateInEpoch 10 14279 0 2) 2 1 = some (!take) :=
  consensus_take_antisymmetric id ⟨by decide, by decide⟩ ⟨by decide, by decide⟩ (by decide)

/-- A successor state whose epoch length is zero: its own order decides (against the
candidate), the other order panics at the remainder by zero, so neither takes. -/
theorem consensus_take_panics_one_way :
    consensusTake id (lateInEpoch 10 14279 0 2) (nextEpochState 11 0 1 2) 1 2 = none ∧
      consensusTake id (nextEpochState 11 0 1 2) (lateInEpoch 10 14279 0 2) 2 1 = some false := by
  decide

/-! ## The order of candidates

`transition_frontier_candidate_state.rs` orders the candidate blocks of a `BTreeSet` by
`consensus_take`, and takes the last one as the best. -/

/-- A candidate block: its consensus state and its state hash. -/
structure Candidate (Vrf Checkpoint Hash : Type) where
  consensusState : ConsensusState Vrf Checkpoint
  hash : Hash

/-- `Ord for TransitionFrontierCandidateState`: equal hashes are equal, and otherwise a
block sorts below the blocks that `consensus_take` prefers over it. -/
def Candidate.cmp (blake2b : Vrf → Digest) (self other : Candidate Vrf Checkpoint Hash) :
    Option Ordering :=
  if self.hash = other.hash then some .eq
  else do
    let isCandidateBetter ←
      consensusTake blake2b self.consensusState other.consensusState self.hash other.hash
    pure (if isCandidateBetter then .lt else .gt)

theorem Candidate.cmp_of_consensusTake (blake2b : Vrf → Digest) {self other : Candidate Vrf Checkpoint Hash}
    (distinct : self.hash ≠ other.hash) {take : Bool}
    (taken : consensusTake blake2b self.consensusState other.consensusState self.hash other.hash = some take) :
    self.cmp blake2b other = some (if take then .lt else .gt) := by
  simp [Candidate.cmp, distinct, taken]

def cycleA : Candidate ℕ ℕ ℕ := ⟨lateInEpoch 10 14279 0 2, 1⟩

def cycleB : Candidate ℕ ℕ ℕ := ⟨lateInEpoch 11 14000 0 1, 2⟩

def cycleC : Candidate ℕ ℕ ℕ := ⟨nextEpochState 12 7140 1 1, 3⟩

theorem cycleA_cycleB_take (blake2b : ℕ → Digest) :
    consensusTake blake2b cycleA.consensusState cycleB.consensusState cycleA.hash cycleB.hash =
      some true := by
  have short : isShortRangeFork cycleA.consensusState cycleB.consensusState = some true := by decide
  have longer : compare cycleB.consensusState.blockchainLength.toNat
      cycleA.consensusState.blockchainLength.toNat = .gt := by decide
  rw [consensusTake_of_isShortRangeFork blake2b _ _ short, if_pos rfl, shortRangeForkTake_fst, longer]
  rfl

theorem cycleB_cycleC_take (blake2b : ℕ → Digest) :
    consensusTake blake2b cycleB.consensusState cycleC.consensusState cycleB.hash cycleC.hash =
      some true := by
  have short : isShortRangeFork cycleB.consensusState cycleC.consensusState = some true := by decide
  have longer : compare cycleC.consensusState.blockchainLength.toNat
      cycleB.consensusState.blockchainLength.toNat = .gt := by decide
  rw [consensusTake_of_isShortRangeFork blake2b _ _ short, if_pos rfl, shortRangeForkTake_fst, longer]
  rfl

theorem cycleA_cycleC_take (blake2b : ℕ → Digest) :
    consensusTake blake2b cycleA.consensusState cycleC.consensusState cycleA.hash cycleC.hash =
      some false := by
  have long : isShortRangeFork cycleA.consensusState cycleC.consensusState = some false := by decide
  have tipDensity : relativeMinWindowDensity cycleA.consensusState cycleC.consensusState = some 70 := by
    decide
  have candidateDensity :
      relativeMinWindowDensity cycleC.consensusState cycleA.consensusState = some 10 := by decide
  rw [consensusTake_of_isShortRangeFork blake2b _ _ long, if_neg Bool.false_ne_true,
    longRangeForkTake_fst blake2b _ _ tipDensity candidateDensity]
  rfl

theorem consensus_take_not_transitive (blake2b : ℕ → Digest) :
    cycleA.consensusState.WellFormed ∧ cycleB.consensusState.WellFormed ∧
      cycleC.consensusState.WellFormed ∧
      consensusTake blake2b cycleA.consensusState cycleB.consensusState cycleA.hash cycleB.hash =
        some true ∧
      consensusTake blake2b cycleB.consensusState cycleC.consensusState cycleB.hash cycleC.hash =
        some true ∧
      consensusTake blake2b cycleA.consensusState cycleC.consensusState cycleA.hash cycleC.hash =
        some false ∧
      cycleA.cmp blake2b cycleB = some .lt ∧ cycleB.cmp blake2b cycleC = some .lt ∧
      cycleA.cmp blake2b cycleC = some .gt := by
  refine ⟨⟨by decide, by decide⟩, ⟨by decide, by decide⟩, ⟨by decide, by decide⟩,
    cycleA_cycleB_take blake2b, cycleB_cycleC_take blake2b, cycleA_cycleC_take blake2b, ?_, ?_, ?_⟩
  · exact Candidate.cmp_of_consensusTake blake2b (by decide) (cycleA_cycleB_take blake2b)
  · exact Candidate.cmp_of_consensusTake blake2b (by decide) (cycleB_cycleC_take blake2b)
  · exact Candidate.cmp_of_consensusTake blake2b (by decide) (cycleA_cycleC_take blake2b)

end Openmina.Consensus.ForkChoice
