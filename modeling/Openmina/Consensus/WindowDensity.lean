import Mathlib
import Openmina.Arith.ListIndex
import Openmina.Numbers.Checked

/-!
# Sub-window densities of the consensus state

The block producer updates `min_window_density` and `sub_window_densities` natively
on `u32` (`node/src/block_producer/block_producer_reducer.rs`), and the block
circuit recomputes the same ring-window update on checked numbers
(`update_min_window_density`, `ledger/src/proofs/block.rs`). Both are transcribed
here with their panics as `none`: a division by a zero constant, the
`checked_add(..).expect("overflow")` of the overlap test, and `unwrap` in
`Magnitude::of_field`. The grace-period bound is read from the same constant on
both sides; `ConsensusConstants` keeps only the three constants the update uses.
-/

namespace Openmina.Consensus.WindowDensity

open Openmina.Numbers.Checked

set_option autoImplicit false

structure ConsensusConstants where
  slotsPerSubWindow : ℕ
  subWindowsPerWindow : ℕ
  gracePeriodEnd : ℕ

/-- Ranges of the constants in which neither implementation divides by zero and the
overlap bound `global_sub_window + sub_windows_per_window` of any `u32` slot fits
in a `u32` (the node runs with 7 slots per sub-window and 11 sub-windows). -/
structure ConsensusConstants.Fits (constants : ConsensusConstants) : Prop where
  slotsPerSubWindowLow : 2 ≤ constants.slotsPerSubWindow
  slotsPerSubWindowU32 : constants.slotsPerSubWindow < 2 ^ 32
  subWindowsPerWindowPos : 0 < constants.subWindowsPerWindow
  subWindowsPerWindowHalf : constants.subWindowsPerWindow ≤ 2 ^ 31
  gracePeriodEndU32 : constants.gracePeriodEnd < 2 ^ 32

/-- `ConsensusGlobalSlotStableV1`, reduced to its `u32` slot number. -/
structure GlobalSlot where
  slotNumber : ℕ
  slotNumberU32 : slotNumber < 2 ^ 32

/-- The two fields of the predecessor consensus state that the update reads. -/
structure WindowState where
  subWindowDensities : List ℕ
  minWindowDensity : ℕ
  densitiesU32 : ∀ density ∈ subWindowDensities, density < 2 ^ 32
  minWindowDensityU32 : minWindowDensity < 2 ^ 32

/-! ## The native update (`block_producer_reducer.rs`) -/

def globalSubWindow (constants : ConsensusConstants) (slot : GlobalSlot) : Option ℕ :=
  if constants.slotsPerSubWindow = 0 then none
  else some (slot.slotNumber / constants.slotsPerSubWindow)

def relativeSubWindow (constants : ConsensusConstants) (globalSubWindow : ℕ) : Option ℕ :=
  if constants.subWindowsPerWindow % 2 ^ 32 = 0 then none
  else some (globalSubWindow % (constants.subWindowsPerWindow % 2 ^ 32))

def u32CheckedAdd (x y : ℕ) : Option ℕ :=
  if x + y < 2 ^ 32 then some (x + y) else none

def u32SaturatingAdd (x y : ℕ) : ℕ :=
  if x + y < 2 ^ 32 then x + y else 2 ^ 32 - 1

/-- `Iterator::sum` on `u32` as shipped: release builds wrap on overflow. -/
def u32WrappingSum (values : List ℕ) : ℕ :=
  values.sum % 2 ^ 32

/-- The `current_sub_window_densities` map of the reducer: sub-windows strictly
between the previous and the next one on the ring are cleared, unless both slots
share a sub-window or the windows no longer overlap. -/
def currentSubWindowDensities (densities : List ℕ) (predRelative nextRelative : ℕ)
    (isSame overlapping : Bool) : List ℕ :=
  densities.mapIdx fun i density =>
    let gtPredSubWindow := decide (i > predRelative)
    let ltNextSubWindow := decide (i < nextRelative)
    let withinRange :=
      if predRelative < nextRelative then gtPredSubWindow && ltNextSubWindow
      else gtPredSubWindow || ltNextSubWindow
    if isSame || (overlapping && !withinRange) then density else 0

/-- The `next_sub_window_densities` map: the next sub-window counts the new block. -/
def nextSubWindowDensities (current : List ℕ) (nextRelative : ℕ) (isSame : Bool) :
    List ℕ :=
  let incrWindow := true
  current.mapIdx fun i density =>
    if i = nextRelative then
      let density := if isSame then density else 0
      if incrWindow then u32SaturatingAdd density 1 else density
    else density

/-- The native `(min_window_density, sub_window_densities)` of the new block. -/
def updateNative (constants : ConsensusConstants) (pred : WindowState)
    (predSlot currSlot : GlobalSlot) : Option (ℕ × List ℕ) := do
  let predGlobal ← globalSubWindow constants predSlot
  let nextGlobal ← globalSubWindow constants currSlot
  let predRelative ← relativeSubWindow constants predGlobal
  let nextRelative ← relativeSubWindow constants nextGlobal
  let isSame := decide (predGlobal = nextGlobal)
  let overlapEnd ← u32CheckedAdd predGlobal (constants.subWindowsPerWindow % 2 ^ 32)
  let overlapping := decide (overlapEnd ≥ nextGlobal)
  let current := currentSubWindowDensities pred.subWindowDensities predRelative
    nextRelative isSame overlapping
  let minWindowDensity :=
    if isSame || decide (currSlot.slotNumber < constants.gracePeriodEnd) then
      pred.minWindowDensity
    else min pred.minWindowDensity (u32WrappingSum current)
  pure (minWindowDensity, nextSubWindowDensities current nextRelative isSame)

/-! ## The witness update (`update_min_window_density`, `proofs/block.rs`) -/

/-- `GlobalSubWindow::of_global_slot`: `div_mod` of `CheckedN32`, whose inner
integer is a `u64`. -/
def ofGlobalSlot (constants : ConsensusConstants) (slot : GlobalSlot) : Option Fp :=
  (CheckedNat.divMod 64 (slot.slotNumber : Fp) (constants.slotsPerSubWindow : Fp)).map Prod.fst

def subWindow (constants : ConsensusConstants) (globalSubWindow : Fp) : Option Fp :=
  (CheckedNat.divMod 64 globalSubWindow (constants.subWindowsPerWindow : Fp)).map Prod.snd

/-- The per-sub-window selection of the circuit, as conditional selects. For
`i = 0` the source calls `const_less_than`, which computes the same flag. -/
def currentSubWindowDensitiesChecked (densities : List ℕ) (prevRelative nextRelative : Fp)
    (sameSubWindow overlappingWindow : Bool) : List Fp :=
  densities.mapIdx fun i (density : ℕ) =>
    let gtPrevSubWindow := CheckedNat.greaterThan 32 (i : Fp) prevRelative
    let ltNextSubWindow := CheckedNat.lessThan 32 (i : Fp) nextRelative
    let withinRange :=
      if CheckedNat.lessThan 32 prevRelative nextRelative then gtPrevSubWindow && ltNextSubWindow
      else gtPrevSubWindow || ltNextSubWindow
    let density : Fp := density
    let onFalse := if overlappingWindow && !withinRange then density else 0
    if sameSubWindow then density else onFalse

/-- The circuit's `next_sub_window_densities`: `const_succ` is a bare field `+ 1`. -/
def nextSubWindowDensitiesChecked (current : List Fp) (nextRelative : Fp)
    (sameSubWindow : Bool) : List Fp :=
  current.mapIdx fun i density =>
    let onTrue := if sameSubWindow then density + 1 else 0 + 1
    if CheckedNat.equal (i : Fp) nextRelative then onTrue else density

def updateMinWindowDensity (constants : ConsensusConstants) (prevGlobalSlot nextGlobalSlot : GlobalSlot)
    (prevSubWindowDensities : List ℕ) (prevMinWindowDensity : ℕ) : Option (Fp × List Fp) := do
  let prevGlobal ← ofGlobalSlot constants prevGlobalSlot
  let nextGlobal ← ofGlobalSlot constants nextGlobalSlot
  let prevRelative ← subWindow constants prevGlobal
  let nextRelative ← subWindow constants nextGlobal
  let sameSubWindow := CheckedNat.equal prevGlobal nextGlobal
  let overlappingWindow :=
    CheckedNat.gte 32 (CheckedNat.add prevGlobal (constants.subWindowsPerWindow : Fp)) nextGlobal
  let current := currentSubWindowDensitiesChecked prevSubWindowDensities prevRelative
    nextRelative sameSubWindow overlappingWindow
  let currentWindowDensity := current.foldl CheckedNat.add 0
  let inGracePeriod :=
    CheckedNat.lessThan 32 (nextGlobalSlot.slotNumber : Fp) (constants.gracePeriodEnd : Fp)
  let prevMin : Fp := prevMinWindowDensity
  let minWindowDensity :=
    if sameSubWindow || inGracePeriod then prevMin
    else CheckedNat.min 32 currentWindowDensity prevMin
  pure (minWindowDensity, nextSubWindowDensitiesChecked current nextRelative sameSubWindow)

/-- The circuit's update applied to a consensus state. -/
def updateWitness (constants : ConsensusConstants) (pred : WindowState)
    (predSlot currSlot : GlobalSlot) : Option (Fp × List Fp) :=
  updateMinWindowDensity constants predSlot currSlot pred.subWindowDensities
    pred.minWindowDensity

def Agree (native : Option (ℕ × List ℕ)) (witness : Option (Fp × List Fp)) : Prop :=
  ∃ minWindowDensity densities, native = some (minWindowDensity, densities) ∧
    witness = some ((minWindowDensity : Fp), densities.map fun density : ℕ => (density : Fp))


/-! ## The update on unbounded naturals

What both implementations compute when no machine integer overflows: the
sub-windows passed over since the predecessor are cleared, the minimum density is
lowered to the current window density once past the grace period, and the
sub-window of the new block counts one more block. -/

/-- The relative sub-windows and the two tests both implementations derive from
the slots. -/
structure SubWindowPositions where
  predRelative : ℕ
  nextRelative : ℕ
  isSame : Bool
  overlapping : Bool

def subWindowPositions (constants : ConsensusConstants) (predSlot currSlot : GlobalSlot) :
    SubWindowPositions :=
  let predGlobal := predSlot.slotNumber / constants.slotsPerSubWindow
  let nextGlobal := currSlot.slotNumber / constants.slotsPerSubWindow
  { predRelative := predGlobal % constants.subWindowsPerWindow
    nextRelative := nextGlobal % constants.subWindowsPerWindow
    isSame := decide (predGlobal = nextGlobal)
    overlapping := decide (nextGlobal ≤ predGlobal + constants.subWindowsPerWindow) }

def windowUpdate (constants : ConsensusConstants) (pred : WindowState)
    (predSlot currSlot : GlobalSlot) : ℕ × List ℕ :=
  let positions := subWindowPositions constants predSlot currSlot
  let current := currentSubWindowDensities pred.subWindowDensities positions.predRelative
    positions.nextRelative positions.isSame positions.overlapping
  (if positions.isSame || decide (currSlot.slotNumber < constants.gracePeriodEnd) then
      pred.minWindowDensity
    else min pred.minWindowDensity current.sum,
    current.mapIdx fun i density =>
      if i = positions.nextRelative then (if positions.isSame then density else 0) + 1
      else density)

/-! ## Both implementations refine the update on naturals -/

section Refinement

open Openmina.Arith.ListIndex Openmina.Arith.ZModWindow

variable {constants : ConsensusConstants}

theorem globalSubWindow_eq (slot : GlobalSlot) (positive : 0 < constants.slotsPerSubWindow) :
    globalSubWindow constants slot = some (slot.slotNumber / constants.slotsPerSubWindow) := by
  rw [globalSubWindow, if_neg (Nat.pos_iff_ne_zero.mp positive)]

theorem relativeSubWindow_eq (globalSubWindow : ℕ) (positive : 0 < constants.subWindowsPerWindow)
    (fits : constants.subWindowsPerWindow < 2 ^ 32) :
    relativeSubWindow constants globalSubWindow =
      some (globalSubWindow % constants.subWindowsPerWindow) := by
  rw [relativeSubWindow, Nat.mod_eq_of_lt fits, if_neg (Nat.pos_iff_ne_zero.mp positive)]

theorem ofGlobalSlot_eq (slot : GlobalSlot) (positive : 0 < constants.slotsPerSubWindow)
    (fits : constants.slotsPerSubWindow < 2 ^ 32) :
    ofGlobalSlot constants slot =
      some ((slot.slotNumber / constants.slotsPerSubWindow : ℕ) : Fp) := by
  have slotBound : slot.slotNumber < 2 ^ 64 := by
    have := slot.slotNumberU32
    omega
  rw [ofGlobalSlot, CheckedNat.divMod_natCast slotBound (by omega) le_rfl positive]
  rfl

theorem subWindow_eq {globalSubWindow : ℕ} (bound : globalSubWindow < 2 ^ 64)
    (positive : 0 < constants.subWindowsPerWindow)
    (fits : constants.subWindowsPerWindow < 2 ^ 32) :
    subWindow constants globalSubWindow =
      some ((globalSubWindow % constants.subWindowsPerWindow : ℕ) : Fp) := by
  rw [subWindow, CheckedNat.divMod_natCast bound (by omega) le_rfl positive]
  rfl

theorem currentSubWindowDensitiesChecked_eq (densities : List ℕ) {prevRelative nextRelative : ℕ}
    (prevBound : prevRelative < 2 ^ 32) (nextBound : nextRelative < 2 ^ 32)
    (shortWindow : densities.length ≤ 2 ^ 32) (sameSubWindow overlappingWindow : Bool) :
    currentSubWindowDensitiesChecked densities prevRelative nextRelative sameSubWindow
        overlappingWindow =
      (currentSubWindowDensities densities prevRelative nextRelative sameSubWindow
        overlappingWindow).map fun density : ℕ => (density : Fp) := by
  rw [currentSubWindowDensities, map_mapIdx, currentSubWindowDensitiesChecked,
    List.mapIdx_eq_mapIdx_iff]
  intro i inWindow
  have indexBound : i < 2 ^ 32 := by omega
  rw [CheckedNat.greaterThan_natCast indexBound prevBound fp_wide_32,
    CheckedNat.lessThan_natCast indexBound nextBound fp_wide_32,
    CheckedNat.lessThan_natCast prevBound nextBound fp_wide_32]
  -- the ring test splits on the order of the two relative sub-windows
  by_cases order : prevRelative < nextRelative
  · cases sameSubWindow <;> simp [order]
  · cases sameSubWindow <;> simp [order]

theorem nextSubWindowDensitiesChecked_eq (current : List ℕ) {nextRelative : ℕ}
    (nextBound : nextRelative < 2 ^ 32) (shortWindow : current.length ≤ 2 ^ 32)
    (sameSubWindow : Bool) :
    nextSubWindowDensitiesChecked (current.map fun density : ℕ => (density : Fp)) nextRelative
        sameSubWindow =
      (current.mapIdx fun i density =>
        if i = nextRelative then (if sameSubWindow then density else 0) + 1
        else density).map fun density : ℕ => (density : Fp) := by
  rw [nextSubWindowDensitiesChecked, mapIdx_map, map_mapIdx, List.mapIdx_eq_mapIdx_iff]
  intro i inWindow
  have fieldBound : 2 ^ 32 ≤ fpModulus := pow_le_fpModulus (by omega)
  rw [CheckedNat.equal_natCast (by omega) (by omega)]
  by_cases atNext : i = nextRelative
  · cases sameSubWindow <;> simp [atNext]
  · simp [atNext]

theorem nextSubWindowDensities_eq (current : List ℕ) (nextRelative : ℕ)
    (belowMax : ∀ density ∈ current, density < 2 ^ 32 - 1) (isSame : Bool) :
    nextSubWindowDensities current nextRelative isSame =
      current.mapIdx fun i density =>
        if i = nextRelative then (if isSame then density else 0) + 1 else density := by
  rw [nextSubWindowDensities, List.mapIdx_eq_mapIdx_iff]
  intro i inWindow
  have entryBound : current[i] < 2 ^ 32 - 1 := belowMax _ (List.getElem_mem inWindow)
  by_cases atNext : i = nextRelative
  · have entryNoSaturation : u32SaturatingAdd current[i] 1 = current[i] + 1 := by
      rw [u32SaturatingAdd, if_pos (by omega)]
    have oneNoSaturation : u32SaturatingAdd 0 1 = 0 + 1 := by decide
    subst atNext
    cases isSame <;> simp [entryNoSaturation, oneNoSaturation]
  · simp [atNext]

theorem currentSubWindowDensities_sum_le (densities : List ℕ) (predRelative nextRelative : ℕ)
    (isSame overlapping : Bool) :
    (currentSubWindowDensities densities predRelative nextRelative isSame overlapping).sum ≤
      densities.sum :=
  sum_mapIdx_le _ _ fun _ _ => by
    dsimp only
    split_ifs <;> omega

theorem currentSubWindowDensities_lt {densities : List ℕ} {bound : ℕ}
    (below : ∀ density ∈ densities, density < bound) (positive : 0 < bound)
    (predRelative nextRelative : ℕ) (isSame overlapping : Bool) :
    ∀ density ∈ currentSubWindowDensities densities predRelative nextRelative isSame overlapping,
      density < bound := by
  intro density member
  rw [currentSubWindowDensities, List.mem_mapIdx] at member
  obtain ⟨i, inWindow, rfl⟩ := member
  have entry := below _ (List.getElem_mem inWindow)
  dsimp only
  split_ifs <;> omega

theorem foldl_add_natCast_eq_sum (values : List ℕ) :
    (values.map fun value : ℕ => (value : Fp)).foldl CheckedNat.add 0 = ((values.sum : ℕ) : Fp) := by
  have sum := foldl_add_natCast (n := fpModulus) values 0
  rw [zero_add] at sum
  exact sum

theorem globalSubWindow_lt (fits : constants.Fits) (slot : GlobalSlot) :
    slot.slotNumber / constants.slotsPerSubWindow < 2 ^ 31 := by
  apply Nat.div_lt_of_lt_mul
  have slotBound := slot.slotNumberU32
  have low := fits.slotsPerSubWindowLow
  omega

theorem relative_lt (fits : constants.Fits) (globalSubWindow : ℕ) :
    globalSubWindow % constants.subWindowsPerWindow < 2 ^ 32 := by
  have below := Nat.mod_lt globalSubWindow fits.subWindowsPerWindowPos
  have half := fits.subWindowsPerWindowHalf
  omega

/-- The native reducer computes the update on naturals as long as no density is at
the `u32` maximum and the densities of a window sum to a `u32`. -/
theorem updateNative_eq_windowUpdate (pred : WindowState) (predSlot currSlot : GlobalSlot)
    (fits : constants.Fits)
    (densitiesBelowMax : ∀ density ∈ pred.subWindowDensities, density < 2 ^ 32 - 1)
    (densitySumU32 : pred.subWindowDensities.sum < 2 ^ 32) :
    updateNative constants pred predSlot currSlot =
      some (windowUpdate constants pred predSlot currSlot) := by
  have spswPos : 0 < constants.slotsPerSubWindow := by
    have := fits.slotsPerSubWindowLow
    omega
  have swpwU32 : constants.subWindowsPerWindow < 2 ^ 32 := by
    have := fits.subWindowsPerWindowHalf
    omega
  have overlapFits :
      predSlot.slotNumber / constants.slotsPerSubWindow + constants.subWindowsPerWindow <
        2 ^ 32 := by
    have := globalSubWindow_lt fits predSlot
    have := fits.subWindowsPerWindowHalf
    omega
  simp only [updateNative, globalSubWindow_eq _ spswPos,
    relativeSubWindow_eq _ fits.subWindowsPerWindowPos swpwU32, u32CheckedAdd,
    Nat.mod_eq_of_lt swpwU32, if_pos overlapFits, Option.bind_eq_bind, Option.bind_some,
    ge_iff_le, windowUpdate, subWindowPositions]
  -- what is left: the wrapping sum and the saturating increment never trigger
  have currentSum : ∀ predRelative nextRelative isSame overlapping,
      (currentSubWindowDensities pred.subWindowDensities predRelative nextRelative isSame
        overlapping).sum < 2 ^ 32 :=
    fun _ _ _ _ => lt_of_le_of_lt (currentSubWindowDensities_sum_le _ _ _ _ _) densitySumU32
  have currentBelowMax := currentSubWindowDensities_lt densitiesBelowMax (by omega)
  rw [u32WrappingSum, Nat.mod_eq_of_lt (currentSum _ _ _ _),
    nextSubWindowDensities_eq _ _ (currentBelowMax _ _ _ _)]
  rfl

/-- The circuit computes the update on naturals, read in the field, as long as the
densities of a window sum to a `u32`. -/
theorem updateWitness_eq_windowUpdate (pred : WindowState) (predSlot currSlot : GlobalSlot)
    (fits : constants.Fits)
    (windowLength : pred.subWindowDensities.length = constants.subWindowsPerWindow)
    (densitySumU32 : pred.subWindowDensities.sum < 2 ^ 32) :
    updateWitness constants pred predSlot currSlot =
      some (((windowUpdate constants pred predSlot currSlot).1 : Fp),
        (windowUpdate constants pred predSlot currSlot).2.map
          fun density : ℕ => (density : Fp)) := by
  have spswPos : 0 < constants.slotsPerSubWindow := by
    have := fits.slotsPerSubWindowLow
    omega
  have swpwU32 : constants.subWindowsPerWindow < 2 ^ 32 := by
    have := fits.subWindowsPerWindowHalf
    omega
  have shortWindow : pred.subWindowDensities.length ≤ 2 ^ 32 := by
    have := fits.subWindowsPerWindowHalf
    omega
  have predGlobal := globalSubWindow_lt fits predSlot
  have nextGlobal := globalSubWindow_lt fits currSlot
  have predRelative := relative_lt fits (predSlot.slotNumber / constants.slotsPerSubWindow)
  have nextRelative := relative_lt fits (currSlot.slotNumber / constants.slotsPerSubWindow)
  have sameEq :
      CheckedNat.equal ((predSlot.slotNumber / constants.slotsPerSubWindow : ℕ) : Fp)
          ((currSlot.slotNumber / constants.slotsPerSubWindow : ℕ) : Fp) =
        decide (predSlot.slotNumber / constants.slotsPerSubWindow =
          currSlot.slotNumber / constants.slotsPerSubWindow) := by
    have fieldBound : 2 ^ 31 ≤ fpModulus := pow_le_fpModulus (by omega)
    exact CheckedNat.equal_natCast (by omega) (by omega)
  have overlapEq :
      CheckedNat.gte 32 (CheckedNat.add ((predSlot.slotNumber / constants.slotsPerSubWindow : ℕ) : Fp)
          (constants.subWindowsPerWindow : Fp))
          ((currSlot.slotNumber / constants.slotsPerSubWindow : ℕ) : Fp) =
        decide (currSlot.slotNumber / constants.slotsPerSubWindow ≤
          predSlot.slotNumber / constants.slotsPerSubWindow + constants.subWindowsPerWindow) := by
    have := fits.subWindowsPerWindowHalf
    rw [CheckedNat.add, ← Nat.cast_add]
    exact CheckedNat.gte_natCast (by omega) (by omega) fp_wide_32
  have graceEq :
      CheckedNat.lessThan 32 (currSlot.slotNumber : Fp) (constants.gracePeriodEnd : Fp) =
        decide (currSlot.slotNumber < constants.gracePeriodEnd) :=
    CheckedNat.lessThan_natCast currSlot.slotNumberU32 fits.gracePeriodEndU32 fp_wide_32
  have currentSum : ∀ predRelative nextRelative isSame overlapping,
      (currentSubWindowDensities pred.subWindowDensities predRelative nextRelative isSame
        overlapping).sum < 2 ^ 32 :=
    fun _ _ _ _ => lt_of_le_of_lt (currentSubWindowDensities_sum_le _ _ _ _ _) densitySumU32
  have minEq : ∀ predRelative nextRelative isSame overlapping,
      CheckedNat.min 32 (((currentSubWindowDensities pred.subWindowDensities predRelative nextRelative
          isSame overlapping).sum : ℕ) : Fp) (pred.minWindowDensity : Fp) =
        ((min pred.minWindowDensity (currentSubWindowDensities pred.subWindowDensities
          predRelative nextRelative isSame overlapping).sum : ℕ) : Fp) := by
    intro predRelative nextRelative isSame overlapping
    rw [CheckedNat.min_natCast (currentSum _ _ _ _) pred.minWindowDensityU32 fp_wide_32, min_comm]
  have currentLength : ∀ predRelative nextRelative isSame overlapping,
      (currentSubWindowDensities pred.subWindowDensities predRelative nextRelative isSame
        overlapping).length ≤ 2 ^ 32 := by
    intro predRelative nextRelative isSame overlapping
    rw [currentSubWindowDensities, List.length_mapIdx]
    exact shortWindow
  simp only [updateWitness, updateMinWindowDensity, ofGlobalSlot_eq _ spswPos
      fits.slotsPerSubWindowU32, Option.bind_eq_bind, Option.bind_some,
    subWindow_eq (by omega : predSlot.slotNumber / constants.slotsPerSubWindow < 2 ^ 64)
      fits.subWindowsPerWindowPos swpwU32,
    subWindow_eq (by omega : currSlot.slotNumber / constants.slotsPerSubWindow < 2 ^ 64)
      fits.subWindowsPerWindowPos swpwU32,
    sameEq, overlapEq, graceEq,
    currentSubWindowDensitiesChecked_eq _ predRelative nextRelative shortWindow,
    foldl_add_natCast_eq_sum, minEq,
    nextSubWindowDensitiesChecked_eq _ nextRelative (currentLength _ _ _ _),
    windowUpdate, subWindowPositions, Option.pure_def, Option.some.injEq, Prod.mk.injEq]
  -- the circuit selects the minimum after the cast, the update before it
  exact ⟨(Nat.cast_ite _ _ _).symm, rfl⟩

/-- Native reducer and circuit agree on every pair of slots once no density sits at
the `u32` maximum and the window's densities sum to a `u32`. -/
theorem update_witness_agrees_native (pred : WindowState) (predSlot currSlot : GlobalSlot)
    (fits : constants.Fits)
    (windowLength : pred.subWindowDensities.length = constants.subWindowsPerWindow)
    (densitiesBelowMax : ∀ density ∈ pred.subWindowDensities, density < 2 ^ 32 - 1)
    (densitySumU32 : pred.subWindowDensities.sum < 2 ^ 32) :
    Agree (updateNative constants pred predSlot currSlot)
      (updateWitness constants pred predSlot currSlot) :=
  ⟨_, _, updateNative_eq_windowUpdate pred predSlot currSlot fits densitiesBelowMax densitySumU32,
    updateWitness_eq_windowUpdate pred predSlot currSlot fits windowLength densitySumU32⟩

end Refinement

def nodeConstants : ConsensusConstants :=
  ⟨7, 11, 1440⟩

theorem nodeConstants_fits : nodeConstants.Fits :=
  ⟨by decide, by decide, by decide, by decide, by decide⟩

theorem update_witness_agrees_native_across_window :
    Agree
      (updateNative nodeConstants ⟨[3, 1, 4, 1, 5, 9, 2, 6, 5, 3, 5], 30, by decide, by decide⟩
        ⟨1500, by decide⟩ ⟨1540, by decide⟩)
      (updateWitness nodeConstants ⟨[3, 1, 4, 1, 5, 9, 2, 6, 5, 3, 5], 30, by decide, by decide⟩
        ⟨1500, by decide⟩ ⟨1540, by decide⟩) :=
  update_witness_agrees_native _ _ _ nodeConstants_fits (by decide) (by decide) (by decide)

/-- A sub-window density at the `u32` maximum: the reducer's `saturating_add(1)` keeps
it, the circuit's field increment does not. -/
theorem saturated_density_disagrees :
    ¬ Agree
      (updateNative nodeConstants ⟨[2 ^ 32 - 1, 0, 0, 0, 0, 0, 0, 0, 0, 0, 0], 0, by decide, by decide⟩
        ⟨0, by decide⟩ ⟨0, by decide⟩)
      (updateWitness nodeConstants ⟨[2 ^ 32 - 1, 0, 0, 0, 0, 0, 0, 0, 0, 0, 0], 0, by decide, by decide⟩
        ⟨0, by decide⟩ ⟨0, by decide⟩) := by
  rintro ⟨minWindowDensity, densities, native, witness⟩
  have nativeRun : updateNative nodeConstants
      ⟨[2 ^ 32 - 1, 0, 0, 0, 0, 0, 0, 0, 0, 0, 0], 0, by decide, by decide⟩
      ⟨0, by decide⟩ ⟨0, by decide⟩ = some (0, [2 ^ 32 - 1, 0, 0, 0, 0, 0, 0, 0, 0, 0, 0]) := by
    decide
  have witnessRun : updateWitness nodeConstants
      ⟨[2 ^ 32 - 1, 0, 0, 0, 0, 0, 0, 0, 0, 0, 0], 0, by decide, by decide⟩
      ⟨0, by decide⟩ ⟨0, by decide⟩ = some (0, [2 ^ 32, 0, 0, 0, 0, 0, 0, 0, 0, 0, 0]) := by
    decide
  rw [nativeRun, Option.some.injEq, Prod.mk.injEq] at native
  obtain ⟨-, rfl⟩ := native
  rw [witnessRun, Option.some.injEq, Prod.mk.injEq] at witness
  replace witness := witness.2
  -- the saturated head is `2^32 - 1` natively and `2^32` in the field
  revert witness
  decide

end Openmina.Consensus.WindowDensity
