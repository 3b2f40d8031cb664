import Mathlib
import Openmina.ScanState.ParallelScan.Tree
import Openmina.Arith.ListIndex

/-!
# `update_split` hands every node its slice

The loop of `update_split` never indexes a node's slice: it pops it from a FIFO into which
every inner node pushed the two halves of its own. On a perfect tree this FIFO holds, after
the first `k` values, the slices of the nodes from `k` to `2 * k` (to the last node once the
leaves are reached, and it stops moving past the level being updated). So every node pops the
slice that `sliceAt` gives it, and the loop computes what a pass that reads the slices from
`sliceAt` computes (`updateSplit_eq_direct`).
-/

namespace Openmina.ScanState.ParallelScan

open Openmina.Arith.BreadthFirst Openmina.Arith.ListIndex

set_option autoImplicit false

/-! ## Perfect trees -/

section Shape

variable {B M : Type}

def Value.isLeaf : Value B M → Bool
  | .leaf _ => true
  | .node _ => false

/-- The shape of every tree of the scan state: `2 ^ (depth + 1) - 1` values, and the leaves
exactly those at `depth`. -/
structure Perfect (values : List (Value B M)) (depth : ℕ) : Prop where
  length_eq : values.length = 2 ^ (depth + 1) - 1
  isLeaf_iff : ∀ index (lt : index < values.length), values[index].isLeaf = true ↔ depthAt index = depth

variable {values : List (Value B M)} {depth : ℕ}

theorem Perfect.lt_length_iff (perfect : Perfect values depth) (index : ℕ) :
    index < values.length ↔ depthAt index ≤ depth := by
  rw [perfect.length_eq, depthAt_le_iff]
  omega

theorem Perfect.of_forall₂ {R : Value B M → Value B M → Prop} (perfect : Perfect values depth)
    (keeps : ∀ v v', R v v' → v'.isLeaf = v.isLeaf) {values' : List (Value B M)}
    (related : List.Forall₂ R values values') : Perfect values' depth where
  length_eq := by rw [← related.length_eq, perfect.length_eq]
  isLeaf_iff index lt' := by
    have lt : index < values.length := by rw [related.length_eq]; exact lt'
    rw [keeps _ _ (forall₂_getElem related lt lt'), perfect.isLeaf_iff index lt]

theorem Perfect.isLeaf_iff_le (perfect : Perfect values depth) {index : ℕ} (lt : index < values.length) :
    values[index].isLeaf = true ↔ 2 ^ depth - 1 ≤ index := by
  have shallow := (perfect.lt_length_iff index).mp lt
  have low := pow_depthAt_le index
  have high := lt_pow_depthAt index
  have monotone : 2 ^ depthAt index ≤ 2 ^ depth := Nat.pow_le_pow_right (by norm_num) shallow
  rw [perfect.isLeaf_iff index lt]
  constructor
  · intro deepest
    rw [← deepest]
    omega
  · intro late
    apply depthAt_eq_iff.mpr
    constructor
    · omega
    · rw [← perfect.lt_length_iff index] at shallow
      rw [perfect.length_eq] at lt
      omega

theorem perfect_createTreeForLevel {BaseJob MergeJob : Type} (level : Option ℕ) (depth : ℕ)
    (mergeJob : Merge.Job MergeJob) (baseJob : Base.Job BaseJob) :
    Perfect (createTreeForLevel level depth mergeJob baseJob).values depth where
  length_eq := by simp [createTreeForLevel]
  isLeaf_iff index lt := by
    simp only [createTreeForLevel, List.getElem_map, List.getElem_range]
    split <;> simp_all [Value.isLeaf]

end Shape

/-! ## The FIFO of slices -/

section Window

variable (depth updateLevel : ℕ)

def poppedLimit : ℕ :=
  2 ^ (min updateLevel depth + 1) - 1

def poppedAfter (k : ℕ) : ℕ :=
  min k (poppedLimit depth updateLevel)

def pushedAfter (k : ℕ) : ℕ :=
  2 * min (poppedAfter depth updateLevel k) (2 ^ depth - 1) + 1

def window {Data : Type} (slice : ℕ → List Data) (k : ℕ) : List (List Data) :=
  (List.range' (poppedAfter depth updateLevel k)
    (pushedAfter depth updateLevel k - poppedAfter depth updateLevel k)).map slice

theorem poppedLimit_le : poppedLimit depth updateLevel ≤ 2 ^ (depth + 1) - 1 := by
  have within : 2 ^ (min updateLevel depth + 1) ≤ 2 ^ (depth + 1) :=
    Nat.pow_le_pow_right (by norm_num) (by omega)
  rw [poppedLimit]
  omega

theorem lt_poppedLimit_iff {k : ℕ} (within : depthAt k ≤ depth) :
    k < poppedLimit depth updateLevel ↔ depthAt k ≤ updateLevel := by
  rw [poppedLimit, ← Nat.add_one_lt_add_one_iff, Nat.sub_add_cancel Nat.one_le_two_pow, ← depthAt_le_iff]
  omega

variable {depth updateLevel}

theorem window_zero {Data : Type} (slice : ℕ → List Data) :
    window depth updateLevel slice 0 = [slice 0] := by
  simp [window, poppedAfter, pushedAfter]

theorem window_succ_of_le {Data : Type} (slice : ℕ → List Data) {k : ℕ}
    (late : poppedLimit depth updateLevel ≤ k) :
    window depth updateLevel slice (k + 1) = window depth updateLevel slice k := by
  have same : poppedAfter depth updateLevel (k + 1) = poppedAfter depth updateLevel k := by
    simp only [poppedAfter]
    omega
  simp only [window, pushedAfter, same]

theorem window_eq_cons {Data : Type} (slice : ℕ → List Data) {k : ℕ}
    (pops : k < poppedLimit depth updateLevel) :
    window depth updateLevel slice k =
      slice k :: (List.range' (k + 1) (pushedAfter depth updateLevel k - (k + 1))).map slice := by
  have limit := poppedLimit_le depth updateLevel
  have twice : 2 ^ (depth + 1) = 2 * 2 ^ depth := by rw [pow_succ, mul_comm]
  have popped : poppedAfter depth updateLevel k = k := by
    rw [poppedAfter]
    omega
  have room : pushedAfter depth updateLevel k - k = pushedAfter depth updateLevel k - (k + 1) + 1 := by
    simp only [pushedAfter, popped]
    omega
  rw [window, popped, room, List.range'_succ, List.map_cons]

theorem window_succ_of_leaf {Data : Type} (slice : ℕ → List Data) {k : ℕ}
    (pops : k < poppedLimit depth updateLevel) (leaf : 2 ^ depth - 1 ≤ k) :
    window depth updateLevel slice (k + 1) =
      (List.range' (k + 1) (pushedAfter depth updateLevel k - (k + 1))).map slice := by
  have popped : poppedAfter depth updateLevel (k + 1) = k + 1 := by
    rw [poppedAfter]
    omega
  have pushed : pushedAfter depth updateLevel (k + 1) = pushedAfter depth updateLevel k := by
    simp only [pushedAfter, poppedAfter]
    omega
  rw [window, popped, pushed]

theorem window_succ_of_node {Data : Type} (slice : ℕ → List Data) {k : ℕ}
    (pops : k < poppedLimit depth updateLevel) (inner : k < 2 ^ depth - 1) :
    window depth updateLevel slice (k + 1) =
      (List.range' (k + 1) (pushedAfter depth updateLevel k - (k + 1))).map slice ++
        [slice (2 * k + 1), slice (2 * k + 2)] := by
  have popped : poppedAfter depth updateLevel (k + 1) = k + 1 := by
    rw [poppedAfter]
    omega
  have before : pushedAfter depth updateLevel k - (k + 1) = k := by
    simp only [pushedAfter, poppedAfter]
    omega
  have after : pushedAfter depth updateLevel (k + 1) - (k + 1) = k + 2 := by
    simp only [pushedAfter, popped]
    omega
  have children : List.range' (k + 1) (k + 2) = List.range' (k + 1) k ++ [2 * k + 1, 2 * k + 2] := by
    have start : k + 1 + k = 2 * k + 1 := by omega
    rw [← List.range'_append_1, start]
    rfl
  rw [window, popped, after, before, children, List.map_append]
  rfl

end Window

/-! ## The pass without the FIFO -/

section Direct

variable {B M Data W R : Type}
  (funMerge : List Data → ℕ → M → Option (M × Option R))
  (funBase : List Data → B → Option B)
  (weightMerge : M → W × W)
  (updateLevel : ℕ)
  (jobsSplit : W × W → List Data → List Data × List Data)

/-- The split the node at `index` applies to its slice. -/
def splitAt (values : List (Value B M)) (index : ℕ) (slice : List Data) : List Data × List Data :=
  match values[index]? with
  | some (.node merge) => jobsSplit (weightMerge merge) slice
  | _ => ([], [])

structure DirectState (B M R : Type) where
  values : List (Value B M)
  scanResult : Option (Option R)

/-- A round of `update_split` where the node reads its slice from `slice` instead of a FIFO. -/
def updateSplitDirectStep (slice : ℕ → List Data) (state : DirectState B M R) (entry : Value B M × ℕ) :
    Option (DirectState B M R) :=
  if updateLevel < depthAt entry.2 then
    some { state with values := state.values ++ [entry.1] }
  else
    match entry.1 with
    | .leaf base => do
      let base ← funBase (slice entry.2) base
      some { state with values := state.values ++ [.leaf base] }
    | .node merge => do
      let (value, result) ← funMerge (slice entry.2) (depthAt entry.2) merge
      some { values := state.values ++ [.node value], scanResult := state.scanResult.or (some result) }

/-- `update_split` with every node's slice given by `sliceAt`. -/
def updateSplitDirect (tree : Tree B M) (jobs : List Data) : Option (Tree B M × Option R) := do
  let final ← tree.values.zipIdx.foldlM
    (updateSplitDirectStep funMerge funBase updateLevel (sliceAt (splitAt weightMerge jobsSplit tree.values) jobs))
    { values := [], scanResult := none }
  pure ({ values := final.values }, final.scanResult.join)

/-- The two loops agree after the first `k` values, the FIFO holding `window`. -/
def SplitRel (depth : ℕ) (slice : ℕ → List Data) (k : ℕ) (s : SplitState B M Data R) (t : DirectState B M R) : Prop :=
  s.values = t.values ∧ s.scanResult = t.scanResult ∧ s.jobsFifo = window depth updateLevel slice k

variable {funMerge funBase weightMerge updateLevel jobsSplit}

/-- One round of both loops keeps them related. -/
theorem updateSplitStep_rel {tree : Tree B M} {depth : ℕ} (perfect : Perfect tree.values depth) (jobs : List Data)
    {k : ℕ} (lt : k < tree.values.length) {s : SplitState B M Data R} {t : DirectState B M R}
    (related : SplitRel updateLevel depth (sliceAt (splitAt weightMerge jobsSplit tree.values) jobs) k s t) :
    Option.Rel (SplitRel updateLevel depth (sliceAt (splitAt weightMerge jobsSplit tree.values) jobs) (k + 1))
      (updateSplitStep funMerge funBase weightMerge updateLevel jobsSplit s (tree.values[k], k))
      (updateSplitDirectStep funMerge funBase updateLevel (sliceAt (splitAt weightMerge jobsSplit tree.values) jobs)
        t (tree.values[k], k)) := by
  obtain ⟨sameValues, sameResult, fifo⟩ := related
  have within := (perfect.lt_length_iff k).mp lt
  by_cases deep : updateLevel < depthAt k
  · -- deeper than the update: kept, and nothing is popped
    have late : poppedLimit depth updateLevel ≤ k := by
      have stays := (lt_poppedLimit_iff depth updateLevel within).not.mpr (by omega)
      omega
    simp only [updateSplitStep, updateSplitDirectStep, if_pos deep]
    exact Option.Rel.some ⟨by rw [sameValues], sameResult, by rw [fifo, window_succ_of_le _ late]⟩
  · have pops := (lt_poppedLimit_iff depth updateLevel within).mpr (by omega)
    cases value : tree.values[k] with
    | leaf base =>
      have leaf : 2 ^ depth - 1 ≤ k := (perfect.isLeaf_iff_le lt).mp (by rw [value]; rfl)
      simp only [updateSplitStep, updateSplitDirectStep, if_neg deep, fifo, window_eq_cons _ pops]
      cases funBase (sliceAt (splitAt weightMerge jobsSplit tree.values) jobs k) base with
      | none => exact Option.Rel.none
      | some base' =>
        exact Option.Rel.some ⟨by rw [sameValues], sameResult, (window_succ_of_leaf _ pops leaf).symm⟩
    | node merge =>
      have inner : k < 2 ^ depth - 1 := by
        by_contra late
        have leaf := (perfect.isLeaf_iff_le lt).mpr (by omega)
        simp [value, Value.isLeaf] at leaf
      -- the node's split is the one `sliceAt` reads its children's slices from
      have split : jobsSplit (weightMerge merge) (sliceAt (splitAt weightMerge jobsSplit tree.values) jobs k) =
          (sliceAt (splitAt weightMerge jobsSplit tree.values) jobs (2 * k + 1),
            sliceAt (splitAt weightMerge jobsSplit tree.values) jobs (2 * k + 2)) := by
        have at_k : splitAt weightMerge jobsSplit tree.values k = jobsSplit (weightMerge merge) := by
          funext slice
          simp [splitAt, List.getElem?_eq_getElem lt, value]
        rw [sliceAt_childLeft, sliceAt_childRight, at_k]
      simp only [updateSplitStep, updateSplitDirectStep, if_neg deep, fifo, window_eq_cons _ pops]
      cases funMerge (sliceAt (splitAt weightMerge jobsSplit tree.values) jobs k) (depthAt k) merge with
      | none => exact Option.Rel.none
      | some result =>
        refine Option.Rel.some ⟨by rw [sameValues], by rw [sameResult], ?_⟩
        simp only [split]
        exact (window_succ_of_node _ pops inner).symm

/-- On a perfect tree the FIFO loop of `update_split` computes what the pass that reads every
node's slice from `sliceAt` computes. -/
theorem updateSplit_eq_direct {tree : Tree B M} {depth : ℕ} (perfect : Perfect tree.values depth)
    (jobs : List Data) :
    updateSplit funMerge funBase weightMerge updateLevel jobsSplit tree jobs =
      updateSplitDirect funMerge funBase weightMerge updateLevel jobsSplit tree jobs := by
  have related := foldlM_rel tree.values.zipIdx
    (updateSplitStep funMerge funBase weightMerge updateLevel jobsSplit)
    (updateSplitDirectStep funMerge funBase updateLevel (sliceAt (splitAt weightMerge jobsSplit tree.values) jobs))
    (SplitRel updateLevel depth (sliceAt (splitAt weightMerge jobsSplit tree.values) jobs))
    (fun k lt s t rel => by
      rw [List.length_zipIdx] at lt
      simpa only [List.getElem_zipIdx, zero_add] using updateSplitStep_rel perfect jobs lt rel)
    { values := [], scanResult := none, jobsFifo := [jobs] } { values := [], scanResult := none }
    ⟨rfl, rfl, by rw [window_zero, sliceAt_zero]⟩
  exact bind_eq_of_rel related _ _ fun s t ⟨sameValues, sameResult, _⟩ => by rw [sameValues, sameResult]

end Direct

theorem updateSplit_eq_direct_createTree :
    Perfect (createTree 2 : JobTree ℕ ℕ).values 2 ∧
      updateSplit (addMerges 2 0 .base) (addBases 0 .base) (fun merge : Merge.Merge ℕ => merge.weight) 2
          (jobsSplit .base) (createTree 2 : JobTree ℕ ℕ) [Job.base 7, Job.base 8] =
        updateSplitDirect (addMerges 2 0 .base) (addBases 0 .base) (fun merge : Merge.Merge ℕ => merge.weight) 2
          (jobsSplit .base) (createTree 2 : JobTree ℕ ℕ) [Job.base 7, Job.base 8] :=
  ⟨perfect_createTreeForLevel _ _ _ _, updateSplit_eq_direct (perfect_createTreeForLevel _ _ _ _) _⟩

end Openmina.ScanState.ParallelScan
