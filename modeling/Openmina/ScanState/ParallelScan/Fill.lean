import Mathlib
import Openmina.Arith.ListIndex
import Openmina.ScanState.ParallelScan.Split

/-!
# Adding base jobs fills the next leaves

`add_data` calls `Tree::update` on the current tree with the new base jobs, at the level of the
leaves and through the base weights. The current tree only ever receives base jobs, so its
leaves fill from the left: the first `filled` hold jobs, the others are empty, no merge job has
started, and every base weight counts the empty leaves below (`Filling`). On such a tree, and
with no more jobs than empty leaves, the update cannot panic, the `j`-th new job lands in the
leaf at position `filled + j`, and the weights count the leaves still empty
(`update_fills`); the tree is then filling up to `filled + data.length`.
-/

namespace Openmina.ScanState.ParallelScan

open Openmina.Arith.BreadthFirst Openmina.Arith.ListIndex

set_option autoImplicit false

variable {BaseJob MergeJob : Type}

/-- The current tree of the scan state: its first `filled` leaves hold base jobs, the others are
empty, there is no merge job, and every base weight counts the empty leaves below. -/
structure Filling (values : List (Value (Base.Base BaseJob) (Merge.Merge MergeJob))) (depth filled : ℕ) : Prop where
  perfect : Perfect values depth
  filled_le : filled ≤ 2 ^ depth
  leaf : ∀ index (lt : index < values.length) base, values[index] = .leaf base →
    (base.job = .empty ↔ filled ≤ positionAt index) ∧ base.weight.base = emptyIn filled 0 (positionAt index)
  node : ∀ index (lt : index < values.length) merge, values[index] = .node merge →
    merge.job = .empty ∧
      merge.weight.1.base = emptyIn filled (depth - depthAt index - 1) (2 * positionAt index) ∧
      merge.weight.2.base = emptyIn filled (depth - depthAt index - 1) (2 * positionAt index + 1)

/-- The leaf at `position` once `data` has filled the leaves from `filled` on. -/
def filledBase (filled sequenceNo : ℕ) (data : List BaseJob) (position : ℕ) (base : Base.Base BaseJob) :
    Base.Base BaseJob :=
  match (if filled ≤ position then data[position - filled]? else none) with
  | some job => { weight := WeightLens.base.set base.weight 0, job := .full ⟨job, sequenceNo, .todo⟩ }
  | none => base

/-- A merge node whose children have `height` once `added` more leaves are filled. -/
def filledMerge (filled added height position : ℕ) (merge : Merge.Merge MergeJob) : Merge.Merge MergeJob :=
  { merge with
    weight := (WeightLens.base.set merge.weight.1 (emptyIn (filled + added) height (2 * position)),
      WeightLens.base.set merge.weight.2 (emptyIn (filled + added) height (2 * position + 1))) }

/-- The value at `index` once `data` has filled the leaves from `filled` on: the leaf at
position `filled + j` holds the `j`-th job, and every base weight counts what is still empty. -/
def filledValue (depth filled sequenceNo : ℕ) (data : List BaseJob) (index : ℕ) :
    Value (Base.Base BaseJob) (Merge.Merge MergeJob) → Value (Base.Base BaseJob) (Merge.Merge MergeJob)
  | .leaf base => .leaf (filledBase filled sequenceNo data (positionAt index) base)
  | .node merge => .node (filledMerge filled data.length (depth - depthAt index - 1) (positionAt index) merge)

section Slices

variable {values : List (Value (Base.Base BaseJob) (Merge.Merge MergeJob))} {depth filled : ℕ}

theorem Perfect.node_of_child {B M : Type} {values : List (Value B M)} (perfect : Perfect values depth)
    {index : ℕ} (child : 2 * index + 1 < values.length) :
    ∃ (lt : index < values.length) (merge : M), values[index] = .node merge := by
  have lt : index < values.length := by omega
  have childDepth := (perfect.lt_length_iff _).mp child
  rw [depthAt_childLeft] at childDepth
  refine ⟨lt, ?_⟩
  cases value : values[index] with
  | leaf base =>
    have leaf := (perfect.isLeaf_iff index lt).mp (by rw [value]; rfl)
    omega
  | node merge => exact ⟨merge, rfl⟩

theorem splitAt_filling {α : Type} (filling : Filling values depth filled) (index : ℕ)
    (child : 2 * index + 1 < values.length) (s : List α) :
    splitAt (fun merge : Merge.Merge MergeJob => merge.weight) (jobsSplit .base) values index s =
      (s.take (emptyIn filled (depth - depthAt (2 * index + 1)) (positionAt (2 * index + 1))),
        (s.drop (emptyIn filled (depth - depthAt (2 * index + 1)) (positionAt (2 * index + 1)))).take
          (emptyIn filled (depth - depthAt (2 * index + 2)) (positionAt (2 * index + 2)))) := by
  obtain ⟨lt, merge, value⟩ := filling.perfect.node_of_child child
  obtain ⟨-, left, right⟩ := filling.node index lt merge value
  have height : depth - depthAt index - 1 = depth - (depthAt index + 1) := by omega
  simp only [splitAt, List.getElem?_eq_getElem lt, value, jobsSplit, takeAt, WeightLens.base_get, left, right,
    depthAt_childLeft, depthAt_childRight, positionAt_childLeft, positionAt_childRight, height]

theorem sliceAt_filling {α : Type} (filling : Filling values depth filled) (jobs : List α)
    (fits : filled + jobs.length ≤ 2 ^ depth) {index : ℕ} (lt : index < values.length) :
    sliceAt (splitAt (fun merge : Merge.Merge MergeJob => merge.weight) (jobsSplit .base) values) jobs index =
      (jobs.drop (emptyBefore filled (depth - depthAt index) (positionAt index))).take
        (emptyIn filled (depth - depthAt index) (positionAt index)) := by
  have last : index ≤ values.length - 1 := by omega
  -- the counts of a node's children sum to its own, for every inner node
  have inner : ∀ i, 2 * i + 1 ≤ values.length - 1 → depthAt i + 1 ≤ depth := by
    intro i child
    have childDepth := (filling.perfect.lt_length_iff (2 * i + 1)).mp (by omega)
    rwa [depthAt_childLeft] at childDepth
  refine sliceAt_of_counts jobs (values.length - 1) (fun i => emptyIn filled (depth - depthAt i) (positionAt i))
    (fun i => emptyBefore filled (depth - depthAt i) (positionAt i)) _
    (fun i child s => splitAt_filling filling i (by omega) s) ?_ ?_ ?_ ?_ ?_ index last
  · intro i child
    have height : depth - depthAt i = depth - (depthAt i + 1) + 1 := by have := inner i child; omega
    rw [depthAt_childLeft, depthAt_childRight, positionAt_childLeft, positionAt_childRight, height, emptyIn_succ]
  · intro i child
    have height : depth - depthAt i = depth - (depthAt i + 1) + 1 := by have := inner i child; omega
    rw [depthAt_childLeft, positionAt_childLeft, height, emptyBefore_left]
  · intro i child
    have height : depth - depthAt i = depth - (depthAt i + 1) + 1 := by have := inner i child; omega
    rw [depthAt_childLeft, depthAt_childRight, positionAt_childLeft, positionAt_childRight, height, emptyBefore_right]
  · have root : positionAt 0 = 0 := by simp [positionAt, depthAt_zero]
    rw [depthAt_zero, root, emptyIn_root, Nat.sub_zero]
    omega
  · have root : positionAt 0 = 0 := by simp [positionAt, depthAt_zero]
    rw [root, emptyBefore, zero_mul, Nat.zero_sub]

end Slices

section Update

variable {values : List (Value (Base.Base BaseJob) (Merge.Merge MergeJob))} {depth filled : ℕ}

theorem subU64_one_one : subU64 1 1 = 0 :=
  subU64_of_le le_rfl (by norm_num)

theorem take_one_drop_map (data : List BaseJob) (n : ℕ) :
    ((data.map (Job.base : BaseJob → Job BaseJob MergeJob)).drop n).take 1 = (data[n]?.map Job.base).toList := by
  rw [List.take_one, List.head?_drop, List.getElem?_map]

theorem addBases_filling (filling : Filling values depth filled) (data : List BaseJob) (sequenceNo : ℕ)
    {index : ℕ} (lt : index < values.length) {base : Base.Base BaseJob} (value : values[index] = .leaf base) :
    addBases sequenceNo .base (((data.map (Job.base : BaseJob → Job BaseJob MergeJob)).drop
        (emptyBefore filled 0 (positionAt index))).take (emptyIn filled 0 (positionAt index))) base =
      some (filledBase filled sequenceNo data (positionAt index) base) := by
  obtain ⟨empty, weight⟩ := filling.leaf index lt base value
  rw [emptyIn_zero] at weight ⊢
  rw [emptyBefore_zero]
  by_cases reached : filled ≤ positionAt index
  · have job : base.job = .empty := empty.mpr reached
    rw [if_pos reached] at weight ⊢
    rw [take_one_drop_map]
    cases slot : data[positionAt index - filled]? with
    | none => simp [addBases, filledBase, reached, slot]
    | some next => simp [addBases, filledBase, reached, slot, job, weight, subU64_one_one]
  · rw [if_neg reached]
    simp [addBases, filledBase, reached]

theorem emptyIn_children_add (filled extra height p sent : ℕ)
    (sent_eq : sent = min (emptyIn filled (height + 1) p) (extra - emptyBefore filled (height + 1) p)) :
    emptyIn (filled + extra) height (2 * p) = emptyIn filled height (2 * p) - min sent (emptyIn filled height (2 * p)) ∧
      emptyIn (filled + extra) height (2 * p + 1) =
        emptyIn filled height (2 * p + 1) - min (sent - min sent (emptyIn filled height (2 * p))) (emptyIn filled height (2 * p + 1)) := by
  have total := emptyIn_succ filled height p
  rw [emptyIn_add, emptyIn_add, emptyBefore_left, emptyBefore_right]
  constructor <;> omega

theorem addMerges_filling (filling : Filling values depth filled) (data : List BaseJob) (sequenceNo : ℕ)
    {index : ℕ} (lt : index < values.length) {merge : Merge.Merge MergeJob} (value : values[index] = .node merge) :
    addMerges depth sequenceNo .base (((data.map Job.base).drop
        (emptyBefore filled (depth - depthAt index) (positionAt index))).take
          (emptyIn filled (depth - depthAt index) (positionAt index))) (depthAt index) merge =
      some (filledMerge filled data.length (depth - depthAt index - 1) (positionAt index) merge, none) := by
  obtain ⟨job, left, right⟩ := filling.node index lt merge value
  have shallow : depthAt index < depth := by
    have within := (filling.perfect.lt_length_iff index).mp lt
    have notLeaf := (filling.perfect.isLeaf_iff index lt).not.mp (by rw [value]; simp [Value.isLeaf])
    omega
  have up : depth - depthAt index = depth - depthAt index - 1 + 1 := by omega
  have level : depthAt index + (depth - depthAt index - 1) + 1 = depth := by omega
  rw [up, Nat.add_sub_cancel, ← List.map_drop, ← List.map_take]
  generalize depth - depthAt index - 1 = height at left right level ⊢
  generalize positionAt index = p at left right ⊢
  generalize slice_eq : (data.drop (emptyBefore filled (height + 1) p)).take (emptyIn filled (height + 1) p) = slice
  have size : slice.length = min (emptyIn filled (height + 1) p) (data.length - emptyBefore filled (height + 1) p) := by
    rw [← slice_eq, List.length_take, List.length_drop, min_comm]
  obtain ⟨leftAfter, rightAfter⟩ := emptyIn_children_add filled data.length height p slice.length size
  have total := emptyIn_succ filled height p
  have leftOne : emptyIn filled 0 (2 * p) ≤ 1 := by rw [emptyIn_zero]; split <;> omega
  have rightOne : emptyIn filled 0 (2 * p + 1) ≤ 1 := by rw [emptyIn_zero]; split <;> omega
  unfold addMerges
  by_cases bottom : height = 0
  · -- the level above the leaves: the new base jobs only lower the weights
    subst bottom
    rw [if_pos (by omega)]
    rw [total] at size
    generalize emptyIn filled 0 (2 * p) = el at *
    generalize emptyIn filled 0 (2 * p + 1) = er at *
    rcases slice with _ | ⟨a, _ | ⟨b, _ | ⟨c, rest⟩⟩⟩
    all_goals simp only [List.length_nil, List.length_cons] at size leftAfter rightAfter
    · simp [job, filledMerge, leftAfter, rightAfter, ← left, ← right]
    · -- one job: the left leaf takes it while it is empty
      interval_cases el <;> interval_cases er <;>
        simp [job, filledMerge, leftAfter, rightAfter, left, right, subU64_one_one]
      all_goals omega
    · interval_cases el <;> interval_cases er <;>
        simp [job, filledMerge, leftAfter, rightAfter, left, right, subU64_one_one] <;> omega
    · omega
  · -- higher up: each child's weight drops by the jobs sent to it
    rw [if_neg (by omega), if_neg (by omega), if_pos (by omega)]
    cases slice with
    | nil => simp [filledMerge, leftAfter, rightAfter, ← left, ← right]
    | cons a rest => simp [filledMerge, leftAfter, rightAfter, left, right]

theorem directStep_filling (filling : Filling values depth filled) (data : List BaseJob)
    (fits : filled + data.length ≤ 2 ^ depth) (sequenceNo : ℕ) {k : ℕ} (lt : k < values.length)
    (t : DirectState (Base.Base BaseJob) (Merge.Merge MergeJob) MergeJob) (quiet : t.scanResult.join = none) :
    ∃ t', updateSplitDirectStep (addMerges depth sequenceNo .base) (addBases sequenceNo .base) depth
        (sliceAt (splitAt (fun merge : Merge.Merge MergeJob => merge.weight) (jobsSplit .base) values)
          (data.map Job.base)) t (values[k], k) = some t' ∧
      t'.values = t.values ++ [filledValue depth filled sequenceNo data k values[k]] ∧ t'.scanResult.join = none := by
  have within := (filling.perfect.lt_length_iff k).mp lt
  have slice := sliceAt_filling filling (data.map (Job.base : BaseJob → Job BaseJob MergeJob)) (by simpa using fits) lt
  cases value : values[k] with
  | leaf base =>
    have deepest : depthAt k = depth := (filling.perfect.isLeaf_iff k lt).mp (by rw [value]; rfl)
    have bottom : depth - depthAt k = 0 := by omega
    simp only [updateSplitDirectStep, if_neg (show ¬depth < depthAt k by omega), slice, bottom,
      addBases_filling filling data sequenceNo lt value]
    exact ⟨_, rfl, rfl, quiet⟩
  | node merge =>
    simp only [updateSplitDirectStep, if_neg (show ¬depth < depthAt k by omega), slice,
      addMerges_filling filling data sequenceNo lt value]
    refine ⟨_, rfl, rfl, ?_⟩
    -- the first merge node records `Some(None)`, which flattens to no result
    cases result : t.scanResult with
    | none => rfl
    | some r => rw [result] at quiet; simpa using quiet

/-- `Tree::update` with new base jobs at the level of the leaves, on the current tree of the
scan state and with no more jobs than empty leaves: it does not panic, the `j`-th job fills the
leaf at position `filled + j`, the base weights count the leaves still empty, and no proof comes
out. -/
theorem update_fills {tree : JobTree BaseJob MergeJob} (filling : Filling tree.values depth filled)
    (data : List BaseJob) (fits : filled + data.length ≤ 2 ^ depth) (sequenceNo : ℕ) :
    tree.update (data.map Job.base) depth sequenceNo .base =
      some ({ values := tree.values.mapIdx (filledValue depth filled sequenceNo data) }, none) := by
  rw [Tree.update, updateSplit_eq_direct filling.perfect, updateSplitDirect]
  obtain ⟨final, run, filledPrefix, quiet⟩ := foldlM_invariant tree.values.zipIdx
    (updateSplitDirectStep (addMerges depth sequenceNo .base) (addBases sequenceNo .base) depth
      (sliceAt (splitAt (fun merge : Merge.Merge MergeJob => merge.weight) (jobsSplit .base) tree.values)
        (data.map Job.base)))
    (fun k (t : DirectState (Base.Base BaseJob) (Merge.Merge MergeJob) MergeJob) => t.values = (tree.values.take k).mapIdx (filledValue depth filled sequenceNo data) ∧
      t.scanResult.join = none)
    (fun k lt t ⟨filledPrefix, quiet⟩ => by
      rw [List.length_zipIdx] at lt
      obtain ⟨t', step, appended, quiet'⟩ := directStep_filling filling data fits sequenceNo lt t quiet
      refine ⟨t', by simpa only [List.getElem_zipIdx, zero_add] using step, ?_, quiet'⟩
      rw [appended, filledPrefix, List.take_add_one, List.getElem?_eq_getElem lt, Option.toList_some,
        List.mapIdx_append, List.length_take, min_eq_left lt.le]
      simp)
    { values := [], scanResult := none } ⟨by simp, rfl⟩
  rw [List.length_zipIdx, List.take_length] at filledPrefix
  simp [run, filledPrefix, quiet]

end Update

section After

variable {values : List (Value (Base.Base BaseJob) (Merge.Merge MergeJob))} {depth filled : ℕ}

theorem positionAt_of_depthAt {index depth : ℕ} (deepest : depthAt index = depth) :
    positionAt index = index - (2 ^ depth - 1) := by
  have low := pow_depthAt_le index
  have positive : 1 ≤ 2 ^ depth := Nat.one_le_two_pow
  rw [deepest] at low
  rw [positionAt, deepest]
  omega

theorem filledValue_isLeaf (depth filled sequenceNo : ℕ) (data : List BaseJob) (index : ℕ)
    (value : Value (Base.Base BaseJob) (Merge.Merge MergeJob)) :
    (filledValue depth filled sequenceNo data index value).isLeaf = value.isLeaf := by
  cases value <;> rfl

theorem Perfect.mapIdx {B M : Type} {values : List (Value B M)} (perfect : Perfect values depth)
    (f : ℕ → Value B M → Value B M) (keeps : ∀ i v, (f i v).isLeaf = v.isLeaf) :
    Perfect (values.mapIdx f) depth where
  length_eq := by rw [List.length_mapIdx, perfect.length_eq]
  isLeaf_iff index lt := by
    rw [List.length_mapIdx] at lt
    rw [List.getElem_mapIdx, keeps, perfect.isLeaf_iff index lt]

theorem filledBase_job (filled sequenceNo : ℕ) (data : List BaseJob) (position : ℕ) (base : Base.Base BaseJob) :
    (filledBase filled sequenceNo data position base).job =
      if h : filled ≤ position ∧ position < filled + data.length then
        .full ⟨data[position - filled], sequenceNo, .todo⟩
      else base.job := by
  unfold filledBase
  by_cases reached : filled ≤ position
  · by_cases inside : position < filled + data.length
    · have slot : data[position - filled]? = some data[position - filled] := List.getElem?_eq_getElem (by omega)
      simp [reached, inside, slot]
    · have slot : data[position - filled]? = none := List.getElem?_eq_none (by omega)
      simp [reached, inside, slot]
  · simp [reached]

theorem filledBase_weight_base (filled sequenceNo : ℕ) (data : List BaseJob) (position : ℕ) (base : Base.Base BaseJob) :
    (filledBase filled sequenceNo data position base).weight.base =
      if filled ≤ position ∧ position < filled + data.length then 0 else base.weight.base := by
  unfold filledBase
  by_cases reached : filled ≤ position
  · by_cases inside : position < filled + data.length
    · have slot : data[position - filled]? = some data[position - filled] := List.getElem?_eq_getElem (by omega)
      simp [reached, inside, slot, WeightLens.set]
    · have slot : data[position - filled]? = none := List.getElem?_eq_none (by omega)
      simp [reached, inside, slot]
  · simp [reached]

theorem Filling.fill (filling : Filling values depth filled) (data : List BaseJob)
    (fits : filled + data.length ≤ 2 ^ depth) (sequenceNo : ℕ) :
    Filling (values.mapIdx (filledValue depth filled sequenceNo data)) depth (filled + data.length) where
  perfect := filling.perfect.mapIdx _ (filledValue_isLeaf depth filled sequenceNo data)
  filled_le := fits
  leaf index lt base' value' := by
    rw [List.length_mapIdx] at lt
    rw [List.getElem_mapIdx] at value'
    cases value : values[index] with
    | node merge => rw [value] at value'; cases value'
    | leaf base =>
      rw [value] at value'
      cases value'
      obtain ⟨empty, weight⟩ := filling.leaf index lt base value
      rw [emptyIn_zero] at weight ⊢
      constructor
      · rw [filledBase_job]
        split
        · simp only [reduceCtorEq, false_iff]
          omega
        · rw [empty]
          omega
      · rw [filledBase_weight_base, weight]
        split_ifs <;> omega
  node index lt merge' value' := by
    rw [List.length_mapIdx] at lt
    rw [List.getElem_mapIdx] at value'
    cases value : values[index] with
    | leaf base => rw [value] at value'; cases value'
    | node merge =>
      rw [value] at value'
      cases value'
      exact ⟨(filling.node index lt merge value).1, rfl, rfl⟩

end After

/-! ## The base jobs of the tree -/

section Jobs

variable {values : List (Value (Base.Base BaseJob) (Merge.Merge MergeJob))} {depth filled : ℕ}

def Value.baseJob? : Value (Base.Base BaseJob) (Merge.Merge MergeJob) → Option BaseJob
  | .leaf { job := .full record, .. } => some record.job
  | _ => none

theorem foldl_append_toList {α β : Type} (f : α → Option β) (init : List β) (l : List α) :
    l.foldl (fun acc v => acc ++ (f v).toList) init = init ++ l.filterMap f := by
  induction l generalizing init with
  | nil => simp
  | cons v l ih => cases h : f v <;> simp [ih, h]

theorem baseJobs_eq_filterMap (tree : JobTree BaseJob MergeJob) :
    baseJobs tree = tree.values.filterMap Value.baseJob? := by
  rw [baseJobs, foldDepth, foldl_zipIdx_eq_foldl _ (fun acc v => acc ++ v.baseJob?.toList) _ 0 []]
  · exact foldl_append_toList _ [] _
  · intro acc value index _
    rcases value with ⟨weight, _ | record⟩ | merge <;> simp [Value.baseJob?]

theorem filterMap_eq_map_filterMap {α β : Type} (f : α → Option β) (l : List α) :
    l.filterMap f = (l.map f).filterMap id := by
  rw [List.filterMap_map]
  rfl

theorem filterMap_mapIdx_of_forall {α β : Type} (l : List α) (g : ℕ → α → α) (f : α → Option β)
    (same : ∀ i (lt : i < l.length), f (g i l[i]) = f l[i]) :
    (l.mapIdx g).filterMap f = l.filterMap f := by
  have mapped : (l.mapIdx g).map f = l.map f :=
    List.ext_getElem (by simp) fun i lt _ => by
      simp only [List.getElem_map, List.getElem_mapIdx]
      exact same i (by simpa using lt)
  rw [filterMap_eq_map_filterMap, mapped, ← filterMap_eq_map_filterMap]

theorem Filling.baseJob?_eq_none (filling : Filling values depth filled) {index : ℕ} (lt : index < values.length)
    (late : 2 ^ depth - 1 + filled ≤ index) : values[index].baseJob? = none := by
  cases value : values[index] with
  | node merge => rfl
  | leaf base =>
    have deepest := (filling.perfect.isLeaf_iff index lt).mp (by rw [value]; rfl)
    have empty := (filling.leaf index lt base value).1.mpr (by rw [positionAt_of_depthAt deepest]; omega)
    rcases base with ⟨weight, job⟩
    cases empty
    rfl

theorem filledBase_of_outside (filled sequenceNo : ℕ) (data : List BaseJob) {position : ℕ} (base : Base.Base BaseJob)
    (outside : ¬(filled ≤ position ∧ position < filled + data.length)) :
    filledBase filled sequenceNo data position base = base := by
  unfold filledBase
  by_cases reached : filled ≤ position
  · have slot : data[position - filled]? = none := List.getElem?_eq_none (by omega)
    simp [reached, slot]
  · simp [reached]

theorem Filling.baseJob?_filledValue_of_outside (filling : Filling values depth filled) (data : List BaseJob)
    (sequenceNo : ℕ) {index : ℕ} (lt : index < values.length)
    (outside : ¬(2 ^ depth - 1 + filled ≤ index ∧ index < 2 ^ depth - 1 + filled + data.length)) :
    (filledValue depth filled sequenceNo data index values[index]).baseJob? = values[index].baseJob? := by
  cases value : values[index] with
  | node merge => rfl
  | leaf base =>
    have deepest := (filling.perfect.isLeaf_iff index lt).mp (by rw [value]; rfl)
    have leafIndex := (filling.perfect.isLeaf_iff_le lt).mp (by rw [value]; rfl)
    rw [filledValue, filledBase_of_outside]
    rw [positionAt_of_depthAt deepest]
    omega

theorem Filling.baseJob?_filledValue_of_inside (filling : Filling values depth filled) (data : List BaseJob)
    (sequenceNo : ℕ) {index : ℕ} (lt : index < values.length)
    (inside : 2 ^ depth - 1 + filled ≤ index ∧ index < 2 ^ depth - 1 + filled + data.length) :
    (filledValue depth filled sequenceNo data index values[index]).baseJob? =
      data[index - (2 ^ depth - 1 + filled)]? := by
  have positive : 1 ≤ 2 ^ depth := Nat.one_le_two_pow
  have leafIndex : 2 ^ depth - 1 ≤ index := by omega
  obtain ⟨base, value⟩ : ∃ base, values[index] = .leaf base := by
    cases value : values[index] with
    | leaf base => exact ⟨base, rfl⟩
    | node merge =>
      have := (filling.perfect.isLeaf_iff_le lt).mpr leafIndex
      simp [value, Value.isLeaf] at this
  have deepest := (filling.perfect.isLeaf_iff index lt).mp (by rw [value]; rfl)
  have position := positionAt_of_depthAt deepest
  have slot : index - (2 ^ depth - 1 + filled) = positionAt index - filled := by omega
  have job := filledBase_job filled sequenceNo data (positionAt index) base
  rw [dif_pos (by omega)] at job
  rw [value, filledValue, slot, List.getElem?_eq_getElem (by omega)]
  generalize filledBase filled sequenceNo data (positionAt index) base = filledLeaf at job ⊢
  rcases filledLeaf with ⟨weight, job'⟩
  simp only at job
  subst job
  rfl

/-- The fill appends the new jobs, in order, to the jobs the leaves hold. -/
theorem Filling.filterMap_filledValue (filling : Filling values depth filled) (data : List BaseJob)
    (fits : filled + data.length ≤ 2 ^ depth) (sequenceNo : ℕ) :
    (values.mapIdx (filledValue depth filled sequenceNo data)).filterMap Value.baseJob? =
      values.filterMap Value.baseJob? ++ data := by
  have length := filling.perfect.length_eq
  have twice : 2 ^ (depth + 1) = 2 * 2 ^ depth := by rw [pow_succ, mul_comm]
  have positive : 1 ≤ 2 ^ depth := Nat.one_le_two_pow
  -- the leaves before the new jobs, those they fill, and the empty ones after
  have dropped : (values.drop (2 ^ depth - 1 + filled)).drop data.length =
      values.drop (2 ^ depth - 1 + filled + data.length) := by
    rw [List.drop_drop]
  have whole : values = values.take (2 ^ depth - 1 + filled) ++ ((values.drop (2 ^ depth - 1 + filled)).take data.length ++
      values.drop (2 ^ depth - 1 + filled + data.length)) := by
    rw [← dropped, List.take_append_drop, List.take_append_drop]
  have empties : ∀ start, 2 ^ depth - 1 + filled ≤ start → (values.drop start).filterMap Value.baseJob? = [] := by
    intro start late
    apply List.filterMap_eq_nil_iff.mpr
    intro v mem
    obtain ⟨i, lt, at_i⟩ := List.mem_iff_getElem.mp mem
    rw [List.length_drop] at lt
    rw [← at_i, List.getElem_drop]
    exact filling.baseJob?_eq_none (by omega) (by omega)
  have firstLength : (values.take (2 ^ depth - 1 + filled)).length = 2 ^ depth - 1 + filled := by
    rw [List.length_take]
    omega
  have middleLength : ((values.drop (2 ^ depth - 1 + filled)).take data.length).length = data.length := by
    rw [List.length_take, List.length_drop]
    omega
  have before : values.filterMap Value.baseJob? = (values.take (2 ^ depth - 1 + filled)).filterMap Value.baseJob? := by
    conv_lhs => rw [← List.take_append_drop (2 ^ depth - 1 + filled) values]
    rw [List.filterMap_append, empties _ le_rfl, List.append_nil]
  rw [before]
  nth_rewrite 1 [whole]
  rw [List.mapIdx_append, List.mapIdx_append, List.filterMap_append, List.filterMap_append, firstLength,
    middleLength]
  have after : ((values.drop (2 ^ depth - 1 + filled + data.length)).mapIdx fun i =>
      filledValue depth filled sequenceNo data (i + data.length + (2 ^ depth - 1 + filled))).filterMap
        Value.baseJob? = [] := by
    rw [filterMap_mapIdx_of_forall, empties _ (by omega)]
    intro i lt
    rw [List.length_drop] at lt
    simp only [List.getElem_drop]
    rw [show i + data.length + (2 ^ depth - 1 + filled) = 2 ^ depth - 1 + filled + data.length + i by omega]
    exact filling.baseJob?_filledValue_of_outside data sequenceNo (by omega) (by omega)
  rw [after, List.append_nil]
  congr 1
  · -- before the new jobs nothing changes
    apply filterMap_mapIdx_of_forall
    intro i lt
    rw [firstLength] at lt
    simp only [List.getElem_take]
    exact filling.baseJob?_filledValue_of_outside data sequenceNo (by omega) (by omega)
  · -- the filled leaves hold the new jobs in order
    have mapped : (((values.drop (2 ^ depth - 1 + filled)).take data.length).mapIdx fun i =>
        filledValue depth filled sequenceNo data (i + (2 ^ depth - 1 + filled))).map Value.baseJob? = data.map some := by
      apply List.ext_getElem (by simp only [List.length_map, List.length_mapIdx, middleLength])
      intro i lt lt'
      rw [List.length_map] at lt'
      simp only [List.getElem_map, List.getElem_mapIdx, List.getElem_take, List.getElem_drop]
      rw [show i + (2 ^ depth - 1 + filled) = 2 ^ depth - 1 + filled + i by omega,
        filling.baseJob?_filledValue_of_inside data sequenceNo (by omega) (by omega)]
      simp
    rw [filterMap_eq_map_filterMap, mapped, List.filterMap_map]
    simp

end Jobs

/-! ## The current tree through `add_data` -/

section Current

variable {tree : JobTree BaseJob MergeJob} {depth filled : ℕ}

theorem filling_createTree (depth : ℕ) : Filling (createTree depth : JobTree BaseJob MergeJob).values depth 0 where
  perfect := perfect_createTreeForLevel _ _ _ _
  filled_le := Nat.zero_le _
  leaf index lt base value := by
    simp only [createTree, createTreeForLevel, List.getElem_map, List.getElem_range] at value
    split at value
    · cases value
      simp [emptyIn_zero]
    · cases value
  node index lt merge value := by
    simp only [createTree, createTreeForLevel, List.getElem_map, List.getElem_range] at value
    split at value
    · cases value
    · rename_i notLeaf
      cases value
      have within : depthAt index ≤ depth := by
        simp only [createTree, createTreeForLevel, List.length_map, List.length_range] at lt
        rw [depthAt_le_iff]
        omega
      have share : 2 ^ depth / 2 ^ (depthAt index + 1) = 2 ^ (depth - depthAt index - 1) := by
        rw [Nat.pow_div (by omega) (by norm_num), Nat.sub_sub]
      simp [share, emptyIn_unfilled]

theorem availableSpace_filling (filling : Filling tree.values depth filled) (small : depth < 64) :
    availableSpace tree = some (2 ^ depth - filled) := by
  have length := filling.perfect.length_eq
  have positive : 1 ≤ 2 ^ depth := Nat.one_le_two_pow
  have twice : 2 ^ (depth + 1) = 2 * 2 ^ depth := by rw [pow_succ, mul_comm]
  have lt : 0 < tree.values.length := by omega
  have root : positionAt 0 = 0 := by simp [positionAt, depthAt_zero]
  unfold availableSpace
  rw [List.getElem?_eq_getElem lt]
  cases value : tree.values[0] with
  | leaf base =>
    have flat : depth = 0 := by
      have := (filling.perfect.isLeaf_iff 0 lt).mp (by rw [value]; rfl)
      rw [depthAt_zero] at this
      omega
    have weight := (filling.leaf 0 lt base value).2
    have one := filling.filled_le
    subst flat
    show some base.weight.base = _
    rw [weight, root, emptyIn_zero]
    simp only [pow_zero] at one ⊢
    split <;> simp <;> omega
  | node merge =>
    have deeper : depth ≠ 0 := by
      intro flat
      have := (filling.perfect.isLeaf_iff 0 lt).mpr (by rw [depthAt_zero, flat])
      simp [value, Value.isLeaf] at this
    obtain ⟨-, left, right⟩ := filling.node 0 lt merge value
    simp only [depthAt_zero, root, Nat.mul_zero, Nat.zero_add, Nat.sub_zero] at left right
    have sum := emptyIn_succ filled (depth - 1) 0
    rw [Nat.sub_add_cancel (Nat.one_le_iff_ne_zero.mpr deeper), emptyIn_root] at sum
    simp only [Nat.mul_zero, Nat.zero_add] at sum
    have room : 2 ^ depth ≤ 2 ^ 63 := Nat.pow_le_pow_right (by norm_num) (by omega)
    show some (addU64 merge.weight.1.base merge.weight.2.base) = _
    rw [left, right, addU64_of_lt (by omega), ← sum]

theorem Filling.update_base_jobs (filling : Filling tree.values depth filled) (data : List BaseJob)
    (fits : filled + data.length ≤ 2 ^ depth) (sequenceNo : ℕ) :
    ∃ tree', tree.update (data.map Job.base) depth sequenceNo .base = some (tree', none) ∧
      baseJobs tree' = baseJobs tree ++ data ∧ Filling tree'.values depth (filled + data.length) := by
  refine ⟨_, update_fills filling data fits sequenceNo, ?_, filling.fill data fits sequenceNo⟩
  rw [baseJobs_eq_filterMap, baseJobs_eq_filterMap]
  exact filling.filterMap_filledValue data fits sequenceNo

end Current

end Openmina.ScanState.ParallelScan
