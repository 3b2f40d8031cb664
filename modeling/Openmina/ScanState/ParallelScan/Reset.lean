import Mathlib
import Openmina.ScanState.ParallelScan.Fill

/-!
# `update_accumulate` folds the tree bottom up

`update_accumulate` visits the values from the last index to the first and keeps in `datas`
what each node passes to its parent; a node takes its children's data out of the table. On a
perfect tree no `unwrap` fails and the loop computes at every node what the bottom-up recursion
`accumulateAt` computes (`updateAccumulate_spec`). `reset_weights` is such a fold; with the
merge lens it rewrites merge weights only, so the current tree stays filling.
-/

namespace Openmina.ScanState.ParallelScan

open Openmina.Arith.BreadthFirst Openmina.Arith.ListIndex

set_option autoImplicit false

section Accumulate

variable {B M Data : Type} (funMerge : Data × Data → M → M × Data) (funBase : B → B × Data)

/-- `update_accumulate` read bottom up: the new value of the node at `index`, of `height`, and
the data it passes to its parent. -/
def accumulateAt (values : List (Value B M)) : ℕ → ℕ → Option (Value B M × Data)
  | height, index =>
    match values[index]?, height with
    | some (.leaf base), _ => some (.leaf (funBase base).1, (funBase base).2)
    | some (.node merge), height + 1 => do
      let left ← accumulateAt values height (2 * index + 1)
      let right ← accumulateAt values height (2 * index + 2)
      some (.node (funMerge (left.2, right.2) merge).1, (funMerge (left.2, right.2) merge).2)
    | _, _ => none

variable {funMerge funBase} {values : List (Value B M)} {depth : ℕ}

theorem Perfect.accumulateAt_isSome (perfect : Perfect values depth) :
    ∀ height index, index < values.length → depthAt index + height = depth →
      (accumulateAt funMerge funBase values height index).isSome := by
  intro height
  induction height with
  | zero =>
    intro index lt level
    have leaf := (perfect.isLeaf_iff index lt).mpr (by omega)
    cases value : values[index] with
    | leaf base => simp [accumulateAt, List.getElem?_eq_getElem lt, value]
    | node merge => simp [value, Value.isLeaf] at leaf
  | succ height ih =>
    intro index lt level
    have childLeft : 2 * index + 1 < values.length := by
      rw [perfect.lt_length_iff, depthAt_childLeft]
      omega
    have childRight : 2 * index + 2 < values.length := by
      rw [perfect.lt_length_iff, depthAt_childRight]
      omega
    obtain ⟨left, leftEq⟩ := Option.isSome_iff_exists.mp
      (ih (2 * index + 1) childLeft (by rw [depthAt_childLeft]; omega))
    obtain ⟨right, rightEq⟩ := Option.isSome_iff_exists.mp
      (ih (2 * index + 2) childRight (by rw [depthAt_childRight]; omega))
    cases value : values[index] with
    | leaf base => simp [accumulateAt, List.getElem?_eq_getElem lt, value]
    | node merge => simp [accumulateAt, List.getElem?_eq_getElem lt, value, leftEq, rightEq]

variable (funMerge funBase) in
/-- The state of the loop of `update_accumulate` after the last `k` values: their new values,
last first, and in `datas` the data of every visited node whose parent is not yet visited. -/
def AccumulateInv (values : List (Value B M)) (depth k : ℕ) (state : AccumulateState B M Data) : Prop :=
  state.datas.length = values.length ∧ state.values.length = k ∧
    (∀ t, t < k → ∃ v d, state.values[t]? = some v ∧
      accumulateAt funMerge funBase values (depth - depthAt (values.length - 1 - t)) (values.length - 1 - t) =
        some (v, d)) ∧
    ∀ j, j < values.length → state.datas[j]? =
      some (if values.length ≤ j + k ∧ (j = 0 ∨ (j - 1) / 2 + k < values.length) then
        (accumulateAt funMerge funBase values (depth - depthAt j) j).map Prod.snd else none)

theorem getElem_reverse_zipIdx {α : Type} (values : List α) {k : ℕ} (lt : k < values.zipIdx.reverse.length)
    (within : values.length - 1 - k < values.length) :
    values.zipIdx.reverse[k] = (values[values.length - 1 - k], values.length - 1 - k) := by
  simp [List.getElem_reverse]

theorem accumulateAt_leaf {index : ℕ} (lt : index < values.length) {base : B} (value : values[index] = .leaf base)
    (height : ℕ) :
    accumulateAt funMerge funBase values height index = some (.leaf (funBase base).1, (funBase base).2) := by
  cases height <;> simp [accumulateAt, List.getElem?_eq_getElem lt, value]

theorem accumulateAt_node {index : ℕ} (lt : index < values.length) {merge : M} (value : values[index] = .node merge)
    {height : ℕ} {left right : Value B M × Data}
    (leftEq : accumulateAt funMerge funBase values height (2 * index + 1) = some left)
    (rightEq : accumulateAt funMerge funBase values height (2 * index + 2) = some right) :
    accumulateAt funMerge funBase values (height + 1) index =
      some (.node (funMerge (left.2, right.2) merge).1, (funMerge (left.2, right.2) merge).2) := by
  simp [accumulateAt, List.getElem?_eq_getElem lt, value, leftEq, rightEq]

theorem updateAccumulateStep_inv (perfect : Perfect values depth) {k : ℕ} (lt : k < values.length)
    {state : AccumulateState B M Data} (inv : AccumulateInv funMerge funBase values depth k state) :
    ∃ state', updateAccumulateStep funMerge funBase state
        (values[values.length - 1 - k], values.length - 1 - k) = some state' ∧
      AccumulateInv funMerge funBase values depth (k + 1) state' := by
  obtain ⟨datasLength, valuesLength, visited, table⟩ := inv
  have within : values.length - 1 - k < values.length := by omega
  have shallow := (perfect.lt_length_iff _).mp within
  have earlier : ∀ (v : Value B M) t, t < k → ∃ v' d, (state.values ++ [v])[t]? = some v' ∧
      accumulateAt funMerge funBase values (depth - depthAt (values.length - 1 - t)) (values.length - 1 - t) =
        some (v', d) := by
    intro v t old
    obtain ⟨v', d, at_t, acc⟩ := visited t old
    exact ⟨v', d, by rw [List.getElem?_append_left (by omega)]; exact at_t, acc⟩
  cases value : values[values.length - 1 - k] with
  | leaf base =>
    have deepest := (perfect.isLeaf_iff _ within).mp (by rw [value]; rfl)
    have childless : values.length ≤ 2 * (values.length - 1 - k) + 1 := by
      by_contra inside
      have child := (perfect.lt_length_iff _).mp (show 2 * (values.length - 1 - k) + 1 < values.length by omega)
      rw [depthAt_childLeft] at child
      omega
    refine ⟨_, rfl, by simp [datasLength], by simp [valuesLength], ?_, ?_⟩
    · intro t tlt
      by_cases old : t < k
      · exact earlier _ t old
      · obtain rfl : t = k := by omega
        exact ⟨_, _, by rw [← valuesLength, List.getElem?_concat_length], accumulateAt_leaf within value _⟩
    · intro j jlt
      by_cases here : j = values.length - 1 - k
      · subst here
        rw [List.getElem?_set_self (by omega), if_pos (by omega), accumulateAt_leaf within value]
        rfl
      · rw [List.getElem?_set_ne (Ne.symm here), table j jlt]
        congr 2
        apply propext
        omega
  | node merge =>
    have notLeaf := (perfect.isLeaf_iff _ within).not.mp (by rw [value]; simp [Value.isLeaf])
    have rightWithin : 2 * (values.length - 1 - k) + 2 < values.length := by
      rw [perfect.lt_length_iff, depthAt_childRight]
      omega
    have height : depth - depthAt (values.length - 1 - k) = depth - depthAt (2 * (values.length - 1 - k) + 1) + 1 := by
      rw [depthAt_childLeft]
      omega
    have leftSome : (accumulateAt funMerge funBase values (depth - depthAt (2 * (values.length - 1 - k) + 1))
        (2 * (values.length - 1 - k) + 1)).isSome :=
      perfect.accumulateAt_isSome _ _ (by omega) (by rw [depthAt_childLeft]; omega)
    have rightSome : (accumulateAt funMerge funBase values (depth - depthAt (2 * (values.length - 1 - k) + 1))
        (2 * (values.length - 1 - k) + 2)).isSome :=
      perfect.accumulateAt_isSome _ _ rightWithin (by rw [depthAt_childLeft, depthAt_childRight]; omega)
    obtain ⟨left, leftEq⟩ := Option.isSome_iff_exists.mp leftSome
    obtain ⟨right, rightEq⟩ := Option.isSome_iff_exists.mp rightSome
    -- both children were visited, and their parent is the node visited now
    have leftData : state.datas[2 * (values.length - 1 - k) + 1]? = some (some left.2) := by
      rw [table _ (by omega), if_pos (by omega), leftEq]
      rfl
    have rightData : state.datas[2 * (values.length - 1 - k) + 2]? = some (some right.2) := by
      rw [table _ rightWithin, if_pos (by omega), depthAt_childRight, ← depthAt_childLeft, rightEq]
      rfl
    have taken : childsOf state.datas (values.length - 1 - k) =
        some ((left.2, right.2), (state.datas.set (2 * (values.length - 1 - k) + 1) none).set
          (2 * (values.length - 1 - k) + 2) none) := by
      simp [childsOf, leftData, List.getElem?_set_ne (show 2 * (values.length - 1 - k) + 1 ≠ 2 * (values.length - 1 - k) + 2 by omega), rightData]
    have nodeAt := accumulateAt_node within value leftEq rightEq
    rw [← height] at nodeAt
    refine ⟨_, by simp only [updateAccumulateStep, taken]; rfl, by simp [datasLength], by simp [valuesLength], ?_, ?_⟩
    · intro t tlt
      by_cases old : t < k
      · exact earlier _ t old
      · obtain rfl : t = k := by omega
        exact ⟨_, _, by rw [← valuesLength, List.getElem?_concat_length], nodeAt⟩
    · intro j jlt
      by_cases here : j = values.length - 1 - k
      · subst here
        rw [List.getElem?_set_self (by simp; omega), if_pos (by omega), nodeAt]
        rfl
      · rw [List.getElem?_set_ne (Ne.symm here)]
        by_cases child : j = 2 * (values.length - 1 - k) + 1 ∨ j = 2 * (values.length - 1 - k) + 2
        · -- the children's data is gone: their parent is visited
          rw [if_neg (by omega)]
          rcases child with rfl | rfl
          · rw [List.getElem?_set_ne (by omega), List.getElem?_set_self (by omega)]
          · rw [List.getElem?_set_self (by simp; omega)]
        · rw [List.getElem?_set_ne (by omega), List.getElem?_set_ne (by omega), table j jlt]
          congr 2
          apply propext
          omega

/-- On a perfect tree `update_accumulate` does not panic; the value it leaves at every index and
the data the root passes up are those of the bottom-up recursion. -/
theorem updateAccumulate_spec {tree : Tree B M} (perfect : Perfect tree.values depth) :
    ∃ values' root, updateAccumulate funMerge funBase tree = some ({ values := values' }, root) ∧
      values'.length = tree.values.length ∧
      (∀ i, i < tree.values.length → ∃ v d, values'[i]? = some v ∧
        accumulateAt funMerge funBase tree.values (depth - depthAt i) i = some (v, d)) ∧
      ∃ v, accumulateAt funMerge funBase tree.values depth 0 = some (v, root) := by
  have positive : 0 < tree.values.length := by
    have := perfect.length_eq
    have : 1 < 2 ^ (depth + 1) := Nat.one_lt_two_pow (by omega)
    omega
  obtain ⟨final, run, datasLength, valuesLength, visited, table⟩ := foldlM_invariant tree.values.zipIdx.reverse
    (updateAccumulateStep funMerge funBase) (AccumulateInv funMerge funBase tree.values depth)
    (fun k lt state inv => by
      have within : k < tree.values.length := by simpa using lt
      rw [getElem_reverse_zipIdx _ lt (by omega)]
      exact updateAccumulateStep_inv perfect within inv)
    { values := [], datas := List.replicate tree.values.length none }
    ⟨by simp, rfl, fun t lt => absurd lt (Nat.not_lt_zero _), fun j lt => by
      rw [if_neg (by omega)]
      simp [lt]⟩
  simp only [List.length_reverse, List.length_zipIdx] at datasLength valuesLength visited table
  have rootSome : (accumulateAt funMerge funBase tree.values depth 0).isSome :=
    perfect.accumulateAt_isSome depth 0 positive (by rw [depthAt_zero]; omega)
  obtain ⟨⟨rootValue, rootData⟩, rootEq⟩ := Option.isSome_iff_exists.mp rootSome
  have rootTable : final.datas[0]? = some (some rootData) := by
    rw [table 0 positive, if_pos (by omega), depthAt_zero, Nat.sub_zero, rootEq]
    rfl
  refine ⟨final.values.reverse, rootData, ?_, by simp [valuesLength], ?_, ⟨rootValue, rootEq⟩⟩
  · simp [updateAccumulate, run, rootTable]
  · intro i lt
    obtain ⟨v, d, at_t, acc⟩ := visited (tree.values.length - 1 - i) (by omega)
    have back : tree.values.length - 1 - (tree.values.length - 1 - i) = i := by omega
    rw [back] at acc
    refine ⟨v, d, ?_, acc⟩
    rw [List.getElem?_reverse (by omega), valuesLength]
    exact at_t

variable (funMerge funBase) in
/-- What `update_accumulate` leaves for a value: a leaf passed through `fun_base`, a node
through `fun_merge` with some data of its children. -/
def AccumulatedAt : Value B M → Value B M → Prop
  | .leaf base, .leaf base' => base' = (funBase base).1
  | .node merge, .node merge' => ∃ children, merge' = (funMerge children merge).1
  | _, _ => False

theorem AccumulatedAt.isLeaf_eq {v v' : Value B M} (accumulated : AccumulatedAt funMerge funBase v v') :
    v'.isLeaf = v.isLeaf := by
  cases v <;> cases v' <;> first | rfl | exact accumulated.elim

theorem accumulatedAt_of_accumulateAt {height index : ℕ} {v : Value B M} {d : Data}
    (eq : accumulateAt funMerge funBase values height index = some (v, d)) :
    ∃ value, values[index]? = some value ∧ AccumulatedAt funMerge funBase value v := by
  unfold accumulateAt at eq
  split at eq
  · rename_i base found
    cases eq
    exact ⟨_, found, rfl⟩
  · rename_i merge _ found
    simp only [Option.bind_eq_bind, Option.bind_eq_some_iff] at eq
    obtain ⟨left, -, right, -, eq⟩ := eq
    cases eq
    exact ⟨_, found, _, rfl⟩
  · cases eq

theorem updateAccumulate_forall₂ {tree : Tree B M} (perfect : Perfect tree.values depth) :
    ∃ values' root, updateAccumulate funMerge funBase tree = some ({ values := values' }, root) ∧
      List.Forall₂ (AccumulatedAt funMerge funBase) tree.values values' := by
  obtain ⟨values', root, run, length, atIndex, -⟩ := updateAccumulate_spec perfect
  refine ⟨values', root, run, List.forall₂_iff_get.mpr ⟨length.symm, fun i lt lt' => ?_⟩⟩
  obtain ⟨v, d, found, eq⟩ := atIndex i lt
  obtain ⟨value, atIndex, accumulated⟩ := accumulatedAt_of_accumulateAt eq
  rw [List.getElem?_eq_getElem lt, Option.some.injEq] at atIndex
  rw [List.getElem?_eq_getElem lt', Option.some.injEq] at found
  simp only [List.get_eq_getElem, atIndex, found]
  exact accumulated

end Accumulate

/-! ## `reset_weights` -/

section Reset

variable {BaseJob MergeJob : Type} {depth filled : ℕ}

@[simp]
theorem resetBase_job (resetKind : ResetKind) (base : Base.Base BaseJob) :
    (resetBase resetKind base).1.job = base.job := by
  cases resetKind <;> rfl

@[simp]
theorem resetMerge_job (resetKind : ResetKind) (lst : (Weight × Weight) × (Weight × Weight))
    (merge : Merge.Merge MergeJob) : (resetMerge resetKind lst merge).1.job = merge.job := by
  cases resetKind <;> rfl

theorem resetBase_merge_weight_base (base : Base.Base BaseJob) :
    (resetBase .merge base).1.weight.base = base.weight.base := by
  rcases base with ⟨weight, _ | ⟨job, seqNo, _ | _⟩⟩ <;> rfl

theorem resetMerge_merge_weight_base (lst : (Weight × Weight) × (Weight × Weight)) (merge : Merge.Merge MergeJob) :
    (resetMerge .merge lst merge).1.weight.1.base = merge.weight.1.base ∧
      (resetMerge .merge lst merge).1.weight.2.base = merge.weight.2.base := by
  rcases merge with ⟨⟨w1, w2⟩, _ | _ | ⟨left, right, seqNo, _ | _⟩⟩ <;> exact ⟨rfl, rfl⟩

theorem resetWeights_forall₂ {tree : JobTree BaseJob MergeJob} (perfect : Perfect tree.values depth)
    (resetKind : ResetKind) :
    ∃ tree', resetWeights tree resetKind = some tree' ∧
      List.Forall₂ (AccumulatedAt (resetMerge resetKind) (resetBase resetKind)) tree.values tree'.values := by
  obtain ⟨values', root, run, related⟩ :=
    @updateAccumulate_forall₂ _ _ _ (resetMerge resetKind) (resetBase resetKind) _ _ perfect
  exact ⟨{ values := values' }, by simp [resetWeights, run], related⟩

theorem baseJob?_leaf_congr {base base' : Base.Base BaseJob} (same : base'.job = base.job) :
    (Value.leaf base' : Value (Base.Base BaseJob) (Merge.Merge MergeJob)).baseJob? =
      (Value.leaf base : Value (Base.Base BaseJob) (Merge.Merge MergeJob)).baseJob? := by
  rcases base with ⟨weight, job⟩
  rcases base' with ⟨weight', job'⟩
  cases same
  cases job <;> rfl

theorem AccumulatedAt.baseJob?_eq {resetKind : ResetKind} {v v' : Value (Base.Base BaseJob) (Merge.Merge MergeJob)}
    (reset : AccumulatedAt (resetMerge resetKind) (resetBase resetKind) v v') : v'.baseJob? = v.baseJob? := by
  cases v with
  | leaf base =>
    cases v' with
    | leaf base' =>
      rw [show base' = _ from reset]
      exact baseJob?_leaf_congr (resetBase_job resetKind base)
    | node merge' => exact reset.elim
  | node merge => cases v' <;> first | rfl | exact reset.elim

/-- `reset_weights` on a perfect tree does not panic, keeps it perfect and keeps its base jobs. -/
theorem Perfect.resetWeights {tree : JobTree BaseJob MergeJob} (perfect : Perfect tree.values depth)
    (resetKind : ResetKind) :
    ∃ tree', resetWeights tree resetKind = some tree' ∧ Perfect tree'.values depth ∧ baseJobs tree' = baseJobs tree := by
  obtain ⟨tree', reset, related⟩ := resetWeights_forall₂ perfect resetKind
  refine ⟨tree', reset, perfect.of_forall₂ (fun _ _ => AccumulatedAt.isLeaf_eq) related, ?_⟩
  rw [baseJobs_eq_filterMap, baseJobs_eq_filterMap]
  exact filterMap_eq_of_forall₂ _ _ (fun _ _ reset => reset.baseJob?_eq) related

/-- Two values alike in what `Filling` reads: whether the job is empty, and the base weights. -/
def SameBase : Value (Base.Base BaseJob) (Merge.Merge MergeJob) → Value (Base.Base BaseJob) (Merge.Merge MergeJob) → Prop
  | .leaf base, .leaf base' => (base'.job = .empty ↔ base.job = .empty) ∧ base'.weight.base = base.weight.base
  | .node merge, .node merge' =>
    (merge'.job = .empty ↔ merge.job = .empty) ∧ merge'.weight.1.base = merge.weight.1.base ∧
      merge'.weight.2.base = merge.weight.2.base
  | _, _ => False

theorem AccumulatedAt.sameBase {v v' : Value (Base.Base BaseJob) (Merge.Merge MergeJob)}
    (reset : AccumulatedAt (resetMerge .merge) (resetBase .merge) v v') : SameBase v v' := by
  cases v with
  | leaf base =>
    cases v' with
    | leaf base' =>
      rw [show base' = _ from reset]
      exact ⟨by rw [resetBase_job], resetBase_merge_weight_base base⟩
    | node merge' => exact reset.elim
  | node merge =>
    cases v' with
    | leaf base' => exact reset.elim
    | node merge' =>
      obtain ⟨children, rfl⟩ := reset
      exact ⟨by rw [resetMerge_job], resetMerge_merge_weight_base children merge⟩

theorem SameBase.isLeaf_eq {v v' : Value (Base.Base BaseJob) (Merge.Merge MergeJob)} (same : SameBase v v') :
    v'.isLeaf = v.isLeaf := by
  cases v <;> cases v' <;> first | rfl | exact same.elim

theorem Filling.of_sameBase {values values' : List (Value (Base.Base BaseJob) (Merge.Merge MergeJob))}
    (filling : Filling values depth filled) (same : List.Forall₂ SameBase values values') :
    Filling values' depth filled where
  perfect := filling.perfect.of_forall₂ (fun _ _ sameAt => sameAt.isLeaf_eq) same
  filled_le := filling.filled_le
  leaf index lt' base' value' := by
    have lt : index < values.length := by rw [same.length_eq]; exact lt'
    have sameAt := forall₂_getElem same lt lt'
    rw [value'] at sameAt
    cases value : values[index] with
    | node merge => rw [value] at sameAt; exact sameAt.elim
    | leaf base =>
      rw [value] at sameAt
      obtain ⟨job, weight⟩ := sameAt
      rw [job, weight]
      exact filling.leaf index lt base value
  node index lt' merge' value' := by
    have lt : index < values.length := by rw [same.length_eq]; exact lt'
    have sameAt := forall₂_getElem same lt lt'
    rw [value'] at sameAt
    cases value : values[index] with
    | leaf base => rw [value] at sameAt; exact sameAt.elim
    | node merge =>
      rw [value] at sameAt
      obtain ⟨job, left, right⟩ := sameAt
      rw [job, left, right]
      exact filling.node index lt merge value

theorem Filling.resetWeights_merge {tree : JobTree BaseJob MergeJob} (filling : Filling tree.values depth filled) :
    ∃ tree', resetWeights tree .merge = some tree' ∧ Filling tree'.values depth filled ∧
      baseJobs tree' = baseJobs tree := by
  obtain ⟨tree', reset, related⟩ := resetWeights_forall₂ filling.perfect .merge
  obtain ⟨tree'', reset', -, jobs⟩ := filling.perfect.resetWeights .merge
  rw [reset] at reset'
  cases reset'
  exact ⟨tree', reset, filling.of_sameBase (related.imp fun _ _ => AccumulatedAt.sameBase), jobs⟩

end Reset

end Openmina.ScanState.ParallelScan
