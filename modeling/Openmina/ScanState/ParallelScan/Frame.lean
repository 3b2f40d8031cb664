import Mathlib
import Openmina.ScanState.ParallelScan.Reset

/-!
# What `update` keeps

`update_split` replaces a value only by what `fun_base` or `fun_merge` makes of it from jobs it
was given, and keeps every other (`updateSplit_forall₂`). With completed merge jobs only,
`add_bases` marks a full leaf done and changes nothing else of it, so `Tree::update` as
`add_merge_jobs` calls it keeps the shape of the tree and every base job
(`update_merge_keeps`).
-/

namespace Openmina.ScanState.ParallelScan

open Openmina.Arith.BreadthFirst Openmina.Arith.ListIndex

set_option autoImplicit false

section Frame

variable {B M Data W R : Type}
  (funMerge : List Data → ℕ → M → Option (M × Option R))
  (funBase : List Data → B → Option B)
  (weightMerge : M → W × W)
  (updateLevel : ℕ)
  (jobsSplit : W × W → List Data → List Data × List Data)

/-- A value as `update_split` may leave it: kept, or passed through `fun_base` or `fun_merge`
with jobs taken from `jobs`. -/
def UpdatedAt (jobs : List Data) : Value B M → Value B M → Prop
  | .leaf base, .leaf base' => base' = base ∨ ∃ slice, slice ⊆ jobs ∧ funBase slice base = some base'
  | .node merge, .node merge' =>
    merge' = merge ∨ ∃ slice level result, slice ⊆ jobs ∧ funMerge slice level merge = some (merge', result)
  | _, _ => False

theorem UpdatedAt.refl (jobs : List Data) : ∀ v : Value B M, UpdatedAt funMerge funBase jobs v v
  | .leaf _ => .inl rfl
  | .node _ => .inl rfl

/-- The loop of `update_split` after `k` values: the values pushed are those of the first `k`,
kept or updated, and every slice in the FIFO holds jobs it was given. -/
def FrameInv (jobs : List Data) (values : List (Value B M)) (k : ℕ) (state : SplitState B M Data R) : Prop :=
  List.Forall₂ (UpdatedAt funMerge funBase jobs) (values.take k) state.values ∧ ∀ slice ∈ state.jobsFifo, slice ⊆ jobs

variable {funMerge funBase weightMerge updateLevel jobsSplit}

theorem updateSplitStep_frame (splitSub : ∀ w a, (jobsSplit w a).1 ⊆ a ∧ (jobsSplit w a).2 ⊆ a)
    {jobs : List Data} {values : List (Value B M)} {k : ℕ} (lt : k < values.length)
    {state state' : SplitState B M Data R} (inv : FrameInv funMerge funBase jobs values k state)
    (step : updateSplitStep funMerge funBase weightMerge updateLevel jobsSplit state (values[k], k) = some state') :
    FrameInv funMerge funBase jobs values (k + 1) state' := by
  obtain ⟨related, fifo⟩ := inv
  have extend : ∀ v', UpdatedAt funMerge funBase jobs values[k] v' →
      List.Forall₂ (UpdatedAt funMerge funBase jobs) (values.take (k + 1)) (state.values ++ [v']) := by
    intro v' updated
    rw [List.take_add_one, List.getElem?_eq_getElem lt]
    exact List.rel_append related (.cons updated .nil)
  unfold updateSplitStep at step
  split_ifs at step
  · cases step
    exact ⟨extend _ (UpdatedAt.refl funMerge funBase jobs _), fifo⟩
  · cases queue : state.jobsFifo with
    | nil => simp [queue] at step
    | cons slice rest =>
      have sliceSub := fifo slice (by simp [queue])
      have restSub : ∀ slice ∈ rest, slice ⊆ jobs := fun s mem => fifo s (by simp [queue, mem])
      cases value : values[k] with
      | leaf base =>
        simp only [queue, value, Option.bind_eq_bind, Option.bind_eq_some_iff, Option.some.injEq] at step
        obtain ⟨base', updated, rfl⟩ := step
        refine ⟨extend _ ?_, restSub⟩
        rw [value]
        exact .inr ⟨slice, sliceSub, updated⟩
      | node merge =>
        simp only [queue, value, Option.bind_eq_bind, Option.bind_eq_some_iff, Option.some.injEq] at step
        obtain ⟨⟨merge', result⟩, updated, rfl⟩ := step
        have halves := splitSub (weightMerge merge) slice
        refine ⟨extend _ ?_, ?_⟩
        · rw [value]
          exact .inr ⟨slice, _, result, sliceSub, updated⟩
        · intro s mem
          simp only [List.mem_append, List.mem_cons, List.not_mem_nil, or_false] at mem
          rcases mem with old | rfl | rfl
          · exact restSub s old
          · exact List.Subset.trans halves.1 sliceSub
          · exact List.Subset.trans halves.2 sliceSub

theorem updateSplit_forall₂ (splitSub : ∀ w a, (jobsSplit w a).1 ⊆ a ∧ (jobsSplit w a).2 ⊆ a)
    {tree tree' : Tree B M} {jobs : List Data} {result : Option R}
    (run : updateSplit funMerge funBase weightMerge updateLevel jobsSplit tree jobs = some (tree', result)) :
    List.Forall₂ (UpdatedAt funMerge funBase jobs) tree.values tree'.values := by
  simp only [updateSplit, Option.bind_eq_bind, Option.bind_eq_some_iff, Option.pure_def, Option.some.injEq,
    Prod.mk.injEq] at run
  obtain ⟨final, loop, rfl, -⟩ := run
  have atEnd := foldlM_induction tree.values.zipIdx _ (FrameInv funMerge funBase jobs tree.values)
    (fun k lt s s' inv step => by
      have within : k < tree.values.length := by simpa using lt
      rw [List.getElem_zipIdx, Nat.zero_add] at step
      exact updateSplitStep_frame splitSub within inv step)
    _ final ⟨by simp, by simp⟩ loop
  simpa using atEnd.1

end Frame

/-! ## `Tree::update` with completed merge jobs -/

section Merges

variable {BaseJob MergeJob : Type}

theorem jobsSplit_subset {α : Type} (lens : WeightLens) (weights : Weight × Weight) (a : List α) :
    (jobsSplit lens weights a).1 ⊆ a ∧ (jobsSplit lens weights a).2 ⊆ a :=
  ⟨List.take_subset _ _, List.Subset.trans (List.take_subset _ _) (List.drop_subset _ _)⟩

theorem addBases_baseJob?_of_merges {sequenceNo : ℕ} {lens : WeightLens} {slice : List (Job BaseJob MergeJob)}
    (merges : ∀ job ∈ slice, ∃ merge, job = .merge merge) {base base' : Base.Base BaseJob}
    (eq : addBases sequenceNo lens slice base = some base') :
    (Value.leaf base' : Value (Base.Base BaseJob) (Merge.Merge MergeJob)).baseJob? =
      (Value.leaf base : Value (Base.Base BaseJob) (Merge.Merge MergeJob)).baseJob? := by
  unfold addBases at eq
  split at eq
  · cases eq
    rfl
  · obtain ⟨merge, isMerge⟩ := merges _ (List.mem_singleton_self _)
    cases isMerge
  · rename_i record full
    cases eq
    rcases base with ⟨weight, job⟩
    cases full
    rfl
  · cases eq

/-- `Tree::update` with completed merge jobs only keeps every leaf a leaf, every node a node, and
the job of every leaf. -/
theorem update_merge_keeps {tree tree' : JobTree BaseJob MergeJob} {jobs : List MergeJob}
    {updateLevel sequenceNo : ℕ} {lens : WeightLens} {result : Option MergeJob}
    (run : tree.update (jobs.map Job.merge) updateLevel sequenceNo lens = some (tree', result)) :
    List.Forall₂ (fun v v' => v'.isLeaf = v.isLeaf ∧ v'.baseJob? = v.baseJob?) tree.values tree'.values := by
  have merges : ∀ job ∈ jobs.map (Job.merge : MergeJob → Job BaseJob MergeJob), ∃ merge, job = .merge merge := by
    intro job mem
    obtain ⟨merge, -, rfl⟩ := List.mem_map.mp mem
    exact ⟨merge, rfl⟩
  apply (updateSplit_forall₂ (jobsSplit_subset lens) run).imp
  intro v v' updated
  cases v with
  | leaf base =>
    cases v' with
    | leaf base' =>
      refine ⟨rfl, ?_⟩
      rcases updated with rfl | ⟨slice, sub, eq⟩
      · rfl
      · exact addBases_baseJob?_of_merges (fun job mem => merges job (sub mem)) eq
    | node merge' => exact updated.elim
  | node merge =>
    cases v' with
    | leaf base' => exact updated.elim
    | node merge' => exact ⟨rfl, rfl⟩

theorem Perfect.update_merge {tree tree' : JobTree BaseJob MergeJob} {depth : ℕ} (perfect : Perfect tree.values depth)
    {jobs : List MergeJob} {updateLevel sequenceNo : ℕ} {lens : WeightLens} {result : Option MergeJob}
    (run : tree.update (jobs.map Job.merge) updateLevel sequenceNo lens = some (tree', result)) :
    Perfect tree'.values depth ∧ baseJobs tree' = baseJobs tree := by
  have keeps := update_merge_keeps run
  refine ⟨perfect.of_forall₂ (fun _ _ same => same.1) keeps, ?_⟩
  rw [baseJobs_eq_filterMap, baseJobs_eq_filterMap]
  exact filterMap_eq_of_forall₂ _ _ (fun _ _ same => same.2) keeps

end Merges

end Openmina.ScanState.ParallelScan
