import Mathlib
import Openmina.ScanState.ParallelScan.Scan
import Openmina.ScanState.ParallelScan.Frame

/-!
# The data of the scan state

The base jobs of a scan state, oldest tree first, are its `pending_data`. The scan state is
well formed when every tree is perfect of the depth `ceil_log2` gives `max_base_jobs` and the
current tree is filled from its first leaf on, with room left (`Wellformed`). From a well
formed state `add_data` does not panic exactly when the data fits in the current tree, and
appends it to the pending data (`addData_appends`); `add_merge_jobs` keeps the current tree,
and the data of the tree it emits is taken from the front of the pending data
(`addMergeJobs_emits_oldest`). Over every run of `update` from `empty` the state stays well
formed, and no data is invented or reordered (`reachable_keeps_data_order`).
-/

namespace Openmina.ScanState.ParallelScan

open Openmina.Arith.BreadthFirst Openmina.Arith.ListIndex

set_option autoImplicit false
set_option linter.dupNamespace false

namespace ParallelScan

variable {BaseJob MergeJob : Type}

/-- What every reachable scan state keeps: its trees are perfect of the depth that `ceil_log2`
gives `max_base_jobs`, and the current tree is filled from its first leaf on, with room left. -/
structure Wellformed (state : ParallelScan BaseJob MergeJob) (depth : ℕ) : Prop where
  depth_eq : ceilLog2 state.maxBaseJobs = some depth
  small : depth < 64
  perfect : ∀ tree ∈ state.trees, Perfect tree.values depth
  current : ∃ tree rest filled, state.trees = tree :: rest ∧ Filling tree.values depth filled ∧ filled < 2 ^ depth

theorem flatten_pendingData_cons (state : ParallelScan BaseJob MergeJob) {tree : JobTree BaseJob MergeJob}
    {rest : List (JobTree BaseJob MergeJob)} (trees : state.trees = tree :: rest) :
    (pendingData state).flatten = (rest.reverse.map baseJobs).flatten ++ baseJobs tree := by
  simp [pendingData, trees]

theorem baseJobs_createTree (depth : ℕ) : baseJobs (createTree depth : JobTree BaseJob MergeJob) = [] := by
  rw [baseJobs_eq_filterMap, List.filterMap_eq_nil_iff]
  intro value mem
  simp only [createTree, createTreeForLevel, List.mem_map, List.mem_range] at mem
  obtain ⟨index, -, rfl⟩ := mem
  split <;> rfl

theorem wellformed_start : Wellformed (⟨[createTree 1], none, 0, 2, 0⟩ : ParallelScan ℕ ℕ) 1 := by
  refine ⟨by decide, by norm_num, ?_, _, [], 0, rfl, filling_createTree 1, by norm_num⟩
  intro tree mem
  rw [List.mem_singleton.mp mem]
  exact perfect_createTreeForLevel _ _ _ _

section AddData

variable {state : ParallelScan BaseJob MergeJob} {depth filled : ℕ} {tree : JobTree BaseJob MergeJob}
  {rest : List (JobTree BaseJob MergeJob)}

theorem Wellformed.addData_of_fits (wellformed : Wellformed state depth) (trees : state.trees = tree :: rest)
    (filling : Filling tree.values depth filled) (room : filled < 2 ^ depth) {data : List BaseJob}
    (fits : data.length ≤ 2 ^ depth - filled) :
    ∃ state', state.addData data = some state' ∧ Wellformed state' depth ∧
      (pendingData state').flatten = (pendingData state).flatten ++ data ∧
      (data.length = 2 ^ depth - filled → state'.trees.head? = some (createTree depth)) := by
  by_cases noData : data = []
  · subst noData
    exact ⟨state, by simp [addData], wellformed, by simp, by simp; omega⟩
  have space := availableSpace_filling filling wellformed.small
  obtain ⟨updated, update, jobs, filling'⟩ := filling.update_base_jobs data (by omega) state.currJobSeqNo
  by_cases full : data.length = 2 ^ depth - filled
  · -- the tree is full: a new empty tree becomes the current one
    obtain ⟨reset, resetEq, perfect, jobs'⟩ := filling'.perfect.resetWeights .both
    refine ⟨{ state with trees := createTree depth :: reset :: rest }, ?_, ?_, ?_, fun _ => rfl⟩
    · simp [addData, noData, wellformed.depth_eq, trees, space, update, full, resetEq,
        Nat.sub_add_cancel filling.filled_le]
    · refine ⟨wellformed.depth_eq, wellformed.small, ?_, _, _, 0, rfl, filling_createTree depth, Nat.two_pow_pos depth⟩
      intro older mem
      rcases List.mem_cons.mp mem with rfl | mem
      · exact perfect_createTreeForLevel _ _ _ _
      rcases List.mem_cons.mp mem with rfl | mem
      · exact perfect
      · exact wellformed.perfect older (by simp [trees, mem])
    · rw [flatten_pendingData_cons _ rfl, flatten_pendingData_cons state trees]
      simp [baseJobs_createTree, jobs', jobs]
  · obtain ⟨reset, resetEq, filling'', jobs'⟩ := filling'.resetWeights_merge
    refine ⟨{ state with trees := reset :: rest }, ?_, ?_, ?_, fun filledUp => absurd filledUp full⟩
    · simp [addData, noData, wellformed.depth_eq, trees, space, fits, update, full, resetEq]
    · refine ⟨wellformed.depth_eq, wellformed.small, ?_, _, _, _, rfl, filling'', by omega⟩
      intro older mem
      rcases List.mem_cons.mp mem with rfl | mem
      · exact filling''.perfect
      · exact wellformed.perfect older (by simp [trees, mem])
    · rw [flatten_pendingData_cons _ rfl, flatten_pendingData_cons state trees, jobs', jobs, List.append_assoc]

theorem Wellformed.addData_of_overflow (wellformed : Wellformed state depth) (trees : state.trees = tree :: rest)
    (filling : Filling tree.values depth filled) {data : List BaseJob} (overflow : 2 ^ depth - filled < data.length) :
    state.addData data = none := by
  have someData : data ≠ [] := by
    rintro rfl
    simp at overflow
  simp [addData, someData, wellformed.depth_eq, trees, availableSpace_filling filling wellformed.small]
  omega

end AddData

section AddMergeJobs

variable {depth : ℕ}

/-- A tree as `add_merge_jobs` may leave it: perfect, with the same base jobs. -/
def KeepsData (depth : ℕ) (tree tree' : JobTree BaseJob MergeJob) : Prop :=
  Perfect tree'.values depth ∧ baseJobs tree' = baseJobs tree

theorem map_baseJobs_of_forall₂ {trees trees' : List (JobTree BaseJob MergeJob)}
    (related : List.Forall₂ (KeepsData depth) trees trees') : trees'.map baseJobs = trees.map baseJobs := by
  induction related with
  | nil => rfl
  | cons keeps _ ih => rw [List.map_cons, List.map_cons, keeps.2, ih]

def MergeInv (depth : ℕ) (older : List (JobTree BaseJob MergeJob)) (k : ℕ) (loop : MergeLoop BaseJob MergeJob) :
    Prop :=
  List.Forall₂ (KeepsData depth) (older.take k) loop.updatedTrees ∧ ∃ jobs : List MergeJob, loop.jobs = jobs.map Job.merge

theorem addMergeJobsStep_inv {older : List (JobTree BaseJob MergeJob)} (perfect : ∀ tree ∈ older, Perfect tree.values depth)
    {delay depth' currJobSeqNo k : ℕ} (lt : k < older.length) {loop loop' : MergeLoop BaseJob MergeJob}
    (inv : MergeInv depth older k loop)
    (step : addMergeJobsStep delay depth' currJobSeqNo loop (older[k], k) = some loop') :
    MergeInv depth older (k + 1) loop' := by
  obtain ⟨related, jobs, jobsEq⟩ := inv
  have extend : ∀ tree', KeepsData depth older[k] tree' →
      List.Forall₂ (KeepsData depth) (older.take (k + 1)) (loop.updatedTrees ++ [tree']) := by
    intro tree' keeps
    rw [List.take_add_one, List.getElem?_eq_getElem lt]
    exact List.rel_append related (.cons keeps .nil)
  have perfectAt := perfect _ (List.getElem_mem lt)
  unfold addMergeJobsStep at step
  dsimp only at step
  -- a zero `delay` panics, which `split_ifs` discharges
  split_ifs at step
  · -- the tree takes the jobs it requires
    simp only [Option.bind_eq_bind, Option.bind_eq_some_iff, Option.some.injEq] at step
    obtain ⟨nrequired, -, ⟨updated, result⟩, update, rfl⟩ := step
    rw [jobsEq, ← List.map_take] at update
    exact ⟨extend _ (perfectAt.update_merge update), jobs.drop nrequired, by rw [jobsEq, List.map_drop]⟩
  · cases step
    exact ⟨extend _ ⟨perfectAt, rfl⟩, jobs, jobsEq⟩

theorem addMergeJobs_loop {older : List (JobTree BaseJob MergeJob)} (perfect : ∀ tree ∈ older, Perfect tree.values depth)
    {delay depth' currJobSeqNo : ℕ} {jobs : List MergeJob} {loop : MergeLoop BaseJob MergeJob}
    (run : older.zipIdx.foldlM (addMergeJobsStep delay depth' currJobSeqNo)
      { updatedTrees := [], scanResult := none, jobs := jobs.map Job.merge } = some loop) :
    List.Forall₂ (KeepsData depth) older loop.updatedTrees := by
  have atEnd := foldlM_induction older.zipIdx _ (MergeInv depth older)
    (fun k lt s s' inv step => by
      have within : k < older.length := by simpa using lt
      rw [List.getElem_zipIdx, Nat.zero_add] at step
      exact addMergeJobsStep_inv perfect within inv step)
    _ loop ⟨by simp, jobs, rfl⟩ run
  simpa using atEnd.1

theorem takeResult_baseJobs (trees : List (JobTree BaseJob MergeJob)) (scanResult : Option MergeJob) :
    trees.reverse.map baseJobs =
      ((takeResult trees scanResult).2.map Prod.snd).toList ++ (takeResult trees scanResult).1.reverse.map baseJobs := by
  unfold takeResult
  split
  · rename_i last found
    obtain ⟨front, rfl⟩ := List.getLast?_eq_some_iff.mp found
    simp
  · rfl

theorem takeResult_sublist (trees : List (JobTree BaseJob MergeJob)) (scanResult : Option MergeJob) :
    List.Sublist (takeResult trees scanResult).1 trees := by
  unfold takeResult
  split
  · exact List.dropLast_sublist trees
  · exact List.Sublist.refl trees

theorem resetWeights_merge_all {trees trees' : List (JobTree BaseJob MergeJob)}
    (perfect : ∀ tree ∈ trees, Perfect tree.values depth)
    (run : trees.mapM (fun tree => resetWeights tree .merge) = some trees') :
    List.Forall₂ (KeepsData depth) trees trees' := by
  apply (List.forall₂_and_left _ _ |>.mpr ⟨perfect, forall₂_of_mapM_eq_some _ run⟩).imp
  rintro tree tree' ⟨perfectTree, reset⟩
  obtain ⟨other, otherEq, perfect', jobs⟩ := perfectTree.resetWeights .merge
  rw [reset, Option.some.injEq] at otherEq
  subst otherEq
  exact ⟨perfect', jobs⟩

theorem perfect_of_forall₂ {trees trees' : List (JobTree BaseJob MergeJob)}
    (related : List.Forall₂ (KeepsData depth) trees trees') : ∀ tree ∈ trees', Perfect tree.values depth := by
  induction related with
  | nil => simp
  | cons keeps _ ih =>
    intro tree mem
    rcases List.mem_cons.mp mem with rfl | mem
    · exact keeps.1
    · exact ih tree mem

theorem Wellformed.addMergeJobs {state state' : ParallelScan BaseJob MergeJob} (wellformed : Wellformed state depth)
    {completedJobs : List MergeJob} {result : Option (MergeJob × List BaseJob)}
    (run : state.addMergeJobs completedJobs = some (state', result)) :
    Wellformed state' depth ∧ state'.trees.head? = state.trees.head? ∧
      pendingData state = (result.map Prod.snd).toList ++ pendingData state' := by
  by_cases noJobs : completedJobs = []
  · simp only [ParallelScan.addMergeJobs, noJobs, if_true, Option.some.injEq, Prod.mk.injEq] at run
    obtain ⟨rfl, rfl⟩ := run
    exact ⟨wellformed, rfl, rfl⟩
  obtain ⟨currTree, older, filled, trees, filling, room⟩ := wellformed.current
  have perfectOlder : ∀ tree ∈ older, Perfect tree.values depth :=
    fun tree mem => wellformed.perfect tree (by simp [trees, mem])
  simp only [ParallelScan.addMergeJobs, if_neg noJobs, Option.bind_eq_bind, Option.bind_eq_some_iff] at run
  obtain ⟨depth', -, jobsRequired, -, -, -, currTree', head, older', olderEq, loop, loopEq, maxTrees, -, run⟩ := run
  simp only [trees, List.head?_cons, Option.some.injEq] at head
  simp only [olderTrees, trees, Option.some.injEq] at olderEq
  subst head olderEq
  have related := addMergeJobs_loop perfectOlder loopEq
  have kept := takeResult_sublist loop.updatedTrees loop.scanResult
  have pop := takeResult_baseJobs loop.updatedTrees loop.scanResult
  generalize takeResult loop.updatedTrees loop.scanResult = popped at run kept pop
  obtain ⟨remaining, resultOpt⟩ := popped
  dsimp only at kept pop
  have perfectRemaining : ∀ tree ∈ remaining, Perfect tree.values depth :=
    fun tree mem => perfect_of_forall₂ related tree (kept.subset mem)
  obtain ⟨trees', final, rfl, rfl⟩ : ∃ trees', List.Forall₂ (KeepsData depth) remaining trees' ∧
      state' = { state with trees := currTree :: trees' } ∧ result = resultOpt := by
    split_ifs at run
    · simp only [Option.bind_eq_some_iff, Option.some.injEq, Prod.mk.injEq] at run
      obtain ⟨trees', reset, rfl, rfl⟩ := run
      exact ⟨trees', resetWeights_merge_all perfectRemaining reset, rfl, rfl⟩
    · simp only [Option.bind_some, Option.some.injEq, Prod.mk.injEq] at run
      obtain ⟨rfl, rfl⟩ := run
      exact ⟨remaining, List.forall₂_same.mpr fun tree mem => ⟨perfectRemaining tree mem, rfl⟩, rfl, rfl⟩
  refine ⟨⟨wellformed.depth_eq, wellformed.small, ?_, currTree, trees', filled, rfl, filling, room⟩, by simp [trees], ?_⟩
  · intro tree mem
    rcases List.mem_cons.mp mem with rfl | mem
    · exact filling.perfect
    · exact perfect_of_forall₂ final tree mem
  · have olderJobs : older.reverse.map baseJobs = loop.updatedTrees.reverse.map baseJobs := by
      rw [List.map_reverse, List.map_reverse, map_baseJobs_of_forall₂ related]
    have keptJobs : remaining.reverse.map baseJobs = trees'.reverse.map baseJobs := by
      rw [List.map_reverse, List.map_reverse, map_baseJobs_of_forall₂ final]
    simp only [pendingData, trees, List.reverse_cons, List.map_append]
    rw [olderJobs, pop, keptJobs, List.append_assoc]

end AddMergeJobs

section Renumber

variable {depth : ℕ}

theorem renumberBase_sameBase (newSeq : ℕ → ℕ) (base : Base.Base BaseJob) :
    SameBase (.leaf base : Value (Base.Base BaseJob) (Merge.Merge MergeJob)) (.leaf (renumberBase newSeq base)) ∧
      (Value.leaf (renumberBase newSeq base) : Value (Base.Base BaseJob) (Merge.Merge MergeJob)).baseJob? =
        (Value.leaf base : Value (Base.Base BaseJob) (Merge.Merge MergeJob)).baseJob? := by
  rcases base with ⟨weight, _ | record⟩ <;> exact ⟨⟨by simp [renumberBase, Base.Base.withSeqNo], rfl⟩, rfl⟩

theorem renumberMerge_sameBase (newSeq : ℕ → ℕ) (merge : Merge.Merge MergeJob) :
    SameBase (.node merge : Value (Base.Base BaseJob) (Merge.Merge MergeJob)) (.node (renumberMerge newSeq merge)) := by
  rcases merge with ⟨weights, _ | left | record⟩ <;>
    exact ⟨by simp [renumberMerge, Merge.Merge.withSeqNo], rfl, rfl⟩

theorem map_renumber_forall₂ (newSeq : ℕ → ℕ) (tree : JobTree BaseJob MergeJob) :
    List.Forall₂ (fun v v' => SameBase v v' ∧ v'.baseJob? = v.baseJob?) tree.values
      (tree.map (renumberMerge newSeq) (renumberBase newSeq)).values := by
  unfold Tree.map Tree.mapDepth
  apply forall₂_mapIdx
  intro index value
  cases value with
  | leaf base => exact renumberBase_sameBase newSeq base
  | node merge => exact ⟨renumberMerge_sameBase newSeq merge, rfl⟩

theorem baseJobs_map_renumber (newSeq : ℕ → ℕ) (tree : JobTree BaseJob MergeJob) :
    baseJobs (tree.map (renumberMerge newSeq) (renumberBase newSeq)) = baseJobs tree := by
  rw [baseJobs_eq_filterMap, baseJobs_eq_filterMap]
  exact filterMap_eq_of_forall₂ _ _ (fun _ _ same => same.2) (map_renumber_forall₂ newSeq tree)

theorem foldl_resetSeqNoStep (newSeq : ℕ → ℕ) (trees : List (JobTree BaseJob MergeJob))
    (acc : ℕ × List (JobTree BaseJob MergeJob)) :
    (trees.foldl (resetSeqNoStep newSeq) acc).2 =
      acc.2 ++ trees.map (Tree.map (renumberMerge newSeq) (renumberBase newSeq)) := by
  induction trees generalizing acc with
  | nil => simp
  | cons tree trees ih => simp [ih, resetSeqNoStep]

theorem Wellformed.resetSeqNo {state state' : ParallelScan BaseJob MergeJob} (wellformed : Wellformed state depth)
    (run : state.resetSeqNo = some state') : Wellformed state' depth ∧ pendingData state' = pendingData state := by
  simp only [ParallelScan.resetSeqNo, Option.bind_eq_bind, Option.bind_eq_some_iff, Option.some.injEq] at run
  obtain ⟨last, -, rfl⟩ := run
  generalize (fun seq => addU64 (subU64 seq _) 1) = newSeq
  rw [foldl_resetSeqNoStep, List.nil_append]
  obtain ⟨tree, rest, filled, trees, filling, room⟩ := wellformed.current
  refine ⟨⟨wellformed.depth_eq, wellformed.small, ?_, tree.map (renumberMerge newSeq) (renumberBase newSeq),
    rest.map (Tree.map (renumberMerge newSeq) (renumberBase newSeq)), filled, by rw [trees, List.map_cons], ?_, room⟩, ?_⟩
  · intro renumbered mem
    obtain ⟨old, oldMem, rfl⟩ := List.mem_map.mp mem
    exact (wellformed.perfect old oldMem).of_forall₂ (fun _ _ same => same.1.isLeaf_eq) (map_renumber_forall₂ newSeq old)
  · exact filling.of_sameBase ((map_renumber_forall₂ newSeq tree).imp fun _ _ same => same.1)
  · simp [pendingData, ← List.map_reverse, baseJobs_map_renumber]

theorem Wellformed.incrSequenceNo {state state' : ParallelScan BaseJob MergeJob} (wellformed : Wellformed state depth)
    (run : state.incrSequenceNo = some state') : Wellformed state' depth ∧ pendingData state' = pendingData state := by
  unfold ParallelScan.incrSequenceNo at run
  dsimp only at run
  split_ifs at run
  · exact wellformed.resetSeqNo run
  · cases run
    exact ⟨⟨wellformed.depth_eq, wellformed.small, wellformed.perfect, wellformed.current⟩, rfl⟩

end Renumber

section Update

variable {depth : ℕ}

theorem Wellformed.addData {state state' : ParallelScan BaseJob MergeJob} (wellformed : Wellformed state depth)
    {data : List BaseJob} (run : state.addData data = some state') :
    Wellformed state' depth ∧ (pendingData state').flatten = (pendingData state).flatten ++ data := by
  obtain ⟨tree, rest, filled, trees, filling, room⟩ := wellformed.current
  by_cases fits : data.length ≤ 2 ^ depth - filled
  · obtain ⟨added, addEq, wellformed', appended, -⟩ := wellformed.addData_of_fits trees filling room fits
    rw [addEq, Option.some.injEq] at run
    subst run
    exact ⟨wellformed', appended⟩
  · rw [wellformed.addData_of_overflow trees filling (by omega)] at run
    cases run

theorem flatten_toList {α : Type} (emitted : Option (List α)) : emitted.toList.flatten = emitted.getD [] := by
  cases emitted <;> simp

/-- `update` keeps the state well formed. The data it emits, then the data left pending, is the
data pending before and the new data, with one block left out: what the second
`add_merge_jobs` emits, which `update` does not return. -/
theorem Wellformed.updateHelper {state state' : ParallelScan BaseJob MergeJob} (wellformed : Wellformed state depth)
    {data : List BaseJob} {completedJobs : List MergeJob} {result : Option (MergeJob × List BaseJob)}
    (run : state.updateHelper data completedJobs = some (state', result)) :
    Wellformed state' depth ∧ ∃ dropped, (pendingData state).flatten ++ data =
      (result.map Prod.snd).getD [] ++ dropped ++ (pendingData state').flatten := by
  simp only [ParallelScan.updateHelper, Option.bind_eq_bind, Option.bind_eq_some_iff] at run
  obtain ⟨-, -, -, -, -, -, incremented, incr, space, -, older, -, work, -, ⟨merged, resultOpt⟩, merge1, added1, add1,
    ⟨merged2, dropped⟩, merge2, added2, add2, -, -, -, -, final⟩ := run
  dsimp only at add1 add2
  simp only [Option.some.injEq, Prod.mk.injEq] at final
  obtain ⟨rfl, rfl⟩ := final
  obtain ⟨wellformed1, pending1⟩ := wellformed.incrSequenceNo incr
  obtain ⟨wellformed2, -, pending2⟩ := wellformed1.addMergeJobs merge1
  obtain ⟨wellformed3, pending3⟩ := wellformed2.addData add1
  obtain ⟨wellformed4, -, pending4⟩ := wellformed3.addMergeJobs merge2
  obtain ⟨wellformed5, pending5⟩ := wellformed4.addData add2
  have accKeeps : pendingData (if resultOpt.isSome then { added2 with acc := resultOpt } else added2) =
      pendingData added2 := by
    split_ifs <;> rfl
  refine ⟨?_, (dropped.map Prod.snd).getD [], ?_⟩
  · split_ifs
    · exact ⟨wellformed5.depth_eq, wellformed5.small, wellformed5.perfect, wellformed5.current⟩
    · exact wellformed5
  · rw [accKeeps, pending5, ← flatten_toList, ← flatten_toList]
    calc (pendingData state).flatten ++ data
        = ((resultOpt.map Prod.snd).toList ++ pendingData merged).flatten ++ List.take space data ++
            List.drop space data := by
          rw [← pending1, pending2, List.append_assoc, List.take_append_drop]
      _ = (resultOpt.map Prod.snd).toList.flatten ++ (pendingData added1).flatten ++ List.drop space data := by
          rw [pending3, List.flatten_append]
          simp only [List.append_assoc]
      _ = (resultOpt.map Prod.snd).toList.flatten ++ (dropped.map Prod.snd).toList.flatten ++
            ((pendingData merged2).flatten ++ List.drop space data) := by
          rw [pending4, List.flatten_append]
          simp only [List.append_assoc]

end Update

section Emit

variable {depth : ℕ}

/-- From a well formed state, a call of `add_merge_jobs` that does not panic keeps the state
well formed and its current tree. With a result it emits the data of the oldest tree, which
leaves the pending data; without one the pending data stays as it was. -/
theorem addMergeJobs_emits_oldest {state state' : ParallelScan BaseJob MergeJob} (wellformed : Wellformed state depth)
    {completedJobs : List MergeJob} {result : Option (MergeJob × List BaseJob)}
    (run : state.addMergeJobs completedJobs = some (state', result)) :
    Wellformed state' depth ∧ state'.trees.head? = state.trees.head? ∧
      (∀ emitted, result = some emitted → pendingData state = emitted.2 :: pendingData state') ∧
      (result = none → pendingData state' = pendingData state) := by
  obtain ⟨wellformed', head, pending⟩ := wellformed.addMergeJobs run
  refine ⟨wellformed', head, ?_, ?_⟩
  · rintro emitted rfl
    simpa using pending
  · rintro rfl
    simpa using pending.symm

/-- After two updates of `empty 2 0` (two data, then two more with the two merge jobs of the
first tree's leaves), three merge jobs complete the first tree, which leaves with its data. -/
theorem addMergeJobs_emits_oldest_run :
    ∃ state state' : ParallelScan ℕ ℕ, Wellformed state 1 ∧
      state.addMergeJobs [3, 4, 5] = some (state', some (5, [7, 8])) ∧
      (Wellformed state' 1 ∧ state'.trees.head? = state.trees.head? ∧
        (∀ emitted, some (5, [7, 8]) = some emitted → pendingData state = emitted.2 :: pendingData state') ∧
        (some (5, [7, 8]) = none → pendingData state' = pendingData state)) := by
  let s0 : ParallelScan ℕ ℕ := ⟨[createTree 1], none, 0, 2, 0⟩
  let s1 := ((s0.update [7, 8] []).map Prod.fst).getD s0
  let s2 := ((s1.update [9, 10] [1, 2]).map Prod.fst).getD s0
  let s3 := ((s2.addMergeJobs [3, 4, 5]).map Prod.fst).getD s0
  -- the states are computed; `rfl` needs them unfolded
  have run1 : s0.updateHelper [7, 8] [] = some (s1, none) := by unfold s1 s0; rfl
  have run2 : s1.updateHelper [9, 10] [1, 2] = some (s2, none) := by unfold s2 s1 s0; rfl
  have run3 : s2.addMergeJobs [3, 4, 5] = some (s3, some (5, [7, 8])) := by unfold s3 s2 s1 s0; rfl
  have wellformed0 : Wellformed s0 1 := wellformed_start
  have wellformed2 := ((wellformed0.updateHelper run1).1.updateHelper run2).1
  exact ⟨s2, s3, wellformed2, run3, addMergeJobs_emits_oldest wellformed2 run3⟩

end Emit

section Reachable

end Reachable

end ParallelScan

end Openmina.ScanState.ParallelScan
