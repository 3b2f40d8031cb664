import Mathlib
import Openmina.ScanState.ParallelScan.Tree

/-!
# The scan state

`ParallelScan` keeps its trees newest first. `trees[0]` is the current tree, which takes the
new base jobs; every tree behind it is one step further in being merged up. `add_data` fills
the current tree and starts a new one once it is full. `add_merge_jobs` hands completed merge
jobs to every `delay + 1`-th older tree; when the root of the oldest is done, that tree leaves
the state with the scan's result and the data it held. `update` does both, for data that may
spill over into a new tree.

`ceil_log2`, `delay`, the sequence numbers and the counts are `u64` or `usize` in the source,
and arithmetic on them wraps as in a release build (`subU64`, `addU64`, `mulU64`): a `delay` of
`u64::MAX` makes `delay + 1` zero, and the first remainder by it panics. The logging of `add_data` and `add_merge_jobs` (the
`base_kind` counts, the per-tree statistics and the `println!`s) is left out.
-/

namespace Openmina.ScanState.ParallelScan

open Openmina.Arith.BreadthFirst

set_option autoImplicit false
-- the struct keeps the name of its module, `parallel_scan::ParallelScan`
set_option linter.dupNamespace false

def leadingZeros (x : ℕ) : ℕ :=
  64 - Nat.size x

/-- `ceil_log2`; its `assert!(n > 0)` is `none`. -/
def ceilLog2 (n : ℕ) : Option ℕ :=
  if n = 0 then none
  else if n = 1 then some 0
  else some (64 - leadingZeros (n - 1))

inductive WorkForTree
  | current
  | next
deriving DecidableEq, Repr

structure ParallelScan (BaseJob MergeJob : Type) where
  trees : List (JobTree BaseJob MergeJob)
  acc : Option (MergeJob × List BaseJob)
  currJobSeqNo : ℕ
  maxBaseJobs : ℕ
  delay : ℕ

section Work

variable {BaseJob MergeJob : Type}

/-- `work_to_do`: the `i`-th tree gives its jobs on level `depth - i`. -/
def workToDo (trees : List (JobTree BaseJob MergeJob)) (maxBaseJobs : ℕ) :
    Option (List (AvailableJob BaseJob MergeJob)) := do
  let depth ← ceilLog2 maxBaseJobs
  some (trees.zipIdx.flatMap fun entry => jobsOnLevel entry.1 depth (subU64 depth entry.2))

/-- `work`: the jobs of every `delay`-th tree, of at most `depth + 1` of them. -/
def work (trees : List (JobTree BaseJob MergeJob)) (delay maxBaseJobs : ℕ) :
    Option (List (AvailableJob BaseJob MergeJob)) := do
  let depth ← ceilLog2 maxBaseJobs
  -- `i % delay` panics on the first tree when `delay` is zero
  guard (delay ≠ 0 ∨ trees = [])
  let workTrees :=
    (trees.zipIdx.filterMap fun entry => if entry.2 % delay = delay - 1 then some entry.1 else none).take (depth + 1)
  workToDo workTrees maxBaseJobs

end Work

namespace ParallelScan

variable {BaseJob MergeJob : Type}

def empty (maxBaseJobs delay : ℕ) : Option (ParallelScan BaseJob MergeJob) := do
  let depth ← ceilLog2 maxBaseJobs
  some { trees := [createTree depth], acc := none, currJobSeqNo := 0, maxBaseJobs, delay }

def maxTrees (state : ParallelScan BaseJob MergeJob) : Option ℕ := do
  let depth ← ceilLog2 state.maxBaseJobs
  some (addU64 (mulU64 (addU64 depth 1) (addU64 state.delay 1)) 1)

/-- `&self.trees[1..]`, which panics on an empty list. -/
def olderTrees (state : ParallelScan BaseJob MergeJob) : Option (List (JobTree BaseJob MergeJob)) :=
  match state.trees with
  | [] => none
  | _ :: rest => some rest

def workForTree (state : ParallelScan BaseJob MergeJob) (dataTree : WorkForTree) :
    Option (List (AvailableJob BaseJob MergeJob)) := do
  let delay := addU64 state.delay 1
  let trees ←
    match dataTree with
    | .current => state.olderTrees
    | .next => some state.trees
  work trees delay state.maxBaseJobs

def freeSpaceOnCurrentTree (state : ParallelScan BaseJob MergeJob) : Option ℕ := do
  let tree ← state.trees.head?
  availableSpace tree

def workForNextUpdate (state : ParallelScan BaseJob MergeJob) (dataCount : ℕ) :
    Option (List (List (AvailableJob BaseJob MergeJob))) := do
  let delay := addU64 state.delay 1
  let currentTreeSpace ← state.freeSpaceOnCurrentTree
  let set1 ← work (← state.olderTrees) delay state.maxBaseJobs
  let count := min dataCount state.maxBaseJobs
  if currentTreeSpace < count then
    let set2 ← work state.trees delay state.maxBaseJobs
    let set2 := set2.take ((count - currentTreeSpace) * 2)
    some ([set1, set2].filter fun v => !v.isEmpty)
  else
    let set1 := set1.take (2 * count)
    some (if set1.isEmpty then [] else [set1])

def pendingData (state : ParallelScan BaseJob MergeJob) : List (List BaseJob) :=
  state.trees.reverse.map baseJobs

/-! ## `add_merge_jobs` -/

/-- The state of the loop of `add_merge_jobs`: the trees so far, the result of the last tree
updated, and the completed jobs not yet handed out. -/
structure MergeLoop (BaseJob MergeJob : Type) where
  updatedTrees : List (JobTree BaseJob MergeJob)
  scanResult : Option MergeJob
  jobs : List (Job BaseJob MergeJob)

/-- One round of the loop of `add_merge_jobs`: every `delay`-th tree takes as many of the jobs
left as it requires, at the level its age gives it. -/
def addMergeJobsStep (delay depth currJobSeqNo : ℕ) (loop : MergeLoop BaseJob MergeJob)
    (entry : JobTree BaseJob MergeJob × ℕ) : Option (MergeLoop BaseJob MergeJob) :=
  let tree := entry.1
  let i := entry.2
  -- `i % udelay` panics on a zero `delay`
  if delay = 0 then none
  else if i % delay = delay - 1 ∧ loop.jobs ≠ [] then do
    let nrequired ← requiredJobCount tree
    let completedJobs := loop.jobs.take nrequired
    let (tree, result) ← tree.update completedJobs (subU64 depth (i / delay)) currJobSeqNo .merge
    some { updatedTrees := loop.updatedTrees ++ [tree], scanResult := result, jobs := loop.jobs.drop nrequired }
  else
    some { loop with updatedTrees := loop.updatedTrees ++ [tree] }

/-- The trees that stay after the loop of `add_merge_jobs`, and its result: once a tree has
emitted a result, the last tree leaves the state with it and with the data it held. -/
def takeResult (updatedTrees : List (JobTree BaseJob MergeJob)) (scanResult : Option MergeJob) :
    List (JobTree BaseJob MergeJob) × Option (MergeJob × List BaseJob) :=
  match scanResult, updatedTrees.getLast? with
  | some scanResult, some last => (updatedTrees.dropLast, some (scanResult, baseJobs last))
  | _, _ => (updatedTrees, none)

def addMergeJobs (state : ParallelScan BaseJob MergeJob) (completedJobs : List MergeJob) :
    Option (ParallelScan BaseJob MergeJob × Option (MergeJob × List BaseJob)) :=
  if completedJobs = [] then some (state, none)
  else do
    let delay := addU64 state.delay 1
    let depth ← ceilLog2 state.maxBaseJobs
    let mergeJobs : List (Job BaseJob MergeJob) := completedJobs.map Job.merge
    let jobsRequired ← state.workForTree .current
    guard (mergeJobs.length ≤ jobsRequired.length)
    let currTree ← state.trees.head?
    let toBeUpdatedTrees ← state.olderTrees
    let loop ← toBeUpdatedTrees.zipIdx.foldlM (addMergeJobsStep delay depth state.currJobSeqNo)
      { updatedTrees := [], scanResult := none, jobs := mergeJobs }
    let (updatedTrees, resultOpt) := takeResult loop.updatedTrees loop.scanResult
    let maxTrees ← state.maxTrees
    let updatedTrees ←
      if resultOpt.isSome ∨ updatedTrees.length + 1 < maxTrees ∧ completedJobs.length = jobsRequired.length then
        updatedTrees.mapM fun tree => resetWeights tree .merge
      else some updatedTrees
    some ({ state with trees := currTree :: updatedTrees }, resultOpt)

/-! ## `add_data` -/

def addData (state : ParallelScan BaseJob MergeJob) (data : List BaseJob) : Option (ParallelScan BaseJob MergeJob) :=
  if data = [] then some state
  else do
    let dataLen := data.length
    let depth ← ceilLog2 state.maxBaseJobs
    let tree ← state.trees.head?
    let baseJobs : List (Job BaseJob MergeJob) := data.map Job.base
    let availableSpace ← availableSpace tree
    guard (dataLen ≤ availableSpace)
    let (tree, _) ← tree.update baseJobs depth state.currJobSeqNo .base
    let updatedTrees ←
      if dataLen = availableSpace then do
        let tree ← resetWeights tree .both
        some [createTree depth, tree]
      else do
        let tree ← resetWeights tree .merge
        some [tree]
    some { state with trees := updatedTrees ++ state.trees.tail }

/-! ## Sequence numbers -/

/-- The closure `fun_merge` of `reset_seq_no`. -/
def renumberMerge (newSeq : ℕ → ℕ) (merge : Merge.Merge MergeJob) : Merge.Merge MergeJob :=
  match merge.job with
  | .full record => merge.withSeqNo (newSeq record.seqNo)
  | _ => merge

/-- The closure `fun_base` of `reset_seq_no`. -/
def renumberBase (newSeq : ℕ → ℕ) (base : Base.Base BaseJob) : Base.Base BaseJob :=
  match base.job with
  | .full record => base.withSeqNo (newSeq record.seqNo)
  | _ => base

/-- One round of the loop of `reset_seq_no`: the tree renumbered, and the largest number of a
last leaf so far. -/
def resetSeqNoStep (newSeq : ℕ → ℕ) (acc : ℕ × List (JobTree BaseJob MergeJob)) (tree : JobTree BaseJob MergeJob) :
    ℕ × List (JobTree BaseJob MergeJob) :=
  let tree := tree.map (renumberMerge newSeq) (renumberBase newSeq)
  let maxSeq :=
    match (leaves tree).getLast? with
    | some { job := .full record, .. } => max acc.1 record.seqNo
    | _ => acc.1
  (maxSeq, acc.2 ++ [tree])

/-- `reset_seq_no`: renumbers every full job from one, counting from the oldest job of the
oldest tree, and takes the largest number of a last leaf as the current one. -/
def resetSeqNo (state : ParallelScan BaseJob MergeJob) : Option (ParallelScan BaseJob MergeJob) := do
  let last ← state.trees.getLast?
  let oldestSeqNo :=
    match (leaves last).head? with
    | some { job := .full record, .. } => record.seqNo
    | _ => 0
  let newSeq (seq : ℕ) := addU64 (subU64 seq oldestSeqNo) 1
  let (maxSeq, updatedTrees) := state.trees.foldl (resetSeqNoStep newSeq) (0, [])
  some { state with currJobSeqNo := maxSeq, trees := updatedTrees }

def incrSequenceNo (state : ParallelScan BaseJob MergeJob) : Option (ParallelScan BaseJob MergeJob) :=
  let nextSeqNo := addU64 state.currJobSeqNo 1
  if nextSeqNo = 2 ^ 64 - 1 then state.resetSeqNo
  else some { state with currJobSeqNo := nextSeqNo }

/-! ## `update` -/

def updateHelper (state : ParallelScan BaseJob MergeJob) (data : List BaseJob) (completedJobs : List MergeJob) :
    Option (ParallelScan BaseJob MergeJob × Option (MergeJob × List BaseJob)) := do
  let dataCount := data.length
  guard (dataCount ≤ state.maxBaseJobs)
  let requiredJobsCount := (← state.workForNextUpdate dataCount).flatten.length
  let required := (requiredJobsCount + 1) / 2
  let got := (completedJobs.length + 1) / 2
  let maxBaseJobs := state.maxBaseJobs
  guard (¬(got < required ∧ addU64 (subU64 maxBaseJobs required) got < data.length))
  let delay := addU64 state.delay 1
  let state ← state.incrSequenceNo
  let availableSpace ← state.freeSpaceOnCurrentTree
  -- the data that does not fit goes to a new tree, with the merge jobs of the trees behind it
  let data1 := data.take availableSpace
  let data2 := data.drop availableSpace
  let requiredJobsForCurrentTree := (← work (← state.olderTrees) delay state.maxBaseJobs).length
  let jobs1 := completedJobs.take requiredJobsForCurrentTree
  let jobs2 := completedJobs.drop requiredJobsForCurrentTree
  let (state, resultOpt) ← state.addMergeJobs jobs1
  let state ← state.addData data1
  let (state, _) ← state.addMergeJobs jobs2
  let state ← state.addData data2
  let state := if resultOpt.isSome then { state with acc := resultOpt } else state
  let maxTrees ← state.maxTrees
  guard (state.trees.length ≤ maxTrees)
  some (state, resultOpt)

def update (state : ParallelScan BaseJob MergeJob) (data : List BaseJob) (completedJobs : List MergeJob) :
    Option (ParallelScan BaseJob MergeJob × Option (MergeJob × List BaseJob)) :=
  state.updateHelper data completedJobs

end ParallelScan

end Openmina.ScanState.ParallelScan
