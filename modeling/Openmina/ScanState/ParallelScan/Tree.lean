import Mathlib
import Openmina.Arith.BreadthFirst

/-!
# The trees of the parallel scan

`ledger/src/scan_state/parallel_scan.rs`: a tree of the scan state is a perfect binary tree
stored breadth first in `Tree::values`, its leaves holding base jobs and its inner nodes merge
jobs. Every node carries weights, the number of base and of merge jobs that can still be
added below it, and `update` routes a batch of new jobs from the root down to the nodes of
one level by those weights. `update_split` hands every node its slice of the batch through a
FIFO of slices, `update_accumulate` folds the tree bottom up, and `reset_weights` recomputes
all weights from the jobs at the leaves.

Weights are `u64` in the source; the release build wraps, so subtraction and addition on
them are `subU64` and `addU64`. A panic of the source (an `unwrap` on an empty queue, a
`panic!` in a closure) is `none`.
-/

namespace Openmina.ScanState.ParallelScan

open Openmina.Arith.BreadthFirst

set_option autoImplicit false
-- `base::Base` and `merge::Merge` keep the source's names
set_option linter.dupNamespace false

/-- `u64` subtraction as the release build computes it. -/
def subU64 (a b : ℕ) : ℕ :=
  (a + 2 ^ 64 - b) % 2 ^ 64

/-- `u64` addition as the release build computes it. -/
def addU64 (a b : ℕ) : ℕ :=
  (a + b) % 2 ^ 64

def mulU64 (a b : ℕ) : ℕ :=
  a * b % 2 ^ 64

theorem subU64_of_le {a b : ℕ} (le : b ≤ a) (bound : a < 2 ^ 64) : subU64 a b = a - b := by
  have shifted : a + 2 ^ 64 - b = a - b + 2 ^ 64 := by omega
  rw [subU64, shifted, Nat.add_mod_right, Nat.mod_eq_of_lt (by omega)]

theorem addU64_of_lt {a b : ℕ} (bound : a + b < 2 ^ 64) : addU64 a b = a + b :=
  Nat.mod_eq_of_lt bound

inductive JobStatus
  | todo
  | done
deriving DecidableEq, Repr

/-- The number of base and of merge jobs that can still be added below a node. -/
structure Weight where
  base : ℕ
  merge : ℕ
deriving DecidableEq, Repr

def Weight.zero : Weight :=
  { base := 0, merge := 0 }

inductive WeightLens
  | base
  | merge
deriving DecidableEq, Repr

def WeightLens.get : WeightLens → Weight → ℕ
  | .base, target => target.base
  | .merge, target => target.merge

def WeightLens.set : WeightLens → Weight → ℕ → Weight
  | .base, target, value => { base := value, merge := target.merge }
  | .merge, target, value => { base := target.base, merge := value }

@[simp] theorem WeightLens.get_set (lens : WeightLens) (target : Weight) (value : ℕ) :
    lens.get (lens.set target value) = value := by
  cases lens <;> rfl

@[simp] theorem WeightLens.set_get (lens : WeightLens) (target : Weight) :
    lens.set target (lens.get target) = target := by
  cases lens <;> rfl

@[simp] theorem WeightLens.base_set_self (target : Weight) : WeightLens.base.set target target.base = target := rfl

@[simp] theorem WeightLens.merge_set_self (target : Weight) : WeightLens.merge.set target target.merge = target := rfl

@[simp] theorem WeightLens.base_get (target : Weight) : WeightLens.base.get target = target.base := rfl

@[simp] theorem WeightLens.merge_get (target : Weight) : WeightLens.merge.get target = target.merge := rfl

@[simp] theorem WeightLens.base_set_merge (target : Weight) (value : ℕ) :
    (WeightLens.base.set target value).merge = target.merge := rfl

@[simp] theorem WeightLens.merge_set_base (target : Weight) (value : ℕ) :
    (WeightLens.merge.set target value).base = target.base := rfl

namespace Base

structure Record (BaseJob : Type) where
  job : BaseJob
  seqNo : ℕ
  state : JobStatus
deriving DecidableEq, Repr

inductive Job (BaseJob : Type)
  | empty
  | full (record : Record BaseJob)
deriving DecidableEq, Repr

structure Base (BaseJob : Type) where
  weight : Weight
  job : Job BaseJob
deriving DecidableEq, Repr

/-- `with_seq_no`: a full job takes the new sequence number. -/
def Base.withSeqNo {BaseJob : Type} (base : Base BaseJob) (no : ℕ) : Base BaseJob :=
  { weight := base.weight
    job :=
      match base.job with
      | .full record => .full { record with seqNo := no }
      | x => x }

end Base

namespace Merge

structure Record (MergeJob : Type) where
  left : MergeJob
  right : MergeJob
  seqNo : ℕ
  state : JobStatus
deriving DecidableEq, Repr

inductive Job (MergeJob : Type)
  | empty
  | part (left : MergeJob)
  | full (record : Record MergeJob)
deriving DecidableEq, Repr

structure Merge (MergeJob : Type) where
  weight : Weight × Weight
  job : Job MergeJob
deriving DecidableEq, Repr

/-- `with_seq_no`: a full job takes the new sequence number. -/
def Merge.withSeqNo {MergeJob : Type} (merge : Merge MergeJob) (no : ℕ) : Merge MergeJob :=
  { weight := merge.weight
    job :=
      match merge.job with
      | .full record => .full { record with seqNo := no }
      | x => x }

end Merge

/-- A completed job, as `update` receives it. -/
inductive Job (BaseJob MergeJob : Type)
  | base (job : BaseJob)
  | merge (job : MergeJob)
deriving DecidableEq, Repr

inductive Value (B M : Type)
  | leaf (base : B)
  | node (merge : M)
deriving DecidableEq, Repr

structure Tree (B M : Type) where
  values : List (Value B M)
deriving DecidableEq, Repr

/-! ## `update_split` -/

section UpdateSplit

variable {B M Data W R : Type}
  (funMerge : List Data → ℕ → M → Option (M × Option R))
  (funBase : List Data → B → Option B)
  (weightMerge : M → W × W)
  (updateLevel : ℕ)
  (jobsSplit : W × W → List Data → List Data × List Data)

/-- The state of the loop of `update_split`: the values pushed so far, the result of the first
merge node, and the FIFO of slices not yet handed to a node. -/
structure SplitState (B M Data R : Type) where
  values : List (Value B M)
  scanResult : Option (Option R)
  jobsFifo : List (List Data)

/-- One round of the loop of `update_split`, at the value of `index`: a node deeper than
`updateLevel` is kept; any other pops its slice, and an inner node pushes the two halves of
its slice for its children. -/
def updateSplitStep (state : SplitState B M Data R) (entry : Value B M × ℕ) :
    Option (SplitState B M Data R) :=
  if updateLevel < depthAt entry.2 then
    some { state with values := state.values ++ [entry.1] }
  else
    match state.jobsFifo, entry.1 with
    | [], _ => none
    | jobsForThis :: rest, .leaf base => do
      let base ← funBase jobsForThis base
      some { values := state.values ++ [.leaf base], scanResult := state.scanResult, jobsFifo := rest }
    | jobsForThis :: rest, .node merge => do
      let (jobsLeft, jobsRight) := jobsSplit (weightMerge merge) jobsForThis
      let (value, result) ← funMerge jobsForThis (depthAt entry.2) merge
      some
        { values := state.values ++ [.node value]
          -- `if scan_result.is_none() { scan_result = Some(result) }`
          scanResult := state.scanResult.or (some result)
          jobsFifo := rest ++ [jobsLeft, jobsRight] }

def updateSplit (tree : Tree B M) (jobs : List Data) : Option (Tree B M × Option R) := do
  let final ← tree.values.zipIdx.foldlM (updateSplitStep funMerge funBase weightMerge updateLevel jobsSplit)
    { values := [], scanResult := none, jobsFifo := [jobs] }
  pure ({ values := final.values }, final.scanResult.join)

end UpdateSplit

/-! ## `update_accumulate` -/

section UpdateAccumulate

variable {B M Data : Type} (funMerge : Data × Data → M → M × Data) (funBase : B → B × Data)

/-- The state of the loop of `update_accumulate`: the new values, last index first, and the
data each node has left for its parent. -/
structure AccumulateState (B M Data : Type) where
  values : List (Value B M)
  datas : List (Option Data)

/-- `childs_of`: takes the data of both children of `index` out of `datas`. -/
def childsOf (datas : List (Option Data)) (index : ℕ) : Option ((Data × Data) × List (Option Data)) := do
  let left ← datas[2 * index + 1]?.join
  let datas := datas.set (2 * index + 1) none
  let right ← datas[2 * index + 2]?.join
  pure ((left, right), datas.set (2 * index + 2) none)

def updateAccumulateStep (state : AccumulateState B M Data) (entry : Value B M × ℕ) :
    Option (AccumulateState B M Data) :=
  match entry.1 with
  | .leaf base =>
    let (newBase, countList) := funBase base
    some { values := state.values ++ [.leaf newBase], datas := state.datas.set entry.2 (some countList) }
  | .node merge => do
    let ((left, right), datas) ← childsOf state.datas entry.2
    let (value, countList) := funMerge (left, right) merge
    some { values := state.values ++ [.node value], datas := datas.set entry.2 (some countList) }

/-- The values are visited from the last index to the first, so that every node finds the
data of its children; the result is the data the root leaves. -/
def updateAccumulate (tree : Tree B M) : Option (Tree B M × Data) := do
  let final ← tree.values.zipIdx.reverse.foldlM (updateAccumulateStep funMerge funBase)
    { values := [], datas := List.replicate tree.values.length none }
  let data ← final.datas[0]?.join
  pure ({ values := final.values.reverse }, data)

end UpdateAccumulate

/-! ## Folds and queries -/

section Fold

variable {B M Accum : Type}

/-- `map_depth`: every node mapped with its depth, every leaf mapped. -/
def Tree.mapDepth (funMerge : ℕ → M → M) (funBase : B → B) (tree : Tree B M) : Tree B M :=
  { values := tree.values.mapIdx fun index value =>
      match value with
      | .leaf base => .leaf (funBase base)
      | .node merge => .node (funMerge (depthAt index) merge) }

def Tree.map (funMerge : M → M) (funBase : B → B) (tree : Tree B M) : Tree B M :=
  tree.mapDepth (fun _ merge => funMerge merge) funBase

/-- `fold_depth`: the values in index order, a merge node with its depth. -/
def foldDepth (funMerge : ℕ → Accum → M → Accum) (funBase : Accum → B → Accum) (init : Accum)
    (tree : Tree B M) : Accum :=
  tree.values.zipIdx.foldl
    (fun accum entry =>
      match entry.1 with
      | .leaf base => funBase accum base
      | .node merge => funMerge (depthAt entry.2) accum merge)
    init

end Fold

section Queries

variable {BaseJob MergeJob : Type}

abbrev JobTree (BaseJob MergeJob : Type) :=
  Tree (Base.Base BaseJob) (Merge.Merge MergeJob)

/-- A job that can be done: a base job or a merge job with both its parts. -/
inductive AvailableJob (BaseJob MergeJob : Type)
  | base (job : BaseJob)
  | merge (left right : MergeJob)
deriving DecidableEq, Repr

def jobsOnLevel (tree : JobTree BaseJob MergeJob) (depth level : ℕ) : List (AvailableJob BaseJob MergeJob) :=
  foldDepth
    (fun i acc (a : Merge.Merge MergeJob) =>
      match a.job with
      | .full { left, right, state := .todo, .. } => if i = level then acc ++ [.merge left right] else acc
      | _ => acc)
    (fun acc (d : Base.Base BaseJob) =>
      match d.job with
      | .full { job, state := .todo, .. } => if level = depth then acc ++ [.base job] else acc
      | _ => acc)
    [] tree

def baseJobs (tree : JobTree BaseJob MergeJob) : List BaseJob :=
  foldDepth (fun _ acc _ => acc)
    (fun acc (d : Base.Base BaseJob) =>
      match d.job with
      | .full record => acc ++ [record.job]
      | .empty => acc)
    [] tree

def todoJobCount (tree : JobTree BaseJob MergeJob) : ℕ × ℕ :=
  foldDepth
    (fun _ counts (j : Merge.Merge MergeJob) =>
      match j.job with
      | .full { state := .todo, .. } => (counts.1, counts.2 + 1)
      | _ => counts)
    (fun counts (d : Base.Base BaseJob) =>
      match d.job with
      | .full { state := .todo, .. } => (counts.1 + 1, counts.2)
      | _ => counts)
    (0, 0) tree

def leaves (tree : JobTree BaseJob MergeJob) : List (Base.Base BaseJob) :=
  foldDepth (fun _ acc _ => acc)
    (fun acc (d : Base.Base BaseJob) =>
      match d.job with
      | .full _ => acc ++ [d]
      | .empty => acc)
    [] tree

/-- The merge weight at the root; `values[0]` panics on an empty tree. -/
def requiredJobCount (tree : JobTree BaseJob MergeJob) : Option ℕ :=
  match (tree.values[0]? : Option (Value (Base.Base BaseJob) (Merge.Merge MergeJob))) with
  | some (.node value) => some (addU64 value.weight.1.merge value.weight.2.merge)
  | some (.leaf base) => some base.weight.merge
  | none => none

/-- The base weight at the root; `values[0]` panics on an empty tree. -/
def availableSpace (tree : JobTree BaseJob MergeJob) : Option ℕ :=
  match (tree.values[0]? : Option (Value (Base.Base BaseJob) (Merge.Merge MergeJob))) with
  | some (.node value) => some (addU64 value.weight.1.base value.weight.2.base)
  | some (.leaf base) => some base.weight.base
  | none => none

/-- `create_tree_for_level`, where `level = none` is the source's `-1`: a tree of `depth` whose
nodes at depth `d` may take `2 ^ level / 2 ^ (d + 1)` base jobs on either side. -/
def createTreeForLevel (level : Option ℕ) (depth : ℕ) (mergeJob : Merge.Job MergeJob)
    (baseJob : Base.Job BaseJob) : JobTree BaseJob MergeJob :=
  let baseWeight : Weight :=
    match level with
    | none => Weight.zero
    | some _ => { base := 1, merge := 0 }
  let makeMerge (d : ℕ) : Merge.Merge MergeJob :=
    let weight : Weight × Weight :=
      match level with
      | none => (Weight.zero, Weight.zero)
      | some level =>
        let x := 2 ^ level / 2 ^ (d + 1)
        ({ base := x, merge := 0 }, { base := x, merge := 0 })
    { weight, job := mergeJob }
  let nnodes := 2 ^ (depth + 1) - 1
  { values := (List.range nnodes).map fun index =>
      if depthAt index = depth then .leaf { weight := baseWeight, job := baseJob }
      else .node (makeMerge (depthAt index)) }

def createTree (depth : ℕ) : JobTree BaseJob MergeJob :=
  createTreeForLevel (some depth) depth .empty .empty

end Queries

/-! ## `Tree::update` -/

section Update

variable {BaseJob MergeJob : Type}

/-- The closure of `update` for merge nodes: at the level above `updateLevel` the completed
jobs become new merge jobs (or, for base jobs, only lower the weights); at `updateLevel`
a completed merge job marks its node done, and at the root it is the scan's result; above,
the weights count the jobs sent down. -/
def addMerges (updateLevel sequenceNo : ℕ) (lens : WeightLens) (jobs : List (Job BaseJob MergeJob))
    (currentLevel : ℕ) (mergeJob : Merge.Merge MergeJob) :
    Option (Merge.Merge MergeJob × Option MergeJob) :=
  let w1 := mergeJob.weight.1
  let w2 := mergeJob.weight.2
  let m := mergeJob.job
  let left := lens.get w1
  let right := lens.get w2
  if 0 < updateLevel ∧ currentLevel = updateLevel - 1 then
    let next : Option ((Weight × Weight) × Merge.Job MergeJob) :=
      match jobs, m with
      | [], m => some (mergeJob.weight, m)
      | [.merge a, .merge b], .empty =>
        some ((lens.set w1 (subU64 left 1), lens.set w2 (subU64 right 1)), .full ⟨a, b, sequenceNo, .todo⟩)
      | [.merge a], .empty => some ((lens.set w1 (subU64 left 1), lens.set w2 right), .part a)
      | [.merge b], .part a =>
        some ((lens.set w1 left, lens.set w2 (subU64 right 1)), .full ⟨a, b, sequenceNo, .todo⟩)
      | [.base _], .empty =>
        if left = 0 then some ((lens.set w1 left, lens.set w2 (subU64 right 1)), .empty)
        else some ((lens.set w1 (subU64 left 1), lens.set w2 right), .empty)
      | [.base _, .base _], .empty =>
        some ((lens.set w1 (subU64 left 1), lens.set w2 (subU64 right 1)), .empty)
      | _, _ => none
    next.map fun (weight, job) => ({ weight, job }, none)
  else if currentLevel = updateLevel then
    match jobs, m with
    | [.merge a], .full x =>
      match x.state with
      | .todo =>
        let newJob := Merge.Job.full { x with state := .done }
        if currentLevel = 0 then
          some ({ weight := (lens.set w1 0, lens.set w2 0), job := newJob }, some a)
        else some ({ weight := mergeJob.weight, job := newJob }, none)
      | .done => none
    | [], m => some ({ weight := mergeJob.weight, job := m }, none)
    | _, _ => none
  else if 0 < updateLevel ∧ currentLevel < updateLevel - 1 then
    match jobs with
    | [] => some ({ weight := mergeJob.weight, job := m }, none)
    | _ =>
      let jobsLength := jobs.length
      let jobsSentLeft := min jobsLength left
      let jobsSentRight := min (jobsLength - jobsSentLeft) right
      some ({ weight := (lens.set w1 (left - jobsSentLeft), lens.set w2 (right - jobsSentRight)), job := m }, none)
  else some ({ weight := mergeJob.weight, job := m }, none)

/-- The closure of `update` for leaves: a new base job fills an empty leaf, a completed merge
job marks a full one done. -/
def addBases (sequenceNo : ℕ) (lens : WeightLens) (jobs : List (Job BaseJob MergeJob))
    (base : Base.Base BaseJob) : Option (Base.Base BaseJob) :=
  let weight := lens.get base.weight
  match jobs, base.job with
  | [], d => some { weight := base.weight, job := d }
  | [.base d], .empty =>
    some { weight := lens.set base.weight (subU64 weight 1), job := .full ⟨d, sequenceNo, .todo⟩ }
  | [.merge _], .full b => some { weight := base.weight, job := .full { b with state := .done } }
  | _, _ => none

def takeAt {α : Type} (slice : List α) (skip n : ℕ) : List α :=
  (slice.drop skip).take n

/-- The split of `update`: as many jobs to the left as its weight, the next ones to the right. -/
def jobsSplit {α : Type} (lens : WeightLens) (weights : Weight × Weight) (a : List α) : List α × List α :=
  let l := lens.get weights.1
  let r := lens.get weights.2
  (a.take l, takeAt a l r)

def Tree.update (tree : JobTree BaseJob MergeJob) (completedJobs : List (Job BaseJob MergeJob))
    (updateLevel sequenceNo : ℕ) (lens : WeightLens) : Option (JobTree BaseJob MergeJob × Option MergeJob) :=
  updateSplit (addMerges updateLevel sequenceNo lens) (addBases sequenceNo lens)
    (fun merge => merge.weight) updateLevel (jobsSplit lens) tree completedJobs

end Update

/-! ## `reset_weights` -/

section Reset

variable {BaseJob MergeJob : Type}

inductive ResetKind
  | base
  | merge
  | both
deriving DecidableEq, Repr

/-- The weights of a leaf: one base job if it is empty, one merge job if it is still to do. -/
def resetBase (resetKind : ResetKind) (base : Base.Base BaseJob) : Base.Base BaseJob × (Weight × Weight) :=
  let setOne (lens : WeightLens) (weight : Weight) := lens.set weight 1
  let setZero (lens : WeightLens) (weight : Weight) := lens.set weight 0
  let updateMergeWeight (weight : Weight) :=
    match base.job with
    | .full { state := .todo, .. } => setOne .merge weight
    | _ => setZero .merge weight
  let updateBaseWeight (weight : Weight) :=
    match base.job with
    | .empty => setOne .base weight
    | .full _ => setZero .base weight
  let weight := base.weight
  let (newWeight, dummyRightForBaseNodes) :=
    match resetKind with
    | .merge => (updateMergeWeight weight, setZero .merge weight)
    | .base => (updateBaseWeight weight, setZero .base weight)
    | .both => (updateMergeWeight (updateBaseWeight weight), Weight.zero)
  ({ weight := newWeight, job := base.job }, (newWeight, dummyRightForBaseNodes))

/-- The weights of a merge node: the sums of its children's, except that a merge job still
to do counts one merge job on its left. -/
def resetMerge (resetKind : ResetKind) (lst : (Weight × Weight) × (Weight × Weight))
    (merge : Merge.Merge MergeJob) : Merge.Merge MergeJob × (Weight × Weight) :=
  let w1 := lst.1.1
  let w2 := lst.1.2
  let w3 := lst.2.1
  let w4 := lst.2.2
  let reset (lens : WeightLens) (w ww : Weight) : Weight × Weight :=
    (lens.set w (addU64 (lens.get w1) (lens.get w2)), lens.set ww (addU64 (lens.get w3) (lens.get w4)))
  let ww :=
    match resetKind with
    | .merge =>
      match merge.job with
      | .full { state := .todo, .. } => (WeightLens.merge.set merge.weight.1 1, WeightLens.merge.set merge.weight.2 0)
      | _ => reset .merge merge.weight.1 merge.weight.2
    | .base => reset .base merge.weight.1 merge.weight.2
    | .both =>
      let w := reset .base merge.weight.1 merge.weight.2
      reset .merge w.1 w.2
  ({ weight := ww, job := merge.job }, ww)

def resetWeights (tree : JobTree BaseJob MergeJob) (resetKind : ResetKind) : Option (JobTree BaseJob MergeJob) :=
  (updateAccumulate (resetMerge resetKind) (resetBase resetKind) tree).map Prod.fst

end Reset

end Openmina.ScanState.ParallelScan
