import Mathlib
import Openmina.TransactionPool.IndexedPool
import Openmina.TransactionPool.ReplaceByFee

/-!
# The includable transactions of the pool

`IndexedPool::list_includable_transactions` (`ledger/src/transaction_pool.rs`) works on
copies of `applicable_by_fee` and `all_by_sender`. Each round takes, among the commands
of the greatest fee rate in `applicable_by_fee`, the one of smallest hash, pops the head
of its sender's queue, and makes the sender's next command applicable. When
`applicable_by_fee` indexes exactly the queue heads, the rounds are the greedy merge of
the sender queues (`GreedyMerge`), whatever the order in which the maps are iterated.
-/

namespace Openmina.TransactionPool

open Openmina.TransactionLogic (AccountId)
open Openmina.ScanState.FeeExcessCombine (TokenId)

set_option autoImplicit false

abbrev ByFee := AList fun _ : FeeRate => List Command

abbrev BySender := AList fun _ : AccountId => List Command × UInt64

namespace IndexedPool

/-- One round of the loop of `list_includable_transactions`. Rust's `max_by_key` keeps
the last of equal maxima and `argmax` the first, but the keys of a map are distinct. -/
def includableStep (applicableByFee : ByFee) (allBySender : BySender) :
    Option (Command × ByFee × BySender) := do
  let ⟨fee, set⟩ ← applicableByFee.entries.argmax Sigma.fst
  let txn ← set.argmin Command.hash
  let set := set.erase txn
  let applicableByFee :=
    if set.isEmpty then applicableByFee.erase fee else applicableByFee.insert fee set
  let sender := txn.feePayer
  let (senderQueue, amount) ← allBySender.lookup sender
  let headTxn :: senderQueue := senderQueue | none
  if txn.hash = headTxn.hash then
    match senderQueue.head? with
    | none => pure (txn, applicableByFee, allBySender.erase sender)
    | some nextTxn =>
      pure (txn, mapSetInsert applicableByFee nextTxn.feePerWu nextTxn,
        allBySender.insert sender (senderQueue, amount))
  else
    -- "Sender queue is malformed": the sender is dropped from the copy
    pure (txn, applicableByFee, allBySender.erase sender)

/-- The loop of `list_includable_transactions`, with `remaining = limit - txns.len()`. -/
def includableLoop : ℕ → ByFee → BySender → Option (List Command)
  | 0, _, _ => some []
  | remaining + 1, applicableByFee, allBySender =>
    if applicableByFee.entries.isEmpty then some []
    else do
      let (txn, applicableByFee, allBySender) ← includableStep applicableByFee allBySender
      let txns ← includableLoop remaining applicableByFee allBySender
      pure (txn :: txns)

def listIncludableTransactions (self : IndexedPool) (limit : ℕ) : Option (List Command) :=
  includableLoop limit self.applicableByFee self.allBySender

end IndexedPool

/-! ## Sender queues -/

def queueOf (allBySender : BySender) (sender : AccountId) : List Command :=
  ((allBySender.lookup sender).map Prod.fst).getD []

def heads (allBySender : BySender) : List Command :=
  allBySender.entries.filterMap fun entry => entry.2.1.head?

def allCommands (allBySender : BySender) : List Command :=
  allBySender.entries.flatMap fun entry => entry.2.1

/-- Takes the head of a sender's queue and removes a queue left empty. -/
def popHead (allBySender : BySender) (sender : AccountId) : BySender :=
  match allBySender.lookup sender with
  | some (_ :: rest, amount) =>
    if rest = [] then allBySender.erase sender else allBySender.insert sender (rest, amount)
  | _ => allBySender

def popHeads (allBySender : BySender) (txns : List Command) : BySender :=
  txns.foldl (fun queues txn => popHead queues txn.feePayer) allBySender

/-- The queues of `all_by_sender` are non-empty and hold commands of their sender. -/
@[mk_iff]
structure QueuesWellFormed (allBySender : BySender) : Prop where
  nonempty : ∀ entry ∈ allBySender.entries, entry.2.1 ≠ []
  feePayer : ∀ entry ∈ allBySender.entries, ∀ cmd ∈ entry.2.1, cmd.feePayer = entry.1

instance (allBySender : BySender) : Decidable (QueuesWellFormed allBySender) :=
  decidable_of_iff _ (queuesWellFormed_iff allBySender).symm

def FirstByFee (cmds : List Command) (txn : Command) : Prop :=
  txn ∈ cmds ∧ ∀ other ∈ cmds,
    other.feePerWu < txn.feePerWu ∨ (other.feePerWu = txn.feePerWu ∧ txn.hash ≤ other.hash)

theorem queueOf_popHead (allBySender : BySender) (sender other : AccountId) :
    queueOf (popHead allBySender sender) other =
      if other = sender then (queueOf allBySender sender).tail else queueOf allBySender other := by
  by_cases same : other = sender
  · subst same
    rw [if_pos rfl]
    unfold popHead
    cases found : allBySender.lookup other with
    | none => simp [queueOf, found]
    | some value =>
      obtain ⟨_ | ⟨head, rest⟩, amount⟩ := value
      · simp [queueOf, found]
      · dsimp only
        split_ifs with empty
        · simp [queueOf, found, empty]
        · simp [queueOf, found]
  · rw [if_neg same]
    unfold popHead
    split
    · split_ifs
      · simp [queueOf, AList.lookup_erase_ne same]
      · simp [queueOf, AList.lookup_insert_ne same]
    · rfl

theorem lookup_of_queueOf {allBySender : BySender} {sender : AccountId} {cmd : Command}
    {rest : List Command} (queue : queueOf allBySender sender = cmd :: rest) :
    ∃ amount, allBySender.lookup sender = some (cmd :: rest, amount) := by
  unfold queueOf at queue
  cases found : allBySender.lookup sender with
  | none => simp [found] at queue
  | some value =>
    rw [found, Option.map_some, Option.getD_some] at queue
    exact ⟨value.2, by rw [← queue]⟩

theorem mem_heads {allBySender : BySender} (wf : QueuesWellFormed allBySender)
    {cmd : Command} : cmd ∈ heads allBySender ↔ (queueOf allBySender cmd.feePayer).head? = some cmd := by
  constructor
  · intro mem
    obtain ⟨entry, stored, first⟩ := List.mem_filterMap.mp mem
    have payer : cmd.feePayer = entry.1 :=
      wf.feePayer entry stored cmd (List.mem_of_mem_head? first)
    have found : allBySender.lookup entry.1 = some entry.2 := AList.mem_lookup_iff.mpr stored
    rw [queueOf, payer, found, Option.map_some, Option.getD_some]
    exact first
  · intro first
    unfold queueOf at first
    cases found : allBySender.lookup cmd.feePayer with
    | none => simp [found] at first
    | some value =>
      rw [found, Option.map_some, Option.getD_some] at first
      exact List.mem_filterMap.mpr ⟨⟨cmd.feePayer, value⟩, AList.mem_lookup_iff.mp found, first⟩

theorem QueuesWellFormed.popHead {allBySender : BySender} (wf : QueuesWellFormed allBySender)
    (sender : AccountId) : QueuesWellFormed (popHead allBySender sender) := by
  unfold TransactionPool.popHead
  split
  · rename_i head rest amount found
    have older : ∀ entry ∈ allBySender.entries.kerase sender, entry ∈ allBySender.entries :=
      fun entry mem => (List.kerase_sublist sender _).subset mem
    have payer : ∀ cmd ∈ rest, cmd.feePayer = sender := fun cmd mem =>
      wf.feePayer _ (AList.mem_lookup_iff.mp found) cmd (List.mem_cons_of_mem head mem)
    split_ifs with empty
    · exact ⟨fun entry mem => wf.nonempty entry (older entry mem),
        fun entry mem => wf.feePayer entry (older entry mem)⟩
    · constructor
      · intro entry mem
        rw [AList.entries_insert, List.mem_cons] at mem
        rcases mem with rfl | mem
        · exact empty
        · exact wf.nonempty entry (older entry mem)
      · intro entry mem
        rw [AList.entries_insert, List.mem_cons] at mem
        rcases mem with rfl | mem
        · exact payer
        · exact wf.feePayer entry (older entry mem)
  · exact wf

theorem heads_eq_nil {allBySender : BySender} (wf : QueuesWellFormed allBySender) :
    heads allBySender = [] ↔ allBySender.entries = [] := by
  constructor
  · intro empty
    cases entries : allBySender.entries with
    | nil => rfl
    | cons entry rest =>
      obtain ⟨head, tail, queue⟩ := List.exists_cons_of_ne_nil
        (wf.nonempty entry (by rw [entries]; exact List.mem_cons_self))
      have mem : head ∈ heads allBySender := by
        rw [heads, entries]
        exact List.mem_filterMap.mpr ⟨entry, List.mem_cons_self, by rw [queue]; rfl⟩
      rw [empty] at mem
      cases mem
  · intro empty
    rw [heads, empty]
    rfl

theorem allCommands_popHead {allBySender : BySender} {sender : AccountId} {cmd : Command}
    {rest : List Command} (queue : queueOf allBySender sender = cmd :: rest) :
    (allCommands allBySender).Perm (cmd :: allCommands (popHead allBySender sender)) := by
  obtain ⟨amount, found⟩ := lookup_of_queueOf queue
  have key : sender ∈ allBySender.entries.keys :=
    List.mem_keys_of_mem (AList.mem_lookup_iff.mp found)
  obtain ⟨value, before, after, fresh, split, erased⟩ := List.exists_of_kerase key
  have stored : value = (cmd :: rest, amount) := by
    have mem : (⟨sender, value⟩ : Sigma _) ∈ allBySender.entries := by
      rw [split]
      exact List.mem_append_right _ List.mem_cons_self
    exact Option.some_injective _ ((AList.mem_lookup_iff.mpr mem).symm.trans found)
  subst stored
  have whole : allCommands allBySender =
      before.flatMap (fun entry => entry.2.1) ++ cmd :: rest ++ after.flatMap fun entry => entry.2.1 := by
    rw [allCommands, split, List.flatMap_append, List.flatMap_cons, List.append_assoc]
  rw [whole, popHead, found]
  dsimp only
  split_ifs with empty
  · subst empty
    rw [allCommands]
    change List.Perm _ (cmd :: (allBySender.entries.kerase sender).flatMap _)
    rw [erased, List.flatMap_append]
    simp
  · rw [allCommands, AList.entries_insert, erased, List.flatMap_cons, List.flatMap_append]
    generalize before.flatMap (fun entry => entry.2.1) = front
    generalize after.flatMap (fun entry => entry.2.1) = back
    have middle : (front ++ cmd :: (rest ++ back)).Perm (cmd :: (front ++ (rest ++ back))) :=
      List.perm_middle
    have swap : (front ++ (rest ++ back)).Perm (rest ++ (front ++ back)) :=
      List.perm_append_comm_assoc _ _ _
    simpa only [List.append_assoc, List.cons_append] using middle.trans (swap.cons cmd)

@[simp] theorem popHeads_nil (allBySender : BySender) : popHeads allBySender [] = allBySender :=
  rfl

@[simp] theorem popHeads_cons (allBySender : BySender) (txn : Command) (txns : List Command) :
    popHeads allBySender (txn :: txns) = popHeads (popHead allBySender txn.feePayer) txns :=
  rfl

theorem queueOf_of_firstByFee {allBySender : BySender} (wf : QueuesWellFormed allBySender)
    {txn : Command} (first : FirstByFee (heads allBySender) txn) :
    ∃ rest, queueOf allBySender txn.feePayer = txn :: rest := by
  have head := (mem_heads wf).mp first.1
  cases queue : queueOf allBySender txn.feePayer with
  | nil => rw [queue] at head; cases head
  | cons cmd rest =>
    rw [queue, List.head?_cons, Option.some.injEq] at head
    exact ⟨rest, by rw [head]⟩

/-! ## The greedy merge -/

/-- The greedy merge of the sender queues in at most `limit` rounds: each round takes
the first head by fee, until the limit is reached or the queues are empty. -/
inductive GreedyMerge : ℕ → BySender → List Command → Prop
  | limitReached (queues : BySender) : GreedyMerge 0 queues []
  | exhausted (limit : ℕ) {queues : BySender} (empty : heads queues = []) :
      GreedyMerge limit queues []
  | next {limit : ℕ} {queues : BySender} {txn : Command} {txns : List Command}
      (first : FirstByFee (heads queues) txn)
      (rest : GreedyMerge limit (popHead queues txn.feePayer) txns) :
      GreedyMerge (limit + 1) queues (txn :: txns)

namespace GreedyMerge

variable {limit : ℕ} {queues : BySender} {txns : List Command}

theorem length_eq (run : GreedyMerge limit queues txns) (wf : QueuesWellFormed queues) :
    txns.length = min limit (allCommands queues).length := by
  induction run with
  | limitReached => simp
  | @exhausted limit queues empty =>
    have none : allCommands queues = [] := by
      rw [allCommands, (heads_eq_nil wf).mp empty]
      rfl
    simp [none]
  | @next limit queues txn txns first rest ih =>
    obtain ⟨tail, queue⟩ := queueOf_of_firstByFee wf first
    have count := (allCommands_popHead queue).length_eq
    rw [List.length_cons, ih (wf.popHead _), count, List.length_cons]
    omega

theorem subperm (run : GreedyMerge limit queues txns) (wf : QueuesWellFormed queues) :
    txns.Subperm (allCommands queues) := by
  induction run with
  | limitReached => exact List.nil_subperm
  | exhausted => exact List.nil_subperm
  | @next limit queues txn txns first rest ih =>
    obtain ⟨tail, queue⟩ := queueOf_of_firstByFee wf first
    have later : (txn :: txns).Subperm (txn :: allCommands (popHead queues txn.feePayer)) :=
      (List.subperm_cons txn).mpr (ih (wf.popHead _))
    exact later.trans (allCommands_popHead queue).symm.subperm

theorem hashes_nodup (run : GreedyMerge limit queues txns) (wf : QueuesWellFormed queues)
    (distinct : ((allCommands queues).map Command.hash).Nodup) : (txns.map Command.hash).Nodup := by
  obtain ⟨reordered, perm, sublist⟩ := run.subperm wf
  have taken : (reordered.map Command.hash).Nodup := distinct.sublist (sublist.map _)
  exact (perm.map _).nodup_iff.mp taken

theorem filter_prefix (run : GreedyMerge limit queues txns) (wf : QueuesWellFormed queues)
    (sender : AccountId) : txns.filter (fun txn => txn.feePayer = sender) <+: queueOf queues sender := by
  induction run with
  | limitReached => exact List.nil_prefix
  | exhausted => exact List.nil_prefix
  | @next limit queues txn txns first rest ih =>
    obtain ⟨tail, queue⟩ := queueOf_of_firstByFee wf first
    have later := ih (wf.popHead _)
    rw [queueOf_popHead] at later
    by_cases same : txn.feePayer = sender
    · subst same
      rw [if_pos rfl, queue, List.tail_cons] at later
      rw [List.filter_cons_of_pos (by simp), queue]
      exact (List.prefix_cons_inj txn).mpr later
    · rw [if_neg (Ne.symm same)] at later
      rw [List.filter_cons_of_neg (by simpa using same)]
      exact later

/-- The `i`-th command taken comes first by fee among the heads of what the earlier
rounds left of the queues. -/
theorem firstByFee_getElem (run : GreedyMerge limit queues txns) :
    ∀ (i : ℕ) (lt : i < txns.length), FirstByFee (heads (popHeads queues (txns.take i))) txns[i] := by
  induction run with
  | limitReached => intro i lt; simp at lt
  | exhausted => intro i lt; simp at lt
  | @next limit queues txn txns first rest ih =>
    intro i lt
    cases i with
    | zero => exact first
    | succ i => simpa using ih i (by simpa using lt)

end GreedyMerge

/-! ## The loop refines the greedy merge -/

def applicableAt (applicableByFee : ByFee) (fee : FeeRate) : List Command :=
  (applicableByFee.lookup fee).getD []

def SetsWellFormed (applicableByFee : ByFee) : Prop :=
  ∀ entry ∈ applicableByFee.entries,
    entry.2 ≠ [] ∧ entry.2.Nodup ∧ ∀ cmd ∈ entry.2, cmd.feePerWu = entry.1

instance (applicableByFee : ByFee) : Decidable (SetsWellFormed applicableByFee) :=
  inferInstanceAs (Decidable (∀ entry ∈ applicableByFee.entries, _))

/-- The invariant of the copies the loop works on: `applicable_by_fee` indexes exactly
the heads of the queues, each at its fee rate. -/
@[mk_iff]
structure HeadsIndexed (applicableByFee : ByFee) (allBySender : BySender) : Prop where
  queues : QueuesWellFormed allBySender
  sets : SetsWellFormed applicableByFee
  headsApplicable : ∀ cmd ∈ heads allBySender, cmd ∈ applicableAt applicableByFee cmd.feePerWu
  applicableHeads : ∀ entry ∈ applicableByFee.entries, ∀ cmd ∈ entry.2, cmd ∈ heads allBySender

instance (applicableByFee : ByFee) (allBySender : BySender) :
    Decidable (HeadsIndexed applicableByFee allBySender) :=
  decidable_of_iff _ (headsIndexed_iff applicableByFee allBySender).symm

section Sets

variable {applicableByFee : ByFee}

theorem mem_applicableAt {fee : FeeRate} {cmd : Command} :
    cmd ∈ applicableAt applicableByFee fee ↔
      ∃ set, (⟨fee, set⟩ : Sigma _) ∈ applicableByFee.entries ∧ cmd ∈ set := by
  unfold applicableAt
  constructor
  · intro mem
    cases found : applicableByFee.lookup fee with
    | none => rw [found] at mem; cases mem
    | some set =>
      rw [found, Option.getD_some] at mem
      exact ⟨set, AList.mem_lookup_iff.mp found, mem⟩
  · rintro ⟨set, stored, mem⟩
    rw [AList.mem_lookup_iff.mpr stored, Option.getD_some]
    exact mem

theorem SetsWellFormed.erase (sets : SetsWellFormed applicableByFee) (fee : FeeRate) :
    SetsWellFormed (applicableByFee.erase fee) := fun entry mem =>
  sets entry ((List.kerase_sublist fee _).subset mem)

theorem SetsWellFormed.insert (sets : SetsWellFormed applicableByFee) {fee : FeeRate}
    {set : List Command} (nonempty : set ≠ []) (nodup : set.Nodup)
    (fees : ∀ cmd ∈ set, cmd.feePerWu = fee) : SetsWellFormed (applicableByFee.insert fee set) := by
  intro entry mem
  rw [AList.entries_insert, List.mem_cons] at mem
  rcases mem with rfl | mem
  · exact ⟨nonempty, nodup, fees⟩
  · exact sets entry ((List.kerase_sublist fee _).subset mem)

theorem SetsWellFormed.mapSetInsert (sets : SetsWellFormed applicableByFee) (cmd : Command) :
    SetsWellFormed (mapSetInsert applicableByFee cmd.feePerWu cmd) := by
  have old : ((applicableByFee.lookup cmd.feePerWu).getD []).Nodup ∧
      ∀ other ∈ (applicableByFee.lookup cmd.feePerWu).getD [], other.feePerWu = cmd.feePerWu := by
    cases found : applicableByFee.lookup cmd.feePerWu with
    | none => simp
    | some set =>
      obtain ⟨-, nodup, fees⟩ := sets _ (AList.mem_lookup_iff.mp found)
      exact ⟨nodup, fees⟩
  apply sets.insert (List.ne_nil_of_mem List.mem_insert_self) old.1.insert
  intro other mem
  rcases List.mem_insert_iff.mp mem with rfl | mem
  · rfl
  · exact old.2 other mem

theorem applicableAt_mapSetInsert (cmd : Command) (fee : FeeRate) :
    applicableAt (mapSetInsert applicableByFee cmd.feePerWu cmd) fee =
      if fee = cmd.feePerWu then (applicableAt applicableByFee fee).insert cmd
      else applicableAt applicableByFee fee := by
  unfold applicableAt mapSetInsert
  split_ifs with same
  · rw [same, AList.lookup_insert, Option.getD_some]
  · rw [AList.lookup_insert_ne same]

/-- What the loop leaves of `applicable_by_fee` after taking `txn` out of the set at `fee`. -/
def removeApplicable (applicableByFee : ByFee) (fee : FeeRate) (set : List Command)
    (txn : Command) : ByFee :=
  if (set.erase txn).isEmpty then applicableByFee.erase fee
  else applicableByFee.insert fee (set.erase txn)

theorem applicableAt_removeApplicable (fee other : FeeRate) (set : List Command) (txn : Command) :
    applicableAt (removeApplicable applicableByFee fee set txn) other =
      if other = fee then set.erase txn else applicableAt applicableByFee other := by
  unfold applicableAt removeApplicable
  by_cases same : other = fee
  · subst same
    rw [if_pos rfl]
    split_ifs with empty
    · rw [AList.lookup_erase, Option.getD_none, List.isEmpty_iff.mp empty]
    · rw [AList.lookup_insert, Option.getD_some]
  · rw [if_neg same]
    split_ifs
    · rw [AList.lookup_erase_ne same]
    · rw [AList.lookup_insert_ne same]

theorem SetsWellFormed.removeApplicable (sets : SetsWellFormed applicableByFee) {fee : FeeRate}
    {set : List Command} (stored : (⟨fee, set⟩ : Sigma _) ∈ applicableByFee.entries) (txn : Command) :
    SetsWellFormed (TransactionPool.removeApplicable applicableByFee fee set txn) := by
  obtain ⟨-, nodup, fees⟩ := sets _ stored
  unfold TransactionPool.removeApplicable
  split_ifs with empty
  · exact sets.erase fee
  · exact sets.insert (fun nil => empty (List.isEmpty_iff.mpr nil)) (nodup.erase txn)
      (fun cmd mem => fees cmd (List.erase_subset mem))

end Sets

/-- The copy of `applicable_by_fee` after a round that took `txn`, the head of the
queue `txn :: rest`, out of the set `set` at `fee`. -/
def applicableAfter (applicableByFee : ByFee) (fee : FeeRate) (set : List Command) (txn : Command)
    (rest : List Command) : ByFee :=
  match rest.head? with
  | none => removeApplicable applicableByFee fee set txn
  | some next => mapSetInsert (removeApplicable applicableByFee fee set txn) next.feePerWu next

section Step

variable {applicableByFee : ByFee} {allBySender : BySender}

theorem HeadsIndexed.mem_applicableAt_iff (indexed : HeadsIndexed applicableByFee allBySender)
    {cmd : Command} : cmd ∈ applicableAt applicableByFee cmd.feePerWu ↔ cmd ∈ heads allBySender := by
  constructor
  · intro mem
    obtain ⟨set, stored, mem⟩ := mem_applicableAt.mp mem
    exact indexed.applicableHeads _ stored cmd mem
  · exact indexed.headsApplicable cmd

theorem HeadsIndexed.of_iff (queues : QueuesWellFormed allBySender)
    (sets : SetsWellFormed applicableByFee)
    (indexes : ∀ cmd, cmd ∈ applicableAt applicableByFee cmd.feePerWu ↔ cmd ∈ heads allBySender) :
    HeadsIndexed applicableByFee allBySender := by
  refine ⟨queues, sets, fun cmd head => (indexes cmd).mpr head, ?_⟩
  intro entry stored cmd mem
  have fee : cmd.feePerWu = entry.1 := (sets entry stored).2.2 cmd mem
  apply (indexes cmd).mp
  exact mem_applicableAt.mpr ⟨entry.2, by rw [fee]; exact stored, mem⟩

theorem HeadsIndexed.entries_eq_nil (indexed : HeadsIndexed applicableByFee allBySender) :
    applicableByFee.entries = [] ↔ heads allBySender = [] := by
  constructor
  · intro empty
    apply List.eq_nil_iff_forall_not_mem.mpr
    intro cmd head
    obtain ⟨set, stored, -⟩ := mem_applicableAt.mp (indexed.headsApplicable cmd head)
    rw [empty] at stored
    cases stored
  · intro empty
    apply List.eq_nil_iff_forall_not_mem.mpr
    intro entry stored
    obtain ⟨cmd, mem⟩ := List.exists_mem_of_ne_nil _ (indexed.sets entry stored).1
    have head := indexed.applicableHeads entry stored cmd mem
    rw [empty] at head
    cases head

theorem HeadsIndexed.choice (indexed : HeadsIndexed applicableByFee allBySender)
    (nonempty : applicableByFee.entries ≠ []) :
    ∃ fee set txn, applicableByFee.entries.argmax Sigma.fst = some ⟨fee, set⟩ ∧
      set.argmin Command.hash = some txn ∧ (⟨fee, set⟩ : Sigma _) ∈ applicableByFee.entries ∧
      txn ∈ set ∧ FirstByFee (heads allBySender) txn := by
  have someFee : applicableByFee.entries.argmax Sigma.fst ≠ none := fun none =>
    nonempty (List.argmax_eq_none.mp none)
  obtain ⟨⟨fee, set⟩, chosen⟩ := Option.ne_none_iff_exists'.mp someFee
  have stored := List.argmax_mem chosen
  obtain ⟨setNonempty, -, fees⟩ := indexed.sets _ stored
  have someTxn : set.argmin Command.hash ≠ none := fun none =>
    setNonempty (List.argmin_eq_none.mp none)
  obtain ⟨txn, picked⟩ := Option.ne_none_iff_exists'.mp someTxn
  have mem := List.argmin_mem picked
  refine ⟨fee, set, txn, chosen, picked, stored, mem, indexed.applicableHeads _ stored txn mem, ?_⟩
  intro other head
  obtain ⟨otherSet, otherStored, otherMem⟩ :=
    mem_applicableAt.mp (indexed.headsApplicable other head)
  have le : other.feePerWu ≤ fee := List.le_of_mem_argmax otherStored chosen
  rw [fees txn mem]
  rcases le.lt_or_eq with lt | eq
  · exact Or.inl lt
  · -- equal rates are one key of the map, so `other` is in the chosen set
    have sameSet : otherSet = set := by
      have otherFound : applicableByFee.lookup fee = some otherSet := by
        rw [← eq]
        exact AList.mem_lookup_iff.mpr otherStored
      exact Option.some_injective _ (otherFound.symm.trans (AList.mem_lookup_iff.mpr stored))
    rw [sameSet] at otherMem
    exact Or.inr ⟨eq, List.le_of_mem_argmin otherMem picked⟩

theorem mem_queueOf_feePayer (wf : QueuesWellFormed allBySender) {sender : AccountId}
    {cmd : Command} (mem : cmd ∈ queueOf allBySender sender) : cmd.feePayer = sender := by
  unfold queueOf at mem
  cases found : allBySender.lookup sender with
  | none => rw [found] at mem; cases mem
  | some value =>
    rw [found, Option.map_some, Option.getD_some] at mem
    exact wf.feePayer _ (AList.mem_lookup_iff.mp found) cmd mem

theorem mem_heads_popHead (wf : QueuesWellFormed allBySender) {txn : Command} {rest : List Command}
    (queue : queueOf allBySender txn.feePayer = txn :: rest) (cmd : Command) :
    cmd ∈ heads (popHead allBySender txn.feePayer) ↔
      cmd ∈ rest.head? ∨ (cmd ≠ txn ∧ cmd ∈ heads allBySender) := by
  rw [mem_heads (wf.popHead _), mem_heads wf, queueOf_popHead]
  by_cases same : cmd.feePayer = txn.feePayer
  · rw [if_pos same, same, queue, List.tail_cons, List.head?_cons, Option.some.injEq]
    constructor
    · exact Or.inl
    · rintro (next | ⟨other, first⟩)
      · exact next
      · exact absurd first.symm other
  · rw [if_neg same]
    have notNext : cmd ∉ rest.head? := by
      intro next
      apply same
      apply mem_queueOf_feePayer wf
      rw [queue]
      exact List.mem_cons_of_mem txn (List.mem_of_mem_head? next)
    have notTxn : cmd ≠ txn := fun taken => same (congrArg Command.feePayer taken)
    simp only [notNext, notTxn, false_or, ne_eq, not_false_eq_true, true_and]

theorem mem_applicableAfter (sets : SetsWellFormed applicableByFee) {fee : FeeRate}
    {set : List Command} (stored : (⟨fee, set⟩ : Sigma _) ∈ applicableByFee.entries) {txn : Command}
    (txnFee : txn.feePerWu = fee) (rest : List Command) (cmd : Command) :
    cmd ∈ applicableAt (applicableAfter applicableByFee fee set txn rest) cmd.feePerWu ↔
      cmd ∈ rest.head? ∨ (cmd ≠ txn ∧ cmd ∈ applicableAt applicableByFee cmd.feePerWu) := by
  have removed : cmd ∈ applicableAt (removeApplicable applicableByFee fee set txn) cmd.feePerWu ↔
      cmd ≠ txn ∧ cmd ∈ applicableAt applicableByFee cmd.feePerWu := by
    obtain ⟨-, nodup, -⟩ := sets _ stored
    rw [applicableAt_removeApplicable]
    split_ifs with same
    · rw [nodup.mem_erase_iff, same, applicableAt, AList.mem_lookup_iff.mpr stored, Option.getD_some]
    · constructor
      · intro mem
        exact ⟨fun taken => same (taken ▸ txnFee), mem⟩
      · exact And.right
  unfold applicableAfter
  cases found : rest.head? with
  | none => simp [removed]
  | some next =>
    rw [applicableAt_mapSetInsert]
    by_cases same : cmd.feePerWu = next.feePerWu
    · rw [if_pos same, List.mem_insert_iff, removed, Option.mem_def, Option.some.injEq, eq_comm]
    · rw [if_neg same, removed, Option.mem_def, Option.some.injEq]
      constructor
      · exact Or.inr
      · rintro (rfl | kept)
        · exact absurd rfl same
        · exact kept

theorem SetsWellFormed.applicableAfter (sets : SetsWellFormed applicableByFee) {fee : FeeRate}
    {set : List Command} (stored : (⟨fee, set⟩ : Sigma _) ∈ applicableByFee.entries) (txn : Command)
    (rest : List Command) : SetsWellFormed (TransactionPool.applicableAfter applicableByFee fee set txn rest) := by
  unfold TransactionPool.applicableAfter
  split
  · exact sets.removeApplicable stored txn
  · exact (sets.removeApplicable stored txn).mapSetInsert _

theorem includableStep_spec (indexed : HeadsIndexed applicableByFee allBySender)
    (nonempty : applicableByFee.entries ≠ []) :
    ∃ txn applicableByFee', IndexedPool.includableStep applicableByFee allBySender =
        some (txn, applicableByFee', popHead allBySender txn.feePayer) ∧
      FirstByFee (heads allBySender) txn ∧
      HeadsIndexed applicableByFee' (popHead allBySender txn.feePayer) := by
  obtain ⟨fee, set, txn, chosen, picked, stored, mem, first⟩ := indexed.choice nonempty
  obtain ⟨rest, queue⟩ := queueOf_of_firstByFee indexed.queues first
  obtain ⟨amount, found⟩ := lookup_of_queueOf queue
  have txnFee : txn.feePerWu = fee := (indexed.sets _ stored).2.2 txn mem
  refine ⟨txn, applicableAfter applicableByFee fee set txn rest, ?_, first, ?_⟩
  · -- the head of the sender's queue is `txn` itself, so the queue is never "malformed"
    cases rest <;>
      simp [IndexedPool.includableStep, chosen, picked, found, popHead, applicableAfter,
        removeApplicable]
  · apply HeadsIndexed.of_iff (indexed.queues.popHead _) (indexed.sets.applicableAfter stored txn rest)
    intro cmd
    rw [mem_applicableAfter indexed.sets stored txnFee, mem_heads_popHead indexed.queues queue,
      indexed.mem_applicableAt_iff]

end Step

/-- From indexed copies, the loop runs the greedy merge of the queues. -/
theorem includableLoop_greedyMerge (remaining : ℕ) :
    ∀ {applicableByFee : ByFee} {allBySender : BySender}, HeadsIndexed applicableByFee allBySender →
      ∃ txns, IndexedPool.includableLoop remaining applicableByFee allBySender = some txns ∧
        GreedyMerge remaining allBySender txns := by
  induction remaining with
  | zero => exact fun _ => ⟨[], rfl, .limitReached _⟩
  | succ remaining ih =>
    intro applicableByFee allBySender indexed
    by_cases empty : applicableByFee.entries = []
    · refine ⟨[], ?_, .exhausted _ (indexed.entries_eq_nil.mp empty)⟩
      simp [IndexedPool.includableLoop, empty]
    · obtain ⟨txn, applicableByFee', step, first, indexed'⟩ := includableStep_spec indexed empty
      obtain ⟨txns, loop, run⟩ := ih indexed'
      refine ⟨txn :: txns, ?_, .next first run⟩
      simp [IndexedPool.includableLoop, empty, step, loop]

/-! ## The pool -/

namespace IndexedPool

/-- The consistency of the pool that `list_includable_transactions` relies on: the
copies it starts from are indexed, and no two queued commands share a hash. -/
@[mk_iff]
structure Consistent (pool : IndexedPool) : Prop where
  indexed : HeadsIndexed pool.applicableByFee pool.allBySender
  hashes : ((allCommands pool.allBySender).map Command.hash).Nodup

instance (pool : IndexedPool) : Decidable pool.Consistent :=
  decidable_of_iff _ (consistent_iff pool).symm

end IndexedPool

theorem list_includable_transactions_greedy (self : IndexedPool) (consistent : self.Consistent)
    (limit : ℕ) :
    ∃ txns, self.listIncludableTransactions limit = some txns ∧
      txns.length = min limit (allCommands self.allBySender).length ∧
      (txns.map Command.hash).Nodup ∧ (∀ txn ∈ txns, txn ∈ allCommands self.allBySender) ∧
      (∀ sender, txns.filter (fun txn => txn.feePayer = sender) <+: queueOf self.allBySender sender) ∧
      ∀ (i : ℕ) (lt : i < txns.length),
        FirstByFee (heads (popHeads self.allBySender (txns.take i))) txns[i] := by
  obtain ⟨txns, loop, run⟩ := includableLoop_greedyMerge limit consistent.indexed
  have wf := consistent.indexed.queues
  exact ⟨txns, loop, run.length_eq wf, run.hashes_nodup wf consistent.hashes,
    fun txn mem => (run.subperm wf).subset mem, run.filter_prefix wf, run.firstByFee_getElem⟩

def otherPayment : Command :=
  ⟨2, ⟨⟨1, false⟩, TokenId.default⟩, 5, 1, 0, Slot.max, TokenId.default, .payment 10⟩

def threePayments : IndexedPool :=
  gossip twoPayments otherPayment

theorem list_includable_transactions_greedy_three_payments :
    threePayments.Consistent ∧
      ∃ txns, threePayments.listIncludableTransactions 3 = some txns ∧
        txns.length = min 3 (allCommands threePayments.allBySender).length ∧
        (txns.map Command.hash).Nodup ∧ (∀ txn ∈ txns, txn ∈ allCommands threePayments.allBySender) ∧
        (∀ sender, txns.filter (fun txn => txn.feePayer = sender) <+:
          queueOf threePayments.allBySender sender) ∧
        ∀ (i : ℕ) (lt : i < txns.length),
          FirstByFee (heads (popHeads threePayments.allBySender (txns.take i))) txns[i] :=
  ⟨by decide +kernel, list_includable_transactions_greedy threePayments (by decide +kernel) 3⟩

example : threePayments.listIncludableTransactions 3 =
    some [otherPayment, payment 0 1 0, payment 1 1 1] := by
  decide +kernel

end Openmina.TransactionPool
