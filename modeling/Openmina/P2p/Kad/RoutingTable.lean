import Mathlib

/-!
# The Kademlia routing table

`p2p/src/network/kad/p2p_network_kad_internals.rs`: keys and distances are `U256`
(`BitVec 256`), the distance of two keys is their XOR, and the table keeps its own
entry and `K`-buckets ordered by the length of the common prefix with its own key.
`insert` splits the last bucket until the entry fits; the loop runs at most 258 rounds,
since each split raises `max_index` and the index of an entry is at most 256. An entry's
peer id and connection are not read by the modelled functions and are left out.
-/

namespace Openmina.P2p.Kad

set_option autoImplicit false

abbrev P2pNetworkKadKey := BitVec 256

abbrev P2pNetworkKadDist := BitVec 256

def distance (a b : P2pNetworkKadKey) : P2pNetworkKadDist :=
  a ^^^ b

def bitsVartime (x : BitVec 256) : ℕ :=
  if x.toNat = 0 then 0 else x.toNat.log2 + 1

def P2pNetworkKadDist.toIndex (dist : P2pNetworkKadDist) : ℕ :=
  256 - bitsVartime dist

def P2pNetworkKadDist.ofIndex (value : ℕ) : P2pNetworkKadDist :=
  BitVec.allOnes 256 >>> value

structure P2pNetworkKadEntry (Addr : Type) where
  key : P2pNetworkKadKey
  addrs : List Addr
  deriving DecidableEq

abbrev P2pNetworkKadBucket (Addr : Type) := List (P2pNetworkKadEntry Addr)

structure P2pNetworkKadRoutingTable (Addr : Type) where
  thisKey : P2pNetworkKadKey
  buckets : List (P2pNetworkKadBucket Addr)
  deriving DecidableEq

def maxAddrs : ℕ := 16

variable {Addr : Type} [DecidableEq Addr]

/-- The loop of `P2pNetworkKadBucket::insert` over the new addresses of a known entry. -/
def pushAddrs (existing : List Addr) : List Addr → List Addr
  | [] => existing
  | addr :: rest =>
    if maxAddrs ≤ existing.length then existing
    else pushAddrs (if addr ∈ existing then existing else existing ++ [addr]) rest

namespace P2pNetworkKadBucket

def canInsert (K : ℕ) (bucket : P2pNetworkKadBucket Addr) (entry : P2pNetworkKadEntry Addr) : Bool :=
  bucket.length < K || bucket.any fun e => e.key == entry.key

/-- `P2pNetworkKadBucket::insert`: a known key gets the new addresses, up to `MAX_ADDRS`;
a new key is pushed. The second component is whether the entry is new. -/
def insert (bucket : P2pNetworkKadBucket Addr) (entry : P2pNetworkKadEntry Addr) :
    P2pNetworkKadBucket Addr × Bool :=
  match bucket.findIdx? fun e => e.key == entry.key with
  | some pos =>
    (bucket.modify pos fun e =>
      { e with addrs := pushAddrs e.addrs (entry.addrs.filter fun addr => addr ∉ e.addrs) }, false)
  | none => (bucket ++ [entry], true)

def split (bucket : P2pNetworkKadBucket Addr) (f : P2pNetworkKadEntry Addr → Bool) :
    P2pNetworkKadBucket Addr × P2pNetworkKadBucket Addr :=
  bucket.partition f

end P2pNetworkKadBucket

namespace P2pNetworkKadRoutingTable

def new (thisEntry : P2pNetworkKadEntry Addr) : P2pNetworkKadRoutingTable Addr :=
  ⟨thisEntry.key, [[thisEntry]]⟩

/-- The `loop` of `insert`, from `max_index`; `none` is a panic on an index out of range. -/
def insertLoop (K : ℕ) (thisKey : P2pNetworkKadKey) (entry : P2pNetworkKadEntry Addr) (index : ℕ) :
    ℕ → ℕ → List (P2pNetworkKadBucket Addr) →
      Option (Option Bool × List (P2pNetworkKadBucket Addr))
  | 0, _, _ => none
  | fuel + 1, maxIndex, buckets =>
    if index < maxIndex then do
      -- this bucket cannot be split
      let bucket ← buckets[index]?
      if bucket.canInsert K entry then
        let (bucket, added) := bucket.insert entry
        pure (some added, buckets.set index bucket)
      else pure (none, buckets)
    else do
      let last ← buckets[maxIndex]?
      if last.canInsert K entry then
        let (last, added) := last.insert entry
        pure (some added, buckets.set maxIndex last)
      else
        let maxIndex := maxIndex + 1
        let splitDist := P2pNetworkKadDist.ofIndex maxIndex
        match buckets.getLast? with
        -- `bug_condition!("should be unreachable")`
        | none => pure (none, buckets)
        | some bucket =>
          let (bucket1, bucket2) := bucket.split fun e => splitDist ≤ distance thisKey e.key
          insertLoop K thisKey entry index fuel maxIndex (buckets.dropLast ++ [bucket1, bucket2])

/-- `P2pNetworkKadRoutingTable::insert`: `some added` is `Ok(added)` and `none` the
`P2pNetworkKadRoutingTableInsertError`. -/
def insert (K : ℕ) (table : P2pNetworkKadRoutingTable Addr) (entry : P2pNetworkKadEntry Addr) :
    Option (Option Bool × P2pNetworkKadRoutingTable Addr) :=
  if entry.addrs.isEmpty then some (none, table)
  else do
    let index := (distance table.thisKey entry.key).toIndex
    let (result, buckets) ←
      insertLoop K table.thisKey entry index 258 (table.buckets.length - 1) table.buckets
    pure (result, { table with buckets })

def lookUp (table : P2pNetworkKadRoutingTable Addr) (key : P2pNetworkKadKey) :
    Option (Option (P2pNetworkKadEntry Addr)) := do
  let index := min (distance table.thisKey key).toIndex (table.buckets.length - 1)
  let bucket ← table.buckets[index]?
  pure (bucket.find? fun e => e.key == key)

end P2pNetworkKadRoutingTable

/-! ## Closest peers -/

def bucketIndexIterator (dist : P2pNetworkKadDist) (bucketsLen : ℕ) : List ℕ :=
  let (ones, zeroes) := (List.range bucketsLen).partition fun index => dist.getLsbD (255 - index)
  ones ++ zeroes.reverse

/-- `ClosestPeers::get_bucket_iter`: the bucket without the searched key and the own key,
sorted by distance to the searched key with a stable sort (`sort_by_cached_key`). -/
def getBucketIter (bucket : P2pNetworkKadBucket Addr) (key thisKey : P2pNetworkKadKey) :
    List (P2pNetworkKadEntry Addr) :=
  (bucket.filter fun e => e.key != key && e.key != thisKey).insertionSort
    fun a b => distance key a.key ≤ distance key b.key

/-- Everything `ClosestPeers` yields, bucket after bucket; `none` is the panic of the
`expect` on an empty table or of an index out of range. -/
def closestPeers (table : P2pNetworkKadRoutingTable Addr) (key : P2pNetworkKadKey) :
    Option (List (P2pNetworkKadEntry Addr)) := do
  let indices := bucketIndexIterator (distance table.thisKey key) table.buckets.length
  if indices.isEmpty then none
  let buckets ← indices.mapM fun index => table.buckets[index]?
  pure (buckets.flatMap fun bucket => getBucketIter bucket key table.thisKey)

def findNode (table : P2pNetworkKadRoutingTable Addr) (key : P2pNetworkKadKey) :
    Option (List (P2pNetworkKadEntry Addr)) :=
  (closestPeers table key).map (·.take 20)

/-! ## The table reads keys only through distances

XOR-ing the own key and every key with the same `t` changes no distance, so every
operation commutes with that translation. -/

section Translate

variable (t : P2pNetworkKadKey)

def P2pNetworkKadEntry.translate (entry : P2pNetworkKadEntry Addr) : P2pNetworkKadEntry Addr :=
  { entry with key := t ^^^ entry.key }

def P2pNetworkKadRoutingTable.translate (table : P2pNetworkKadRoutingTable Addr) :
    P2pNetworkKadRoutingTable Addr :=
  ⟨t ^^^ table.thisKey, table.buckets.map (List.map (P2pNetworkKadEntry.translate t))⟩

theorem xor_xor_cancel_left (a : BitVec 256) : t ^^^ (t ^^^ a) = a := by
  rw [← BitVec.xor_assoc, BitVec.xor_self, BitVec.zero_xor]

theorem distance_translate (a b : P2pNetworkKadKey) : distance (t ^^^ a) (t ^^^ b) = distance a b := by
  unfold distance
  rw [BitVec.xor_comm t a, BitVec.xor_assoc, xor_xor_cancel_left]

theorem translate_beq (a b : P2pNetworkKadKey) : (t ^^^ a == t ^^^ b) = (a == b) := by
  by_cases same : a = b
  · simp [same]
  · have moved : t ^^^ a ≠ t ^^^ b := fun equal => same (by
      rw [← xor_xor_cancel_left t a, equal, xor_xor_cancel_left])
    simp [same, moved]

theorem modify_map {α : Type} (f g h : α → α) (commutes : ∀ x, g (f x) = f (h x)) :
    ∀ (l : List α) (i : ℕ), (l.map f).modify i g = (l.modify i h).map f
  | [], _ => by simp
  | _ :: _, 0 => by simp [commutes]
  | a :: l, i + 1 => by simp [modify_map f g h commutes l i]

namespace P2pNetworkKadBucket

omit [DecidableEq Addr] in
theorem canInsert_translate (K : ℕ) (bucket : P2pNetworkKadBucket Addr) (entry : P2pNetworkKadEntry Addr) :
    canInsert K (bucket.map (P2pNetworkKadEntry.translate t)) (entry.translate t) =
      canInsert K bucket entry := by
  simp [canInsert, List.any_map, Function.comp_def, P2pNetworkKadEntry.translate, translate_beq]

theorem insert_translate (bucket : P2pNetworkKadBucket Addr) (entry : P2pNetworkKadEntry Addr) :
    insert (bucket.map (P2pNetworkKadEntry.translate t)) (entry.translate t) =
      ((insert bucket entry).1.map (P2pNetworkKadEntry.translate t), (insert bucket entry).2) := by
  have samePredicate : ((fun e : P2pNetworkKadEntry Addr => e.key == (entry.translate t).key) ∘
      P2pNetworkKadEntry.translate t) = fun e => e.key == entry.key := by
    funext e
    exact translate_beq t e.key entry.key
  unfold insert
  rw [List.findIdx?_map, samePredicate]
  cases bucket.findIdx? fun e => e.key == entry.key with
  | none => simp
  | some pos =>
    simp only [Prod.mk.injEq, and_true]
    apply modify_map
    intro e
    rfl

omit [DecidableEq Addr] in
theorem split_translate (bucket : P2pNetworkKadBucket Addr) (f f' : P2pNetworkKadEntry Addr → Bool)
    (same : ∀ e, f' (e.translate t) = f e) :
    split (bucket.map (P2pNetworkKadEntry.translate t)) f' =
      ((split bucket f).1.map (P2pNetworkKadEntry.translate t),
        (split bucket f).2.map (P2pNetworkKadEntry.translate t)) := by
  have composed : f' ∘ P2pNetworkKadEntry.translate t = f := funext same
  simp only [split, List.partition_eq_filter_filter, List.filter_map, Function.comp_assoc, composed]

end P2pNetworkKadBucket

namespace P2pNetworkKadRoutingTable

theorem insertLoop_translate (K : ℕ) (thisKey : P2pNetworkKadKey) (entry : P2pNetworkKadEntry Addr)
    (index : ℕ) :
    ∀ fuel maxIndex (buckets : List (P2pNetworkKadBucket Addr)),
      insertLoop K (t ^^^ thisKey) (entry.translate t) index fuel maxIndex
          (buckets.map (List.map (P2pNetworkKadEntry.translate t))) =
        (insertLoop K thisKey entry index fuel maxIndex buckets).map fun result =>
          (result.1, result.2.map (List.map (P2pNetworkKadEntry.translate t)))
  | 0, _, _ => rfl
  | fuel + 1, maxIndex, buckets => by
    have splitSame : ∀ e : P2pNetworkKadEntry Addr,
        decide (P2pNetworkKadDist.ofIndex (maxIndex + 1) ≤ distance (t ^^^ thisKey) (e.translate t).key) =
          decide (P2pNetworkKadDist.ofIndex (maxIndex + 1) ≤ distance thisKey e.key) := by
      intro e
      rw [P2pNetworkKadEntry.translate, distance_translate]
    unfold insertLoop
    split_ifs with below
    · rw [List.getElem?_map]
      cases buckets[index]? with
      | none => rfl
      | some bucket =>
        simp only [Option.map_some, Option.bind_eq_bind, Option.bind_some,
          P2pNetworkKadBucket.canInsert_translate, P2pNetworkKadBucket.insert_translate]
        split_ifs <;> simp [List.map_set]
    · rw [List.getElem?_map]
      cases buckets[maxIndex]? with
      | none => rfl
      | some last =>
        simp only [Option.map_some, Option.bind_eq_bind, Option.bind_some,
          P2pNetworkKadBucket.canInsert_translate, P2pNetworkKadBucket.insert_translate]
        split_ifs
        · simp [List.map_set]
        · rw [List.getLast?_map]
          cases buckets.getLast? with
          | none => rfl
          | some bucket =>
            simp only [Option.map_some]
            rw [P2pNetworkKadBucket.split_translate t bucket _ _ splitSame, ← List.map_dropLast]
            simpa only [List.map_append, List.map_cons, List.map_nil] using
              insertLoop_translate K thisKey entry index fuel (maxIndex + 1)
                (buckets.dropLast ++ [(bucket.split _).1, (bucket.split _).2])

theorem insert_translate (K : ℕ) (table : P2pNetworkKadRoutingTable Addr) (entry : P2pNetworkKadEntry Addr) :
    (table.translate t).insert K (entry.translate t) =
      (table.insert K entry).map fun result => (result.1, result.2.translate t) := by
  unfold insert
  have sameAddrs : (entry.translate t).addrs = entry.addrs := rfl
  rw [sameAddrs]
  split_ifs
  · rfl
  · simp only [P2pNetworkKadRoutingTable.translate, P2pNetworkKadEntry.translate, List.length_map]
    rw [distance_translate]
    rw [show ({ entry with key := t ^^^ entry.key } : P2pNetworkKadEntry Addr) = entry.translate t from rfl,
      insertLoop_translate]
    cases insertLoop K table.thisKey entry (distance table.thisKey entry.key).toIndex 258
      (table.buckets.length - 1) table.buckets <;> rfl

omit [DecidableEq Addr] in
theorem lookUp_translate (table : P2pNetworkKadRoutingTable Addr) (key : P2pNetworkKadKey) :
    (table.translate t).lookUp (t ^^^ key) =
      (table.lookUp key).map (Option.map (P2pNetworkKadEntry.translate t)) := by
  simp only [lookUp, P2pNetworkKadRoutingTable.translate, List.length_map, distance_translate,
    List.getElem?_map]
  cases table.buckets[min (distance table.thisKey key).toIndex (table.buckets.length - 1)]? with
  | none => rfl
  | some bucket =>
    simp [List.find?_map, Function.comp_def, P2pNetworkKadEntry.translate, translate_beq]

end P2pNetworkKadRoutingTable

omit [DecidableEq Addr] in
theorem getBucketIter_translate (bucket : P2pNetworkKadBucket Addr) (key thisKey : P2pNetworkKadKey) :
    getBucketIter (bucket.map (P2pNetworkKadEntry.translate t)) (t ^^^ key) (t ^^^ thisKey) =
      (getBucketIter bucket key thisKey).map (P2pNetworkKadEntry.translate t) := by
  have samePredicate : ((fun e : P2pNetworkKadEntry Addr => e.key != t ^^^ key && e.key != t ^^^ thisKey) ∘
      P2pNetworkKadEntry.translate t) = fun e => e.key != key && e.key != thisKey := by
    funext e
    simp only [Function.comp_apply, P2pNetworkKadEntry.translate, bne, translate_beq]
  unfold getBucketIter
  rw [List.filter_map, samePredicate]
  refine (List.map_insertionSort _ _ _ _ fun a _ b _ => ?_).symm
  simp only [P2pNetworkKadEntry.translate, distance_translate]

theorem mapM_getElem?_map {α β : Type} (f : α → β) (l : List α) :
    ∀ indices : List ℕ,
      indices.mapM (fun index => (l.map f)[index]?) = (indices.mapM fun index => l[index]?).map (List.map f)
  | [] => rfl
  | index :: rest => by
    rw [List.mapM_cons, List.mapM_cons, List.getElem?_map, mapM_getElem?_map f l rest]
    cases l[index]? <;> cases rest.mapM (fun index => l[index]?) <;> rfl

omit [DecidableEq Addr] in
theorem closestPeers_translate (table : P2pNetworkKadRoutingTable Addr) (key : P2pNetworkKadKey) :
    closestPeers (table.translate t) (t ^^^ key) =
      (closestPeers table key).map (List.map (P2pNetworkKadEntry.translate t)) := by
  simp only [closestPeers, P2pNetworkKadRoutingTable.translate, List.length_map, distance_translate]
  split_ifs
  · rfl
  · rw [mapM_getElem?_map]
    cases (bucketIndexIterator (distance table.thisKey key) table.buckets.length).mapM
        fun index => table.buckets[index]? with
    | none => rfl
    | some buckets =>
      simp only [Option.map_some, Option.bind_eq_bind, Option.bind_some, Option.pure_def,
        List.flatMap_map, getBucketIter_translate, List.map_flatMap]

end Translate

/-! ## Entries on the boundary of a split -/

/-! ## Runs of inserts -/

/-- Inserts the entries one after the other. -/
def insertAll (K : ℕ) (table : P2pNetworkKadRoutingTable Addr) :
    List (P2pNetworkKadEntry Addr) → Option (List (Option Bool) × P2pNetworkKadRoutingTable Addr)
  | [] => some ([], table)
  | entry :: rest => do
    let (result, table) ← table.insert K entry
    let (results, table) ← insertAll K table rest
    pure (result :: results, table)

theorem insertAll_translate (t : P2pNetworkKadKey) (K : ℕ) :
    ∀ (table : P2pNetworkKadRoutingTable Addr) (entries : List (P2pNetworkKadEntry Addr)),
      insertAll K (table.translate t) (entries.map (P2pNetworkKadEntry.translate t)) =
        (insertAll K table entries).map fun run => (run.1, run.2.translate t)
  | _, [] => rfl
  | table, entry :: rest => by
    simp only [List.map_cons, insertAll, P2pNetworkKadRoutingTable.insert_translate]
    cases table.insert K entry with
    | none => rfl
    | some inserted =>
      simp only [Option.map_some, Option.bind_eq_bind, Option.bind_some]
      rw [insertAll_translate t K inserted.2 rest]
      cases insertAll K inserted.2 rest <;> rfl

omit [DecidableEq Addr] in
theorem translate_injective (t : P2pNetworkKadKey) :
    Function.Injective
      (P2pNetworkKadEntry.translate t : P2pNetworkKadEntry Addr → P2pNetworkKadEntry Addr) := by
  intro a b same
  have keys : t ^^^ a.key = t ^^^ b.key := congrArg P2pNetworkKadEntry.key same
  have addrs : (a.translate t).addrs = (b.translate t).addrs := congrArg P2pNetworkKadEntry.addrs same
  have sameKey : a.key = b.key := by
    rw [← xor_xor_cancel_left t a.key, keys, xor_xor_cancel_left]
  cases a
  cases b
  simp only [P2pNetworkKadEntry.translate] at addrs sameKey
  rw [sameKey, addrs]

theorem insertAll_new_translate {K : ℕ} {own : P2pNetworkKadEntry Addr}
    {entries : List (P2pNetworkKadEntry Addr)}
    {run : List (Option Bool) × P2pNetworkKadRoutingTable Addr}
    (ran : insertAll K (P2pNetworkKadRoutingTable.new own) entries = some run) (t : P2pNetworkKadKey) :
    insertAll K (P2pNetworkKadRoutingTable.new (own.translate t))
        (entries.map (P2pNetworkKadEntry.translate t)) = some (run.1, run.2.translate t) := by
  have translated := insertAll_translate t K (P2pNetworkKadRoutingTable.new own) entries
  rw [ran, Option.map_some] at translated
  exact translated

def entryAt (d : ℕ) : P2pNetworkKadEntry Unit :=
  ⟨BitVec.ofNat 256 d, [()]⟩

def boundaryDistance : ℕ :=
  2 ^ 255 - 1

/-- An entry on the boundary of the first split, then nineteen close ones: the last of
them finds the bucket full (its own entry and nineteen others) and splits it. -/
def strandingRun : List (P2pNetworkKadEntry Unit) :=
  entryAt boundaryDistance :: (List.range 19).map fun i => entryAt (i + 1)

/-- For every own key, with `K = 20`: after the inserts of `strandingRun`, each of which
returns `Ok(true)`, `look_up` of the first entry's key finds nothing, since the split left
that entry in bucket 0 while its index is 1. -/
theorem look_up_misses_inserted_entry (thisKey : P2pNetworkKadKey) :
    ∃ table, insertAll 20 (P2pNetworkKadRoutingTable.new ((entryAt 0).translate thisKey))
        (strandingRun.map (P2pNetworkKadEntry.translate thisKey)) =
        some (List.replicate 20 (some true), table) ∧
      table.lookUp (thisKey ^^^ (entryAt boundaryDistance).key) = some none := by
  have results : (insertAll 20 (P2pNetworkKadRoutingTable.new (entryAt 0)) strandingRun).map (·.1) =
      some (List.replicate 20 (some true)) := by
    decide +kernel
  have missed : (insertAll 20 (P2pNetworkKadRoutingTable.new (entryAt 0)) strandingRun).bind
      (fun run => run.2.lookUp (entryAt boundaryDistance).key) = some none := by
    decide +kernel
  cases ran : insertAll 20 (P2pNetworkKadRoutingTable.new (entryAt 0)) strandingRun with
  | none => simp [ran] at results
  | some run =>
    simp only [ran, Option.map_some, Option.some.injEq, Option.bind_some] at results missed
    refine ⟨run.2.translate thisKey, ?_, ?_⟩
    · rw [insertAll_new_translate ran thisKey, results]
    · rw [P2pNetworkKadRoutingTable.lookUp_translate, missed]
      rfl

/-- `strandingRun` and the boundary entry once more: the bucket it should be in is full,
is split again, and takes it, so the key is in bucket 0 and in bucket 1. -/
def duplicatingRun : List (P2pNetworkKadEntry Unit) :=
  strandingRun ++ [entryAt boundaryDistance]

/-- For every own key, with `K = 20`: after the inserts of `duplicatingRun`, each of which
returns `Ok(true)`, `closest_peers` of the key at the greatest distance from the own key
yields the boundary entry twice. -/
theorem closest_peers_repeats_entry (thisKey : P2pNetworkKadKey) :
    ∃ table peers, insertAll 20 (P2pNetworkKadRoutingTable.new ((entryAt 0).translate thisKey))
        (duplicatingRun.map (P2pNetworkKadEntry.translate thisKey)) =
        some (List.replicate 21 (some true), table) ∧
      closestPeers table (thisKey ^^^ BitVec.allOnes 256) = some peers ∧
      peers.count ((entryAt boundaryDistance).translate thisKey) = 2 := by
  have results : (insertAll 20 (P2pNetworkKadRoutingTable.new (entryAt 0)) duplicatingRun).map (·.1) =
      some (List.replicate 21 (some true)) := by
    decide +kernel
  have twice : ((insertAll 20 (P2pNetworkKadRoutingTable.new (entryAt 0)) duplicatingRun).bind
      fun run => closestPeers run.2 (BitVec.allOnes 256)).map (·.count (entryAt boundaryDistance)) =
      some 2 := by
    decide +kernel
  cases ran : insertAll 20 (P2pNetworkKadRoutingTable.new (entryAt 0)) duplicatingRun with
  | none => simp [ran] at results
  | some run =>
    simp only [ran, Option.map_some, Option.some.injEq] at results
    rw [ran, Option.bind_some] at twice
    cases peersIs : closestPeers run.2 (BitVec.allOnes 256) with
    | none => rw [peersIs] at twice; cases twice
    | some peers =>
      rw [peersIs, Option.map_some, Option.some.injEq] at twice
      refine ⟨run.2.translate thisKey, peers.map (P2pNetworkKadEntry.translate thisKey), ?_, ?_, ?_⟩
      · rw [insertAll_new_translate ran thisKey, results]
      · rw [closestPeers_translate, peersIs]
        rfl
      · rw [List.count_map_of_injective _ _ (translate_injective thisKey), twice]

end Openmina.P2p.Kad
