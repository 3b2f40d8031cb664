import Mathlib
import Openmina.Collections.SortedMap

/-!
# The distributed pool

`DistributedPool` of `core/src/distributed_pool.rs`. The states sit in `list` under the value
the counter had when each was inserted, and `by_key` maps the key of each state (`as_ref`,
here the parameter `asRef`) to that index. Peers page through `list` by index with
`next_messages_to_send`. `update` removes a state and inserts it again, under a fresh index;
`silent_update` changes it where it is. The serialized form keeps `counter` and `list`, and
reading it back collects `by_key` from `list`.

Every run of the operations that the snark pool makes keeps the two maps in bijection
(`Indexed`): `insert` of a state whose key the pool does not hold, `remove`, `update` and
`silent_update` and `retain_and_update` with closures that keep the key. The closures of
`update`, `silent_update` and `retain_and_update` are functions that return the changed
state and their result. The counter saturates at `u64::MAX`; an insert is made below it.
-/

namespace Openmina.Core

open Openmina.Collections

set_option autoImplicit false

def u64Max : ℕ := 2 ^ 64 - 1

structure DistributedPool (State Key : Type) [LinearOrder Key] where
  counter : ℕ
  list : SortedMap ℕ State
  byKey : SortedMap Key ℕ

namespace DistributedPool

variable {State Key : Type} [LinearOrder Key]

def default : DistributedPool State Key :=
  ⟨0, .empty, .empty⟩

def isEmpty (pool : DistributedPool State Key) : Bool :=
  pool.list.entries.isEmpty

def len (pool : DistributedPool State Key) : ℕ :=
  pool.list.entries.length

def contains (pool : DistributedPool State Key) (key : Key) : Bool :=
  match pool.byKey.get? key with
  | some index => (pool.list.get? index).isSome
  | none => false

def get (pool : DistributedPool State Key) (key : Key) : Option State :=
  (pool.byKey.get? key).bind pool.list.get?

def range (pool : DistributedPool State Key) (index : ℕ) : List (ℕ × State) :=
  pool.list.range index

def lastIndex (pool : DistributedPool State Key) : ℕ :=
  pool.list.lastKey?.getD 0

def states (pool : DistributedPool State Key) : List State :=
  pool.list.entries.map Prod.snd

def remove (pool : DistributedPool State Key) (key : Key) : Option State × DistributedPool State Key :=
  match pool.byKey.get? key with
  | none => (none, pool)
  | some index => (pool.list.get? index, { pool with byKey := pool.byKey.erase key, list := pool.list.erase index })

def silentUpdate {R : Type} (pool : DistributedPool State Key) (key : Key) (f : State → State × R) :
    Option R × DistributedPool State Key :=
  match pool.byKey.get? key with
  | none => (none, pool)
  | some index =>
    match pool.list.get? index with
    | none => (none, pool)
    | some state =>
      let result := f state
      (some result.2, { pool with list := pool.list.insert index result.1 })

/-- One entry of the `by_key.retain` of `retain_and_update`. A key whose index holds no
state is dropped (the `bug_condition!` only logs); otherwise the closure updates the state in
place and it is kept, or removed from `list`. -/
def retainStep (f : Key → State → Bool × State) (acc : SortedMap ℕ State × List (Key × ℕ))
    (entry : Key × ℕ) : SortedMap ℕ State × List (Key × ℕ) :=
  match acc.1.get? entry.2 with
  | none => acc
  | some state =>
    let result := f entry.1 state
    if result.1 then (acc.1.insert entry.2 result.2, acc.2 ++ [entry]) else (acc.1.erase entry.2, acc.2)

omit [LinearOrder Key] in
theorem retainStep_kept (f : Key → State → Bool × State) (acc : SortedMap ℕ State × List (Key × ℕ))
    (entry : Key × ℕ) : (retainStep f acc entry).2 = acc.2 ∨ (retainStep f acc entry).2 = acc.2 ++ [entry] := by
  unfold retainStep
  split
  · exact .inl rfl
  · dsimp only
    split_ifs
    · exact .inr rfl
    · exact .inl rfl

omit [LinearOrder Key] in
theorem foldl_retainStep_kept (f : Key → State → Bool × State) :
    ∀ (entries : List (Key × ℕ)) (acc : SortedMap ℕ State × List (Key × ℕ)),
      ∃ kept, kept.Sublist entries ∧ (entries.foldl (retainStep f) acc).2 = acc.2 ++ kept
  | [], acc => ⟨[], List.Sublist.slnil, by simp⟩
  | entry :: rest, acc => by
    obtain ⟨kept, sub, eq⟩ := foldl_retainStep_kept f rest (retainStep f acc entry)
    rw [List.foldl_cons, eq]
    rcases retainStep_kept f acc entry with same | added
    · exact ⟨kept, sub.cons entry, by rw [same]⟩
    · exact ⟨entry :: kept, sub.cons_cons entry, by rw [added, List.append_assoc, List.singleton_append]⟩

omit [LinearOrder Key] in
theorem retained_sublist (f : Key → State → Bool × State) (entries : List (Key × ℕ)) (list : SortedMap ℕ State) :
    (entries.foldl (retainStep f) (list, [])).2.Sublist entries := by
  obtain ⟨kept, sub, eq⟩ := foldl_retainStep_kept f entries (list, [])
  rw [eq, List.nil_append]
  exact sub

def retainAndUpdate (pool : DistributedPool State Key) (f : Key → State → Bool × State) :
    DistributedPool State Key :=
  let result := pool.byKey.entries.foldl (retainStep f) (pool.list, [])
  { pool with
    list := result.1
    byKey := ⟨result.2, pool.byKey.sorted.sublist (retained_sublist f pool.byKey.entries pool.list)⟩ }

def retain (pool : DistributedPool State Key) (f : Key → State → Bool) : DistributedPool State Key :=
  pool.retainAndUpdate fun key state => (f key state, state)

section AsRef

variable (asRef : State → Key)

def insert (pool : DistributedPool State Key) (state : State) : DistributedPool State Key :=
  let key := asRef state
  { counter := min (pool.counter + 1) u64Max
    list := pool.list.insert pool.counter state
    byKey := pool.byKey.insert key pool.counter }

def update {R : Type} (pool : DistributedPool State Key) (key : Key) (f : State → State × R) :
    Option R × DistributedPool State Key :=
  match pool.remove key with
  | (none, pool) => (none, pool)
  | (some state, pool) =>
    let result := f state
    (some result.2, pool.insert asRef result.1)

/-- The serialized pool: `counter` and `list`. -/
structure Pool (State : Type) where
  counter : ℕ
  list : SortedMap ℕ State

def serialize (pool : DistributedPool State Key) : Pool State :=
  ⟨pool.counter, pool.list⟩

def deserialize (v : Pool State) : DistributedPool State Key :=
  ⟨v.counter, v.list, SortedMap.ofList (v.list.entries.map fun entry => (asRef entry.2, entry.1))⟩

end AsRef

/-! ## The two maps in bijection -/

section Indexed

variable (asRef : State → Key)

/-- `by_key` and `list` in bijection through `asRef`, every index below the counter. -/
structure Indexed (pool : DistributedPool State Key) : Prop where
  located : ∀ key index, pool.byKey.get? key = some index →
    ∃ state, pool.list.get? index = some state ∧ asRef state = key
  keyed : ∀ index state, pool.list.get? index = some state → pool.byKey.get? (asRef state) = some index
  below : ∀ index state, pool.list.get? index = some state → index < pool.counter

/-- The operations of a run. The closures keep the key of the state they change. -/
inductive Step : DistributedPool State Key → DistributedPool State Key → Prop
  | insert {pool : DistributedPool State Key} (state : State) (fresh : pool.contains (asRef state) = false)
      (room : pool.counter < u64Max) : Step pool (pool.insert asRef state)
  | remove {pool : DistributedPool State Key} (key : Key) : Step pool (pool.remove key).2
  | update {pool : DistributedPool State Key} {R : Type} (key : Key) (f : State → State × R)
      (keeps : ∀ state, asRef (f state).1 = asRef state) (room : pool.counter < u64Max) :
      Step pool (pool.update asRef key f).2
  | silentUpdate {pool : DistributedPool State Key} {R : Type} (key : Key) (f : State → State × R)
      (keeps : ∀ state, asRef (f state).1 = asRef state) : Step pool (pool.silentUpdate key f).2
  | retainAndUpdate {pool : DistributedPool State Key} (f : Key → State → Bool × State)
      (keeps : ∀ key state, asRef (f key state).2 = asRef state) : Step pool (pool.retainAndUpdate f)

variable {asRef} {pool : DistributedPool State Key}

theorem indexed_default : (DistributedPool.default : DistributedPool State Key).Indexed asRef where
  located key index found := by simp [DistributedPool.default] at found
  keyed index state found := by simp [DistributedPool.default] at found
  below index state found := by simp [DistributedPool.default] at found

theorem Indexed.get?_eq_none (indexed : pool.Indexed asRef) {key : Key} (absent : pool.contains key = false) :
    pool.byKey.get? key = none := by
  cases found : pool.byKey.get? key with
  | none => rfl
  | some index =>
    obtain ⟨state, stored, -⟩ := indexed.located key index found
    simp [contains, found, stored] at absent

theorem Indexed.key_unique (indexed : pool.Indexed asRef) {key key' : Key} {index : ℕ}
    (found : pool.byKey.get? key = some index) (found' : pool.byKey.get? key' = some index) : key = key' := by
  obtain ⟨state, stored, keyOf⟩ := indexed.located key index found
  obtain ⟨state', stored', keyOf'⟩ := indexed.located key' index found'
  rw [stored] at stored'
  cases stored'
  rw [← keyOf, keyOf']

theorem Indexed.insert (indexed : pool.Indexed asRef) {state : State}
    (fresh : pool.contains (asRef state) = false) (room : pool.counter < u64Max) :
    (pool.insert asRef state).Indexed asRef := by
  have absent := indexed.get?_eq_none fresh
  have next : min (pool.counter + 1) u64Max = pool.counter + 1 := min_eq_left room
  constructor
  · intro key index found
    simp only [DistributedPool.insert, SortedMap.get?_insert] at found ⊢
    split_ifs at found with same
    · cases found
      exact ⟨state, by simp, same.symm⟩
    · obtain ⟨old, stored, keyOf⟩ := indexed.located key index found
      have ne : index ≠ pool.counter := ne_of_lt (indexed.below index old stored)
      exact ⟨old, by simp [ne, stored], keyOf⟩
  · intro index stored found
    simp only [DistributedPool.insert, SortedMap.get?_insert] at found ⊢
    split_ifs at found with same
    · cases found
      simp [same]
    · have keyed := indexed.keyed index stored found
      have ne : asRef stored ≠ asRef state := by
        intro eq
        rw [eq, absent] at keyed
        cases keyed
      simp [ne, keyed]
  · intro index stored found
    simp only [DistributedPool.insert, SortedMap.get?_insert, next] at found ⊢
    split_ifs at found with same
    · omega
    · have := indexed.below index stored found
      omega

theorem Indexed.remove (indexed : pool.Indexed asRef) (key : Key) : (pool.remove key).2.Indexed asRef := by
  unfold DistributedPool.remove
  cases found : pool.byKey.get? key with
  | none => exact indexed
  | some index =>
    constructor
    · intro key' index' found'
      simp only [SortedMap.get?_erase] at found' ⊢
      split_ifs at found' with same
      obtain ⟨state', stored', keyOf'⟩ := indexed.located key' index' found'
      have ne : index' ≠ index := by
        intro eq
        rw [eq] at found'
        exact same (indexed.key_unique found' found)
      exact ⟨state', by simp [ne, stored'], keyOf'⟩
    · intro index' state' stored'
      simp only [SortedMap.get?_erase] at stored' ⊢
      split_ifs at stored' with same
      have keyed := indexed.keyed index' state' stored'
      have ne : asRef state' ≠ key := by
        intro eq
        rw [eq, found] at keyed
        cases keyed
        exact same rfl
      simp [ne, keyed]
    · intro index' state' stored'
      simp only [SortedMap.get?_erase] at stored'
      split_ifs at stored'
      exact indexed.below index' state' stored'

theorem Indexed.remove_eq_some (indexed : pool.Indexed asRef) {key : Key} {state : State}
    {pool' : DistributedPool State Key} (removed : pool.remove key = (some state, pool')) :
    asRef state = key ∧ pool'.byKey.get? key = none ∧ pool'.counter = pool.counter := by
  unfold DistributedPool.remove at removed
  cases found : pool.byKey.get? key with
  | none => simp [found] at removed
  | some index =>
    simp only [found, Prod.mk.injEq] at removed
    obtain ⟨stored, rfl⟩ := removed
    obtain ⟨state', stored', keyOf⟩ := indexed.located key index found
    rw [stored] at stored'
    cases stored'
    exact ⟨keyOf, by simp, rfl⟩

theorem Indexed.update {R : Type} (indexed : pool.Indexed asRef) (key : Key) (f : State → State × R)
    (keeps : ∀ state, asRef (f state).1 = asRef state) (room : pool.counter < u64Max) :
    (pool.update asRef key f).2.Indexed asRef := by
  have removed := indexed.remove key
  unfold DistributedPool.update
  cases result : pool.remove key with
  | mk state? pool' =>
    rw [result] at removed
    cases state? with
    | none => exact removed
    | some state =>
      obtain ⟨keyOf, absent, counter⟩ := indexed.remove_eq_some result
      apply removed.insert
      · simp [contains, keeps, keyOf, absent]
      · rw [counter]
        exact room

theorem Indexed.silentUpdate {R : Type} (indexed : pool.Indexed asRef) (key : Key) (f : State → State × R)
    (keeps : ∀ state, asRef (f state).1 = asRef state) : (pool.silentUpdate key f).2.Indexed asRef := by
  unfold DistributedPool.silentUpdate
  cases found : pool.byKey.get? key with
  | none => exact indexed
  | some index =>
    dsimp only
    cases stored : pool.list.get? index with
    | none => exact indexed
    | some state =>
      dsimp only
      constructor
      · intro key' index' found'
        obtain ⟨state', stored', keyOf'⟩ := indexed.located key' index' found'
        simp only [SortedMap.get?_insert]
        split_ifs with same
        · subst same
          rw [stored] at stored'
          cases stored'
          exact ⟨(f state).1, rfl, by rw [keeps, keyOf']⟩
        · exact ⟨state', stored', keyOf'⟩
      · intro index' state' stored'
        simp only [SortedMap.get?_insert] at stored'
        split_ifs at stored' with same
        · cases stored'
          subst same
          rw [keeps]
          exact indexed.keyed _ state stored
        · exact indexed.keyed index' state' stored'
      · intro index' state' stored'
        simp only [SortedMap.get?_insert] at stored'
        split_ifs at stored' with same
        · subst same
          exact indexed.below _ state stored
        · exact indexed.below index' state' stored'

end Indexed

/-! ## What `retain_and_update` leaves -/

section Retain

variable (f : Key → State → Bool × State)

/-- Whether `retain_and_update` keeps a key, read from the list it starts from. -/
def retainDecision (list : SortedMap ℕ State) (entry : Key × ℕ) : Bool :=
  match list.get? entry.2 with
  | none => false
  | some state => (f entry.1 state).1

/-- What `retain_and_update` leaves at the index of a key. -/
def retainedAt (list : SortedMap ℕ State) (entry : Key × ℕ) : Option State :=
  match list.get? entry.2 with
  | none => none
  | some state => if (f entry.1 state).1 then some (f entry.1 state).2 else none

omit [LinearOrder Key] in
theorem retainStep_kept_eq (acc : SortedMap ℕ State × List (Key × ℕ)) (entry : Key × ℕ) :
    (retainStep f acc entry).2 = acc.2 ++ (if retainDecision f acc.1 entry then [entry] else []) := by
  unfold retainStep retainDecision
  cases acc.1.get? entry.2 with
  | none => simp
  | some state =>
    dsimp only
    split_ifs <;> simp

omit [LinearOrder Key] in
theorem get?_retainStep_self (acc : SortedMap ℕ State × List (Key × ℕ)) (entry : Key × ℕ) :
    (retainStep f acc entry).1.get? entry.2 = retainedAt f acc.1 entry := by
  unfold retainStep retainedAt
  cases stored : acc.1.get? entry.2 with
  | none => exact stored
  | some state =>
    dsimp only
    split_ifs <;> simp

omit [LinearOrder Key] in
theorem get?_retainStep_of_ne (acc : SortedMap ℕ State × List (Key × ℕ)) (entry : Key × ℕ) {index : ℕ}
    (ne : index ≠ entry.2) : (retainStep f acc entry).1.get? index = acc.1.get? index := by
  unfold retainStep
  cases acc.1.get? entry.2 with
  | none => rfl
  | some state =>
    dsimp only
    split_ifs <;> simp [ne]

omit [LinearOrder Key] in
theorem foldl_retainStep :
    ∀ (entries : List (Key × ℕ)), (entries.map Prod.snd).Nodup →
      ∀ (list : SortedMap ℕ State) (kept : List (Key × ℕ)),
        (entries.foldl (retainStep f) (list, kept)).2 = kept ++ entries.filter (retainDecision f list) ∧
        (∀ index ∉ entries.map Prod.snd, (entries.foldl (retainStep f) (list, kept)).1.get? index = list.get? index) ∧
        (∀ entry ∈ entries, (entries.foldl (retainStep f) (list, kept)).1.get? entry.2 = retainedAt f list entry)
  | [], _, list, kept => by simp
  | entry :: rest, distinct, list, kept => by
    rw [List.map_cons, List.nodup_cons] at distinct
    have untouched : ∀ other ∈ rest, other.2 ≠ entry.2 := fun other mem same =>
      distinct.1 (same ▸ List.mem_map_of_mem mem)
    have sameAt : ∀ other ∈ rest,
        (retainStep f (list, kept) entry).1.get? other.2 = list.get? other.2 := fun other mem =>
      get?_retainStep_of_ne f (list, kept) entry (untouched other mem)
    obtain ⟨keptEq, outside, inside⟩ :=
      foldl_retainStep rest distinct.2 (retainStep f (list, kept) entry).1 (retainStep f (list, kept) entry).2
    rw [List.foldl_cons]
    refine ⟨?_, ?_, ?_⟩
    · have decisions : rest.filter (retainDecision f (retainStep f (list, kept) entry).1) =
          rest.filter (retainDecision f list) := by
        apply List.filter_congr
        intro other mem
        simp only [retainDecision, sameAt other mem]
      rw [keptEq, decisions, retainStep_kept_eq, List.filter_cons]
      split_ifs <;> simp
    · intro index notIn
      rw [List.map_cons, List.mem_cons, not_or] at notIn
      rw [outside index notIn.2]
      exact get?_retainStep_of_ne f (list, kept) entry notIn.1
    · intro other mem
      rcases List.mem_cons.mp mem with here | there
      · subst here
        rw [outside other.2 distinct.1]
        exact get?_retainStep_self f (list, kept) other
      · rw [inside other there]
        simp only [retainedAt, sameAt other there]

end Retain

section IndexedRetain

variable {asRef : State → Key} {pool : DistributedPool State Key}

theorem Indexed.indices_nodup (indexed : pool.Indexed asRef) : (pool.byKey.entries.map Prod.snd).Nodup := by
  apply List.Nodup.map_on _ pool.byKey.keys_nodup
  intro entry mem entry' mem' same
  have found := (SortedMap.mem_entries_iff _ _ _).mp mem
  have found' := (SortedMap.mem_entries_iff _ _ _).mp mem'
  rw [same] at found
  have keys := indexed.key_unique found found'
  exact Prod.ext keys same

theorem Indexed.retainAndUpdate (indexed : pool.Indexed asRef) (f : Key → State → Bool × State)
    (keeps : ∀ key state, asRef (f key state).2 = asRef state) : (pool.retainAndUpdate f).Indexed asRef := by
  obtain ⟨keptEq, outside, inside⟩ := foldl_retainStep f pool.byKey.entries indexed.indices_nodup pool.list []
  have foundAfter : ∀ key index, (pool.retainAndUpdate f).byKey.get? key = some index ↔
      (key, index) ∈ pool.byKey.entries.filter (retainDecision f pool.list) := by
    intro key index
    rw [← SortedMap.mem_entries_iff]
    simp only [DistributedPool.retainAndUpdate, keptEq, List.nil_append]
  have listAfter : (pool.retainAndUpdate f).list = (pool.byKey.entries.foldl (retainStep f) (pool.list, [])).1 :=
    rfl
  constructor
  · intro key index found
    obtain ⟨mem, decided⟩ := List.mem_filter.mp ((foundAfter key index).mp found)
    obtain ⟨state, stored, keyOf⟩ := indexed.located key index ((SortedMap.mem_entries_iff _ _ _).mp mem)
    simp only [retainDecision, stored] at decided
    refine ⟨(f key state).2, ?_, by rw [keeps, keyOf]⟩
    rw [listAfter, inside (key, index) mem]
    simp [retainedAt, stored, decided]
  · intro index state stored
    rw [listAfter] at stored
    by_cases present : index ∈ pool.byKey.entries.map Prod.snd
    · obtain ⟨entry, mem, rfl⟩ := List.mem_map.mp present
      rw [inside entry mem] at stored
      unfold retainedAt at stored
      cases before : pool.list.get? entry.2 with
      | none => simp [before] at stored
      | some old =>
        simp only [before] at stored
        split_ifs at stored with decided
        cases stored
        have found := (SortedMap.mem_entries_iff _ _ _).mp mem
        obtain ⟨old', stored', keyOf⟩ := indexed.located entry.1 entry.2 found
        rw [before] at stored'
        cases stored'
        rw [keeps, keyOf, foundAfter]
        exact List.mem_filter.mpr ⟨mem, by simp [retainDecision, before, decided]⟩
    · rw [outside index present] at stored
      have found := indexed.keyed index state stored
      exact absurd (List.mem_map.mpr ⟨_, SortedMap.mem_of_get?_eq_some found, rfl⟩) present
  · intro index state stored
    rw [listAfter] at stored
    by_cases present : index ∈ pool.byKey.entries.map Prod.snd
    · obtain ⟨entry, mem, rfl⟩ := List.mem_map.mp present
      rw [inside entry mem] at stored
      unfold retainedAt at stored
      cases before : pool.list.get? entry.2 with
      | none => simp [before] at stored
      | some old => exact indexed.below entry.2 old before
    · rw [outside index present] at stored
      exact indexed.below index state stored

end IndexedRetain

/-! ## Runs -/

section Runs

variable {asRef : State → Key} {pool : DistributedPool State Key}

/-- Every run from the empty pool keeps the two maps in bijection. -/
theorem indexed_of_run (run : Relation.ReflTransGen (Step asRef) DistributedPool.default pool) :
    pool.Indexed asRef := by
  induction run with
  | refl => exact indexed_default
  | tail _ step indexed =>
    cases step with
    | insert state fresh room => exact indexed.insert fresh room
    | remove key => exact indexed.remove key
    | update key f keeps room => exact indexed.update key f keeps room
    | silentUpdate key f keeps => exact indexed.silentUpdate key f keeps
    | retainAndUpdate f keeps => exact indexed.retainAndUpdate f keeps

theorem Indexed.get_eq_some_iff (indexed : pool.Indexed asRef) (key : Key) (state : State) :
    pool.get key = some state ↔ ∃ index, (index, state) ∈ pool.list.entries ∧ asRef state = key := by
  simp only [DistributedPool.get, Option.bind_eq_some_iff, SortedMap.mem_entries_iff]
  constructor
  · rintro ⟨index, found, stored⟩
    obtain ⟨state', stored', keyOf⟩ := indexed.located key index found
    rw [stored] at stored'
    cases stored'
    exact ⟨index, stored, keyOf⟩
  · rintro ⟨index, stored, rfl⟩
    exact ⟨index, indexed.keyed index state stored, stored⟩

theorem Indexed.mem_collected_iff (indexed : pool.Indexed asRef) (key : Key) (index : ℕ) :
    (key, index) ∈ pool.list.entries.map (fun entry => (asRef entry.2, entry.1)) ↔
      pool.byKey.get? key = some index := by
  rw [List.mem_map]
  constructor
  · rintro ⟨entry, mem, same⟩
    simp only [Prod.mk.injEq] at same
    obtain ⟨rfl, rfl⟩ := same
    exact indexed.keyed entry.1 entry.2 ((SortedMap.mem_entries_iff _ _ _).mp mem)
  · intro found
    obtain ⟨state, stored, keyOf⟩ := indexed.located key index found
    exact ⟨(index, state), SortedMap.mem_of_get?_eq_some stored, by rw [keyOf]⟩

theorem Indexed.collected_keys_nodup (indexed : pool.Indexed asRef) :
    ((pool.list.entries.map fun entry => (asRef entry.2, entry.1)).map Prod.fst).Nodup := by
  rw [List.map_map]
  apply List.Nodup.map_on _ pool.list.keys_nodup
  intro entry mem entry' mem' same
  have keyed := indexed.keyed entry.1 entry.2 ((SortedMap.mem_entries_iff _ _ _).mp mem)
  have keyed' := indexed.keyed entry'.1 entry'.2 ((SortedMap.mem_entries_iff _ _ _).mp mem')
  simp only [Function.comp_apply] at same
  rw [same, keyed'] at keyed
  have indices : entry.1 = entry'.1 := (Option.some.inj keyed).symm
  apply Prod.ext indices
  have stored := (SortedMap.mem_entries_iff _ _ _).mp mem
  rw [indices, (SortedMap.mem_entries_iff _ _ _).mp mem'] at stored
  exact (Option.some.inj stored).symm

theorem Indexed.lookup_collected (indexed : pool.Indexed asRef) (key : Key) :
    (pool.list.entries.map fun entry => (asRef entry.2, entry.1)).reverse.lookup key = pool.byKey.get? key := by
  have distinct : ((pool.list.entries.map fun entry => (asRef entry.2, entry.1)).reverse.map Prod.fst).Nodup := by
    rw [List.map_reverse, List.nodup_reverse]
    exact indexed.collected_keys_nodup
  apply Option.ext
  intro index
  rw [SortedMap.lookup_eq_some_iff_mem distinct, List.mem_reverse, indexed.mem_collected_iff]

theorem Indexed.len_eq (indexed : pool.Indexed asRef) : pool.len = pool.byKey.entries.length := by
  have perm : (pool.list.entries.map fun entry => (asRef entry.2, entry.1)).Perm pool.byKey.entries := by
    apply (List.perm_ext_iff_of_nodup indexed.collected_keys_nodup.of_map pool.byKey.keys_nodup).mpr
    intro entry
    rw [indexed.mem_collected_iff entry.1 entry.2, SortedMap.mem_entries_iff]
  rw [len, ← perm.length_eq, List.length_map]

theorem Indexed.deserialize_serialize (indexed : pool.Indexed asRef) : deserialize asRef pool.serialize = pool := by
  have collected : SortedMap.ofList (pool.list.entries.map fun entry => (asRef entry.2, entry.1)) = pool.byKey := by
    apply SortedMap.ext
    intro key
    rw [SortedMap.get?_ofList, indexed.lookup_collected]
  simp only [deserialize, serialize, collected]

theorem update_eq {key : Key} {index : ℕ} {state : State}
    (found : pool.byKey.get? key = some index) (stored : pool.list.get? index = some state)
    {R : Type} (f : State → State × R) :
    pool.update asRef key f = (some (f state).2, (pool.remove key).2.insert asRef (f state).1) := by
  have removed : pool.remove key = (some state, (pool.remove key).2) := by
    simp [DistributedPool.remove, found, stored]
  unfold DistributedPool.update
  rw [removed]

theorem Indexed.update_entries (indexed : pool.Indexed asRef) {key : Key} {index : ℕ} {state : State}
    (found : pool.byKey.get? key = some index) (stored : pool.list.get? index = some state)
    {R : Type} (f : State → State × R) :
    (pool.update asRef key f).2.list.entries = (pool.list.erase index).entries ++ [(pool.counter, (f state).1)] := by
  rw [update_eq found stored]
  simp only [DistributedPool.insert, DistributedPool.remove, found]
  apply SortedMap.entries_insert_of_lt
  intro entry mem
  have inList : entry ∈ pool.list.entries := (List.mem_filter.mp mem).1
  exact indexed.below entry.1 entry.2 ((SortedMap.mem_entries_iff _ _ _).mp inList)

theorem Indexed.get_update (indexed : pool.Indexed asRef) {key : Key} {index : ℕ} {state : State}
    (found : pool.byKey.get? key = some index) (stored : pool.list.get? index = some state)
    {R : Type} (f : State → State × R) (keeps : ∀ state, asRef (f state).1 = asRef state) :
    (pool.update asRef key f).2.get key = some (f state).1 := by
  obtain ⟨state', stored', keyOf⟩ := indexed.located key index found
  rw [stored] at stored'
  cases stored'
  rw [update_eq found stored]
  simp [DistributedPool.get, DistributedPool.insert, DistributedPool.remove, found, keeps, keyOf]

theorem silentUpdate_eq {key : Key} {index : ℕ} {state : State}
    (found : pool.byKey.get? key = some index) (stored : pool.list.get? index = some state)
    {R : Type} (f : State → State × R) :
    pool.silentUpdate key f = (some (f state).2, { pool with list := pool.list.insert index (f state).1 }) := by
  simp [DistributedPool.silentUpdate, found, stored]

end Runs

/-! ## Paging -/

section Send

variable {T : Type} (extract : State → Option T) (limit : ℕ)

/-- The closure of the `try_fold` of `next_messages_to_send`; the error is the early exit
once `limit` messages are taken, with the first and the last index. -/
def sendStep (acc : List T × Option ℕ) (entry : ℕ × State) : Except (List T × ℕ × ℕ) (List T × Option ℕ) :=
  match extract entry.2 with
  | none => .ok acc
  | some data =>
    let firstIndex := acc.2.getD entry.1
    let list := acc.1 ++ [data]
    if limit ≤ list.length then .error (list, firstIndex, entry.1) else .ok (list, some firstIndex)

def nextMessagesToSend (pool : DistributedPool State Key) (index : ℕ) : List T × ℕ × ℕ :=
  if limit = 0 then
    ([], index - 1, index - 1)
  else
    match (pool.range index).foldlM (sendStep extract limit) ([], none) with
    | .ok (list, firstIndex) => (list, firstIndex.getD index, pool.lastIndex)
    | .error result => result

def firstMessage? (entries : List (ℕ × State)) : Option ℕ :=
  (entries.find? fun entry => (extract entry.2).isSome).map Prod.fst

end Send

section SendSpec

variable {T : Type} (extract : State → Option T) {limit : ℕ}

theorem foldlM_sendStep :
    ∀ (entries : List (ℕ × State)) (acc : List T) (first : Option ℕ), acc.length < limit →
      (entries.foldlM (sendStep extract limit) (acc, first) =
          .ok (acc ++ entries.filterMap (fun entry => extract entry.2), first.or (firstMessage? extract entries)) ∧
        (acc ++ entries.filterMap (fun entry => extract entry.2)).length < limit) ∨
      ∃ pre entry post data, entries = pre ++ entry :: post ∧ extract entry.2 = some data ∧
        (acc ++ pre.filterMap (fun entry => extract entry.2) ++ [data]).length = limit ∧
        entries.foldlM (sendStep extract limit) (acc, first) =
          .error (acc ++ pre.filterMap (fun entry => extract entry.2) ++ [data],
            (first.or (firstMessage? extract entries)).getD entry.1, entry.1)
  | [], acc, first, short => .inl ⟨by simp [firstMessage?]; rfl, by simpa using short⟩
  | entry :: rest, acc, first, short => by
    rw [List.foldlM_cons]
    cases message : extract entry.2 with
    | none =>
      have step : sendStep extract limit (acc, first) entry = pure (acc, first) := by
        simp [sendStep, message]
        rfl
      have skip : firstMessage? extract (entry :: rest) = firstMessage? extract rest := by
        simp [firstMessage?, message]
      rw [step, pure_bind, skip]
      rcases foldlM_sendStep rest acc first short with ⟨done, fits⟩ | ⟨pre, last, post, data, split, gives, full, stopped⟩
      · exact .inl ⟨by simp [done, message], by simpa [message] using fits⟩
      · refine .inr ⟨entry :: pre, last, post, data, by rw [split, List.cons_append], gives, ?_, ?_⟩
        · simpa [message] using full
        · simp [stopped, message]
    | some data =>
      have found : firstMessage? extract (entry :: rest) = some entry.1 := by
        simp [firstMessage?, message]
      by_cases fills : limit ≤ acc.length + 1
      · have step : sendStep extract limit (acc, first) entry = .error (acc ++ [data], first.getD entry.1, entry.1) := by
          simp [sendStep, message, fills]
        refine .inr ⟨[], entry, rest, data, rfl, message, ?_, ?_⟩
        · simp only [List.filterMap_nil, List.append_nil, List.length_append, List.length_singleton]
          omega
        · rw [step, found]
          simp only [List.filterMap_nil, List.append_nil]
          cases first <;> rfl
      · have step : sendStep extract limit (acc, first) entry = pure (acc ++ [data], some (first.getD entry.1)) := by
          simp [sendStep, message, fills]
          rfl
        rw [step, pure_bind]
        have room : (acc ++ [data]).length < limit := by
          simp only [List.length_append, List.length_singleton]
          omega
        rcases foldlM_sendStep rest (acc ++ [data]) (some (first.getD entry.1)) room with
          ⟨done, fits⟩ | ⟨pre, last, post, data', split, gives, full, stopped⟩
        · refine .inl ⟨?_, by simpa [message] using fits⟩
          rw [done, found]
          cases first <;> simp [message]
        · refine .inr ⟨entry :: pre, last, post, data', by rw [split, List.cons_append], gives, ?_, ?_⟩
          · simpa [message] using full
          · rw [stopped, found]
            cases first <;> simp [message]

theorem firstMessage?_isSome {entries : List (ℕ × State)}
    (some : entries.filterMap (fun entry => extract entry.2) ≠ []) : (firstMessage? extract entries).isSome := by
  obtain ⟨message, mem⟩ := List.exists_mem_of_ne_nil _ some
  obtain ⟨entry, inEntries, gives⟩ := List.mem_filterMap.mp mem
  simp only [firstMessage?, Option.isSome_map]
  exact List.find?_isSome.mpr ⟨entry, inEntries, by simp [gives]⟩

theorem le_lastIndex (pool : DistributedPool State Key) : ∀ entry ∈ pool.list.entries, entry.1 ≤ pool.lastIndex := by
  intro entry mem
  cases last : pool.list.lastKey? with
  | none =>
    have empty : pool.list.entries = [] := by
      simpa [SortedMap.lastKey?, List.getLast?_eq_none_iff] using last
    simp [empty] at mem
  | some index =>
    rw [lastIndex, last, Option.getD_some]
    exact SortedMap.le_lastKey? last entry mem

theorem filter_le_of_split {pre post : List (ℕ × State)} {entry : ℕ × State}
    (sorted : (pre ++ entry :: post).Pairwise (fun a b => a.1 < b.1)) :
    (pre ++ entry :: post).filter (fun other => other.1 ≤ entry.1) = pre ++ [entry] := by
  rw [List.pairwise_append] at sorted
  obtain ⟨-, after, across⟩ := sorted
  rw [List.pairwise_cons] at after
  have before : pre.filter (fun other => other.1 ≤ entry.1) = pre := by
    apply List.filter_eq_self.mpr
    intro other mem
    simpa using le_of_lt (across other mem entry List.mem_cons_self)
  have later : post.filter (fun other => other.1 ≤ entry.1) = [] := by
    apply List.filter_eq_nil_iff.mpr
    intro other mem
    simpa using after.1 other mem
  simp [List.filter_append, before, later]

/-- A page of `next_messages_to_send` with a positive limit: the messages of the entries from
`index` to the returned last index, in index order and with none skipped, at most `limit` of
them, and the first index is that of the first message. The page ends before the last index
of the pool only when it is full. -/
theorem nextMessagesToSend_spec (pool : DistributedPool State Key) (index : ℕ) (positive : 0 < limit)
    {messages : List T} {first last : ℕ}
    (sent : pool.nextMessagesToSend extract limit index = (messages, first, last)) :
    messages = ((pool.range index).filter (fun entry => entry.1 ≤ last)).filterMap (fun entry => extract entry.2) ∧
      messages.length ≤ limit ∧ (messages.length < limit → last = pool.lastIndex) ∧
      (messages ≠ [] → firstMessage? extract (pool.range index) = some first) := by
  have sorted : (pool.range index).Pairwise (fun a b => a.1 < b.1) := pool.list.sorted.sublist List.filter_sublist
  unfold nextMessagesToSend at sent
  rw [if_neg positive.ne'] at sent
  rcases foldlM_sendStep extract (pool.range index) [] none positive with
    ⟨done, fits⟩ | ⟨pre, entry, post, data, split, gives, full, stopped⟩
  · rw [done] at sent
    simp only [Option.none_or, List.nil_append, Prod.mk.injEq] at sent fits
    obtain ⟨rfl, rfl, rfl⟩ := sent
    have everything : (pool.range index).filter (fun entry => entry.1 ≤ pool.lastIndex) = pool.range index := by
      apply List.filter_eq_self.mpr
      intro entry mem
      simpa using pool.le_lastIndex entry (SortedMap.mem_range.mp mem).1
    refine ⟨by rw [everything], le_of_lt fits, fun _ => rfl, fun nonempty => ?_⟩
    obtain ⟨found, isFound⟩ := Option.isSome_iff_exists.mp (firstMessage?_isSome extract nonempty)
    rw [isFound, Option.getD_some]
  · rw [stopped] at sent
    simp only [Option.none_or, List.nil_append, Prod.mk.injEq] at sent full
    obtain ⟨rfl, rfl, rfl⟩ := sent
    have withEntry : firstMessage? extract (pool.range index) ≠ none := by
      apply Option.isSome_iff_ne_none.mp
      apply firstMessage?_isSome extract
      rw [split, List.filterMap_append, List.filterMap_cons, gives]
      simp
    refine ⟨?_, le_of_eq full, fun short => absurd full (ne_of_lt short), fun _ => ?_⟩
    · rw [split] at sorted ⊢
      rw [filter_le_of_split sorted, List.filterMap_append]
      simp [gives]
    · obtain ⟨found, isFound⟩ := Option.ne_none_iff_exists'.mp withEntry
      rw [isFound, Option.getD_some]

end SendSpec

/-! ## Reachable pools -/

section Reachable

variable {asRef : State → Key} {pool : DistributedPool State Key}

/-- In every reachable pool a key reads the one state of `list` that has it, `len` counts the
keys of `by_key`, and every index is below the counter. -/
theorem reachable_pool_indices_agree (run : Relation.ReflTransGen (Step asRef) DistributedPool.default pool) :
    (∀ key state, pool.get key = some state ↔ ∃ index, (index, state) ∈ pool.list.entries ∧ asRef state = key) ∧
      pool.len = pool.byKey.entries.length ∧ ∀ entry ∈ pool.list.entries, entry.1 < pool.counter := by
  have indexed := indexed_of_run run
  refine ⟨indexed.get_eq_some_iff, indexed.len_eq, fun entry mem => ?_⟩
  exact indexed.below entry.1 entry.2 ((SortedMap.mem_entries_iff _ _ _).mp mem)

/-- A reachable pool read back from its serialized form is the same pool. -/
theorem reachable_pool_serde_roundtrip (run : Relation.ReflTransGen (Step asRef) DistributedPool.default pool) :
    deserialize asRef pool.serialize = pool :=
  (indexed_of_run run).deserialize_serialize

/-- `update` moves a state to the end of `list`, under an index above every index a peer has
paged through, so that it is sent again; `silent_update` changes it in place. -/
theorem update_resends_silent_update_does_not
    (run : Relation.ReflTransGen (Step asRef) DistributedPool.default pool) {key : Key} {state : State}
    (found : pool.get key = some state) {R : Type} (f : State → State × R)
    (keeps : ∀ state, asRef (f state).1 = asRef state) :
    (∃ index, (index, state) ∈ pool.list.entries ∧
      (pool.update asRef key f).2.list.entries = (pool.list.erase index).entries ++ [(pool.counter, (f state).1)]) ∧
    (pool.update asRef key f).2.get key = some (f state).1 ∧
    (pool.silentUpdate key f).2.list.entries.map Prod.fst = pool.list.entries.map Prod.fst ∧
    (pool.silentUpdate key f).2.get key = some (f state).1 := by
  have indexed := indexed_of_run run
  obtain ⟨index, foundIndex, stored⟩ := Option.bind_eq_some_iff.mp found
  refine ⟨⟨index, SortedMap.mem_of_get?_eq_some stored, indexed.update_entries foundIndex stored f⟩,
    indexed.get_update foundIndex stored f keeps, ?_, ?_⟩
  · rw [silentUpdate_eq foundIndex stored]
    exact SortedMap.keys_insert_of_get? stored _
  · rw [silentUpdate_eq foundIndex stored]
    simp [DistributedPool.get, foundIndex]

end Reachable

def twoJobs : DistributedPool (ℕ × ℕ) ℕ :=
  ((((DistributedPool.default.insert Prod.fst (1, 0)).insert Prod.fst (2, 0)).update Prod.fst 1
    fun job => ((job.1, job.2 + 1), ())).2.retain fun key _ => key == 1)

theorem twoJobs_run : Relation.ReflTransGen (Step Prod.fst) DistributedPool.default twoJobs := by
  unfold twoJobs retain
  apply Relation.ReflTransGen.tail _ (Step.retainAndUpdate _ fun _ _ => rfl)
  apply Relation.ReflTransGen.tail _ (Step.update 1 _ (fun _ => rfl) (by decide))
  apply Relation.ReflTransGen.tail _ (Step.insert (2, 0) (by decide) (by decide))
  apply Relation.ReflTransGen.tail _ (Step.insert (1, 0) rfl (by decide))
  exact Relation.ReflTransGen.refl

theorem reachable_pool_indices_agree_twoJobs :
    (∀ key state, twoJobs.get key = some state ↔
      ∃ index, (index, state) ∈ twoJobs.list.entries ∧ state.1 = key) ∧
      twoJobs.len = twoJobs.byKey.entries.length ∧ ∀ entry ∈ twoJobs.list.entries, entry.1 < twoJobs.counter :=
  reachable_pool_indices_agree twoJobs_run

theorem reachable_pool_serde_roundtrip_twoJobs : deserialize Prod.fst twoJobs.serialize = twoJobs :=
  reachable_pool_serde_roundtrip twoJobs_run

theorem update_resends_silent_update_does_not_twoJobs :
    (∃ index, (index, ((1, 1) : ℕ × ℕ)) ∈ twoJobs.list.entries ∧
      (twoJobs.update Prod.fst 1 fun job => ((job.1, job.2 + 1), ())).2.list.entries =
        (twoJobs.list.erase index).entries ++ [(twoJobs.counter, (1, 2))]) ∧
    (twoJobs.update Prod.fst 1 fun job => ((job.1, job.2 + 1), ())).2.get 1 = some (1, 2) ∧
    (twoJobs.silentUpdate 1 fun job => ((job.1, job.2 + 1), ())).2.list.entries.map Prod.fst =
      twoJobs.list.entries.map Prod.fst ∧
    (twoJobs.silentUpdate 1 fun job => ((job.1, job.2 + 1), ())).2.get 1 = some (1, 2) :=
  update_resends_silent_update_does_not twoJobs_run (by decide) _ fun _ => rfl

def snarked (job : ℕ × ℕ) : Option ℕ :=
  if 0 < job.2 then some job.1 else none

theorem nextMessagesToSend_spec_twoJobs :
    [1] = ((twoJobs.range 0).filter (fun entry => entry.1 ≤ 2)).filterMap (fun entry => snarked entry.2) ∧
      [1].length ≤ 1 ∧ ([1].length < 1 → 2 = twoJobs.lastIndex) ∧
      ([1] ≠ [] → firstMessage? snarked (twoJobs.range 0) = some 2) :=
  nextMessagesToSend_spec snarked twoJobs 0 (by decide : 0 < 1)
    (by decide : twoJobs.nextMessagesToSend snarked 1 0 = ([1], 2, 2))

end DistributedPool

end Openmina.Core
