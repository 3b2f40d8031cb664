import Mathlib

/-!
# Maps kept sorted by key

An ordered map (a `BTreeMap`) as the list of its entries in increasing key order. The order
is a field, so a map iterates its keys in order and holds each key once. `insert` replaces the
value of an equal key in one pass, `erase` filters the key out, and lookups are `List.lookup`.
Two maps with the same lookups are equal.
-/

namespace Openmina.Collections

set_option autoImplicit false

structure SortedMap (K V : Type) [LinearOrder K] where
  entries : List (K × V)
  sorted : entries.Pairwise (fun a b => a.1 < b.1)

namespace SortedMap

variable {K V : Type} [LinearOrder K]

def insertList (k : K) (v : V) : List (K × V) → List (K × V)
  | [] => [(k, v)]
  | (k', v') :: rest =>
    if k < k' then (k, v) :: (k', v') :: rest
    else if k = k' then (k, v) :: rest
    else (k', v') :: insertList k v rest

theorem mem_insertList {k : K} {v : V} {entry : K × V} :
    ∀ {l : List (K × V)}, entry ∈ insertList k v l → entry = (k, v) ∨ entry ∈ l
  | [], mem => by simpa [insertList] using mem
  | (k', v') :: rest, mem => by
    simp only [insertList] at mem
    split_ifs at mem
    · simpa using mem
    · simp only [List.mem_cons] at mem
      rcases mem with same | inRest
      · exact .inl same
      · exact .inr (List.mem_cons_of_mem _ inRest)
    · simp only [List.mem_cons] at mem
      rcases mem with head | inRest
      · exact .inr (head ▸ List.mem_cons_self)
      · rcases mem_insertList inRest with new | old
        · exact .inl new
        · exact .inr (List.mem_cons_of_mem _ old)

theorem insertList_sorted (k : K) (v : V) :
    ∀ {l : List (K × V)}, l.Pairwise (fun a b => a.1 < b.1) →
      (insertList k v l).Pairwise (fun a b => a.1 < b.1)
  | [], _ => by simp [insertList]
  | (k', v') :: rest, sorted => by
    rw [List.pairwise_cons] at sorted
    simp only [insertList]
    split_ifs with lt eq
    · apply List.Pairwise.cons _ (List.Pairwise.cons sorted.1 sorted.2)
      intro entry mem
      rcases List.mem_cons.mp mem with head | inRest
      · rw [head]
        exact lt
      · exact lt_trans lt (sorted.1 entry inRest)
    · apply List.Pairwise.cons _ sorted.2
      intro entry inRest
      rw [eq]
      exact sorted.1 entry inRest
    · apply List.Pairwise.cons _ (insertList_sorted k v sorted.2)
      intro entry mem
      rcases mem_insertList mem with new | old
      · rw [new]
        exact lt_of_le_of_ne (not_lt.mp lt) (Ne.symm eq)
      · exact sorted.1 entry old

@[simp] theorem lookup_cons_ite (k k' : K) (v' : V) (l : List (K × V)) :
    ((k', v') :: l).lookup k = if k = k' then some v' else l.lookup k := by
  by_cases same : k = k'
  · simp [same]
  · have differ : (k == k') = false := beq_false_of_ne same
    simp [List.lookup_cons, differ, same]

theorem lookup_insertList (k : K) (v : V) (k' : K) :
    ∀ l : List (K × V), (insertList k v l).lookup k' = if k' = k then some v else l.lookup k'
  | [] => by by_cases same : k' = k <;> simp [insertList, same]
  | (k'', v'') :: rest => by
    by_cases lt : k < k''
    · rw [insertList, if_pos lt]
      by_cases same : k' = k <;> simp [same]
    · by_cases eq : k = k''
      · rw [insertList, if_neg lt, if_pos eq]
        subst eq
        by_cases same : k' = k <;> simp [same]
      · rw [insertList, if_neg lt, if_neg eq, lookup_cons_ite, lookup_insertList k v k' rest,
          lookup_cons_ite]
        by_cases same : k' = k
        · simp [same, eq]
        · simp [same]

def empty : SortedMap K V :=
  ⟨[], List.Pairwise.nil⟩

def get? (m : SortedMap K V) (k : K) : Option V :=
  m.entries.lookup k

def insert (m : SortedMap K V) (k : K) (v : V) : SortedMap K V :=
  ⟨insertList k v m.entries, insertList_sorted k v m.sorted⟩

def erase (m : SortedMap K V) (k : K) : SortedMap K V :=
  ⟨m.entries.filter (fun entry => entry.1 != k), m.sorted.sublist List.filter_sublist⟩

def range (m : SortedMap K V) (lo : K) : List (K × V) :=
  m.entries.filter (fun entry => lo ≤ entry.1)

def lastKey? (m : SortedMap K V) : Option K :=
  m.entries.getLast?.map Prod.fst

def ofList (l : List (K × V)) : SortedMap K V :=
  l.foldl (fun m entry => m.insert entry.1 entry.2) empty

@[simp] theorem get?_empty (k : K) : (empty : SortedMap K V).get? k = none :=
  rfl

@[simp] theorem get?_insert (m : SortedMap K V) (k : K) (v : V) (k' : K) :
    (m.insert k v).get? k' = if k' = k then some v else m.get? k' :=
  lookup_insertList k v k' m.entries

theorem lookup_filter_ne (k k' : K) :
    ∀ l : List (K × V), (l.filter (fun entry => entry.1 != k)).lookup k' = if k' = k then none else l.lookup k'
  | [] => by simp
  | (k'', v'') :: rest => by
    have ih := lookup_filter_ne k k' rest
    by_cases drop : k'' = k
    · have filtered : ((k'', v'') :: rest).filter (fun entry => entry.1 != k) =
          rest.filter (fun entry => entry.1 != k) := by
        simp [drop]
      rw [filtered, ih, lookup_cons_ite]
      by_cases same : k' = k
      · simp [same]
      · have other : k' ≠ k'' := by
          rw [drop]
          exact same
        simp [same, other]
    · have filtered : ((k'', v'') :: rest).filter (fun entry => entry.1 != k) =
          (k'', v'') :: rest.filter (fun entry => entry.1 != k) := by
        simp [drop]
      rw [filtered, lookup_cons_ite, ih, lookup_cons_ite]
      by_cases same : k' = k
      · have other : k ≠ k'' := fun here => drop here.symm
        simp [same, other]
      · simp [same]

@[simp] theorem get?_erase (m : SortedMap K V) (k k' : K) :
    (m.erase k).get? k' = if k' = k then none else m.get? k' :=
  lookup_filter_ne k k' m.entries

theorem lookup_eq_none_of_lt {k : K} :
    ∀ {l : List (K × V)}, (∀ entry ∈ l, k < entry.1) → l.lookup k = none
  | [], _ => rfl
  | (k', v') :: rest, above => by
    have ne : k ≠ k' := ne_of_lt (above (k', v') List.mem_cons_self)
    rw [lookup_cons_ite, if_neg ne]
    exact lookup_eq_none_of_lt fun entry mem => above entry (List.mem_cons_of_mem _ mem)

theorem lookup_eq_some_iff_mem {k : K} {v : V} :
    ∀ {l : List (K × V)}, (l.map Prod.fst).Nodup → (l.lookup k = some v ↔ (k, v) ∈ l)
  | [], _ => by simp
  | (k', v') :: rest, distinct => by
    rw [List.map_cons, List.nodup_cons] at distinct
    rw [lookup_cons_ite, List.mem_cons]
    by_cases same : k = k'
    · subst same
      have notInRest : (k, v) ∉ rest := fun mem => distinct.1 (List.mem_map.mpr ⟨(k, v), mem, rfl⟩)
      simp [notInRest, eq_comm]
    · have ne : (k, v) ≠ (k', v') := fun eq => same (Prod.mk.inj eq).1
      simp [same, ne, lookup_eq_some_iff_mem distinct.2]

theorem mem_entries_iff (m : SortedMap K V) (k : K) (v : V) : (k, v) ∈ m.entries ↔ m.get? k = some v := by
  obtain ⟨entries, sorted⟩ := m
  simp only [get?]
  induction entries with
  | nil => simp
  | cons head rest ih =>
    obtain ⟨k', v'⟩ := head
    rw [List.pairwise_cons] at sorted
    by_cases same : k = k'
    · subst same
      have absent : rest.lookup k = none := lookup_eq_none_of_lt sorted.1
      have notInRest : (k, v) ∉ rest := fun mem => by
        have := sorted.1 (k, v) mem
        exact lt_irrefl _ this
      simp [notInRest, eq_comm]
    · have ne : (k, v) ≠ (k', v') := fun eq => same (Prod.mk.inj eq).1
      simp [same, ne, ih sorted.2]

theorem mem_of_get?_eq_some {m : SortedMap K V} {k : K} {v : V} (found : m.get? k = some v) :
    (k, v) ∈ m.entries :=
  (mem_entries_iff m k v).mpr found

theorem keys_nodup (m : SortedMap K V) : m.entries.Nodup :=
  m.sorted.imp fun lt same => ne_of_lt lt (congrArg Prod.fst same)

theorem ext {m m' : SortedMap K V} (same : ∀ k, m.get? k = m'.get? k) : m = m' := by
  have members : ∀ entry, entry ∈ m.entries ↔ entry ∈ m'.entries := by
    intro entry
    rw [mem_entries_iff, mem_entries_iff, same]
  have perm := (List.perm_ext_iff_of_nodup m.keys_nodup m'.keys_nodup).mpr members
  have entries : m.entries = m'.entries :=
    perm.eq_of_pairwise (fun a b _ _ lt gt => absurd (lt_trans lt gt) (lt_irrefl _)) m.sorted m'.sorted
  cases m
  cases m'
  simp only at entries
  subst entries
  rfl

theorem mem_range {m : SortedMap K V} {lo : K} {entry : K × V} :
    entry ∈ m.range lo ↔ entry ∈ m.entries ∧ lo ≤ entry.1 := by
  simp [range]

theorem le_lastKey? {m : SortedMap K V} {last : K} (isLast : m.lastKey? = some last) :
    ∀ entry ∈ m.entries, entry.1 ≤ last := by
  obtain ⟨lastEntry, found, rfl⟩ := Option.map_eq_some_iff.mp isLast
  obtain ⟨front, split⟩ := List.getLast?_eq_some_iff.mp found
  have sorted := m.sorted
  rw [split, List.pairwise_append] at sorted
  intro entry mem
  rw [split, List.mem_append] at mem
  rcases mem with inFront | isLast
  · exact le_of_lt (sorted.2.2 entry inFront lastEntry (List.mem_singleton_self lastEntry))
  · rw [List.mem_singleton.mp isLast]

theorem get?_foldl_insert (k : K) :
    ∀ (l : List (K × V)) (m : SortedMap K V),
      (l.foldl (fun m entry => m.insert entry.1 entry.2) m).get? k = (l.reverse.lookup k).or (m.get? k)
  | [], m => by simp
  | (k', v') :: rest, m => by
    rw [List.foldl_cons, get?_foldl_insert k rest, List.reverse_cons, List.lookup_append, get?_insert]
    by_cases same : k = k' <;> simp [same]

theorem get?_ofList (l : List (K × V)) (k : K) : (ofList l).get? k = l.reverse.lookup k := by
  simp [ofList, get?_foldl_insert]

theorem insertList_of_lt {k : K} (v : V) :
    ∀ {l : List (K × V)}, (∀ entry ∈ l, entry.1 < k) → insertList k v l = l ++ [(k, v)]
  | [], _ => rfl
  | (k', v') :: rest, above => by
    have lt : k' < k := above (k', v') List.mem_cons_self
    rw [insertList, if_neg (not_lt.mpr (le_of_lt lt)), if_neg (ne_of_gt lt),
      insertList_of_lt v fun entry mem => above entry (List.mem_cons_of_mem _ mem)]
    rfl

theorem entries_insert_of_lt {m : SortedMap K V} {k : K} (above : ∀ entry ∈ m.entries, entry.1 < k) (v : V) :
    (m.insert k v).entries = m.entries ++ [(k, v)] :=
  insertList_of_lt v above

theorem keys_insertList {k : K} {v : V} (v' : V) :
    ∀ {l : List (K × V)}, l.Pairwise (fun a b => a.1 < b.1) → l.lookup k = some v →
      (insertList k v' l).map Prod.fst = l.map Prod.fst
  | [], _, present => by simp at present
  | (k', v'') :: rest, sorted, present => by
    rw [List.pairwise_cons] at sorted
    rw [lookup_cons_ite] at present
    by_cases same : k = k'
    · rw [insertList, if_neg (not_lt.mpr (le_of_eq same.symm)), if_pos same]
      simp [same]
    · rw [if_neg same] at present
      have notLt : ¬k < k' := by
        intro lt
        have absent : rest.lookup k = none :=
          lookup_eq_none_of_lt fun entry mem => lt_trans lt (sorted.1 entry mem)
        rw [absent] at present
        cases present
      rw [insertList, if_neg notLt, if_neg same]
      simp [keys_insertList v' sorted.2 present]

theorem keys_insert_of_get? {m : SortedMap K V} {k : K} {v : V} (present : m.get? k = some v) (v' : V) :
    (m.insert k v').entries.map Prod.fst = m.entries.map Prod.fst :=
  keys_insertList v' m.sorted present

end SortedMap

end Openmina.Collections
