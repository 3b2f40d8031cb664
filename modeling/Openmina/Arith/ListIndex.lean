import Mathlib

/-!
# Index-aware maps over lists

Loops of the form `iter().enumerate().map(..)` are `List.mapIdx`. Two facts are
used about them: a map before or after fuses into the indexed map, and an indexed map
that never increases an entry never increases the sum. Updates of one entry are
`List.modify`, invisible to a map that forgets the updated part. A search
`iter().enumerate().find_map(..)` is `List.findSome?` over `List.zipIdx`: it finds the
first position where the function gives a value.
-/

namespace Openmina.Arith.ListIndex

set_option autoImplicit false

theorem map_mapIdx {α β γ : Type} (values : List α) (f : ℕ → α → β) (g : β → γ) :
    (values.mapIdx f).map g = values.mapIdx fun i value => g (f i value) := by
  apply List.ext_getElem
  · simp
  · intro i _ _
    simp

theorem mapIdx_map {α β γ : Type} (values : List α) (g : α → β) (f : ℕ → β → γ) :
    (values.map g).mapIdx f = values.mapIdx fun i value => f i (g value) := by
  apply List.ext_getElem
  · simp
  · intro i _ _
    simp

theorem sum_mapIdx_le (values : List ℕ) (f : ℕ → ℕ → ℕ)
    (below : ∀ i value, f i value ≤ value) :
    (values.mapIdx f).sum ≤ values.sum := by
  induction values generalizing f with
  | nil => simp
  | cons value rest ih =>
      rw [List.mapIdx_cons, List.sum_cons, List.sum_cons]
      have head := below 0 value
      have tail := ih (fun i => f (i + 1)) (fun i value => below (i + 1) value)
      omega

theorem map_modify_of_forgets {α β : Type} (values : List α) (i : ℕ) (f : α → α) (g : α → β)
    (forgets : ∀ value, g (f value) = g value) : (values.modify i f).map g = values.map g := by
  apply List.ext_getElem?
  intro j
  simp only [List.getElem?_map, List.getElem?_modify]
  cases values[j]? with
  | none => rfl
  | some value =>
    by_cases same : i = j
    · simp [same, forgets]
    · simp [same]

theorem forall₂_getElem {α β : Type} {R : α → β → Prop} {as : List α} {bs : List β} (related : List.Forall₂ R as bs)
    {i : ℕ} (lt : i < as.length) (lt' : i < bs.length) : R as[i] bs[i] := by
  simpa using related.get lt lt'

theorem filterMap_eq_of_forall₂ {α β γ : Type} {R : α → β → Prop} (f : α → Option γ) (g : β → Option γ)
    (agrees : ∀ a b, R a b → g b = f a) :
    ∀ {as : List α} {bs : List β}, List.Forall₂ R as bs → bs.filterMap g = as.filterMap f
  | [], [], .nil => rfl
  | a :: as, b :: bs, .cons related rest => by
    rw [List.filterMap_cons, List.filterMap_cons, agrees a b related, filterMap_eq_of_forall₂ f g agrees rest]

theorem forall₂_of_mapM_eq_some {α β : Type} (f : α → Option β) :
    ∀ {as : List α} {bs : List β}, as.mapM f = some bs → List.Forall₂ (fun a b => f a = some b) as bs
  | [], bs, run => by
    simp only [List.mapM_nil, Option.pure_def, Option.some.injEq] at run
    subst run
    exact .nil
  | a :: as, bs, run => by
    simp only [List.mapM_cons, Option.bind_eq_bind, Option.bind_eq_some_iff, Option.pure_def, Option.some.injEq] at run
    obtain ⟨b, first, rest, restRun, rfl⟩ := run
    exact .cons first (forall₂_of_mapM_eq_some f restRun)

theorem forall₂_mapIdx {α β : Type} {R : α → β → Prop} (f : ℕ → α → β) (related : ∀ i a, R a (f i a))
    (l : List α) : List.Forall₂ R l (l.mapIdx f) := by
  apply List.forall₂_iff_get.mpr
  refine ⟨by simp, fun i lt lt' => ?_⟩
  simp only [List.get_eq_getElem, List.getElem_mapIdx]
  exact related i _

theorem foldl_zipIdx_eq_foldl {α γ : Type} (f : γ → α × ℕ → γ) (g : γ → α → γ) (values : List α)
    (start : ℕ) (init : γ) (ignores : ∀ c a i, start ≤ i → f c (a, i) = g c a) :
    (values.zipIdx start).foldl f init = values.foldl g init := by
  induction values generalizing start init with
  | nil => rfl
  | cons value rest ih =>
    rw [List.zipIdx_cons, List.foldl_cons, List.foldl_cons, ignores init value start le_rfl]
    exact ih (start + 1) _ fun c a i le => ignores c a i (by omega)

section Search

variable {α β : Type} (f : α × ℕ → Option β)

theorem findSome?_zipIdx_eq_some (values : List α) (start : ℕ) (b : β) :
    (values.zipIdx start).findSome? f = some b ↔
      ∃ k, ∃ lt : k < values.length, f (values[k], start + k) = some b ∧
        ∀ k' (lt' : k' < k), f (values[k'], start + k') = none := by
  induction values generalizing start with
  | nil => simp
  | cons value rest ih =>
    rw [List.zipIdx_cons, List.findSome?_cons]
    cases head : f (value, start) with
    | some c =>
      constructor
      · intro same
        refine ⟨0, by simp, by simpa [head] using same, fun k' lt' => absurd lt' (Nat.not_lt_zero k')⟩
      · rintro ⟨k, lt, found, earlier⟩
        cases k with
        | zero => simpa [head] using found
        | succ k =>
          have first := earlier 0 (Nat.succ_pos k)
          simp [head] at first
    | none =>
      simp only
      rw [ih (start + 1)]
      constructor
      · rintro ⟨k, lt, found, earlier⟩
        refine ⟨k + 1, by simpa using lt, by simpa [Nat.add_assoc, Nat.add_comm 1 k] using found, ?_⟩
        intro k' lt'
        cases k' with
        | zero => simpa using head
        | succ k' => simpa [Nat.add_assoc, Nat.add_comm 1 k'] using earlier k' (by omega)
      · rintro ⟨k, lt, found, earlier⟩
        cases k with
        | zero => simp [head] at found
        | succ k =>
          refine ⟨k, by simpa using lt, by simpa [Nat.add_assoc, Nat.add_comm 1 k] using found, ?_⟩
          intro k' lt'
          simpa [Nat.add_assoc, Nat.add_comm 1 k'] using earlier (k' + 1) (by omega)

theorem findSome?_zipIdx_eq_none (values : List α) (start : ℕ) :
    (values.zipIdx start).findSome? f = none ↔
      ∀ k (lt : k < values.length), f (values[k], start + k) = none := by
  induction values generalizing start with
  | nil => simp
  | cons value rest ih =>
    rw [List.zipIdx_cons, List.findSome?_cons]
    cases head : f (value, start) with
    | some c =>
      simp only [reduceCtorEq, false_iff, not_forall]
      exact ⟨0, by simp, by simp [head]⟩
    | none =>
      simp only
      rw [ih (start + 1)]
      constructor
      · intro rest k lt
        cases k with
        | zero => simpa using head
        | succ k => simpa [Nat.add_assoc, Nat.add_comm 1 k] using rest k (by simpa using lt)
      · intro all k lt
        have later := all (k + 1) (by simpa using lt)
        rw [List.getElem_cons_succ] at later
        simpa [Nat.add_assoc, Nat.add_comm 1 k] using later

end Search

end Openmina.Arith.ListIndex
