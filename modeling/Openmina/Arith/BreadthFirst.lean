import Mathlib

/-!
# Perfect binary trees laid out breadth first

The nodes of a perfect binary tree stored level by level in an array: node `i` has its
children at `2 * i + 1` and `2 * i + 2` and lies at depth `⌊log₂ (i + 1)⌋`, at position
`i + 1 - 2 ^ depth` of its level. A pass from the root hands every node a slice of the root's
input, each node splitting its slice between its two children (`sliceAt`). When the leaves
are filled from the left, the number of empty leaves under a node and before it
(`emptyIn`, `emptyBefore`) split the same way, so a pass that hands each child as many
items as it has empty leaves gives every empty leaf, in order, the next item.
-/

namespace Openmina.Arith.BreadthFirst

set_option autoImplicit false

def depthAt (index : ℕ) : ℕ :=
  Nat.log 2 (index + 1)

def positionAt (index : ℕ) : ℕ :=
  index + 1 - 2 ^ depthAt index

theorem depthAt_eq_iff {index depth : ℕ} :
    depthAt index = depth ↔ 2 ^ depth ≤ index + 1 ∧ index + 1 < 2 ^ (depth + 1) :=
  Nat.log_eq_iff (Or.inr ⟨by norm_num, by omega⟩)

theorem pow_depthAt_le (index : ℕ) : 2 ^ depthAt index ≤ index + 1 :=
  (depthAt_eq_iff.mp rfl).1

theorem lt_pow_depthAt (index : ℕ) : index + 1 < 2 ^ (depthAt index + 1) :=
  (depthAt_eq_iff.mp rfl).2

theorem depthAt_le_iff {index depth : ℕ} : depthAt index ≤ depth ↔ index + 1 < 2 ^ (depth + 1) := by
  rw [depthAt, ← Nat.lt_succ_iff, Nat.log_lt_iff_lt_pow (by norm_num) (by omega)]

theorem depthAt_zero : depthAt 0 = 0 := by
  simp [depthAt]

theorem depthAt_childLeft (index : ℕ) : depthAt (2 * index + 1) = depthAt index + 1 := by
  have low := pow_depthAt_le index
  have high := lt_pow_depthAt index
  apply depthAt_eq_iff.mpr
  rw [pow_succ, pow_succ 2 (depthAt index + 1)]
  omega

theorem depthAt_childRight (index : ℕ) : depthAt (2 * index + 2) = depthAt index + 1 := by
  have low := pow_depthAt_le index
  have high := lt_pow_depthAt index
  apply depthAt_eq_iff.mpr
  rw [pow_succ, pow_succ 2 (depthAt index + 1)]
  omega

theorem positionAt_childLeft (index : ℕ) : positionAt (2 * index + 1) = 2 * positionAt index := by
  have low := pow_depthAt_le index
  simp only [positionAt, depthAt_childLeft, pow_succ]
  omega

theorem positionAt_childRight (index : ℕ) : positionAt (2 * index + 2) = 2 * positionAt index + 1 := by
  have low := pow_depthAt_le index
  simp only [positionAt, depthAt_childRight, pow_succ]
  omega

theorem child_of_parent {index : ℕ} (positive : 0 < index) :
    index = 2 * ((index - 1) / 2) + 1 ∨ index = 2 * ((index - 1) / 2) + 2 := by
  omega

/-! ## Slices handed down from the root -/

section Slice

variable {J : Type} (split : ℕ → J → J × J) (jobs : J)

/-- The slice that reaches the node at `index` when the root gets `jobs` and the node at `i`
splits its slice with `split i` between its left and its right child. -/
def sliceAt : ℕ → J
  | 0 => jobs
  | index + 1 =>
    if index % 2 = 0 then (split (index / 2) (sliceAt (index / 2))).1
    else (split (index / 2) (sliceAt (index / 2))).2
decreasing_by all_goals omega

theorem sliceAt_zero : sliceAt split jobs 0 = jobs := by
  rw [sliceAt]

theorem sliceAt_childLeft (index : ℕ) :
    sliceAt split jobs (2 * index + 1) = (split index (sliceAt split jobs index)).1 := by
  rw [sliceAt]
  have even : 2 * index % 2 = 0 := by omega
  have half : 2 * index / 2 = index := by omega
  rw [if_pos even, half]

theorem sliceAt_childRight (index : ℕ) :
    sliceAt split jobs (2 * index + 2) = (split index (sliceAt split jobs index)).2 := by
  rw [sliceAt]
  have odd : ¬(2 * index + 1) % 2 = 0 := by omega
  have half : (2 * index + 1) / 2 = index := by omega
  rw [if_neg odd, half]

end Slice

/-! ## Leaves filled from the left -/

def emptyIn (filled height p : ℕ) : ℕ :=
  (p + 1) * 2 ^ height - max filled (p * 2 ^ height)

def emptyBefore (filled height p : ℕ) : ℕ :=
  p * 2 ^ height - filled

theorem emptyIn_succ (filled height p : ℕ) :
    emptyIn filled (height + 1) p = emptyIn filled height (2 * p) + emptyIn filled height (2 * p + 1) := by
  have first : p * 2 ^ (height + 1) = 2 * p * 2 ^ height := by ring
  have middle : (2 * p + 1) * 2 ^ height = 2 * p * 2 ^ height + 2 ^ height := by ring
  have last : (p + 1) * 2 ^ (height + 1) = 2 * p * 2 ^ height + 2 ^ height + 2 ^ height := by ring
  have second : (2 * p + 1 + 1) * 2 ^ height = 2 * p * 2 ^ height + 2 ^ height + 2 ^ height := by ring
  simp only [emptyIn, first, middle, last, second]
  omega

theorem emptyBefore_left (filled height p : ℕ) :
    emptyBefore filled height (2 * p) = emptyBefore filled (height + 1) p := by
  have same : 2 * p * 2 ^ height = p * 2 ^ (height + 1) := by ring
  rw [emptyBefore, emptyBefore, same]

theorem emptyBefore_right (filled height p : ℕ) :
    emptyBefore filled height (2 * p + 1) = emptyBefore filled (height + 1) p + emptyIn filled height (2 * p) := by
  have start : p * 2 ^ (height + 1) = 2 * (p * 2 ^ height) := by ring
  have left : 2 * p * 2 ^ height = 2 * (p * 2 ^ height) := by ring
  have next : (2 * p + 1) * 2 ^ height = 2 * (p * 2 ^ height) + 2 ^ height := by ring
  simp only [emptyBefore, emptyIn, start, left, next]
  generalize p * 2 ^ height = below
  generalize 2 ^ height = width
  omega

theorem emptyIn_zero (filled p : ℕ) : emptyIn filled 0 p = if filled ≤ p then 1 else 0 := by
  simp only [emptyIn, pow_zero, mul_one]
  split_ifs <;> omega

theorem emptyBefore_zero (filled p : ℕ) : emptyBefore filled 0 p = p - filled := by
  simp [emptyBefore]

theorem emptyIn_unfilled (height p : ℕ) : emptyIn 0 height p = 2 ^ height := by
  have next : (p + 1) * 2 ^ height = p * 2 ^ height + 2 ^ height := by ring
  simp [emptyIn, next]

theorem emptyIn_root (filled height : ℕ) : emptyIn filled height 0 = 2 ^ height - filled := by
  simp [emptyIn]

theorem emptyIn_add (filled extra height p : ℕ) :
    emptyIn (filled + extra) height p =
      emptyIn filled height p - min (emptyIn filled height p) (extra - emptyBefore filled height p) := by
  have next : (p + 1) * 2 ^ height = p * 2 ^ height + 2 ^ height := by ring
  simp only [emptyIn, emptyBefore, next]
  generalize p * 2 ^ height = below
  generalize 2 ^ height = width
  omega

theorem sliceAt_of_counts {α : Type} (data : List α) (last : ℕ) (count before : ℕ → ℕ)
    (split : ℕ → List α → List α × List α)
    (splits : ∀ i, 2 * i + 1 ≤ last →
      ∀ s, split i s = (s.take (count (2 * i + 1)), (s.drop (count (2 * i + 1))).take (count (2 * i + 2))))
    (sums : ∀ i, 2 * i + 1 ≤ last → count i = count (2 * i + 1) + count (2 * i + 2))
    (beforeLeft : ∀ i, 2 * i + 1 ≤ last → before (2 * i + 1) = before i)
    (beforeRight : ∀ i, 2 * i + 1 ≤ last → before (2 * i + 2) = before i + count (2 * i + 1))
    (fits : data.length ≤ count 0) (start : before 0 = 0) :
    ∀ index, index ≤ last → sliceAt split data index = (data.drop (before index)).take (count index) := by
  intro index
  induction index using Nat.strong_induction_on with
  | _ index ih =>
    intro within
    rcases Nat.eq_zero_or_pos index with root | positive
    · subst root
      rw [sliceAt_zero, start, List.drop_zero, List.take_of_length_le fits]
    · have parentBelow : (index - 1) / 2 < index := by omega
      rcases child_of_parent positive with left | right
      · have inner : 2 * ((index - 1) / 2) + 1 ≤ last := by omega
        have parentSlice := ih _ parentBelow (by omega)
        rw [left, sliceAt_childLeft, splits _ inner, parentSlice, beforeLeft _ inner, List.take_take,
          min_eq_left (by rw [sums _ inner]; omega)]
      · have inner : 2 * ((index - 1) / 2) + 1 ≤ last := by omega
        have parentSlice := ih _ parentBelow (by omega)
        rw [right, sliceAt_childRight, splits _ inner, parentSlice, beforeRight _ inner, sums _ inner]
        simp only [List.drop_take, List.take_take, List.drop_drop]
        congr 1
        omega

/-! ## Passes over the nodes in index order -/

/-- Two passes in `Option` over the same entries, whose states are related at every position
by `rel`, fail together or end related. -/
theorem foldlM_rel {α σ τ : Type} (entries : List α) (f : σ → α → Option σ) (g : τ → α → Option τ)
    (rel : ℕ → σ → τ → Prop)
    (step : ∀ k (lt : k < entries.length) s t, rel k s t →
      Option.Rel (rel (k + 1)) (f s entries[k]) (g t entries[k])) :
    ∀ s t, rel 0 s t → Option.Rel (rel entries.length) (entries.foldlM f s) (entries.foldlM g t) := by
  induction entries generalizing rel with
  | nil =>
    intro s t related
    exact Option.Rel.some related
  | cons entry entries ih =>
    intro s t related
    have first := step 0 (by simp) s t related
    rw [List.foldlM_cons, List.foldlM_cons]
    cases hf : f s entry <;> cases hg : g t entry <;> simp only [List.getElem_cons_zero, hf, hg] at first <;>
      cases first
    case none.none => exact Option.Rel.none
    case some.some s' t' next =>
      exact ih (fun k => rel (k + 1)) (fun k lt s t related => step (k + 1) (by simp; omega) s t related) s' t' next

theorem foldlM_invariant {α σ : Type} (entries : List α) (f : σ → α → Option σ) (inv : ℕ → σ → Prop)
    (step : ∀ k (lt : k < entries.length) s, inv k s → ∃ s', f s entries[k] = some s' ∧ inv (k + 1) s') :
    ∀ s, inv 0 s → ∃ s', entries.foldlM f s = some s' ∧ inv entries.length s' := by
  induction entries generalizing inv with
  | nil =>
    intro s holds
    exact ⟨s, rfl, holds⟩
  | cons entry entries ih =>
    intro s holds
    obtain ⟨next, first, holdsNext⟩ := step 0 (by simp) s holds
    simp only [List.getElem_cons_zero] at first
    rw [List.foldlM_cons, first]
    exact ih (fun k => inv (k + 1)) (fun k lt s holds => step (k + 1) (by simp; omega) s holds) next holdsNext

theorem foldlM_induction {α σ : Type} (entries : List α) (f : σ → α → Option σ) (inv : ℕ → σ → Prop)
    (step : ∀ k (lt : k < entries.length) s s', inv k s → f s entries[k] = some s' → inv (k + 1) s') :
    ∀ s s', inv 0 s → entries.foldlM f s = some s' → inv entries.length s' := by
  induction entries generalizing inv with
  | nil =>
    intro s s' holds run
    cases run
    exact holds
  | cons entry entries ih =>
    intro s s' holds run
    rw [List.foldlM_cons] at run
    cases first : f s entry with
    | none => simp [first] at run
    | some next =>
      rw [first] at run
      have holdsNext := step 0 (by simp) s next holds (by simpa using first)
      exact ih (fun k => inv (k + 1)) (fun k lt s s' holds => step (k + 1) (by simp; omega) s s' holds) next s'
        holdsNext run

theorem bind_eq_of_rel {σ τ γ : Type} {rel : σ → τ → Prop} {x : Option σ} {y : Option τ}
    (related : Option.Rel rel x y) (f : σ → Option γ) (g : τ → Option γ) (same : ∀ s t, rel s t → f s = g t) :
    x.bind f = y.bind g := by
  cases related with
  | none => rfl
  | some holds => exact same _ _ holds

end Openmina.Arith.BreadthFirst
