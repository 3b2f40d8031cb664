import Mathlib

/-!
# Weighted totals of finite maps

The total of a finite map under a weight of its values, and how one insertion moves
it: the weight stored at the key leaves the total and the weight of the new value
enters it.
-/

namespace Openmina.Arith.FinmapTotal

set_option autoImplicit false

variable {α β : Type} [DecidableEq α] (w : β → ℤ)

def total (m : Finmap fun _ : α => β) : ℤ :=
  (m.entries.map fun entry => w entry.2).sum

def weightAt (m : Finmap fun _ : α => β) (a : α) : ℤ :=
  ((m.lookup a).map w).getD 0

@[simp] theorem weightAt_insert_self (m : Finmap fun _ : α => β) (a : α) (b : β) :
    weightAt w (m.insert a b) a = w b := by
  simp [weightAt]

@[simp] theorem weightAt_insert_of_ne (m : Finmap fun _ : α => β) {a a' : α} (b : β)
    (other : a' ≠ a) : weightAt w (m.insert a b) a' = weightAt w m a' := by
  simp [weightAt, Finmap.lookup_insert_of_ne _ other]

theorem weightAt_of_lookup (m : Finmap fun _ : α => β) {a : α} {b : β}
    (found : m.lookup a = some b) : weightAt w m a = w b := by
  simp [weightAt, found]

theorem weightAt_of_lookup_eq_none (m : Finmap fun _ : α => β) {a : α}
    (absent : m.lookup a = none) : weightAt w m a = 0 := by
  simp [weightAt, absent]

theorem total_insert_of_notMem {m : Finmap fun _ : α => β} {a : α} (b : β) (fresh : a ∉ m) :
    total w (m.insert a b) = w b + total w m := by
  rw [total, total, Finmap.entries_insert_of_notMem fresh, Multiset.map_cons, Multiset.sum_cons]

theorem insert_erase_self (m : Finmap fun _ : α => β) (a : α) (b : β) :
    (m.erase a).insert a b = m.insert a b := by
  apply Finmap.ext_lookup
  intro x
  by_cases same : x = a
  · subst same
    simp
  · rw [Finmap.lookup_insert_of_ne _ same, Finmap.lookup_insert_of_ne _ same,
      Finmap.lookup_erase_ne same]

theorem total_eq_weightAt_add_erase (m : Finmap fun _ : α => β) (a : α) :
    total w m = weightAt w m a + total w (m.erase a) := by
  cases found : m.lookup a with
  | none =>
    have unchanged : m.erase a = m := by
      apply Finmap.ext_lookup
      intro x
      by_cases same : x = a
      · subst same
        rw [Finmap.lookup_erase, found]
      · rw [Finmap.lookup_erase_ne same]
    simp [weightAt, found, unchanged]
  | some old =>
    have restored : (m.erase a).insert a old = m := by
      rw [insert_erase_self]
      apply Finmap.ext_lookup
      intro x
      by_cases same : x = a
      · subst same
        rw [Finmap.lookup_insert, found]
      · rw [Finmap.lookup_insert_of_ne _ same]
    calc total w m = total w ((m.erase a).insert a old) := by rw [restored]
      _ = w old + total w (m.erase a) := total_insert_of_notMem w old Finmap.notMem_erase_self
      _ = weightAt w m a + total w (m.erase a) := by rw [weightAt_of_lookup w m found]

theorem total_insert (m : Finmap fun _ : α => β) (a : α) (b : β) :
    total w (m.insert a b) = total w m - weightAt w m a + w b := by
  have inserted : total w (m.insert a b) = w b + total w (m.erase a) := by
    rw [← insert_erase_self, total_insert_of_notMem w b Finmap.notMem_erase_self]
  rw [inserted, total_eq_weightAt_add_erase w m a]
  omega

end Openmina.Arith.FinmapTotal
