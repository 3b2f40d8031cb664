import Mathlib

/-!
# Results that may also abort

Code that returns a result or an error, and may also stop without returning, runs
in `ExceptT ε Option`: `none` is the stop, `some (.error e)` the error and
`some (.ok a)` the result. `okOr` turns an optional value into a result, failing
with a given error, and `MonadExcept.ofExcept` lifts a result of code that cannot stop. Proofs about a successful run take such a run apart one bind at a
time with `run_bind_eq_ok`; the other lemmas say which primitive runs succeed.
-/

namespace Openmina.Control.ExceptOption

set_option autoImplicit false

variable {ε ε' α β : Type}

def okOr (x : Option α) (e : ε) : ExceptT ε Option α :=
  match x with
  | some a => pure a
  | none => throw e

@[simp] theorem run_ofExcept (x : Except ε α) :
    (MonadExcept.ofExcept x : ExceptT ε Option α).run = some x := by
  cases x <;> rfl

@[simp] theorem run_bind_eq_ok (x : ExceptT ε Option α) (f : α → ExceptT ε Option β) (b : β) :
    (x >>= f).run = some (.ok b) ↔ ∃ a, x.run = some (.ok a) ∧ (f a).run = some (.ok b) := by
  rw [ExceptT.run_bind]
  rcases x.run with _ | _ | a
  · simp
  · simp
  · simp

@[simp] theorem run_pure_eq_ok (a b : α) :
    (pure a : ExceptT ε Option α).run = some (.ok b) ↔ a = b := by
  simp

@[simp] theorem run_throw_eq_ok (e : ε) (b : α) :
    (throw e : ExceptT ε Option α).run = some (.ok b) ↔ False := by
  simp

@[simp] theorem run_lift_eq_ok (x : Option α) (b : α) :
    (ExceptT.lift x : ExceptT ε Option α).run = some (.ok b) ↔ x = some b := by
  cases x <;> simp [ExceptT.run_lift]

@[simp] theorem run_liftM_eq_ok (x : Option α) (b : α) :
    (liftM x : ExceptT ε Option α).run = some (.ok b) ↔ x = some b :=
  run_lift_eq_ok x b

@[simp] theorem run_adapt_eq_ok (f : ε → ε') (x : ExceptT ε Option α) (b : α) :
    (ExceptT.adapt f x).run = some (.ok b) ↔ x.run = some (.ok b) := by
  change (Except.mapError f <$> x.run) = some (.ok b) ↔ _
  rcases x.run with _ | _ | a <;> simp [Except.mapError]

@[simp] theorem run_okOr_eq_ok (x : Option α) (e : ε) (b : α) :
    (okOr x e).run = some (.ok b) ↔ x = some b := by
  cases x <;> simp [okOr]

theorem run_ite_eq_ok (c : Prop) [Decidable c] (x y : ExceptT ε Option α) (b : α) :
    (if c then x else y).run = some (.ok b) ↔
      (c ∧ x.run = some (.ok b)) ∨ (¬c ∧ y.run = some (.ok b)) := by
  by_cases holds : c <;> simp [holds]

end Openmina.Control.ExceptOption
