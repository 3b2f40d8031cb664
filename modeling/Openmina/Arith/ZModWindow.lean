import Mathlib

/-!
# Small naturals inside `ZMod n`

Witness code keeps bounded machine integers as elements of a prime field and
reads comparisons off the canonical representative of a difference. These are
the facts about that representative: the difference of two small naturals is
either the honest difference or wraps around to `n - _`, and the window test
`[0, 2 ^ k)` on it decides their order as soon as `2 ^ (k + 1) ≤ n`. Nothing
here depends on a particular modulus.
-/

namespace Openmina.Arith.ZModWindow

set_option autoImplicit false

variable {n : ℕ} [NeZero n]

omit [NeZero n] in
theorem natCast_eq_natCast_iff_of_lt {x y : ℕ} (hx : x < n) (hy : y < n) :
    (x : ZMod n) = y ↔ x = y := by
  rw [ZMod.natCast_eq_natCast_iff', Nat.mod_eq_of_lt hx, Nat.mod_eq_of_lt hy]

theorem val_natCast_sub_of_le {x y : ℕ} (hx : x < n) (hy : y < n) (order : y ≤ x) :
    ((x : ZMod n) - y).val = x - y := by
  have valOrder : (y : ZMod n).val ≤ (x : ZMod n).val := by
    rw [ZMod.val_natCast_of_lt hx, ZMod.val_natCast_of_lt hy]
    exact order
  rw [ZMod.val_sub valOrder, ZMod.val_natCast_of_lt hx, ZMod.val_natCast_of_lt hy]

theorem val_natCast_sub_of_lt {x y : ℕ} (hy : y < n) (order : x < y) :
    ((x : ZMod n) - y).val = n - (y - x) := by
  have gapBound : y - x < n := by omega
  have flipped : (x : ZMod n) - y = -((y - x : ℕ) : ZMod n) := by
    rw [Nat.cast_sub order.le]
    ring
  have nonzero : ((y - x : ℕ) : ZMod n) ≠ 0 := by
    intro isZero
    have gapVal := congrArg ZMod.val isZero
    rw [ZMod.val_natCast_of_lt gapBound, ZMod.val_zero] at gapVal
    omega
  rw [flipped, ZMod.neg_val, if_neg nonzero, ZMod.val_natCast_of_lt gapBound]

theorem val_natCast_sub_lt_pow_iff_of_add_le {x y k : ℕ} (hx : x < 2 ^ k) (room : y + 2 ^ k ≤ n) :
    ((x : ZMod n) - y).val < 2 ^ k ↔ y ≤ x := by
  have yBound : y < n := by
    have := Nat.two_pow_pos k
    omega
  by_cases order : y ≤ x
  · rw [val_natCast_sub_of_le (by omega) yBound order]
    omega
  · rw [val_natCast_sub_of_lt yBound (by omega)]
    omega

theorem val_natCast_sub_lt_pow_iff {x y k : ℕ} (hx : x < 2 ^ k) (hy : y < 2 ^ k)
    (wide : 2 ^ (k + 1) ≤ n) : ((x : ZMod n) - y).val < 2 ^ k ↔ y ≤ x := by
  have double : 2 ^ (k + 1) = 2 ^ k + 2 ^ k := by ring
  exact val_natCast_sub_lt_pow_iff_of_add_le hx (by omega)

omit [NeZero n] in
theorem foldl_add_natCast (values : List ℕ) (start : ZMod n) :
    (values.map (fun value : ℕ => (value : ZMod n))).foldl (· + ·) start =
      start + ((values.sum : ℕ) : ZMod n) := by
  induction values generalizing start with
  | nil => simp
  | cons value rest ih =>
      rw [List.map_cons, List.foldl_cons, ih, List.sum_cons, Nat.cast_add]
      ring

end Openmina.Arith.ZModWindow
