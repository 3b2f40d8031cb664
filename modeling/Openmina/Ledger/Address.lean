import Mathlib

/-!
# Ledger addresses

`ledger/src/address/raw.rs`. An address is a path from the root of the ledger
tree: `length` directions packed as bits into a byte array, the first direction in
the most significant bit. Every function modelled here reads only the first
`length` bits (`to_index` masks the last byte), and the addresses they build start
from `root()` or `first(..)` and grow by `child_left` / `child_right`, so the bits
past `length` are never read: an address is its length and the index
`to_index()` of its path.
-/

namespace Openmina.Ledger

set_option autoImplicit false

inductive Direction
  | left
  | right
  deriving DecidableEq, Repr

structure Address where
  length : ℕ
  index : ℕ
  indexLt : index < 2 ^ length
  deriving DecidableEq

namespace Address

def root : Address :=
  ⟨0, 0, by decide⟩

def first (length : ℕ) : Address :=
  ⟨length, 0, Nat.two_pow_pos length⟩

def toIndex (addr : Address) : ℕ :=
  addr.index

/-- `to_linear_index`: the position in a breadth-first numbering of the tree. -/
def toLinearIndex (addr : Address) : ℕ :=
  2 ^ addr.length + addr.index - 1

def fromIndex (index length : ℕ) : Address :=
  ⟨length, index % 2 ^ length, Nat.mod_lt _ (Nat.two_pow_pos length)⟩

def childLeft (addr : Address) : Address :=
  ⟨addr.length + 1, 2 * addr.index, by have := addr.indexLt; rw [Nat.pow_succ]; omega⟩

def childRight (addr : Address) : Address :=
  ⟨addr.length + 1, 2 * addr.index + 1, by have := addr.indexLt; rw [Nat.pow_succ]; omega⟩

def parent (addr : Address) : Option Address :=
  if zero : addr.length = 0 then none
  else some ⟨addr.length - 1, addr.index / 2, by
    have below := addr.indexLt
    have split : 2 ^ addr.length = 2 ^ (addr.length - 1) * 2 := by
      rw [← Nat.pow_succ, Nat.succ_eq_add_one, Nat.sub_add_cancel (Nat.pos_of_ne_zero zero)]
    rw [split] at below
    omega⟩

/-- `next`: the address to the right at the same depth, none past the last one. -/
def next (addr : Address) : Option Address :=
  if addr.length = 0 then none
  else if fits : addr.index + 1 < 2 ^ addr.length then some ⟨addr.length, addr.index + 1, fits⟩
  else none

def prev (addr : Address) : Option Address :=
  if addr.index = 0 then none
  else some ⟨addr.length, addr.index - 1, by have := addr.indexLt; omega⟩

def prefixIndex (length : ℕ) (other : Address) : ℕ :=
  other.index / 2 ^ (other.length - length)

/-- `is_before`, for an address no longer than `other` (the source asserts it). -/
def isBefore (addr other : Address) : Bool :=
  decide (addr.index ≤ prefixIndex addr.length other)

def isParentOf (addr other : Address) : Bool :=
  addr.length = 0 || decide (addr.index = prefixIndex addr.length other)

def get (addr : Address) (i : ℕ) : Direction :=
  if addr.index.testBit (addr.length - 1 - i) then .right else .left

def directions (addr : Address) : List Direction :=
  (List.range addr.length).map addr.get

@[simp] theorem childLeft_length (addr : Address) : addr.childLeft.length = addr.length + 1 :=
  rfl

@[simp] theorem childRight_length (addr : Address) : addr.childRight.length = addr.length + 1 :=
  rfl

@[simp] theorem childLeft_index (addr : Address) : addr.childLeft.index = 2 * addr.index :=
  rfl

@[simp] theorem childRight_index (addr : Address) : addr.childRight.index = 2 * addr.index + 1 :=
  rfl

theorem next_eq_some {addr next : Address} (found : addr.next = some next) :
    next.length = addr.length ∧ next.index = addr.index + 1 := by
  unfold Address.next at found
  split_ifs at found with zero fits
  cases found
  exact ⟨rfl, rfl⟩

theorem next_eq_none_iff (addr : Address) (positive : 0 < addr.length) :
    addr.next = none ↔ addr.index + 1 = 2 ^ addr.length := by
  have := addr.indexLt
  unfold Address.next
  rw [if_neg (by omega)]
  by_cases fits : addr.index + 1 < 2 ^ addr.length
  · simp only [dif_pos fits, reduceCtorEq, false_iff]
    omega
  · simp only [dif_neg fits, true_iff]
    omega

theorem prev_eq_some {addr prev : Address} (found : addr.prev = some prev) :
    prev.length = addr.length ∧ prev.index + 1 = addr.index := by
  unfold Address.prev at found
  split_ifs at found with zero
  cases found
  exact ⟨rfl, Nat.sub_add_cancel (Nat.pos_of_ne_zero zero)⟩

theorem prev_eq_none_iff (addr : Address) : addr.prev = none ↔ addr.index = 0 := by
  unfold Address.prev
  split_ifs with zero <;> simp [zero]

theorem ext_index {addr other : Address} (length : addr.length = other.length)
    (index : addr.index = other.index) : addr = other := by
  cases addr
  cases other
  simp only at length index
  subst length index
  rfl

theorem fromIndex_self (addr : Address) : fromIndex addr.index addr.length = addr :=
  ext_index rfl (Nat.mod_eq_of_lt addr.indexLt)

theorem toLinearIndex_injective : Function.Injective toLinearIndex := by
  intro addr other same
  have below := addr.indexLt
  have below' := other.indexLt
  unfold toLinearIndex at same
  have lengths : addr.length = other.length := by
    by_contra differ
    rcases Nat.lt_or_gt_of_ne differ with shorter | longer
    · have grows : 2 ^ (addr.length + 1) ≤ 2 ^ other.length := Nat.pow_le_pow_right (by norm_num) shorter
      rw [Nat.pow_succ] at grows
      omega
    · have grows : 2 ^ (other.length + 1) ≤ 2 ^ addr.length := Nat.pow_le_pow_right (by norm_num) longer
      rw [Nat.pow_succ] at grows
      omega
  rw [lengths] at same below
  exact ext_index lengths (by omega)

end Address

end Openmina.Ledger
