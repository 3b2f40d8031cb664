import Mathlib
import Openmina.Arith.MsbBits
import Openmina.Arith.ListIndex
import Openmina.Ledger.Address

/-!
# Addresses as the source stores them

`ledger/src/address/raw.rs`. `Address<NBYTES>` keeps its directions as the bits of an
array of `NBYTES` bytes, the first direction in the most significant bit of byte `0`,
and its length. The bits past the length are whatever the function that built the
address left there: `to_index`, `PartialEq`, `next` and `prev` read only the first
`length` bits, but `child_left` keeps the bit at `length`, `parent` keeps the bit it
drops, `prev` sets every bit after the one it clears and `last` sets them all.
`Openmina.Ledger.Address` is the abstract view, the length and the index; `toAbstract`
maps to it.

The array is a `Vector UInt8 nbytes`. A byte index at or past `NBYTES`, where the
source panics, reads `0` and writes nothing; up to length `8 * NBYTES` only
`child_right` and `clear_after` at that very length reach one. An `assert!` that fails
is `none`, so `next` and `prev`, whose results are already optional, give `some none`
for the source's `None`. Indices are natural numbers: the `u64` shifts and powers of
the source do not overflow below length 64.
-/

namespace Openmina.Ledger.Raw

open Openmina.Arith.MsbBits Openmina.Arith.ListIndex

set_option autoImplicit false

def nbits : ℕ := 35

def computeNbytes (nbits : ℕ) : ℕ :=
  if nbits % 8 = 0 then nbits / 8 else nbits / 8 + 1

structure Address (nbytes : ℕ) where
  inner : Vector UInt8 nbytes
  length : ℕ
  deriving DecidableEq

abbrev LedgerAddress := Address (computeNbytes nbits)

def clearAfterMask : List UInt8 :=
  [0b10000000, 0b11000000, 0b11100000, 0b11110000, 0b11111000, 0b11111100, 0b11111110, 0b11111111]

def setAfterMask : List UInt8 :=
  [0b01111111, 0b00111111, 0b00011111, 0b00001111, 0b00000111, 0b00000011, 0b00000001, 0b00000000]

def nextMask : List UInt8 :=
  [0b00000000, 0b01111111, 0b00111111, 0b00011111, 0b00001111, 0b00000111, 0b00000011, 0b00000001]

def usedMask : List UInt8 :=
  [0b11111111, 0b10000000, 0b11000000, 0b11100000, 0b11110000, 0b11111000, 0b11111100, 0b11111110]

namespace Address

variable {nbytes : ℕ}

def byteAt (addr : Address nbytes) (byteIndex : ℕ) : UInt8 :=
  addr.inner[byteIndex]?.getD 0

def setByte (addr : Address nbytes) (byteIndex : ℕ) (byte : UInt8) : Address nbytes :=
  { addr with inner := addr.inner.setIfInBounds byteIndex byte }

def bit (addr : Address nbytes) (index : ℕ) : Bool :=
  msbBit addr.byteAt index

def root : Address nbytes :=
  ⟨Vector.replicate nbytes 0, 0⟩

def first (length : ℕ) : Address nbytes :=
  ⟨Vector.replicate nbytes 0, length⟩

def last (length : ℕ) : Address nbytes :=
  ⟨Vector.replicate nbytes 0b11111111, length⟩

def get (addr : Address nbytes) (index : ℕ) : Direction :=
  if addr.byteAt (index / 8) &&& 1 <<< UInt8.ofNat (7 - index % 8) ≠ 0 then .right else .left

def set (addr : Address nbytes) (index : ℕ) : Address nbytes :=
  addr.setByte (index / 8) (addr.byteAt (index / 8) ||| 1 <<< UInt8.ofNat (7 - index % 8))

def unset (addr : Address nbytes) (index : ℕ) : Address nbytes :=
  addr.setByte (index / 8) (addr.byteAt (index / 8) &&& ~~~(1 <<< UInt8.ofNat (7 - index % 8)))

def childLeft (addr : Address nbytes) : Address nbytes :=
  ⟨addr.inner, addr.length + 1⟩

def childRight (addr : Address nbytes) : Address nbytes :=
  let child := addr.childLeft
  child.set (child.length - 1)

def parent (addr : Address nbytes) : Option (Address nbytes) :=
  if addr.length = 0 then none else some ⟨addr.inner, addr.length - 1⟩

def nusedBytes (addr : Address nbytes) : ℕ :=
  (addr.length - 1) / 8 + 1

def usedBytes (addr : Address nbytes) : List UInt8 :=
  (List.range addr.nusedBytes).map addr.byteAt

def clearAfter (addr : Address nbytes) (index : ℕ) : Address nbytes :=
  let byteIndex := index / 8
  let addr := addr.setByte byteIndex (addr.byteAt byteIndex &&& clearAfterMask.getD (index % 8) 0)
  (List.range' (byteIndex + 1) (addr.nusedBytes - (byteIndex + 1))).foldl
    (fun addr byteIndex => addr.setByte byteIndex 0) addr

def setAfter (addr : Address nbytes) (index : ℕ) : Address nbytes :=
  let byteIndex := index / 8
  let addr := addr.setByte byteIndex (addr.byteAt byteIndex ||| setAfterMask.getD (index % 8) 0)
  (List.range' (byteIndex + 1) (addr.nusedBytes - (byteIndex + 1))).foldl
    (fun addr byteIndex => addr.setByte byteIndex 0b11111111) addr

/-- `PartialEq::eq`: the lengths, the used bytes but the last, and the last one masked. -/
def eq (addr other : Address nbytes) : Bool :=
  if addr.length ≠ other.length then false
  else if addr.length = 0 then true
  else
    let nusedBytes := addr.nusedBytes
    if (List.range (nusedBytes - 1)).map addr.byteAt ≠ (List.range (nusedBytes - 1)).map other.byteAt then false
    else
      let mask := usedMask.getD (addr.length % 8) 0
      addr.byteAt (nusedBytes - 1) &&& mask == other.byteAt (nusedBytes - 1) &&& mask

/-- `to_index`: the used bytes from the last, the last one shifted down to its used bits. -/
def toIndex (addr : Address nbytes) : ℕ :=
  if addr.length = 0 then 0
  else
    (addr.usedBytes.reverse.zipIdx.foldl (fun (state : ℕ × ℕ) (entry : UInt8 × ℕ) =>
      if entry.2 = 0 ∧ addr.length % 8 ≠ 0 then
        let nunused := addr.length % 8
        (state.1 ||| entry.1.toNat >>> (8 - nunused), state.2 + nunused)
      else (state.1 ||| entry.1.toNat <<< state.2, state.2 + 8)) (0, 0)).1

/-- `to_linear_index`, whose `checked_pow(..).unwrap()` panics from length 64 on. -/
def toLinearIndex (addr : Address nbytes) : Option ℕ :=
  if addr.length < 64 then some (2 ^ addr.length + addr.toIndex - 1) else none

def fromIndex (index length : ℕ) : Address nbytes :=
  (List.range length).reverse.zipIdx.foldl (fun addr entry =>
    if index &&& 1 <<< entry.1 ≠ 0 then addr.set entry.2 else addr) (first length)

/-- The search of `next`: from the last used byte, the first one not all ones gives the
position of its lowest clear bit. -/
def rightmostClearIndex (next : Address nbytes) (nusedBytes : ℕ) : Option ℕ :=
  next.usedBytes.reverse.zipIdx.findSome? fun entry =>
    if trailingOnes entry.1 = 8 then none
    else some ((nusedBytes - entry.2) * 8 - trailingOnes entry.1 - 1)

/-- The search of `prev`, for the lowest set bit. -/
def rightmostOneIndex (prev : Address nbytes) (nusedBytes : ℕ) : Option ℕ :=
  prev.usedBytes.reverse.zipIdx.findSome? fun entry =>
    if trailingZeros entry.1 = 8 then none
    else some ((nusedBytes - entry.2) * 8 - trailingZeros entry.1 - 1)

def next (addr : Address nbytes) : Option (Option (Address nbytes)) :=
  if addr.length = 0 then some none
  else
    let nusedBytes := addr.nusedBytes
    let next := addr.setByte (nusedBytes - 1)
      (addr.byteAt (nusedBytes - 1) ||| nextMask.getD (addr.length % 8) 0)
    match next.rightmostClearIndex nusedBytes with
    | none => some none
    | some index =>
      let next := (next.set index).clearAfter index
      -- `assert_ne!(self, &next)`
      if addr.eq next then none else some (some next)

def prev (addr : Address nbytes) : Option (Option (Address nbytes)) :=
  let nusedBytes := addr.nusedBytes
  let prev := addr.setByte (nusedBytes - 1)
    (addr.byteAt (nusedBytes - 1) &&& usedMask.getD (addr.length % 8) 0)
  match prev.rightmostOneIndex nusedBytes with
  | none => some none
  | some index =>
    let prev := (prev.unset index).setAfter index
    -- `assert_ne!(self, &prev)`
    if addr.eq prev then none else some (some prev)

end Address

/-- `Option<Address>`'s `PartialEq`. -/
def optionEq {nbytes : ℕ} : Option (Address nbytes) → Option (Address nbytes) → Bool
  | none, none => true
  | some addr, some other => addr.eq other
  | _, _ => false

/-- `AddressChildrenIterator`; its field `until` is `untilAddress`. -/
structure AddressChildrenIterator (nbytes : ℕ) where
  current : Option (Address nbytes)
  untilAddress : Option (Address nbytes)
  nchildren : ℕ
  deriving DecidableEq

/-- `iter_children`: from `addr` extended to `length`, up to `addr.next()` extended the
same way. `2u64.pow(..)` does not overflow below 64 levels. -/
def Address.iterChildren {nbytes : ℕ} (addr : Address nbytes) (length : ℕ) :
    Option (AddressChildrenIterator nbytes) :=
  -- `assert!(self.length <= length)`
  if addr.length ≤ length then do
    let rootLength := addr.length
    let following ← addr.next
    let untilAddress := following.map fun untilAddress => ({ untilAddress with length }).clearAfter rootLength
    let current := ({ addr with length }).clearAfter rootLength
    let untilAddress := if optionEq untilAddress (some current) then none else untilAddress
    pure ⟨some current, untilAddress, 2 ^ (length - rootLength)⟩
  else none

namespace AddressChildrenIterator

variable {nbytes : ℕ}

def len (it : AddressChildrenIterator nbytes) : ℕ :=
  it.nchildren

/-- `Iterator::next`: the item, and the iterator after it. -/
def next (it : AddressChildrenIterator nbytes) :
    Option (Option (Address nbytes) × AddressChildrenIterator nbytes) :=
  if optionEq it.current it.untilAddress then some (none, it)
  else
    match it.current with
    | none => some (none, it)
    | some current => do
      let following ← current.next
      pure (some current, { it with current := following })

/-- `collect()`, with at most `fuel` calls of `next`; `none` if one panics or the fuel
runs out first. -/
def collect : ℕ → AddressChildrenIterator nbytes → Option (List (Address nbytes))
  | 0, _ => none
  | fuel + 1, it => do
    let (item, it) ← it.next
    match item with
    | none => pure []
    | some addr => (addr :: ·) <$> collect fuel it

end AddressChildrenIterator

namespace Address

variable {nbytes : ℕ}

/-! ## The bits of the array

Every write is one byte changed through a mask; its effect on the bits is read off the
mask tables, whose eight entries are checked. -/

theorem testBit_one_shiftLeft {s j : ℕ} (small : s < 8) (lt : j < 8) :
    ((1 : UInt8) <<< UInt8.ofNat s).toNat.testBit j = decide (s = j) := by
  have table : ∀ s < 8, ∀ j < 8, ((1 : UInt8) <<< UInt8.ofNat s).toNat.testBit j = decide (s = j) := by
    decide
  exact table s small j lt

theorem testBit_not_one_shiftLeft {s j : ℕ} (small : s < 8) (lt : j < 8) :
    (~~~((1 : UInt8) <<< UInt8.ofNat s)).toNat.testBit j = decide (s ≠ j) := by
  have table : ∀ s < 8, ∀ j < 8, (~~~((1 : UInt8) <<< UInt8.ofNat s)).toNat.testBit j = decide (s ≠ j) := by
    decide
  exact table s small j lt

theorem testBit_clearAfterMask {r j : ℕ} (small : r < 8) (lt : j < 8) :
    (clearAfterMask.getD r 0).toNat.testBit (7 - j) = decide (j ≤ r) := by
  have table : ∀ r < 8, ∀ j < 8, (clearAfterMask.getD r 0).toNat.testBit (7 - j) = decide (j ≤ r) := by
    decide
  exact table r small j lt

theorem testBit_setAfterMask {r j : ℕ} (small : r < 8) (lt : j < 8) :
    (setAfterMask.getD r 0).toNat.testBit (7 - j) = decide (r < j) := by
  have table : ∀ r < 8, ∀ j < 8, (setAfterMask.getD r 0).toNat.testBit (7 - j) = decide (r < j) := by
    decide
  exact table r small j lt

theorem testBit_nextMask {r j : ℕ} (small : r < 8) (lt : j < 8) :
    (nextMask.getD r 0).toNat.testBit (7 - j) = decide (r ≠ 0 ∧ r ≤ j) := by
  have table : ∀ r < 8, ∀ j < 8, (nextMask.getD r 0).toNat.testBit (7 - j) = decide (r ≠ 0 ∧ r ≤ j) := by
    decide
  exact table r small j lt

theorem testBit_usedMask {r j : ℕ} (small : r < 8) (lt : j < 8) :
    (usedMask.getD r 0).toNat.testBit (7 - j) = decide (r = 0 ∨ j < r) := by
  have table : ∀ r < 8, ∀ j < 8, (usedMask.getD r 0).toNat.testBit (7 - j) = decide (r = 0 ∨ j < r) := by
    decide
  exact table r small j lt

@[simp] theorem length_setByte (addr : Address nbytes) (byteIndex : ℕ) (byte : UInt8) :
    (addr.setByte byteIndex byte).length = addr.length := rfl

@[simp] theorem nusedBytes_setByte (addr : Address nbytes) (byteIndex : ℕ) (byte : UInt8) :
    (addr.setByte byteIndex byte).nusedBytes = addr.nusedBytes := rfl

@[simp] theorem length_set (addr : Address nbytes) (index : ℕ) : (addr.set index).length = addr.length := rfl

@[simp] theorem length_unset (addr : Address nbytes) (index : ℕ) : (addr.unset index).length = addr.length := rfl

@[simp] theorem nusedBytes_set (addr : Address nbytes) (index : ℕ) : (addr.set index).nusedBytes = addr.nusedBytes :=
  rfl

@[simp] theorem nusedBytes_unset (addr : Address nbytes) (index : ℕ) :
    (addr.unset index).nusedBytes = addr.nusedBytes :=
  rfl

theorem length_foldl_setByte (addr : Address nbytes) (byte : UInt8) (byteIndices : List ℕ) :
    (byteIndices.foldl (fun addr byteIndex => addr.setByte byteIndex byte) addr).length = addr.length := by
  induction byteIndices generalizing addr with
  | nil => rfl
  | cons byteIndex rest ih => rw [List.foldl_cons, ih, length_setByte]

@[simp] theorem length_clearAfter (addr : Address nbytes) (index : ℕ) :
    (addr.clearAfter index).length = addr.length := by
  rw [clearAfter, length_foldl_setByte, length_setByte]

@[simp] theorem length_setAfter (addr : Address nbytes) (index : ℕ) :
    (addr.setAfter index).length = addr.length := by
  rw [setAfter, length_foldl_setByte, length_setByte]

theorem byteAt_setByte (addr : Address nbytes) (byteIndex : ℕ) (byte : UInt8) (other : ℕ) :
    (addr.setByte byteIndex byte).byteAt other =
      if other = byteIndex ∧ byteIndex < nbytes then byte else addr.byteAt other := by
  simp only [byteAt, setByte, Vector.getElem?_setIfInBounds]
  by_cases same : byteIndex = other
  · subst same
    by_cases inside : byteIndex < nbytes
    · simp [inside]
    · simp [inside]
  · simp [same, Ne.symm same]

theorem bit_setByte (addr : Address nbytes) (byteIndex : ℕ) (byte : UInt8) (i : ℕ) :
    (addr.setByte byteIndex byte).bit i =
      if i / 8 = byteIndex ∧ byteIndex < nbytes then byte.toNat.testBit (7 - i % 8) else addr.bit i := by
  simp only [bit, msbBit, byteAt_setByte]
  split_ifs <;> rfl

theorem bit_orByte (addr : Address nbytes) (byteIndex : ℕ) (mask : UInt8) (i : ℕ) :
    (addr.setByte byteIndex (addr.byteAt byteIndex ||| mask)).bit i =
      (addr.bit i || decide (i / 8 = byteIndex ∧ byteIndex < nbytes) && mask.toNat.testBit (7 - i % 8)) := by
  rw [bit_setByte]
  split_ifs with here
  · rw [UInt8.toNat_or, Nat.testBit_or, bit, msbBit, here.1]
    simp [here]
  · simp [here]

theorem bit_andByte (addr : Address nbytes) (byteIndex : ℕ) (mask : UInt8) (i : ℕ) :
    (addr.setByte byteIndex (addr.byteAt byteIndex &&& mask)).bit i =
      (addr.bit i && (!decide (i / 8 = byteIndex ∧ byteIndex < nbytes) || mask.toNat.testBit (7 - i % 8))) := by
  rw [bit_setByte]
  split_ifs with here
  · rw [UInt8.toNat_and, Nat.testBit_and, bit, msbBit, here.1]
    simp [here]
  · simp [here]

theorem bit_set (addr : Address nbytes) (index i : ℕ) :
    (addr.set index).bit i = (addr.bit i || decide (i = index ∧ index / 8 < nbytes)) := by
  rw [set, bit_orByte]
  by_cases same : i / 8 = index / 8 ∧ index / 8 < nbytes
  · rw [testBit_one_shiftLeft (by omega) (by omega)]
    -- within one byte, the positions agree exactly when the bits shifted to agree
    have agree : (7 - index % 8 = 7 - i % 8) ↔ i = index := by omega
    simp [same, agree]
  · have differ : ¬ (i = index ∧ index / 8 < nbytes) := fun ⟨eq, inside⟩ => same ⟨by rw [eq], inside⟩
    simp [same, differ]

theorem bit_unset (addr : Address nbytes) (index i : ℕ) :
    (addr.unset index).bit i = (addr.bit i && !decide (i = index ∧ index / 8 < nbytes)) := by
  rw [unset, bit_andByte]
  by_cases same : i / 8 = index / 8 ∧ index / 8 < nbytes
  · rw [testBit_not_one_shiftLeft (by omega) (by omega)]
    have agree : (7 - index % 8 ≠ 7 - i % 8) ↔ i ≠ index := by omega
    simp [same, agree]
  · have differ : ¬ (i = index ∧ index / 8 < nbytes) := fun ⟨eq, inside⟩ => same ⟨by rw [eq], inside⟩
    simp [same, differ]

theorem bit_foldl_setByte (addr : Address nbytes) (byte : UInt8) (start count i : ℕ) :
    ((List.range' start count).foldl (fun addr byteIndex => addr.setByte byteIndex byte) addr).bit i =
      if start ≤ i / 8 ∧ i / 8 < start + count ∧ i / 8 < nbytes then byte.toNat.testBit (7 - i % 8)
      else addr.bit i := by
  induction count generalizing start addr with
  | zero => rw [List.range'_zero, List.foldl_nil, if_neg (by omega)]
  | succ count ih =>
    rw [List.range'_succ, List.foldl_cons, ih, bit_setByte]
    by_cases here : i / 8 = start
    · simp [here]
    · have shifted : (start + 1 ≤ i / 8 ∧ i / 8 < start + 1 + count) ↔ (start ≤ i / 8 ∧ i / 8 < start + (count + 1)) := by
        omega
      simp only [here, false_and, if_false, ← and_assoc, shifted]

theorem nusedBytes_bounds (addr : Address nbytes) (pos : 0 < addr.length) :
    8 * (addr.nusedBytes - 1) < addr.length ∧ addr.length ≤ 8 * addr.nusedBytes := by
  unfold nusedBytes
  omega

theorem nusedBytes_le (addr : Address nbytes) (pos : 0 < addr.length) (fits : addr.length ≤ 8 * nbytes) :
    addr.nusedBytes ≤ nbytes := by
  unfold nusedBytes
  omega

section Within

/-! Within the used bytes, `clear_after` and `set_after` clear or set every bit after
the index and keep the others. -/

variable (addr : Address nbytes) (index : ℕ) {i : ℕ} (fits : addr.nusedBytes ≤ nbytes)
  (used : i < 8 * addr.nusedBytes)
include fits used

theorem bit_clearAfter : (addr.clearAfter index).bit i = (addr.bit i && decide (i ≤ index)) := by
  simp only [clearAfter, nusedBytes_setByte]
  rw [bit_foldl_setByte, bit_andByte]
  by_cases later : index / 8 + 1 ≤ i / 8
  · simp only [show i / 8 < index / 8 + 1 + (addr.nusedBytes - (index / 8 + 1)) by omega,
      show i / 8 < nbytes by omega, later, and_self, if_true, UInt8.toNat_zero, Nat.zero_testBit]
    simp [show ¬ i ≤ index by omega]
  · have notLater : ¬ (index / 8 + 1 ≤ i / 8 ∧ i / 8 < index / 8 + 1 + (addr.nusedBytes - (index / 8 + 1)) ∧
        i / 8 < nbytes) := fun ⟨le, _⟩ => later le
    rw [if_neg notLater]
    by_cases same : i / 8 = index / 8
    · rw [testBit_clearAfterMask (Nat.mod_lt _ (by norm_num)) (Nat.mod_lt _ (by norm_num))]
      have agree : i % 8 ≤ index % 8 ↔ i ≤ index := by omega
      simp [same, show index / 8 < nbytes by omega, agree]
    · simp [same, show i ≤ index by omega]

theorem bit_setAfter : (addr.setAfter index).bit i = (addr.bit i || decide (index < i)) := by
  simp only [setAfter, nusedBytes_setByte]
  rw [bit_foldl_setByte, bit_orByte]
  by_cases later : index / 8 + 1 ≤ i / 8
  · simp only [show i / 8 < index / 8 + 1 + (addr.nusedBytes - (index / 8 + 1)) by omega,
      show i / 8 < nbytes by omega, later, and_self, if_true]
    have full : ∀ j < 8, Nat.testBit 255 j = true := by decide
    simp [full _ (show 7 - i % 8 < 8 by omega), show index < i by omega]
  · have notLater : ¬ (index / 8 + 1 ≤ i / 8 ∧ i / 8 < index / 8 + 1 + (addr.nusedBytes - (index / 8 + 1)) ∧
        i / 8 < nbytes) := fun ⟨le, _⟩ => later le
    rw [if_neg notLater]
    by_cases same : i / 8 = index / 8
    · rw [testBit_setAfterMask (Nat.mod_lt _ (by norm_num)) (Nat.mod_lt _ (by norm_num))]
      have agree : index % 8 < i % 8 ↔ index < i := by omega
      simp [same, show index / 8 < nbytes by omega, agree]
    · simp [same, show ¬ index < i by omega]

end Within

/-! ## The index -/

theorem toNat_shiftRight_lt (byte : UInt8) {r : ℕ} (le : r ≤ 8) : byte.toNat >>> (8 - r) < 2 ^ r := by
  rw [Nat.shiftRight_eq_div_pow, Nat.div_lt_iff_lt_mul (Nat.two_pow_pos _), ← Nat.pow_add,
    show r + (8 - r) = 8 by omega]
  exact UInt8.toNat_lt byte

theorem toIndex_eq (addr : Address nbytes) : addr.toIndex = bitsValue addr.bit addr.length := by
  unfold toIndex
  split_ifs with zero
  · rw [zero, bitsValue_zero]
  -- the length ends inside byte `k`, after its first `r` bits
  obtain ⟨k, r, split, pos, le⟩ : ∃ k r, addr.length = 8 * k + r ∧ 0 < r ∧ r ≤ 8 :=
    ⟨(addr.length - 1) / 8, addr.length - 8 * ((addr.length - 1) / 8), by omega, by omega, by omega⟩
  have nused : addr.nusedBytes = k + 1 := by
    unfold nusedBytes
    omega
  rw [usedBytes, nused, List.range_succ, List.map_append, List.reverse_append]
  simp only [List.map_cons, List.map_nil, List.reverse_singleton, List.singleton_append,
    List.zipIdx_cons, List.foldl_cons, true_and, Nat.zero_add, Nat.zero_or, Nat.shiftLeft_zero]
  have last : (if addr.length % 8 ≠ 0 then ((addr.byteAt k).toNat >>> (8 - addr.length % 8), addr.length % 8)
      else ((addr.byteAt k).toNat, 8)) = ((addr.byteAt k).toNat >>> (8 - r), r) := by
    by_cases whole : addr.length % 8 = 0
    · rw [if_neg (by omega), show r = 8 by omega, Nat.sub_self, Nat.shiftRight_zero]
    · rw [if_pos whole, show addr.length % 8 = r by omega]
  rw [last]
  rw [foldl_zipIdx_eq_foldl _ (fun (state : ℕ × ℕ) (byte : UInt8) => (state.1 ||| byte.toNat <<< state.2, state.2 + 8))
    _ 1 _ (fun state byte i later => if_neg (by omega)), foldl_shiftOr _ _ (toNat_shiftRight_lt _ le),
    split]
  exact (bitsValue_msbBit addr.byteAt k le).symm

theorem toIndex_lt (addr : Address nbytes) : addr.toIndex < 2 ^ addr.length := by
  rw [toIndex_eq]
  exact bitsValue_lt _ _

/-! ## Equality -/

theorem map_byteAt_eq_iff (addr other : Address nbytes) (k : ℕ) :
    (List.range k).map addr.byteAt = (List.range k).map other.byteAt ↔ ∀ i < 8 * k, addr.bit i = other.bit i := by
  rw [List.map_inj_left]
  simp only [List.mem_range]
  constructor
  · intro bytes i lt
    rw [bit, bit, msbBit, msbBit, bytes (i / 8) (by omega)]
  · intro bits b lt
    apply byte_eq_iff_testBit.mpr
    intro j low
    have agree := bits (8 * b + (7 - j)) (by omega)
    rw [bit, bit, msbBit_eq _ _ (by omega), msbBit_eq _ _ (by omega), show 7 - (7 - j) = j by omega] at agree
    exact agree

theorem and_mask_beq_iff (byte other mask : UInt8) :
    (byte &&& mask == other &&& mask) = true ↔
      ∀ j < 8, mask.toNat.testBit j = true → byte.toNat.testBit j = other.toNat.testBit j := by
  rw [beq_iff_eq, byte_eq_iff_testBit]
  simp only [UInt8.toNat_and, Nat.testBit_and]
  constructor
  · intro same j lt inMask
    have agree := same j lt
    rw [inMask, Bool.and_true, Bool.and_true] at agree
    exact agree
  · intro same j lt
    cases inMask : mask.toNat.testBit j
    · simp
    · rw [same j lt inMask]

theorem eq_iff (addr other : Address nbytes) :
    addr.eq other = true ↔ addr.length = other.length ∧ ∀ i < addr.length, addr.bit i = other.bit i := by
  unfold eq
  by_cases lengths : addr.length = other.length
  swap
  · simp [lengths]
  rw [if_neg (not_not.mpr lengths)]
  by_cases zero : addr.length = 0
  · simp [zero, ← lengths]
  rw [if_neg zero]
  obtain ⟨k, r, split, pos, le⟩ : ∃ k r, addr.length = 8 * k + r ∧ 0 < r ∧ r ≤ 8 :=
    ⟨(addr.length - 1) / 8, addr.length - 8 * ((addr.length - 1) / 8), by omega, by omega, by omega⟩
  have nused : addr.nusedBytes = k + 1 := by
    unfold nusedBytes
    omega
  simp only [nused, Nat.add_sub_cancel]
  by_cases bytes : (List.range k).map addr.byteAt = (List.range k).map other.byteAt
  · rw [if_neg (not_not.mpr bytes), and_mask_beq_iff]
    rw [map_byteAt_eq_iff] at bytes
    -- the mask keeps exactly the bits of byte `k` below the length
    have inMask : ∀ j < 8, (usedMask.getD (addr.length % 8) 0).toNat.testBit (7 - j) = decide (j < r) := by
      intro j lt
      rw [testBit_usedMask (Nat.mod_lt _ (by norm_num)) lt]
      simp only [decide_eq_decide]
      omega
    constructor
    · intro masked
      refine ⟨lengths, fun i lt => ?_⟩
      by_cases low : i < 8 * k
      · exact bytes i low
      · have last : i = 8 * k + (i - 8 * k) := by omega
        rw [last, bit, bit, msbBit_eq _ _ (by omega), msbBit_eq _ _ (by omega)]
        exact masked _ (by omega) (by rw [inMask _ (by omega)]; simp only [decide_eq_true_eq]; omega)
    · rintro ⟨-, bits⟩ j lt kept
      have below : 7 - j < r := by
        rw [← show 7 - (7 - j) = j by omega, inMask _ (by omega)] at kept
        simpa using kept
      have agree := bits (8 * k + (7 - j)) (by omega)
      rw [bit, bit, msbBit_eq _ _ (by omega), msbBit_eq _ _ (by omega), show 7 - (7 - j) = j by omega] at agree
      exact agree
  · rw [if_pos bytes]
    simp only [Bool.false_eq_true, false_iff, not_and]
    intro _ bits
    exact bytes ((map_byteAt_eq_iff addr other k).mpr fun i lt => bits i (by omega))

theorem eq_iff_toIndex (addr other : Address nbytes) :
    addr.eq other = true ↔ addr.length = other.length ∧ addr.toIndex = other.toIndex := by
  rw [eq_iff, toIndex_eq, toIndex_eq]
  constructor
  · rintro ⟨lengths, bits⟩
    refine ⟨lengths, ?_⟩
    rw [← lengths]
    exact (bitsValue_eq_iff _ _).mpr bits
  · rintro ⟨lengths, value⟩
    rw [← lengths] at value
    exact ⟨lengths, (bitsValue_eq_iff _ _).mp value⟩

/-! ## `next` and `prev` -/

section Step

variable (addr : Address nbytes) (pos : 0 < addr.length) (fits : addr.length ≤ 8 * nbytes)
include pos fits

theorem bit_nextMarked {i : ℕ} (used : i < 8 * addr.nusedBytes) :
    (addr.setByte (addr.nusedBytes - 1)
        (addr.byteAt (addr.nusedBytes - 1) ||| nextMask.getD (addr.length % 8) 0)).bit i =
      (addr.bit i || decide (addr.length ≤ i)) := by
  have bounds := nusedBytes_bounds addr pos
  have inside := nusedBytes_le addr pos fits
  rw [bit_orByte]
  by_cases last : i / 8 = addr.nusedBytes - 1
  · rw [testBit_nextMask (Nat.mod_lt _ (by norm_num)) (Nat.mod_lt _ (by norm_num))]
    have past : (addr.length % 8 ≠ 0 ∧ addr.length % 8 ≤ i % 8) ↔ addr.length ≤ i := by omega
    simp [last, show addr.nusedBytes - 1 < nbytes by omega, past]
  · simp [last, show ¬ addr.length ≤ i by omega]

theorem bit_prevMasked {i : ℕ} (used : i < 8 * addr.nusedBytes) :
    (addr.setByte (addr.nusedBytes - 1)
        (addr.byteAt (addr.nusedBytes - 1) &&& usedMask.getD (addr.length % 8) 0)).bit i =
      (addr.bit i && decide (i < addr.length)) := by
  have bounds := nusedBytes_bounds addr pos
  have inside := nusedBytes_le addr pos fits
  rw [bit_andByte]
  by_cases last : i / 8 = addr.nusedBytes - 1
  · rw [testBit_usedMask (Nat.mod_lt _ (by norm_num)) (Nat.mod_lt _ (by norm_num))]
    have within : (addr.length % 8 = 0 ∨ i % 8 < addr.length % 8) ↔ i < addr.length := by omega
    simp [last, show addr.nusedBytes - 1 < nbytes by omega, within]
  · simp [last, show i < addr.length by omega]

theorem toIndex_nextCandidate {marked : Address nbytes} (nused : marked.nusedBytes = addr.nusedBytes)
    (lengthEq : marked.length = addr.length)
    (marks : ∀ i < 8 * addr.nusedBytes, marked.bit i = (addr.bit i || decide (addr.length ≤ i)))
    {index : ℕ} (within : index < addr.length) (clear : addr.bit index = false)
    (after : ∀ i, index < i → i < addr.length → addr.bit i = true) :
    ((marked.set index).clearAfter index).length = addr.length ∧
      ((marked.set index).clearAfter index).toIndex = addr.toIndex + 1 := by
  have bounds := nusedBytes_bounds addr pos
  have inside := nusedBytes_le addr pos fits
  have length : ((marked.set index).clearAfter index).length = addr.length := by
    rw [length_clearAfter, length_set, lengthEq]
  have bits : ∀ i < addr.length, ((marked.set index).clearAfter index).bit i =
      ((addr.bit i || decide (i = index)) && decide (i ≤ index)) := by
    intro i lt
    rw [bit_clearAfter _ _ (by rw [nusedBytes_set, nused]; exact inside) (by rw [nusedBytes_set, nused]; omega),
      bit_set, marks i (by omega)]
    simp [show ¬ addr.length ≤ i by omega, show index / 8 < nbytes by omega]
  refine ⟨length, ?_⟩
  rw [toIndex_eq, toIndex_eq, length]
  apply bitsValue_increment _ _ within
  · intro i lt
    rw [bits i (by omega)]
    simp [show i ≠ index by omega, show i ≤ index by omega]
  · exact clear
  · rw [bits index within]
    simp
  · intro i above lt
    refine ⟨after i above lt, ?_⟩
    rw [bits i lt]
    simp [show ¬ i ≤ index by omega]

theorem toIndex_prevCandidate {masked : Address nbytes} (nused : masked.nusedBytes = addr.nusedBytes)
    (lengthEq : masked.length = addr.length)
    (masks : ∀ i < 8 * addr.nusedBytes, masked.bit i = (addr.bit i && decide (i < addr.length)))
    {index : ℕ} (within : index < addr.length) (set : addr.bit index = true)
    (after : ∀ i, index < i → i < addr.length → addr.bit i = false) :
    ((masked.unset index).setAfter index).length = addr.length ∧
      ((masked.unset index).setAfter index).toIndex + 1 = addr.toIndex := by
  have bounds := nusedBytes_bounds addr pos
  have inside := nusedBytes_le addr pos fits
  have length : ((masked.unset index).setAfter index).length = addr.length := by
    rw [length_setAfter, length_unset, lengthEq]
  have bits : ∀ i < addr.length, ((masked.unset index).setAfter index).bit i =
      ((addr.bit i && !decide (i = index)) || decide (index < i)) := by
    intro i lt
    rw [bit_setAfter _ _ (by rw [nusedBytes_unset, nused]; exact inside) (by rw [nusedBytes_unset, nused]; omega),
      bit_unset, masks i (by omega)]
    simp [lt, show index / 8 < nbytes by omega]
  refine ⟨length, ?_⟩
  rw [toIndex_eq, toIndex_eq, length]
  symm
  apply bitsValue_increment _ _ within
  · intro i lt
    rw [bits i (by omega)]
    simp [show i ≠ index by omega, show ¬ index < i by omega]
  · rw [bits index within]
    simp
  · exact set
  · intro i above lt
    refine ⟨?_, after i above lt⟩
    rw [bits i lt]
    simp [above]

/-- `next` adds one to the index, and gives `None` at the last address of the level. -/
theorem next_spec :
    (addr.next = some none ∧ addr.toIndex = 2 ^ addr.length - 1) ∨
      ∃ next, addr.next = some (some next) ∧ next.length = addr.length ∧ next.toIndex = addr.toIndex + 1 := by
  have bounds := nusedBytes_bounds addr pos
  have inside := nusedBytes_le addr pos fits
  simp only [next, show addr.length ≠ 0 by omega, if_false]
  generalize marking : addr.setByte (addr.nusedBytes - 1)
    (addr.byteAt (addr.nusedBytes - 1) ||| nextMask.getD (addr.length % 8) 0) = marked
  have marks : ∀ i < 8 * addr.nusedBytes, marked.bit i = (addr.bit i || decide (addr.length ≤ i)) := by
    intro i used
    rw [← marking]
    exact bit_nextMarked addr pos fits used
  have search : marked.rightmostClearIndex addr.nusedBytes =
      searchFromRight trailingOnes ((List.range marked.nusedBytes).map marked.byteAt) addr.nusedBytes := rfl
  have nused : marked.nusedBytes = addr.nusedBytes := by rw [← marking, nusedBytes_setByte]
  rw [nused] at search
  cases found : marked.rightmostClearIndex addr.nusedBytes with
  | none =>
    -- every used bit of the marked address is set, so every bit of `addr` is
    left
    refine ⟨rfl, ?_⟩
    rw [search, searchFromRight_eq_none trailingOnes_countsTo] at found
    rw [toIndex_eq]
    apply bitsValue_of_forall_true
    intro i lt
    have set := found i (by omega)
    rw [← bit, marks i (by omega)] at set
    simpa [show ¬ addr.length ≤ i by omega] using set
  | some index =>
    rw [search] at found
    obtain ⟨used, clear, after⟩ := searchFromRight_eq_some trailingOnes_countsTo _ _ found
    rw [← bit, marks index used] at clear
    have within : index < addr.length := by
      by_contra past
      simp [show addr.length ≤ index by omega] at clear
    have set : ∀ i, index < i → i < addr.length → addr.bit i = true := by
      intro i above lt
      have set := after i above (by omega)
      rw [← bit, marks i (by omega)] at set
      simpa [show ¬ addr.length ≤ i by omega] using set
    obtain ⟨length, value⟩ := toIndex_nextCandidate addr pos fits nused (by rw [← marking, length_setByte])
      marks within (Bool.or_eq_false_iff.mp clear).1 set
    have differ : addr.eq ((marked.set index).clearAfter index) = false := by
      by_contra same
      rw [Bool.not_eq_false, eq_iff_toIndex, value] at same
      omega
    right
    exact ⟨_, by simp [differ], length, value⟩

/-- `prev` takes one from the index, and gives `None` at the first address of the level. -/
theorem prev_spec :
    (addr.prev = some none ∧ addr.toIndex = 0) ∨
      ∃ prev, addr.prev = some (some prev) ∧ prev.length = addr.length ∧ prev.toIndex + 1 = addr.toIndex := by
  have bounds := nusedBytes_bounds addr pos
  have inside := nusedBytes_le addr pos fits
  simp only [prev]
  generalize masking : addr.setByte (addr.nusedBytes - 1)
    (addr.byteAt (addr.nusedBytes - 1) &&& usedMask.getD (addr.length % 8) 0) = masked
  have masks : ∀ i < 8 * addr.nusedBytes, masked.bit i = (addr.bit i && decide (i < addr.length)) := by
    intro i used
    rw [← masking]
    exact bit_prevMasked addr pos fits used
  have search : masked.rightmostOneIndex addr.nusedBytes =
      searchFromRight trailingZeros ((List.range masked.nusedBytes).map masked.byteAt) addr.nusedBytes := rfl
  have nused : masked.nusedBytes = addr.nusedBytes := by rw [← masking, nusedBytes_setByte]
  rw [nused] at search
  cases found : masked.rightmostOneIndex addr.nusedBytes with
  | none =>
    -- every used bit of the masked address is clear, so every bit of `addr` is
    left
    refine ⟨rfl, ?_⟩
    rw [search, searchFromRight_eq_none trailingZeros_countsTo] at found
    rw [toIndex_eq]
    apply bitsValue_of_forall_false
    intro i lt
    have clear := found i (by omega)
    rw [← bit, masks i (by omega)] at clear
    simpa [lt] using clear
  | some index =>
    rw [search] at found
    obtain ⟨used, set, after⟩ := searchFromRight_eq_some trailingZeros_countsTo _ _ found
    rw [← bit, masks index used] at set
    have within : index < addr.length := by
      by_contra past
      simp [show ¬ index < addr.length by omega] at set
    have clear : ∀ i, index < i → i < addr.length → addr.bit i = false := by
      intro i above lt
      have clear := after i above (by omega)
      rw [← bit, masks i (by omega)] at clear
      simpa [lt] using clear
    obtain ⟨length, value⟩ := toIndex_prevCandidate addr pos fits nused (by rw [← masking, length_setByte])
      masks within (Bool.and_eq_true_iff.mp set).1 clear
    have differ : addr.eq ((masked.unset index).setAfter index) = false := by
      by_contra same
      rw [Bool.not_eq_false, eq_iff_toIndex, ← value] at same
      omega
    right
    exact ⟨_, by simp [differ], length, value⟩

theorem next_isSome : addr.next.isSome := by
  rcases next_spec addr pos fits with ⟨none, -⟩ | ⟨next, found, -⟩
  · rw [none]
    rfl
  · rw [found]
    rfl

theorem prev_isSome : addr.prev.isSome := by
  rcases prev_spec addr pos fits with ⟨none, -⟩ | ⟨prev, found, -⟩
  · rw [none]
    rfl
  · rw [found]
    rfl

theorem next_eq_some {next : Address nbytes} (found : addr.next = some (some next)) :
    next.length = addr.length ∧ next.toIndex = addr.toIndex + 1 := by
  rcases next_spec addr pos fits with ⟨none, -⟩ | ⟨next', found', length, value⟩
  · simp [none] at found
  · rw [found'] at found
    cases found
    exact ⟨length, value⟩

theorem prev_eq_some {prev : Address nbytes} (found : addr.prev = some (some prev)) :
    prev.length = addr.length ∧ prev.toIndex + 1 = addr.toIndex := by
  rcases prev_spec addr pos fits with ⟨none, -⟩ | ⟨prev', found', length, value⟩
  · simp [none] at found
  · rw [found'] at found
    cases found
    exact ⟨length, value⟩

theorem exists_next_iff : (∃ next, addr.next = some (some next)) ↔ addr.toIndex < 2 ^ addr.length - 1 := by
  have below := toIndex_lt addr
  rcases next_spec addr pos fits with ⟨none, last⟩ | ⟨next, found, length, value⟩
  · rw [none]
    constructor
    · rintro ⟨next, found⟩
      simp at found
    · intro lt
      omega
  · refine ⟨fun _ => ?_, fun _ => ⟨next, found⟩⟩
    have bound := toIndex_lt next
    rw [length] at bound
    omega

theorem exists_prev_iff : (∃ prev, addr.prev = some (some prev)) ↔ 0 < addr.toIndex := by
  rcases prev_spec addr pos fits with ⟨none, first⟩ | ⟨prev, found, length, value⟩
  · rw [none]
    constructor
    · rintro ⟨prev, found⟩
      simp at found
    · intro lt
      omega
  · exact ⟨fun _ => by omega, fun _ => ⟨prev, found⟩⟩

theorem prev_next {next : Address nbytes} (found : addr.next = some (some next)) :
    ∃ prev, next.prev = some (some prev) ∧ prev.eq addr = true := by
  obtain ⟨length, value⟩ := next_eq_some addr pos fits found
  rcases prev_spec next (by omega) (by omega) with ⟨-, first⟩ | ⟨prev, back, length', value'⟩
  · omega
  · exact ⟨prev, back, (eq_iff_toIndex _ _).mpr ⟨by omega, by omega⟩⟩

theorem next_prev {prev : Address nbytes} (found : addr.prev = some (some prev)) :
    ∃ next, prev.next = some (some next) ∧ next.eq addr = true := by
  obtain ⟨length, value⟩ := prev_eq_some addr pos fits found
  have below := toIndex_lt addr
  rcases next_spec prev (by omega) (by omega) with ⟨-, last⟩ | ⟨next, forth, length', value'⟩
  · rw [length] at last
    omega
  · exact ⟨next, forth, (eq_iff_toIndex _ _).mpr ⟨by omega, by omega⟩⟩

end Step

/-! ## `from_index` and `to_linear_index` -/

theorem and_one_shiftLeft_ne_zero (index k : ℕ) : index &&& 1 <<< k ≠ 0 ↔ index.testBit k = true := by
  rw [Nat.one_shiftLeft, Nat.and_two_pow]
  cases index.testBit k
  · simp
  · simp

theorem length_foldl_fromIndex (index : ℕ) (entries : List (ℕ × ℕ)) (addr : Address nbytes) :
    (entries.foldl (fun addr entry => if index &&& 1 <<< entry.1 ≠ 0 then addr.set entry.2 else addr) addr).length =
      addr.length := by
  induction entries generalizing addr with
  | nil => rfl
  | cons entry rest ih =>
    rw [List.foldl_cons, ih]
    split_ifs <;> rfl

theorem bit_foldl_fromIndex (index : ℕ) (entries : List (ℕ × ℕ)) (addr : Address nbytes) {i : ℕ}
    (inside : i / 8 < nbytes) :
    (entries.foldl (fun addr entry => if index &&& 1 <<< entry.1 ≠ 0 then addr.set entry.2 else addr) addr).bit i =
      (addr.bit i || entries.any fun entry => index.testBit entry.1 && entry.2 == i) := by
  induction entries generalizing addr with
  | nil => simp
  | cons entry rest ih =>
    rw [List.foldl_cons, ih, List.any_cons]
    by_cases setting : index.testBit entry.1 = true
    · rw [if_pos ((and_one_shiftLeft_ne_zero _ _).mpr setting), bit_set]
      by_cases here : entry.2 = i
      · subst here
        simp [setting, inside]
      · simp [beq_false_of_ne here, Ne.symm here]
    · rw [if_neg (fun ne => setting ((and_one_shiftLeft_ne_zero _ _).mp ne))]
      simp [setting]

theorem mem_zipIdx_reverse_range {length : ℕ} {entry : ℕ × ℕ} :
    entry ∈ (List.range length).reverse.zipIdx ↔ entry.2 < length ∧ entry.1 = length - 1 - entry.2 := by
  rw [List.mem_zipIdx_iff_getElem?]
  by_cases lt : entry.2 < length
  · rw [List.getElem?_reverse (by simpa using lt), List.length_range, List.getElem?_range (by omega)]
    simp [lt, eq_comm]
  · rw [List.getElem?_eq_none (by simpa using Nat.le_of_not_lt lt)]
    simp [lt]

@[simp] theorem length_fromIndex (index length : ℕ) : (fromIndex index length : Address nbytes).length = length := by
  rw [fromIndex, length_foldl_fromIndex]
  rfl

theorem bit_first (length i : ℕ) : (first length : Address nbytes).bit i = false := by
  simp only [bit, msbBit, byteAt, first, Vector.getElem?_replicate]
  split_ifs <;> simp

theorem bit_fromIndex (index length : ℕ) {i : ℕ} (inside : i / 8 < nbytes) :
    (fromIndex index length : Address nbytes).bit i = (decide (i < length) && index.testBit (length - 1 - i)) := by
  rw [fromIndex, bit_foldl_fromIndex _ _ _ inside, bit_first, Bool.false_or]
  -- the loop meets position `i` once, for bit `length - 1 - i`
  have met : ((List.range length).reverse.zipIdx.any fun entry => index.testBit entry.1 && entry.2 == i) =
      (decide (i < length) && index.testBit (length - 1 - i)) := by
    rw [Bool.eq_iff_iff, List.any_eq_true, Bool.and_eq_true, decide_eq_true_iff]
    constructor
    · rintro ⟨entry, mem, found⟩
      rw [Bool.and_eq_true, beq_iff_eq] at found
      rw [mem_zipIdx_reverse_range] at mem
      rw [← found.2, ← mem.2]
      exact ⟨mem.1, found.1⟩
    · rintro ⟨lt, setting⟩
      exact ⟨(length - 1 - i, i), mem_zipIdx_reverse_range.mpr ⟨lt, rfl⟩, by simp [setting]⟩
  exact met

theorem toIndex_fromIndex (index length : ℕ) (fits : length ≤ 8 * nbytes) :
    (fromIndex index length : Address nbytes).toIndex = index % 2 ^ length := by
  rw [toIndex_eq, length_fromIndex, ← bitsValue_testBit]
  apply bitsValue_congr
  intro i lt
  rw [bit_fromIndex _ _ (by omega)]
  simp [lt]

theorem toLinearIndex_eq (addr : Address nbytes) (short : addr.length < 64) :
    addr.toLinearIndex = some (2 ^ addr.length + addr.toIndex - 1) :=
  if_pos short

theorem toLinearIndex_eq_iff (addr other : Address nbytes) (short : addr.length < 64) (short' : other.length < 64) :
    addr.toLinearIndex = other.toLinearIndex ↔ addr.eq other = true := by
  rw [toLinearIndex_eq _ short, toLinearIndex_eq _ short', Option.some.injEq, eq_iff_toIndex]
  have below := toIndex_lt addr
  have below' := toIndex_lt other
  constructor
  · intro same
    have levels : addr.length = other.length := by
      by_contra differ
      rcases Nat.lt_or_gt_of_ne differ with lt | gt
      · have apart : 2 ^ (addr.length + 1) ≤ 2 ^ other.length := Nat.pow_le_pow_right (by norm_num) lt
        rw [Nat.pow_succ] at apart
        omega
      · have apart : 2 ^ (other.length + 1) ≤ 2 ^ addr.length := Nat.pow_le_pow_right (by norm_num) gt
        rw [Nat.pow_succ] at apart
        omega
    refine ⟨levels, ?_⟩
    rw [levels] at same
    omega
  · rintro ⟨levels, indices⟩
    rw [levels, indices]

/-! ## Children and parent -/

@[simp] theorem length_childLeft (addr : Address nbytes) : addr.childLeft.length = addr.length + 1 := rfl

@[simp] theorem length_childRight (addr : Address nbytes) : addr.childRight.length = addr.length + 1 := rfl

theorem bit_childLeft (addr : Address nbytes) (i : ℕ) : addr.childLeft.bit i = addr.bit i := rfl

theorem bit_childRight (addr : Address nbytes) (short : addr.length < 8 * nbytes) (i : ℕ) :
    addr.childRight.bit i = (addr.bit i || decide (i = addr.length)) := by
  rw [childRight, bit_set, bit_childLeft, length_childLeft, Nat.add_sub_cancel]
  simp [show addr.length / 8 < nbytes by omega]

theorem toIndex_childLeft (addr : Address nbytes) :
    addr.childLeft.toIndex = 2 * addr.toIndex + (addr.bit addr.length).toNat := by
  rw [toIndex_eq, toIndex_eq, length_childLeft, bitsValue_succ]
  rfl

theorem toIndex_childRight (addr : Address nbytes) (short : addr.length < 8 * nbytes) :
    addr.childRight.toIndex = 2 * addr.toIndex + 1 := by
  rw [toIndex_eq, toIndex_eq, length_childRight, bitsValue_succ, bit_childRight _ short]
  have below : bitsValue addr.childRight.bit addr.length = bitsValue addr.bit addr.length := by
    apply bitsValue_congr
    intro i lt
    rw [bit_childRight _ short]
    simp [show i ≠ addr.length by omega]
  rw [below]
  simp

theorem toIndex_parent (addr : Address nbytes) {parent : Address nbytes} (found : addr.parent = some parent) :
    parent.length + 1 = addr.length ∧ parent.toIndex = addr.toIndex / 2 := by
  unfold Address.parent at found
  split_ifs at found with zero
  cases found
  refine ⟨by simp; omega, ?_⟩
  rw [toIndex_eq, toIndex_eq]
  change bitsValue addr.bit (addr.length - 1) = bitsValue addr.bit addr.length / 2
  obtain ⟨length, split⟩ : ∃ length, addr.length = length + 1 := ⟨addr.length - 1, by omega⟩
  rw [split, Nat.add_sub_cancel, bitsValue_succ]
  have digit := Bool.toNat_le (addr.bit length)
  omega

/-! ## The abstract address

`Openmina.Ledger.Address`, the length and the index, is what the bits within the
length spell. The operations agree with the abstract ones, `child_left` only when
the bit at the length is clear. -/

def toAbstract (addr : Address nbytes) : Ledger.Address :=
  ⟨addr.length, addr.toIndex, addr.toIndex_lt⟩

theorem eq_iff_toAbstract (addr other : Address nbytes) :
    addr.eq other = true ↔ addr.toAbstract = other.toAbstract := by
  rw [eq_iff_toIndex]
  constructor
  · rintro ⟨length, index⟩
    exact Ledger.Address.ext_index length index
  · intro same
    exact ⟨congrArg Ledger.Address.length same, congrArg Ledger.Address.index same⟩

theorem toAbstract_fromIndex (index length : ℕ) (fits : length ≤ 8 * nbytes) :
    (fromIndex index length : Address nbytes).toAbstract = Ledger.Address.fromIndex index length :=
  Ledger.Address.ext_index (length_fromIndex index length) (toIndex_fromIndex index length fits)

theorem toAbstract_childLeft (addr : Address nbytes) (clear : addr.bit addr.length = false) :
    addr.childLeft.toAbstract = addr.toAbstract.childLeft :=
  Ledger.Address.ext_index rfl (by
    change addr.childLeft.toIndex = 2 * addr.toIndex
    rw [toIndex_childLeft, clear]
    rfl)

theorem toAbstract_childRight (addr : Address nbytes) (short : addr.length < 8 * nbytes) :
    addr.childRight.toAbstract = addr.toAbstract.childRight :=
  Ledger.Address.ext_index rfl (toIndex_childRight addr short)

theorem toAbstract_parent (addr : Address nbytes) : addr.parent.map toAbstract = addr.toAbstract.parent := by
  cases found : addr.parent with
  | none =>
    unfold Address.parent at found
    split_ifs at found with zero
    simp [Ledger.Address.parent, toAbstract, zero]
  | some parent =>
    obtain ⟨length, index⟩ := toIndex_parent addr found
    have zero : addr.toAbstract.length ≠ 0 := by
      change addr.length ≠ 0
      omega
    rw [Option.map_some]
    unfold Ledger.Address.parent
    rw [dif_neg zero, Option.some.injEq]
    apply Ledger.Address.ext_index
    · change parent.length = addr.length - 1
      omega
    · exact index

theorem toAbstract_next (addr : Address nbytes) (pos : 0 < addr.length) (fits : addr.length ≤ 8 * nbytes) :
    addr.next.map (Option.map toAbstract) = some addr.toAbstract.next := by
  rcases next_spec addr pos fits with ⟨none, last⟩ | ⟨next, found, length, value⟩
  · rw [none, Option.map_some, Option.map_none, Option.some.injEq, eq_comm,
      Ledger.Address.next_eq_none_iff _ pos]
    have := Nat.two_pow_pos addr.length
    change addr.toIndex + 1 = 2 ^ addr.length
    omega
  · rw [found, Option.map_some, Option.map_some, Option.some.injEq]
    have below := toIndex_lt next
    rw [length] at below
    unfold Ledger.Address.next
    have going : addr.toAbstract.index + 1 < 2 ^ addr.toAbstract.length := by
      change addr.toIndex + 1 < 2 ^ addr.length
      omega
    rw [if_neg (show addr.toAbstract.length ≠ 0 by change addr.length ≠ 0; omega), dif_pos going,
      Option.some.injEq]
    apply Ledger.Address.ext_index
    · exact length
    · exact value

theorem toAbstract_prev (addr : Address nbytes) (pos : 0 < addr.length) (fits : addr.length ≤ 8 * nbytes) :
    addr.prev.map (Option.map toAbstract) = some addr.toAbstract.prev := by
  rcases prev_spec addr pos fits with ⟨none, first⟩ | ⟨prev, found, length, value⟩
  · rw [none, Option.map_some, Option.map_none, Option.some.injEq, eq_comm,
      Ledger.Address.prev_eq_none_iff]
    exact first
  · rw [found, Option.map_some, Option.map_some, Option.some.injEq]
    unfold Ledger.Address.prev
    simp only [toAbstract, show addr.toIndex ≠ 0 by omega, if_false, Option.some.injEq]
    apply Ledger.Address.ext_index
    · exact length
    · change prev.toIndex = addr.toIndex - 1
      omega

theorem toLinearIndex_toAbstract (addr : Address nbytes) (short : addr.length < 64) :
    addr.toLinearIndex = some addr.toAbstract.toLinearIndex :=
  toLinearIndex_eq addr short

/-- The byte-level address refines the abstract one: equality, `from_index`, `parent`,
`child_right`, `next`, `prev` and `to_linear_index` commute with `toAbstract` within the
bytes, and `child_left` does when the bit at the length is clear. -/
theorem toAbstract_refines :
    (∀ index length, length ≤ 8 * nbytes →
      (fromIndex index length : Address nbytes).toAbstract = Ledger.Address.fromIndex index length) ∧
    ∀ addr : Address nbytes,
      (∀ other, addr.eq other = true ↔ addr.toAbstract = other.toAbstract) ∧
      addr.parent.map toAbstract = addr.toAbstract.parent ∧
      (addr.length < 8 * nbytes → addr.childRight.toAbstract = addr.toAbstract.childRight) ∧
      (addr.bit addr.length = false → addr.childLeft.toAbstract = addr.toAbstract.childLeft) ∧
      (0 < addr.length → addr.length ≤ 8 * nbytes →
        addr.next.map (Option.map toAbstract) = some addr.toAbstract.next ∧
        addr.prev.map (Option.map toAbstract) = some addr.toAbstract.prev) ∧
      (addr.length < 64 → addr.toLinearIndex = some addr.toAbstract.toLinearIndex) :=
  ⟨toAbstract_fromIndex, fun addr => ⟨eq_iff_toAbstract addr, toAbstract_parent addr, toAbstract_childRight addr,
    toAbstract_childLeft addr, fun pos fits => ⟨toAbstract_next addr pos fits, toAbstract_prev addr pos fits⟩,
    toLinearIndex_toAbstract addr⟩⟩

theorem iterChildren_eq_some {addr : Address nbytes} {length : ℕ} {it : AddressChildrenIterator nbytes}
    (made : addr.iterChildren length = some it) (deeper : addr.length < length) (fits : length ≤ 8 * nbytes) :
    it.len = 2 ^ (length - addr.length) ∧ ∃ current, it.current = some current ∧ current.length = length ∧
      ∀ i < length, current.bit i = (addr.bit i && decide (i ≤ addr.length)) := by
  unfold iterChildren at made
  rw [if_pos (by omega)] at made
  cases following : addr.next with
  | none => simp [following] at made
  | some following =>
    simp only [following, Option.bind_eq_bind, Option.bind_some, Option.pure_def, Option.some.injEq] at made
    subst made
    refine ⟨rfl, _, rfl, length_clearAfter _ _, fun i lt => ?_⟩
    have extended : ({ addr with length } : Address nbytes).length = length := rfl
    have bounds := nusedBytes_bounds ({ addr with length } : Address nbytes) (by omega)
    rw [bit_clearAfter _ _ (nusedBytes_le _ (by omega) fits) (by omega)]
    rfl

end Address

namespace AddressChildrenIterator

variable {nbytes : ℕ}

theorem next_of_current_none (it : AddressChildrenIterator nbytes) (empty : it.current = none) :
    it.next = some (none, it) := by
  unfold next
  rw [empty]
  split_ifs <;> rfl

theorem collect_of_current_none (it : AddressChildrenIterator nbytes) (empty : it.current = none) {fuel : ℕ}
    {items : List (Address nbytes)} (ran : it.collect fuel = some items) : items = [] := by
  cases fuel with
  | zero => simp [collect] at ran
  | succ fuel =>
    simp only [collect, next_of_current_none it empty, Option.bind_eq_bind, Option.bind_some, Option.pure_def,
      Option.some.injEq] at ran
    exact ran.symm

theorem collect_from (fuel : ℕ) : ∀ (it : AddressChildrenIterator nbytes) (current : Address nbytes)
    (items : List (Address nbytes)), it.current = some current → 0 < current.length →
    current.length ≤ 8 * nbytes → it.collect fuel = some items →
    ∀ item ∈ items, item.length = current.length ∧ current.toIndex ≤ item.toIndex := by
  induction fuel with
  | zero =>
    intro it current items _ _ _ ran
    simp [collect] at ran
  | succ fuel ih =>
    intro it current items is pos fits ran
    simp only [collect, next, is] at ran
    split_ifs at ran with stop
    · -- the iterator has reached `until`
      simp only [Option.bind_eq_bind, Option.bind_some, Option.pure_def, Option.some.injEq] at ran
      subst ran
      simp
    · obtain ⟨following, found⟩ := Option.isSome_iff_exists.mp (Address.next_isSome current pos fits)
      simp only [found, Option.bind_eq_bind, Option.bind_some, Option.pure_def, Option.map_eq_map] at ran
      cases rest : collect fuel { it with current := following } with
      | none => simp [rest] at ran
      | some rest' =>
        simp only [rest, Option.map_some, Option.some.injEq] at ran
        subst ran
        intro item mem
        rcases List.mem_cons.mp mem with rfl | later
        · exact ⟨rfl, le_rfl⟩
        · cases following with
          | none =>
            rw [collect_of_current_none _ rfl rest] at later
            simp at later
          | some next =>
            obtain ⟨length, value⟩ := Address.next_eq_some current pos fits found
            obtain ⟨sameLength, below⟩ := ih _ next rest' rfl (by omega) (by omega) rest item later
            exact ⟨by omega, by omega⟩

end AddressChildrenIterator

/-! ## The ledger's addresses

`address::Address` is `Address<5>`: 40 bits, of which devnet uses 35. -/

theorem ledger_fits {length : ℕ} (short : length ≤ 35) : length ≤ 8 * computeNbytes nbits := by
  rw [show computeNbytes nbits = 5 from rfl]
  omega

theorem next_prev_mutually_inverse (addr : LedgerAddress) (pos : 1 ≤ addr.length) (short : addr.length ≤ 35) :
    addr.next.isSome ∧ addr.prev.isSome ∧
      ((∃ next, addr.next = some (some next)) ↔ addr.toIndex < 2 ^ addr.length - 1) ∧
      (∀ next, addr.next = some (some next) → next.length = addr.length ∧ next.toIndex = addr.toIndex + 1) ∧
      ((∃ prev, addr.prev = some (some prev)) ↔ 0 < addr.toIndex) ∧
      (∀ prev, addr.prev = some (some prev) → prev.length = addr.length ∧ prev.toIndex = addr.toIndex - 1) ∧
      (∀ next, addr.next = some (some next) → ∃ prev, next.prev = some (some prev) ∧ prev.eq addr = true) ∧
      (∀ prev, addr.prev = some (some prev) → ∃ next, prev.next = some (some next) ∧ next.eq addr = true) := by
  have fits := ledger_fits short
  refine ⟨Address.next_isSome addr pos fits, Address.prev_isSome addr pos fits, Address.exists_next_iff addr pos fits,
    fun next found => Address.next_eq_some addr pos fits found, Address.exists_prev_iff addr pos fits,
    fun prev found => ?_, fun next found => Address.prev_next addr pos fits found,
    fun prev found => Address.next_prev addr pos fits found⟩
  obtain ⟨length, value⟩ := Address.prev_eq_some addr pos fits found
  exact ⟨length, by omega⟩

theorem next_prev_mutually_inverse_first_five :
    (Address.first 5 : LedgerAddress).next.isSome ∧ (Address.first 5 : LedgerAddress).prev.isSome ∧
      ((∃ next, (Address.first 5 : LedgerAddress).next = some (some next)) ↔
        (Address.first 5 : LedgerAddress).toIndex < 2 ^ (Address.first 5 : LedgerAddress).length - 1) ∧
      (∀ next, (Address.first 5 : LedgerAddress).next = some (some next) →
        next.length = (Address.first 5 : LedgerAddress).length ∧
          next.toIndex = (Address.first 5 : LedgerAddress).toIndex + 1) ∧
      ((∃ prev, (Address.first 5 : LedgerAddress).prev = some (some prev)) ↔ 0 < (Address.first 5 : LedgerAddress).toIndex) ∧
      (∀ prev, (Address.first 5 : LedgerAddress).prev = some (some prev) →
        prev.length = (Address.first 5 : LedgerAddress).length ∧
          prev.toIndex = (Address.first 5 : LedgerAddress).toIndex - 1) ∧
      (∀ next, (Address.first 5 : LedgerAddress).next = some (some next) →
        ∃ prev, next.prev = some (some prev) ∧ prev.eq (Address.first 5) = true) ∧
      (∀ prev, (Address.first 5 : LedgerAddress).prev = some (some prev) →
        ∃ next, prev.next = some (some next) ∧ next.eq (Address.first 5) = true) :=
  next_prev_mutually_inverse _ (by decide) (by decide)

theorem from_index_to_index_roundtrip :
    (∀ length index, length ≤ 35 → index < 2 ^ length →
      (Address.fromIndex index length : LedgerAddress).toIndex = index) ∧
    (∀ addr : LedgerAddress, addr.length ≤ 35 → (Address.fromIndex addr.toIndex addr.length : LedgerAddress).eq addr = true) ∧
    (∀ addr other : LedgerAddress, addr.length ≤ 35 → other.length ≤ 35 →
      (addr.eq other = true ↔ addr.toLinearIndex = other.toLinearIndex)) := by
  refine ⟨fun length index short below => ?_, fun addr short => ?_, fun addr other short short' => ?_⟩
  · rw [Address.toIndex_fromIndex _ _ (ledger_fits short), Nat.mod_eq_of_lt below]
  · rw [Address.eq_iff_toIndex, Address.length_fromIndex, Address.toIndex_fromIndex _ _ (ledger_fits short),
      Nat.mod_eq_of_lt (Address.toIndex_lt addr)]
    exact ⟨rfl, rfl⟩
  · exact (Address.toLinearIndex_eq_iff addr other (by omega) (by omega)).symm

theorem from_index_to_index_roundtrip_five_of_three :
    (Address.fromIndex 5 3 : LedgerAddress).toIndex = 5 :=
  from_index_to_index_roundtrip.1 3 5 (by decide) (by decide)

/-- `child_left` keeps the bit at the length: on an address whose bit there is set it
gives the right child, and equals `child_right`. -/
theorem child_left_reads_stale_bit (addr : LedgerAddress) (short : addr.length < 35)
    (stale : addr.bit addr.length = true) :
    addr.childLeft.toIndex = 2 * addr.toIndex + 1 ∧ addr.childLeft.eq addr.childRight = true := by
  have right := Address.toIndex_childRight addr (ledger_fits short)
  refine ⟨by rw [Address.toIndex_childLeft, stale]; rfl, ?_⟩
  rw [Address.eq_iff_toIndex, Address.toIndex_childLeft, stale, right]
  exact ⟨rfl, rfl⟩

/-- The parent of `01`, which `parent` leaves with the dropped bit set. -/
theorem child_left_reads_stale_bit_parent :
    (Address.first 2 : LedgerAddress).next = some (some ⟨#v[0b01000000, 0, 0, 0, 0], 2⟩) ∧
    (⟨#v[0b01000000, 0, 0, 0, 0], 2⟩ : LedgerAddress).parent = some ⟨#v[0b01000000, 0, 0, 0, 0], 1⟩ ∧
    (⟨#v[0b01000000, 0, 0, 0, 0], 1⟩ : LedgerAddress).childLeft.toIndex =
      2 * (⟨#v[0b01000000, 0, 0, 0, 0], 1⟩ : LedgerAddress).toIndex + 1 ∧
    (⟨#v[0b01000000, 0, 0, 0, 0], 1⟩ : LedgerAddress).childLeft.eq
      (⟨#v[0b01000000, 0, 0, 0, 0], 1⟩ : LedgerAddress).childRight = true :=
  ⟨by decide, by decide, child_left_reads_stale_bit _ (by decide) (by decide)⟩

/-- `iter_children` from an address whose bit at its length is set starts past the
first child, so it never yields it, while `len()` counts every child. -/
theorem iter_children_misses_first_child (root : LedgerAddress) (length : ℕ) (deeper : root.length < length)
    (short : length ≤ 35) (stale : root.bit root.length = true) (it : AddressChildrenIterator (computeNbytes nbits))
    (made : root.iterChildren length = some it) (fuel : ℕ) (items : List LedgerAddress)
    (ran : it.collect fuel = some items) :
    it.len = 2 ^ (length - root.length) ∧
      ∀ item ∈ items, (Address.fromIndex (root.toIndex * 2 ^ (length - root.length)) length : LedgerAddress).eq item = false := by
  have fits := ledger_fits short
  obtain ⟨len, current, is, currentLength, bits⟩ := Address.iterChildren_eq_some made deeper fits
  refine ⟨len, fun item mem => ?_⟩
  obtain ⟨itemLength, above⟩ := AddressChildrenIterator.collect_from fuel it current items is (by omega) (by omega) ran item mem
  -- the first address has the bit at `root.length` set: it is past the first child
  obtain ⟨rest, split⟩ : ∃ rest, length = root.length + 1 + rest := ⟨length - (root.length + 1), by omega⟩
  have start : (2 * root.toIndex + 1) * 2 ^ rest ≤ current.toIndex := by
    rw [Address.toIndex_eq current, currentLength, split, bitsValue_add, bitsValue_succ, Address.toIndex_eq root]
    have top : bitsValue current.bit root.length = bitsValue root.bit root.length :=
      bitsValue_congr fun i lt => by rw [bits i (by omega)]; simp [show i ≤ root.length by omega]
    rw [top, bits root.length (by omega), stale]
    simp
  have first : (Address.fromIndex (root.toIndex * 2 ^ (length - root.length)) length : LedgerAddress).toIndex =
      root.toIndex * 2 ^ (length - root.length) := by
    rw [Address.toIndex_fromIndex _ _ fits, Nat.mod_eq_of_lt]
    have below := Address.toIndex_lt root
    calc root.toIndex * 2 ^ (length - root.length) < 2 ^ root.length * 2 ^ (length - root.length) :=
          Nat.mul_lt_mul_of_pos_right below (Nat.two_pow_pos _)
      _ = 2 ^ length := by rw [← Nat.pow_add]; congr 1; omega
  rw [Bool.eq_false_iff, ne_eq, Address.eq_iff_toIndex, first]
  rintro ⟨-, same⟩
  have widths : 2 ^ (length - root.length) = 2 * 2 ^ rest := by rw [split, ← Nat.pow_succ']; congr 1; omega
  rw [widths] at same
  have pos := Nat.two_pow_pos rest
  have expand : (2 * root.toIndex + 1) * 2 ^ rest = root.toIndex * (2 * 2 ^ rest) + 2 ^ rest := by ring
  omega

theorem iter_children_misses_first_child_last_two :
    (Address.last 2 : LedgerAddress).iterChildren 4 = some ⟨some ⟨#v[0b11100000, 0xFF, 0xFF, 0xFF, 0xFF], 4⟩, none, 4⟩ ∧
    AddressChildrenIterator.collect 8 ⟨some ⟨#v[0b11100000, 0xFF, 0xFF, 0xFF, 0xFF], 4⟩, none, 4⟩ =
      some [⟨#v[0b11100000, 0xFF, 0xFF, 0xFF, 0xFF], 4⟩, ⟨#v[0b11110000, 0xFF, 0xFF, 0xFF, 0xFF], 4⟩] ∧
    (AddressChildrenIterator.len ⟨some ⟨#v[0b11100000, 0xFF, 0xFF, 0xFF, 0xFF], 4⟩, none, 4⟩ =
        2 ^ (4 - (Address.last 2 : LedgerAddress).length) ∧
      ∀ item ∈ ([⟨#v[0b11100000, 0xFF, 0xFF, 0xFF, 0xFF], 4⟩, ⟨#v[0b11110000, 0xFF, 0xFF, 0xFF, 0xFF], 4⟩] :
          List LedgerAddress),
        (Address.fromIndex ((Address.last 2 : LedgerAddress).toIndex * 2 ^ (4 - (Address.last 2 : LedgerAddress).length)) 4 :
          LedgerAddress).eq item = false) :=
  ⟨by decide, by decide,
    iter_children_misses_first_child _ 4 (by decide) (by decide) (by decide) _ (by decide) 8 _ (by decide)⟩
end Openmina.Ledger.Raw
