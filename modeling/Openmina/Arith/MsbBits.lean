import Mathlib
import Openmina.Arith.ListIndex

/-!
# Bit strings packed most significant bit first

A byte string read as a string of bits: bit `i` is bit `7 - i % 8` of byte `i / 8`.
`bitsValue f n` is the number whose binary digits, most significant first, are
`f 0, ..., f (n - 1)`. Two bit strings spell the same number exactly when they agree,
adding one flips the rightmost clear bit and clears what follows it, and a whole
number of bytes spells the big-endian number of those bytes. The byte facts about
`trailing_ones`/`trailing_zeros` are checked over all 256 bytes; with them, a search
from the last byte for the first one whose count is below 8 finds the rightmost bit
of the string that differs from the bits the count runs over.
-/

namespace Openmina.Arith.MsbBits

open Openmina.Arith.ListIndex

set_option autoImplicit false

def msbBit (bytes : ℕ → UInt8) (i : ℕ) : Bool :=
  (bytes (i / 8)).toNat.testBit (7 - i % 8)

def bitsValue (f : ℕ → Bool) : ℕ → ℕ
  | 0 => 0
  | n + 1 => 2 * bitsValue f n + (f n).toNat

def trailingOnes (byte : UInt8) : ℕ :=
  ((List.range 8).takeWhile fun j => byte.toNat.testBit j).length

def trailingZeros (byte : UInt8) : ℕ :=
  ((List.range 8).takeWhile fun j => !byte.toNat.testBit j).length

def searchFromRight (count : UInt8 → ℕ) (bytes : List UInt8) (n : ℕ) : Option ℕ :=
  bytes.reverse.zipIdx.findSome? fun entry =>
    if count entry.1 = 8 then none else some ((n - entry.2) * 8 - count entry.1 - 1)

def CountsTo (count : UInt8 → ℕ) (c : Bool) : Prop :=
  ∀ byte : UInt8, count byte ≤ 8 ∧ (∀ j < count byte, byte.toNat.testBit j = !c) ∧
    (count byte < 8 → byte.toNat.testBit (count byte) = c)

section BitsValue

variable (f g : ℕ → Bool)

@[simp] theorem bitsValue_zero : bitsValue f 0 = 0 := rfl

theorem bitsValue_succ (n : ℕ) : bitsValue f (n + 1) = 2 * bitsValue f n + (f n).toNat := rfl

theorem bitsValue_lt (n : ℕ) : bitsValue f n < 2 ^ n := by
  induction n with
  | zero => simp
  | succ n ih =>
    rw [bitsValue_succ, Nat.pow_succ]
    have digit := Bool.toNat_le (f n)
    omega

theorem bitsValue_congr {f g} {n : ℕ} (same : ∀ i < n, f i = g i) : bitsValue f n = bitsValue g n := by
  induction n with
  | zero => rfl
  | succ n ih =>
    rw [bitsValue_succ, bitsValue_succ, ih (fun i lt => same i (by omega)), same n (by omega)]

theorem bitsValue_add (n m : ℕ) :
    bitsValue f (n + m) = bitsValue f n * 2 ^ m + bitsValue (fun i => f (n + i)) m := by
  induction m with
  | zero => simp
  | succ m ih =>
    rw [← Nat.add_assoc, bitsValue_succ, ih, bitsValue_succ, Nat.pow_succ]
    ring

theorem bitsValue_eq_iff {n : ℕ} : bitsValue f n = bitsValue g n ↔ ∀ i < n, f i = g i := by
  induction n with
  | zero => simp
  | succ n ih =>
    rw [bitsValue_succ, bitsValue_succ]
    have low := Bool.toNat_le (f n)
    have low' := Bool.toNat_le (g n)
    constructor
    · intro same
      have digits : (f n).toNat = (g n).toNat := by omega
      have rest := ih.mp (by omega)
      intro i lt
      rcases Nat.lt_succ_iff_lt_or_eq.mp lt with below | rfl
      · exact rest i below
      · revert digits
        cases f i <;> cases g i <;> simp
    · intro same
      rw [ih.mpr (fun i lt => same i (by omega)), same n (by omega)]

theorem bitsValue_of_forall_true {n : ℕ} (ones : ∀ i < n, f i = true) : bitsValue f n = 2 ^ n - 1 := by
  induction n with
  | zero => simp
  | succ n ih =>
    rw [bitsValue_succ, ih (fun i lt => ones i (by omega)), ones n (by omega), Nat.pow_succ]
    have pos := Nat.two_pow_pos n
    simp only [Bool.toNat_true]
    omega

theorem bitsValue_of_forall_false {n : ℕ} (zeros : ∀ i < n, f i = false) : bitsValue f n = 0 := by
  induction n with
  | zero => simp
  | succ n ih =>
    rw [bitsValue_succ, ih (fun i lt => zeros i (by omega)), zeros n (by omega)]
    simp

theorem bitsValue_increment {n p : ℕ} (lt : p < n) (before : ∀ i < p, g i = f i)
    (clear : f p = false) (set : g p = true)
    (after : ∀ i, p < i → i < n → f i = true ∧ g i = false) :
    bitsValue g n = bitsValue f n + 1 := by
  obtain ⟨k, rfl⟩ : ∃ k, n = p + 1 + k := ⟨n - (p + 1), by omega⟩
  have ones : bitsValue (fun i => f (p + 1 + i)) k = 2 ^ k - 1 :=
    bitsValue_of_forall_true _ fun i lt => (after (p + 1 + i) (by omega) (by omega)).1
  have zeros : bitsValue (fun i => g (p + 1 + i)) k = 0 :=
    bitsValue_of_forall_false _ fun i lt => (after (p + 1 + i) (by omega) (by omega)).2
  have prefix_eq : bitsValue g p = bitsValue f p := bitsValue_congr before
  rw [bitsValue_add f, bitsValue_add g, ones, zeros, bitsValue_succ, bitsValue_succ, prefix_eq, clear, set]
  have pos := Nat.two_pow_pos k
  simp only [Bool.toNat_true, Bool.toNat_false, Nat.add_zero, add_mul, one_mul]
  omega

end BitsValue

/-! ## Bytes -/

theorem testBit_toNat_of_le (byte : UInt8) {j : ℕ} (le : 8 ≤ j) : byte.toNat.testBit j = false :=
  Nat.testBit_lt_two_pow (lt_of_lt_of_le (UInt8.toNat_lt byte) (Nat.pow_le_pow_right (by norm_num) le))

theorem byte_eq_iff_testBit {byte other : UInt8} :
    byte = other ↔ ∀ j < 8, byte.toNat.testBit j = other.toNat.testBit j := by
  constructor
  · rintro rfl _ _
    rfl
  · intro same
    apply UInt8.toNat_inj.mp
    apply Nat.eq_of_testBit_eq
    intro j
    by_cases low : j < 8
    · exact same j low
    · rw [testBit_toNat_of_le byte (by omega), testBit_toNat_of_le other (by omega)]

theorem msbBit_eq (bytes : ℕ → UInt8) (k : ℕ) {j : ℕ} (lt : j < 8) :
    msbBit bytes (8 * k + j) = (bytes k).toNat.testBit (7 - j) := by
  have quotient : (8 * k + j) / 8 = k := by omega
  have remainder : (8 * k + j) % 8 = j := by omega
  rw [msbBit, quotient, remainder]

theorem bitsValue_byte (byte : UInt8) {r : ℕ} (le : r ≤ 8) :
    bitsValue (fun j => byte.toNat.testBit (7 - j)) r = byte.toNat >>> (8 - r) := by
  induction r with
  | zero =>
    rw [bitsValue_zero, Nat.shiftRight_eq_div_pow]
    exact (Nat.div_eq_of_lt (UInt8.toNat_lt byte)).symm
  | succ r ih =>
    rw [bitsValue_succ, ih (by omega)]
    -- the top `r` bits are the top `r + 1` bits without their last one
    have split : 8 - r = 7 - r + 1 := by omega
    have bit : byte.toNat.testBit (7 - r) = decide ((byte.toNat >>> (7 - r)) % 2 = 1) := by
      rw [← Nat.testBit_zero, Nat.testBit_shiftRight, Nat.add_zero]
    rw [split, Nat.shiftRight_succ, bit, show 8 - (r + 1) = 7 - r by omega]
    rcases Nat.mod_two_eq_zero_or_one (byte.toNat >>> (7 - r)) with even | odd
    · simp only [even, zero_ne_one, decide_false, Bool.toNat_false]
      omega
    · simp only [odd, decide_true, Bool.toNat_true]
      omega

theorem bitsValue_msbBit_succ (bytes : ℕ → UInt8) (k : ℕ) :
    bitsValue (msbBit bytes) (8 * (k + 1)) = bitsValue (msbBit bytes) (8 * k) * 2 ^ 8 + (bytes k).toNat := by
  rw [Nat.mul_succ, bitsValue_add]
  have byte : bitsValue (fun i => msbBit bytes (8 * k + i)) 8 = (bytes k).toNat := by
    rw [bitsValue_congr (fun i lt => msbBit_eq bytes k lt), bitsValue_byte _ le_rfl]
    simp
  rw [byte]

theorem bitsValue_msbBit (bytes : ℕ → UInt8) (k : ℕ) {r : ℕ} (le : r ≤ 8) :
    bitsValue (msbBit bytes) (8 * k + r) =
      bitsValue (msbBit bytes) (8 * k) * 2 ^ r + (bytes k).toNat >>> (8 - r) := by
  rw [bitsValue_add, bitsValue_congr (fun i (lt : i < r) => msbBit_eq bytes k (by omega)),
    bitsValue_byte _ le]

theorem foldl_shiftOr (bytes : ℕ → UInt8) (k : ℕ) {acc shift : ℕ} (lt : acc < 2 ^ shift) :
    ((List.range k).map bytes).reverse.foldl
        (fun (state : ℕ × ℕ) byte => (state.1 ||| byte.toNat <<< state.2, state.2 + 8)) (acc, shift) =
      (bitsValue (msbBit bytes) (8 * k) * 2 ^ shift + acc, shift + 8 * k) := by
  induction k generalizing acc shift with
  | zero => simp
  | succ k ih =>
    rw [List.range_succ, List.map_append, List.reverse_append]
    simp only [List.map_cons, List.map_nil, List.reverse_singleton, List.singleton_append,
      List.foldl_cons]
    have placed : acc ||| (bytes k).toNat <<< shift = (bytes k).toNat * 2 ^ shift + acc := by
      rw [Nat.lor_comm, ← Nat.shiftLeft_add_eq_or_of_lt lt, Nat.shiftLeft_eq]
    have fits : (bytes k).toNat * 2 ^ shift + acc < 2 ^ (shift + 8) := by
      have byte : (bytes k).toNat + 1 ≤ 2 ^ 8 := UInt8.toNat_lt (bytes k)
      calc (bytes k).toNat * 2 ^ shift + acc < ((bytes k).toNat + 1) * 2 ^ shift := by
            rw [Nat.succ_mul]
            omega
        _ ≤ 2 ^ 8 * 2 ^ shift := Nat.mul_le_mul_right _ byte
        _ = 2 ^ (shift + 8) := by rw [Nat.pow_add, Nat.mul_comm]
    rw [placed, ih fits, bitsValue_msbBit_succ, Nat.pow_add]
    congr 1 <;> ring

theorem bitsValue_testBit (x n : ℕ) : bitsValue (fun i => x.testBit (n - 1 - i)) n = x % 2 ^ n := by
  induction n generalizing x with
  | zero => simp [Nat.mod_one]
  | succ n ih =>
    rw [bitsValue_succ]
    -- below the last bit, the bits of `x` are those of `x / 2` one place up
    have shifted : bitsValue (fun i => x.testBit (n + 1 - 1 - i)) n = (x / 2) % 2 ^ n := by
      rw [← ih (x / 2)]
      apply bitsValue_congr
      intro i lt
      rw [show n + 1 - 1 - i = (n - 1 - i) + 1 by omega, Nat.testBit_succ]
    rw [shifted, show n + 1 - 1 - n = 0 by omega, Nat.testBit_zero, Nat.pow_succ', Nat.mod_mul]
    rcases Nat.mod_two_eq_zero_or_one x with even | odd
    · simp only [even, zero_ne_one, decide_false, Bool.toNat_false]
      omega
    · simp only [odd, decide_true, Bool.toNat_true]
      omega

/-! ## Searching a byte string from its last byte -/

set_option maxRecDepth 4096 in
theorem trailingOnes_countsTo : CountsTo trailingOnes false := by
  intro byte
  cases byte with
  | ofBitVec byte =>
    cases byte with
    | ofFin byte =>
      revert byte
      decide

set_option maxRecDepth 4096 in
theorem trailingZeros_countsTo : CountsTo trailingZeros true := by
  intro byte
  cases byte with
  | ofBitVec byte =>
    cases byte with
    | ofFin byte =>
      revert byte
      decide

theorem getElem_reverse_map_range (bytes : ℕ → UInt8) (n : ℕ) {k : ℕ}
    (lt : k < ((List.range n).map bytes).reverse.length) :
    ((List.range n).map bytes).reverse[k] = bytes (n - 1 - k) := by
  simp only [List.getElem_reverse, List.getElem_map, List.getElem_range, List.length_map,
    List.length_range]

section Search

variable {count : UInt8 → ℕ} {c : Bool} (counts : CountsTo count c) (bytes : ℕ → UInt8) (n : ℕ)
include counts

theorem count_eq_eight_iff (byte : UInt8) :
    count byte = 8 ↔ ∀ j < 8, byte.toNat.testBit j = !c := by
  obtain ⟨le, low, stop⟩ := counts byte
  constructor
  · intro eight j lt
    exact low j (by omega)
  · intro all
    by_contra short
    have stops := stop (by omega)
    rw [all _ (by omega)] at stops
    cases c <;> simp at stops

theorem searchFromRight_eq_none :
    searchFromRight count ((List.range n).map bytes) n = none ↔ ∀ i < 8 * n, msbBit bytes i = !c := by
  unfold searchFromRight
  rw [findSome?_zipIdx_eq_none]
  simp only [List.length_reverse, List.length_map, List.length_range, getElem_reverse_map_range,
    ite_eq_left_iff, reduceCtorEq, imp_false, not_not]
  constructor
  · intro full i lt
    -- bit `i` is in byte `i / 8`, the `n - 1 - i / 8`-th from the end
    have byte := (count_eq_eight_iff counts _).mp (full (n - 1 - i / 8) (by omega)) (7 - i % 8) (by omega)
    rw [show n - 1 - (n - 1 - i / 8) = i / 8 by omega] at byte
    exact byte
  · intro all k lt
    apply (count_eq_eight_iff counts _).mpr
    intro j low
    have bit := all (8 * (n - 1 - k) + (7 - j)) (by omega)
    rw [msbBit_eq bytes _ (by omega), show 7 - (7 - j) = j by omega] at bit
    exact bit

theorem searchFromRight_eq_some {p : ℕ} (found : searchFromRight count ((List.range n).map bytes) n = some p) :
    p < 8 * n ∧ msbBit bytes p = c ∧ ∀ q, p < q → q < 8 * n → msbBit bytes q = !c := by
  unfold searchFromRight at found
  obtain ⟨k, lt, hit, earlier⟩ := (findSome?_zipIdx_eq_some _ _ _ _).mp found
  simp only [List.length_reverse, List.length_map, List.length_range] at lt
  simp only [getElem_reverse_map_range, Nat.zero_add] at hit earlier
  obtain ⟨le, low, stop⟩ := counts (bytes (n - 1 - k))
  split_ifs at hit with full
  cases hit
  generalize hb : n - 1 - k = b at le low stop full ⊢
  have position : (n - k) * 8 - count (bytes b) - 1 = 8 * b + (7 - count (bytes b)) := by omega
  rw [position]
  refine ⟨by omega, ?_, ?_⟩
  · rw [msbBit_eq bytes b (by omega), show 7 - (7 - count (bytes b)) = count (bytes b) by omega]
    exact stop (by omega)
  · intro q above below
    by_cases same : q / 8 = b
    · -- later in the same byte: one of the bits the count ran over
      have qs : q = 8 * b + q % 8 := by omega
      rw [qs, msbBit_eq bytes b (Nat.mod_lt q (by norm_num))]
      exact low _ (by omega)
    · -- a later byte, which the search passed over
      have passed := earlier (n - 1 - q / 8) (by omega)
      rw [show n - 1 - (n - 1 - q / 8) = q / 8 by omega] at passed
      split_ifs at passed with eight
      have qs : q = 8 * (q / 8) + q % 8 := by omega
      rw [qs, msbBit_eq bytes _ (Nat.mod_lt q (by norm_num))]
      exact (count_eq_eight_iff counts _).mp eight _ (by omega)

end Search

end Openmina.Arith.MsbBits
