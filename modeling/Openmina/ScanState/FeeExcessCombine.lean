import Mathlib
import Openmina.Numbers.Checked

/-!
# Fee excesses

`ledger/src/scan_state/fee_excess.rs`. A fee excess keeps the unsettled fees of at
most two tokens. `combine` merges the excesses of two consecutive transitions on
`Signed<Fee>`; the merge circuit's witness `combine_checked` recomputes it on field
elements with conditional selects and reads the result back by
`convert_to_currency`, which takes the sign from bit 254 of the representative and
the magnitude from its low 64-bit limb.
-/

namespace Openmina.ScanState.FeeExcessCombine

open Openmina.Numbers.Checked

set_option autoImplicit false

inductive Sgn
  | pos
  | neg
  deriving DecidableEq, Repr

def Sgn.toField : Sgn → Fp
  | .pos => 1
  | .neg => -1

def Sgn.negate : Sgn → Sgn
  | .pos => .neg
  | .neg => .pos

/-- `Signed<Fee>`: a `u64` magnitude and a sign; zero may carry either sign. -/
structure Signed where
  magnitude : ℕ
  sgn : Sgn
  magnitudeU64 : magnitude < 2 ^ 64
  deriving DecidableEq

/-- `TokenId`: a field element; the default token is one. -/
structure TokenId where
  val : Fp
  deriving DecidableEq

def TokenId.default : TokenId :=
  ⟨1⟩

namespace Signed

theorem zero_magnitudeU64 : 0 < 2 ^ 64 := by decide

def zero : Signed :=
  ⟨0, .pos, zero_magnitudeU64⟩

def isZero (s : Signed) : Bool :=
  decide (s.magnitude = 0)

def create (magnitude : ℕ) (sgn : Sgn) (magnitudeU64 : magnitude < 2 ^ 64) : Signed :=
  ⟨magnitude, if magnitude = 0 then .pos else sgn, magnitudeU64⟩

/-- `Signed::add`: `checked_add` of the magnitudes for equal signs, their distance
otherwise. -/
def add (self rhs : Signed) : Option Signed :=
  if self.sgn = rhs.sgn then
    if sum : self.magnitude + rhs.magnitude < 2 ^ 64 then
      some (create (self.magnitude + rhs.magnitude) self.sgn sum)
    else none
  else
    let sgn? : Option Sgn :=
      if self.magnitude < rhs.magnitude then some rhs.sgn
      else if rhs.magnitude < self.magnitude then some self.sgn
      else none
    match sgn? with
    | none => some zero
    | some sgn =>
      let magnitude := max self.magnitude rhs.magnitude - min self.magnitude rhs.magnitude
      some (create magnitude sgn (by
        have := self.magnitudeU64
        have := rhs.magnitudeU64
        omega))

def ofUnsigned (magnitude : UInt64) : Signed :=
  create magnitude.toNat .pos magnitude.toNat_lt

def negate (s : Signed) : Signed :=
  if s.magnitude = 0 then zero else ⟨s.magnitude, Sgn.negate s.sgn, s.magnitudeU64⟩

def value (s : Signed) : Fp :=
  (s.magnitude : Fp) * s.sgn.toField

end Signed

structure FeeExcess where
  feeTokenL : TokenId
  feeExcessL : Signed
  feeTokenR : TokenId
  feeExcessR : Signed
  deriving DecidableEq

def FeeExcess.empty : FeeExcess :=
  ⟨.default, .zero, .default, .zero⟩

/-- The errors of `fee_excess.rs`, one constructor per message. -/
inductive FeeExcessError
  /-- "Error adding fees: overflow", raised by `rebalance`. -/
  | rebalanceOverflow
  /-- "Error adding fees: Overflow", raised by `eliminate_fee_excess`. -/
  | eliminateOverflow
  /-- "Error eliminating fee excess: Excess for token .. .. was nonzero". -/
  | excessNonzero (feeTokenM : TokenId) (feeExcessM : Signed)
  deriving DecidableEq

/-! ## The native merge -/

/-- `FeeExcess::rebalance`. -/
def rebalance (e : FeeExcess) : Except FeeExcessError FeeExcess := do
  let feeTokenL := if e.feeExcessL.isZero then e.feeTokenR else e.feeTokenL
  let (feeExcessL, feeExcessR) ←
    if feeTokenL = e.feeTokenR then
      match e.feeExcessL.add e.feeExcessR with
      | some feeExcessL => pure (feeExcessL, Signed.zero)
      | none => throw .rebalanceOverflow
    else pure (e.feeExcessL, e.feeExcessR)
  let feeTokenL := if feeExcessL.isZero then TokenId.default else feeTokenL
  let feeTokenR := if feeExcessR.isZero then TokenId.default else e.feeTokenR
  pure ⟨feeTokenL, feeExcessL, feeTokenR, feeExcessR⟩

/-- `eliminate_fee_excess`: the middle excess moves into a neighbour of its token
(or one that is empty), or must be zero. -/
def eliminateFeeExcess (l m r : TokenId × Signed) :
    Except FeeExcessError ((TokenId × Signed) × (TokenId × Signed)) :=
  let addErr (x y : Signed) : Except FeeExcessError Signed :=
    match x.add y with
    | some sum => pure sum
    | none => throw .eliminateOverflow
  if l.1 = m.1 || l.2.isZero then do
    let feeExcessL ← addErr l.2 m.2
    pure ((m.1, feeExcessL), r)
  else if r.1 = m.1 || r.2.isZero then do
    let feeExcessR ← addErr r.2 m.2
    pure (l, (m.1, feeExcessR))
  else if m.2.isZero then pure (l, r)
  else throw (.excessNonzero m.1 m.2)

/-- `FeeExcess::combine`. -/
def combine (e1 e2 : FeeExcess) : Except FeeExcessError FeeExcess := do
  -- [1l; 1r; 2l; 2r] -> [1l; 2l; 2r]
  let (l1, l2) ← eliminateFeeExcess (e1.feeTokenL, e1.feeExcessL) (e1.feeTokenR, e1.feeExcessR)
    (e2.feeTokenL, e2.feeExcessL)
  -- [1l; 2l; 2r] -> [1l; 2r]
  let (l1, r2) ← eliminateFeeExcess l1 l2 (e2.feeTokenR, e2.feeExcessR)
  rebalance ⟨l1.1, l1.2, r2.1, r2.2⟩

/-! ## The witness of the merge circuit -/

/-- `eliminate_fee_excess_checked`: the middle excess is moved by selects, to the
left neighbour first and what remains of it to the right. -/
def eliminateFeeExcessChecked (l m r : TokenId × Fp) : (TokenId × Fp) × (TokenId × Fp) :=
  let combine (feeToken : TokenId) (feeExcess feeExcessM : Fp) :
      (TokenId × Fp) × Fp :=
    let feeTokenEqual := decide (feeToken.val = m.1.val)
    let feeExcessZero := decide ((0 : Fp) = feeExcess)
    let mayMove := feeTokenEqual || feeExcessZero
    let feeToken := if feeExcessZero then m.1 else feeToken
    let feeExcessToMove := if mayMove then feeExcessM else 0
    ((feeToken, feeExcess + feeExcessToMove), feeExcessM - feeExcessToMove)
  let (l, feeExcessM) := combine l.1 l.2 m.2
  let (r, _) := combine r.1 r.2 feeExcessM
  (l, r)

/-- `FeeExcess::rebalance_checked`. The amount moved for equal tokens is added to
both sides. -/
def rebalanceChecked (feeTokenL : TokenId) (feeExcessL : Fp) (feeTokenR : TokenId)
    (feeExcessR : Fp) : TokenId × Fp × TokenId × Fp :=
  let feeTokenL := if (0 : Fp) = feeExcessL then feeTokenR else feeTokenL
  let tokensEqual := decide (feeTokenL.val = feeTokenR.val)
  let amountToMove := if tokensEqual then feeExcessR else 0
  let (feeExcessL, feeExcessR) := (feeExcessL + amountToMove, feeExcessR + amountToMove)
  let feeTokenL := if (0 : Fp) = feeExcessL then TokenId.default else feeTokenL
  let feeTokenR := if (0 : Fp) = feeExcessR then TokenId.default else feeTokenR
  (feeTokenL, feeExcessL, feeTokenR, feeExcessR)

/-- The `convert_to_currency` closure: the sign is bit 254 of the representative,
the magnitude its low limb. -/
def convertToCurrency (excess : Fp) : Signed :=
  let isNeg := excess.val.testBit 254
  let sgn := if isNeg then Sgn.neg else Sgn.pos
  Signed.create (excess.val % 2 ^ 64) sgn (Nat.mod_lt _ (Nat.two_pow_pos 64))

/-- `FeeExcess::combine_checked`. -/
def combineChecked (e1 e2 : FeeExcess) : TokenId × Signed × TokenId × Signed :=
  let (l1, l2) := eliminateFeeExcessChecked (e1.feeTokenL, e1.feeExcessL.value)
    (e1.feeTokenR, e1.feeExcessR.value) (e2.feeTokenL, e2.feeExcessL.value)
  let (l1, r2) := eliminateFeeExcessChecked l1 l2 (e2.feeTokenR, e2.feeExcessR.value)
  let (feeTokenL, feeExcessL, feeTokenR, feeExcessR) := rebalanceChecked l1.1 l1.2 r2.1 r2.2
  (feeTokenL, convertToCurrency feeExcessL, feeTokenR, convertToCurrency feeExcessR)

/-! ## Reading field values back -/

theorem Signed.value_neg (s : Signed) (negative : s.sgn = .neg) : s.value = -(s.magnitude : Fp) := by
  rw [Signed.value, negative, Sgn.toField, mul_neg_one]

theorem fpModulus_odd : fpModulus % 2 = 1 := by
  decide

theorem fpModulus_high : 2 ^ 254 + 2 ^ 64 ≤ fpModulus ∧ fpModulus < 2 ^ 255 := by
  constructor <;> decide

@[simp] theorem convertToCurrency_magnitude (excess : Fp) :
    (convertToCurrency excess).magnitude = excess.val % 2 ^ 64 :=
  rfl

theorem convertToCurrency_neg_natCast {m : ℕ} (small : m < 2 ^ 64) (nonzero : 0 < m) :
    (convertToCurrency (-(m : Fp))).magnitude = (fpModulus - m) % 2 ^ 64 ∧
      (fpModulus - m) % 2 ^ 64 ≠ m := by
  obtain ⟨high, -⟩ := fpModulus_high
  have fieldBound : m < fpModulus := by omega
  have notZero : (m : Fp) ≠ 0 := by
    intro isZero
    have vals := congrArg ZMod.val isZero
    rw [ZMod.val_natCast_of_lt fieldBound, ZMod.val_zero] at vals
    omega
  have negVal : (-(m : Fp)).val = fpModulus - m := by
    rw [ZMod.neg_val, if_neg notZero, ZMod.val_natCast_of_lt fieldBound]
  have lowLimb : (fpModulus - m) % 2 ^ 64 ≠ m := by
    have odd := fpModulus_odd
    omega
  exact ⟨by rw [convertToCurrency_magnitude, negVal], lowLimb⟩

/-- No negative non-zero excess survives the round trip through the field. -/
theorem convertToCurrency_value_ne (s : Signed) (negative : s.sgn = .neg)
    (nonzero : 0 < s.magnitude) : convertToCurrency s.value ≠ s := by
  intro roundTrip
  obtain ⟨magnitude, differs⟩ := convertToCurrency_neg_natCast s.magnitudeU64 nonzero
  rw [← Signed.value_neg s negative, roundTrip] at magnitude
  exact differs magnitude.symm

def negativeExcess : FeeExcess :=
  ⟨.default, ⟨5, .neg, by decide⟩, .default, .zero⟩

/-- Merging `negativeExcess` with the empty excess: `combine` returns it unchanged,
`combine_checked` returns a different left excess. -/
theorem combine_checked_misreads_negative_excess :
    rebalance negativeExcess = .ok negativeExcess ∧ rebalance .empty = .ok .empty ∧
      combine negativeExcess .empty = .ok negativeExcess ∧
      combineChecked negativeExcess .empty ≠
        (negativeExcess.feeTokenL, negativeExcess.feeExcessL, negativeExcess.feeTokenR,
          negativeExcess.feeExcessR) := by
  refine ⟨by decide, by decide, by decide, ?_⟩
  -- the selects leave the field value `-5` in place; only the read-back goes wrong
  have leftExcess : (combineChecked negativeExcess .empty).2.1 =
      convertToCurrency negativeExcess.feeExcessL.value := by
    decide +kernel
  intro same
  rw [same] at leftExcess
  exact convertToCurrency_value_ne _ rfl (by decide) leftExcess.symm

end Openmina.ScanState.FeeExcessCombine
