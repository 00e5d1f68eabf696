/-!
# Numbers of double precision

A number of double precision is a sign, a significand and a binary exponent, an infinity, or not
a number.  The type holds these parts themselves, so that every operation is exact arithmetic on
natural numbers followed by one rounding, and nothing is hidden from proofs.

The single source of rounding is `ofRatio`: a positive ratio is brought to a significand of 53
bits, or to the smallest exponent when it is too small for that, and a tie goes to the even
neighbour.  `ofDecimal`, `mul` and `div` are stated through it.
-/

namespace ApiScribe

/-- A number of double precision: `± significand · 2 ^ exponent` with a significand below `2 ^ 53`,
an infinity, or not a number. -/
inductive Binary64 where
  | finite (negative : Bool) (significand : Nat) (exponent : Int)
  | infinite (negative : Bool)
  | notANumber
deriving DecidableEq, Repr, Inhabited

namespace Binary64

/-- The smallest exponent. -/
def leastExponent : Int := -1074

/-- The largest exponent. -/
def greatestExponent : Int := 971

/-- The zero of a sign. -/
def zero (negative : Bool) : Binary64 :=
  .finite negative 0 leastExponent

/-- Is the number neither infinite nor undefined? -/
def isFinite : Binary64 → Bool
  | .finite .. => true
  | _ => false

/-- Is the number a zero of either sign? -/
def isZero : Binary64 → Bool
  | .finite _ significand _ => significand == 0
  | _ => false

/-- Equality of numbers: the two zeros are equal, and what is not a number equals nothing. -/
def sameNumber : Binary64 → Binary64 → Bool
  | .notANumber, _ => false
  | a, b => a == b || (a.isZero && b.isZero)

/-- `2 ^ k`, and one for a negative `k`. -/
def twoPower (k : Int) : Nat :=
  Nat.pow 2 k.toNat

/-- The natural number nearest to `num / den`; of two that are equally near, the even one. -/
def roundRatio (num den : Nat) : Nat :=
  let quotient := num / den
  let rest := num % den
  if 2 * rest < den then quotient
  else if den < 2 * rest then quotient + 1
  else if quotient % 2 = 0 then quotient
  else quotient + 1

/-- The greatest `k` with `2 ^ k ≤ num / den`. -/
def log2Ratio (num den : Nat) : Int :=
  let guess : Int := (num.log2 : Int) - (den.log2 : Int)
  if den * twoPower guess ≤ num * twoPower (-guess) then guess else guess - 1

/-- The number nearest to `± num / den`. -/
def ofRatio (negative : Bool) (num den : Nat) : Binary64 :=
  if num = 0 then zero negative
  else
    let exponent := max (log2Ratio num den - 52) leastExponent
    let significand := roundRatio (num * twoPower (-exponent)) (den * twoPower exponent)
    if significand = Nat.pow 2 53 then
      if exponent + 1 ≤ greatestExponent then .finite negative (Nat.pow 2 52) (exponent + 1)
      else .infinite negative
    else if exponent ≤ greatestExponent then .finite negative significand exponent
    else .infinite negative

/-- The number nearest to a natural number. -/
def ofNat (n : Nat) : Binary64 :=
  ofRatio false n 1

/-- The number nearest to `± digits · 10 ^ exponent`.  Exponents far outside the range of the type
are decided before any power of ten is formed. -/
def ofDecimal (negative : Bool) (digits : Nat) (exponent : Int) : Binary64 :=
  if digits = 0 then zero negative
  else if 0 ≤ exponent then
    if 400 < exponent then .infinite negative
    else ofRatio negative (digits * Nat.pow 10 exponent.toNat) 1
  else if exponent + (digits.log2 / 3 + 1 : Nat) < -400 then zero negative
  else ofRatio negative digits (Nat.pow 10 (-exponent).toNat)

/-- The number with the other sign. -/
def neg : Binary64 → Binary64
  | .finite negative significand exponent => .finite (!negative) significand exponent
  | .infinite negative => .infinite (!negative)
  | .notANumber => .notANumber

/-- The product of two finite numbers, rounded. -/
def mul : Binary64 → Binary64 → Binary64
  | .finite s m e, .finite t n f =>
    ofRatio (s != t) (m * n * twoPower (e + f)) (twoPower (-(e + f)))
  | _, _ => .notANumber

/-- The quotient of two finite numbers, rounded; the divisor is not zero. -/
def div : Binary64 → Binary64 → Binary64
  | .finite s m e, .finite t n f =>
    ofRatio (s != t) (m * twoPower (e - f)) (n * twoPower (f - e))
  | _, _ => .notANumber

end Binary64

end ApiScribe
