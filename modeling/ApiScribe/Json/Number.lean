import ApiScribe.Json.Value
import ApiScribe.Number.Numeral

/-!
# JSON numerals

The grammar is the strict one: no leading zeros, a digit on both sides of the point, a digit in
the exponent.  The value of a numeral is computed in the precision of its significand: the first
digits that fit 64 bits are kept, later ones only count as powers of ten in front of the point and
not at all behind it, and the significand, rounded once, is multiplied or divided by one rounded
power of ten.  A numeral whose magnitude is too large for the type has no value.
-/

namespace ApiScribe.JsonNumber

/-- The significand holds 64 bits. -/
def significandBound : Nat := Nat.pow 2 64

/-- Digits in front of the point: the significand, how many digits no longer fitted it, and the
rest of the text. -/
def wholeDigits (significand dropped : Nat) : List Char → Nat × Nat × List Char
  | [] => (significand, dropped, [])
  | c :: cs =>
    if Text.isAsciiDigit c then
      let longer := significand * 10 + Numeral.digitValue c
      if dropped = 0 ∧ longer < significandBound then wholeDigits longer 0 cs
      else wholeDigits significand (dropped + 1) cs
    else (significand, dropped, c :: cs)

/-- Digits behind the point: the significand, how many digits went into it, and the rest of the
text. -/
def fractionDigits (significand used : Nat) : List Char → Nat × Nat × List Char
  | [] => (significand, used, [])
  | c :: cs =>
    if Text.isAsciiDigit c then
      let longer := significand * 10 + Numeral.digitValue c
      if longer < significandBound then fractionDigits longer (used + 1) cs
      else (significand, used, cs.dropWhile Text.isAsciiDigit)
    else (significand, used, c :: cs)

/-- An optional exponent and the rest of the text. -/
def exponent? : List Char → Option (Int × List Char)
  | [] => some (0, [])
  | c :: cs =>
    if c = 'e' || c = 'E' then
      let (negative, rest) := Numeral.sign cs
      let digits := rest.takeWhile Text.isAsciiDigit
      if digits.isEmpty then none
      else
        let size : Int := Numeral.valueOf digits
        some (if negative then -size else size, rest.dropWhile Text.isAsciiDigit)
    else some (0, c :: cs)

/-- The rounded power of ten. -/
def tenPower (k : Nat) : Binary64 :=
  Binary64.ofDecimal false 1 k

/-- `significand · 10 ^ exponent`, computed with the significand and the power rounded first.
Powers beyond `10 ^ 308` do not exist; a division by one is done in two steps. -/
def scale? (significand : Nat) (exponent : Int) : Option Binary64 :=
  let start := Binary64.ofNat significand
  if significand = 0 then some start
  else if 308 < exponent then none
  else if 0 ≤ exponent then
    let product := start.mul (tenPower exponent.toNat)
    if product.isFinite then some product else none
  else if -308 ≤ exponent then some (start.div (tenPower (-exponent).toNat))
  else if -616 ≤ exponent then
    some ((start.div (tenPower 308)).div (tenPower (-exponent - 308).toNat))
  else some (Binary64.zero false)

/-- The number of a numeral without point and exponent. -/
def ofWhole (negative : Bool) (significand : Nat) : JsonNumber :=
  if !negative then .integer significand
  else if 0 < significand ∧ significand ≤ Nat.pow 2 63 then .integer (-significand)
  else .binary (Binary64.ofNat significand).neg

/-- The numeral at the beginning of a text that does not start with a sign, and the rest. -/
def unsigned? (negative : Bool) (cs : List Char) : Option (JsonNumber × List Char) := do
  let (significand, dropped, rest) ← match cs with
    | '0' :: rest => match rest with
      | c :: _ => if Text.isAsciiDigit c then none else some (0, 0, rest)
      | [] => some (0, 0, rest)
    | c :: _ => if Text.isAsciiDigit c then some (wholeDigits 0 0 cs) else none
    | [] => none
  let finish (significand : Nat) (shift : Int) (rest : List Char) := do
    let (exponent, rest) ← exponent? rest
    let value ← scale? significand (shift + exponent)
    pure (JsonNumber.binary (if negative then value.neg else value), rest)
  match rest with
  | '.' :: c :: cs =>
    if Text.isAsciiDigit c then
      let (significand, used, rest) := fractionDigits significand 0 (c :: cs)
      finish significand ((dropped : Int) - used) rest
    else none
  | ['.'] => none
  | c :: _ =>
    if c = 'e' || c = 'E' || 0 < dropped then finish significand dropped rest
    else some (ofWhole negative significand, rest)
  | [] =>
    if 0 < dropped then finish significand dropped rest
    else some (ofWhole negative significand, [])

/-- The numeral at the beginning of a text, and the rest. -/
def read? : List Char → Option (JsonNumber × List Char)
  | '-' :: cs => unsigned? true cs
  | cs => unsigned? false cs

end ApiScribe.JsonNumber
