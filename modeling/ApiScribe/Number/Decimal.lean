import ApiScribe.Number.Binary64

/-!
# Decimal text of binary numbers

A finite number is written with the fewest decimal digits that read back as that number.  The
reals that round to it form an interval around it, whose ends belong to it when its significand is
even; the search goes through the grids of multiples of `10 ^ p`, from coarse to fine, and stops
at the first grid with a point in the interval.  If a grid has such a point at all, then one of
the two grid points next to the number is one, so only these two are looked at.  Of two hits the
nearer one is taken, and of two that are equally near the greater.

Two layouts of the digits are in use: positional notation throughout, for text in programs, and a
layout with an exponent for very large and very small numbers, for keys of a document.
-/

namespace ApiScribe

/-- The decimal `digits · 10 ^ exponent`. -/
structure Decimal where
  digits : Nat
  exponent : Int
deriving DecidableEq, Repr

/-- The interval of reals that round to one number, as three fractions over one denominator: its
lower end, the number itself, and its upper end. -/
structure RoundingInterval where
  low : Nat
  mid : Nat
  high : Nat
  den : Nat
  closed : Bool

namespace RoundingInterval

/-- The interval of `significand · 2 ^ exponent`.  Below a power of two the numbers lie twice as
close, so the lower end is nearer there. -/
def around (significand : Nat) (exponent : Int) : RoundingInterval :=
  let unit := Binary64.twoPower (exponent - 2)
  let atPower := significand == Nat.pow 2 52 && Binary64.leastExponent < exponent
  { low := (4 * significand - (if atPower then 1 else 2)) * unit
    mid := 4 * significand * unit
    high := (4 * significand + 2) * unit
    den := Binary64.twoPower (2 - exponent)
    closed := significand % 2 == 0 }

/-- Does the interval hold the fraction `num / scale` of its denominator? -/
def holds (interval : RoundingInterval) (num scale : Nat) : Bool :=
  if interval.closed then
    interval.low * scale ≤ num && num ≤ interval.high * scale
  else
    interval.low * scale < num && num < interval.high * scale

/-- The hit on the grid of multiples of `10 ^ p`, if there is one. -/
def hit? (interval : RoundingInterval) (p : Int) : Option Decimal :=
  let step := interval.den * Nat.pow 10 p.toNat
  let scale := Nat.pow 10 (-p).toNat
  let below := interval.mid * scale / step
  let above := below + 1
  match interval.holds (below * step) scale, interval.holds (above * step) scale with
  | true, true =>
    if interval.mid * scale - below * step < above * step - interval.mid * scale then
      some ⟨below, p⟩
    else some ⟨above, p⟩
  | true, false => some ⟨below, p⟩
  | false, true => some ⟨above, p⟩
  | false, false => none

/-- The first hit on the grids `10 ^ p`, `10 ^ (p - 1)`, …, of which `count` are tried. -/
def firstHit (interval : RoundingInterval) : (count : Nat) → (p : Int) → Decimal
  | 0, p => ⟨interval.mid * Nat.pow 10 (-p).toNat / (interval.den * Nat.pow 10 p.toNat), p⟩
  | count + 1, p =>
    match interval.hit? p with
    | some decimal => decimal
    | none => interval.firstHit count (p - 1)

end RoundingInterval

namespace Decimal

/-- The decimal with the fewest digits that reads back as `significand · 2 ^ exponent`.  The
coarsest grid tried is coarser than the number, and the finest one holds the number itself. -/
def shortest (significand : Nat) (exponent : Int) : Decimal :=
  if significand = 0 then ⟨0, 0⟩
  else
    let interval := RoundingInterval.around significand exponent
    let coarsest := (Nat.toDigits 10 (interval.mid / interval.den)).length
    interval.firstHit (coarsest + (-exponent).toNat + 1) coarsest

/-- The digits, most significant first. -/
def digitChars (d : Decimal) : List Char :=
  Nat.toDigits 10 d.digits

/-- Positional notation: no exponent, no superfluous zeros, no point in whole numbers. -/
def positional (d : Decimal) : List Char :=
  let ds := d.digitChars
  let places := (-d.exponent).toNat
  if places = 0 then
    if d.digits = 0 then ['0'] else ds ++ List.replicate d.exponent.toNat '0'
  else if places < ds.length then
    ds.take (ds.length - places) ++ '.' :: ds.drop (ds.length - places)
  else
    '0' :: '.' :: List.replicate (places - ds.length) '0' ++ ds

/-- Positional notation with at least one digit after the point for magnitudes from `10 ^ -5` to
`10 ^ 16`, and an exponent outside them. -/
def withExponent (d : Decimal) : List Char :=
  let ds := d.digitChars
  let point : Int := ds.length + d.exponent
  if d.digits = 0 then ['0', '.', '0']
  else if 0 ≤ d.exponent ∧ point ≤ 16 then d.positional ++ ['.', '0']
  else if -5 < point ∧ point ≤ 16 then d.positional
  else
    let mantissa := match ds with
      | [] => []
      | [c] => [c]
      | c :: rest => c :: '.' :: rest
    mantissa ++ 'e' :: (toString (point - 1)).toList

end Decimal

namespace Binary64

/-- The text of a number in a layout of its digits. -/
def textWith (layout : Decimal → List Char) : Binary64 → List Char
  | .notANumber => "NaN".toList
  | .infinite negative => if negative then "-inf".toList else "inf".toList
  | .finite negative significand exponent =>
    let digits := layout (Decimal.shortest significand exponent)
    if negative then '-' :: digits else digits

/-- The text of a number in a program: positional, with the fewest digits that read back. -/
def text (x : Binary64) : String :=
  String.ofList (x.textWith Decimal.positional)

/-- The text of a number as a key of a document. -/
def keyText (x : Binary64) : String :=
  String.ofList (x.textWith Decimal.withExponent)

end Binary64

end ApiScribe
