import ApiScribe.Number.Binary64
import ApiScribe.Text.LetterCase

/-!
# Reading numerals

Numerals as they are read from names and plain text: natural numbers below a bound, integers, and
numbers of double precision.  None of them allows blanks or digit separators.
-/

namespace ApiScribe.Numeral

/-- The value of an ASCII digit. -/
def digitValue (c : Char) : Nat :=
  c.toNat - '0'.toNat

/-- The value of a digit in a base up to sixteen, letters counting from ten. -/
def digitIn? (base : Nat) (c : Char) : Option Nat :=
  let value? :=
    if Text.isAsciiDigit c then some (digitValue c)
    else if 'a' ≤ c && c ≤ 'f' then some (c.toNat - 87)
    else if 'A' ≤ c && c ≤ 'F' then some (c.toNat - 55)
    else none
  value?.filter fun value => value < base

/-- The value of a row of digits of which `value` has been read already. -/
def readDigits (base : Nat) (value : Nat) : List Char → Option Nat
  | [] => some value
  | c :: cs => (digitIn? base c).bind fun digit => readDigits base (value * base + digit) cs

/-- A nonempty row of digits. -/
def digits? (base : Nat) : List Char → Option Nat
  | [] => none
  | cs => readDigits base 0 cs

/-- A natural number below a bound: digits, after an optional plus sign. -/
def below? (bound : Nat) (cs : List Char) : Option Nat :=
  let unsigned := match cs with
    | '+' :: rest => rest
    | _ => cs
  (digits? 10 unsigned).filter fun value => value < bound

/-- A sign, if the text begins with one, and what follows it. -/
def sign : List Char → Bool × List Char
  | '-' :: cs => (true, cs)
  | '+' :: cs => (false, cs)
  | cs => (false, cs)

/-- The value of a row of ASCII digits. -/
def valueOf (cs : List Char) : Nat :=
  cs.foldl (fun value c => value * 10 + digitValue c) 0

/-- An exponent mark with its exponent, which must be all that is left; no text is exponent
zero. -/
def exponent? : List Char → Option Int
  | [] => some 0
  | c :: cs =>
    if c = 'e' || c = 'E' then
      let (negative, rest) := sign cs
      (digits? 10 rest).map fun n => if negative then -(n : Int) else n
    else none

/-- A number of double precision: an optional sign, then digits with an optional point among or
beside them and an optional exponent, or one of the words for infinity and for what is not a
number, in any case. -/
def binary64? (cs : List Char) : Option Binary64 :=
  let (negative, body) := sign cs
  let word := Text.asciiLowerText body
  if word = "inf".toList || word = "infinity".toList then some (.infinite negative)
  else if word = "nan".toList then some .notANumber
  else
    let whole := body.takeWhile Text.isAsciiDigit
    let afterWhole := body.dropWhile Text.isAsciiDigit
    let (fraction, rest) := match afterWhole with
      | '.' :: cs => (cs.takeWhile Text.isAsciiDigit, cs.dropWhile Text.isAsciiDigit)
      | _ => ([], afterWhole)
    if whole.isEmpty && fraction.isEmpty then none
    else (exponent? rest).map fun exponent =>
      Binary64.ofDecimal negative (valueOf (whole ++ fraction)) (exponent - fraction.length)

end ApiScribe.Numeral
