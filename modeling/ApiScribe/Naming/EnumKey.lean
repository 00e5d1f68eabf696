import ApiScribe.Naming.Case
import ApiScribe.Naming.Fresh
import ApiScribe.Number.Decimal
import ApiScribe.Number.Numeral
import ApiScribe.Schema.Basic

/-!
# Keys of enumeration members

In a declaration with keys every value of an enumeration needs one.  Texts are put in Pascal case;
numbers, and texts that spell numbers, become `Value` and the number with its minus sign and point
spelled out; a text of which nothing usable remains is known by its position.
-/

namespace ApiScribe.EnumKey

/-- The characters of a numeral as they appear in a key. -/
def numeralChar (c : Char) : List Char :=
  if c = '-' then "Minus".toList else if c = '.' then ['_'] else [c]

/-- The key of a number. -/
def ofNumeral (numeral : String) : String :=
  String.ofList ("Value".toList ++ numeral.toList.flatMap numeralChar)

/-- Is the text a number written with digits, minus signs and points only? -/
def isPlainNumeral (cs : List Char) : Bool :=
  cs.all (fun c => Text.isAsciiDigit c || c = '-' || c = '.') && (Numeral.binary64? cs).isSome

/-- The key of a text at a position. -/
def ofText (text : String) (index : Nat) : String :=
  if isPlainNumeral text.toList then ofNumeral text
  else match Naming.pascalChars text.toList with
    | [] => "Value" ++ toString index
    | cs =>
      let key := String.ofList cs
      if Naming.startsWithDigit cs then "Value" ++ key else key

/-- The key of a value at a position. -/
def ofValue (value : EnumValue) (index : Nat) : String :=
  match value with
  | .string text => ofText text index
  | .integer n => ofNumeral (toString n)
  | .float x => ofNumeral x.text
  | .boolean true => "True"
  | .boolean false => "False"
  | .null => "Null"

/-- The keys of values from a position on, none of them in use before; `used` lists the keys that
are. -/
def assignFrom (used : List String) (index : Nat) : List EnumValue → List (String × EnumValue)
  | [] => []
  | value :: rest =>
    let key := Naming.fresh used (ofValue value index)
    (key, value) :: assignFrom (key :: used) (index + 1) rest

/-- Values with their keys, no key given twice. -/
def assign (values : List EnumValue) : List (String × EnumValue) :=
  assignFrom [] 0 values

end ApiScribe.EnumKey
