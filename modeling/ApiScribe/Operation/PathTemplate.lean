/-!
# Path templates

A path is text with placeholders: a placeholder is what stands between a brace that opens and the
next brace that closes.  A brace that opens and is never closed is text, together with all that
follows it.
-/

namespace ApiScribe

/-- A piece of a path. -/
inductive PathSegment where
  | text (content : String)
  | placeholder (name : String)
deriving DecidableEq, Repr, Inhabited

namespace PathSegment

/-- Where a reader of a path is: in text, or behind a brace that opened.  The characters read there
are kept, last first, and behind a brace also those in front of it. -/
inductive ReaderState where
  | inText (done : List Char)
  | inPlaceholder (before done : List Char)

/-- A piece of text, if there is any. -/
def textOf (done : List Char) : List PathSegment :=
  if done.isEmpty then [] else [.text (String.ofList done.reverse)]

/-- The pieces of the rest of a path. -/
def readFrom : ReaderState → List Char → List PathSegment
  | .inText done, [] => textOf done
  | .inPlaceholder before done, [] => textOf (done ++ '\x7b' :: before)
  | .inText done, c :: cs =>
    if c = '\x7b' then readFrom (.inPlaceholder done []) cs else readFrom (.inText (c :: done)) cs
  | .inPlaceholder before done, c :: cs =>
    if c = '\x7d' then
      textOf before ++ .placeholder (String.ofList done.reverse) :: readFrom (.inText []) cs
    else readFrom (.inPlaceholder before (c :: done)) cs

/-- The pieces of a path. -/
def ofPath (path : String) : List PathSegment :=
  readFrom (.inText []) path.toList

end PathSegment

end ApiScribe
