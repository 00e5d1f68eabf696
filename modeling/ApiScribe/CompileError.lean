/-!
# What stops a compilation

The causes for which a document that was loaded cannot be compiled, and the text that explains
each of them.  Every one of them ends the compilation of the whole document.
-/

namespace ApiScribe

/-- Where a reference leads, judged by how it begins. -/
inductive ReferenceKind where
  | internal
  | url
  | externalFile
deriving DecidableEq, Repr, Inhabited

/-- The name of a kind of reference in messages. -/
def ReferenceKind.text : ReferenceKind → String
  | .internal => "internal pointer"
  | .url => "network URL reference"
  | .externalFile => "external file reference"

/-- The causes for which a document cannot be compiled. -/
inductive CompileError where
  /-- A reference leaves the document. -/
  | unsupportedReference (pointer : String) (kind : ReferenceKind)
  /-- A step of a pointer starts at a value without parts. -/
  | invalidPointerPath (pointer segment : String)
  /-- There is nothing where the pointer leads. -/
  | pointerNotFound (pointer : String)
  /-- A reference that is used as a type does not name a schema. -/
  | unsupportedPointerShape (pointer : String)
  /-- What the pointer leads to is not of the expected form. -/
  | invalidTarget (pointer : String)
  /-- Two unions bind a shape to different literals or properties. -/
  | conflictingDiscriminator (shape first second : String)
  /-- Two operations get the same method name. -/
  | duplicateOperationId (operationId method path : String)
deriving DecidableEq, Repr, Inhabited

/-- The explanation of a cause. -/
def CompileError.message : CompileError → String
  | .unsupportedReference pointer kind =>
    "unsupported " ++ kind.text ++ " `" ++ pointer ++
      "`: only references inside the same document are supported; " ++
      "inline or merge the external content into this document"
  | .invalidPointerPath pointer segment =>
    "invalid pointer path `" ++ pointer ++ "`: cannot descend into segment `" ++ segment ++ "`"
  | .pointerNotFound pointer =>
    "pointer `" ++ pointer ++ "` does not resolve to anything in the document"
  | .unsupportedPointerShape pointer =>
    "reference `" ++ pointer ++ "` is used as a type but does not name a schema; " ++
      "point it at `#/components/schemas/<Name>`"
  | .invalidTarget pointer => "pointer `" ++ pointer ++ "` resolves to an invalid object"
  | .conflictingDiscriminator shape first second =>
    "shape `" ++ shape ++ "` is claimed by two discriminated unions (`" ++ first ++ "` and `" ++
      second ++ "`); give each union its own variant shapes"
  | .duplicateOperationId operationId method path =>
    "duplicate operationId `" ++ operationId ++ "` (" ++ method ++ " " ++ path ++
      "); each operation must have a unique identifier"

end ApiScribe
