import ApiScribe.Document.PathItem
import ApiScribe.Pointer

/-!
# Documents

A document is a JSON value together with what was read from it: its version, its paths and its
named schemas.  The value itself stays, because references are pointers into it.

`Document.ofJson` checks a value in a fixed order: a textual version, a version of the third
generation, a table of paths, and then the layout of the whole.
-/

namespace ApiScribe

/-- The causes for which a text is not a document. -/
inductive LoadError where
  /-- The text is not JSON. -/
  | json
  /-- The text is not YAML. -/
  | yaml
  /-- There is no version. -/
  | missingVersion
  /-- The version is not of the third generation. -/
  | unsupportedVersion (version : String)
  /-- There is no table of paths. -/
  | missingPaths
  /-- A field has the wrong form. -/
  | layout
deriving DecidableEq, Repr, Inhabited

/-- The explanation of a cause. -/
def LoadError.message : LoadError → String
  | .json => "failed to parse OpenAPI document as JSON"
  | .yaml => "failed to parse OpenAPI document as YAML"
  | .missingVersion =>
    "document has no `openapi` version field; only OpenAPI 3.x documents are supported"
  | .unsupportedVersion version =>
    "unsupported OpenAPI version `" ++ version ++ "`; only 3.x documents are supported"
  | .missingPaths => "document has no `paths` table"
  | .layout => "document does not match the OpenAPI layout"

/-- A document. -/
structure Document where
  root : Json
  version : String
  paths : Table PathItem
  schemas : Table Schema
deriving Inhabited

namespace Document

/-- Read the named schemas of the field `components`. -/
def schemas? (fields : Table Json) : Option (Table Schema) := do
  let readSchemas (value : Json) : Option (Table Schema) := do
    let fields ← value.record? ["schemas"] 1
    let schemas ← Json.optionalField? fields "schemas" (Json.tableOf? Schema.ofJson?)
    pure (schemas.getD [])
  let components ← Json.optionalField? fields "components" readSchemas
  pure (components.getD [])

/-- Read a value whose version and table of paths have been seen. -/
def layout? (root : Json) (version : String) : Option Document := do
  let fields ← root.record? ["openapi", "paths", "components"] 3
  let paths ← Json.requiredField? fields "paths" (Json.tableOf? PathItem.ofJson?)
  let schemas ← schemas? fields
  pure { root, version, paths, schemas }

/-- The document that a value spells. -/
def ofJson (root : Json) : Except LoadError Document :=
  match (root.member? "openapi").bind Json.string? with
  | none => .error .missingVersion
  | some version =>
    if !Text.startsWith "3." version then .error (.unsupportedVersion version)
    else if !((root.member? "paths").any Json.isObject) then .error .missingPaths
    else match layout? root version with
      | some document => .ok document
      | none => .error .layout

/-- The shapes of the named schemas, in order. -/
def namedShapes (document : Document) : List NamedShape :=
  document.schemas.map fun (name, schema) => { name, shape := Shape.ofSchema schema }

end Document

end ApiScribe
