import ApiScribe.TypeScript.Syntax

/-!
# The names that types mention

A file imports the declared types that its own types mention.  `Ty.names` collects them from a
type, and a list of names is brought into the order of their code points, each name once, by
`sortedNames`.
-/

namespace ApiScribe.TypeScript

mutual

/-- The declared types that a type mentions, in the order of the text. -/
def Ty.names : Ty → List String
  | .primitive _ => []
  | .literal _ => []
  | .named name => [name]
  | .array item => item.names
  | .union members => Ty.namesOfList members
  | .intersection members => Ty.namesOfList members
  | .generic _ arguments => Ty.namesOfList arguments
  | .record key value => key.names ++ value.names
  | .object properties index =>
    Property.namesOfList properties ++ match index with
      | some type => type.names
      | none => []

/-- The declared types that types mention. -/
def Ty.namesOfList : List Ty → List String
  | [] => []
  | type :: rest => type.names ++ Ty.namesOfList rest

/-- The declared types that the type of a property mentions. -/
def Property.names : Property → List String
  | ⟨_, type, _, _⟩ => type.names

/-- The declared types that the types of properties mention. -/
def Property.namesOfList : List Property → List String
  | [] => []
  | property :: rest => property.names ++ Property.namesOfList rest

end

/-- Put a name into an ascending list that holds every name once. -/
def insertName (name : String) : List String → List String
  | [] => [name]
  | other :: rest =>
    if name = other then other :: rest
    else if name < other then name :: other :: rest
    else other :: insertName name rest

/-- The names of a list in ascending order, each once. -/
def sortedNames : List String → List String
  | [] => []
  | name :: rest => insertName name (sortedNames rest)

end ApiScribe.TypeScript
