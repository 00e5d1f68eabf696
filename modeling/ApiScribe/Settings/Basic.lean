import ApiScribe.Table

/-!
# Settings

The choices that a user has about the generated code.  Each of the six options has a default and a
short list of spellings, which are the same in configuration files and on the command line.
-/

namespace ApiScribe

/-- The type of dates and points in time. -/
inductive DateType where
  | string
  | date
deriving DecidableEq, Repr, Inhabited

/-- How enumerations are declared: as a constant object, as a union of literals, or natively. -/
inductive EnumStyle where
  | constObject
  | union
  | native
deriving DecidableEq, Repr, Inhabited

/-- How property names are spelled: as they are, or in camel case. -/
inductive PropertyNameStyle where
  | unchanged
  | camelCase
deriving DecidableEq, Repr, Inhabited

/-- The value that a nullable type admits besides its own. -/
inductive NullableType where
  | null
  | undefined
deriving DecidableEq, Repr, Inhabited

/-- What the names of client classes end in. -/
inductive ClientSuffix where
  | client
  | api
deriving DecidableEq, Repr, Inhabited

/-- What the names of methods are made from. -/
inductive MethodNameStyle where
  | operationId
deriving DecidableEq, Repr, Inhabited

/-- The choices for one run. -/
structure Settings where
  dateType : DateType := .string
  enumStyle : EnumStyle := .constObject
  propertyNameStyle : PropertyNameStyle := .unchanged
  nullableType : NullableType := .null
  clientSuffix : ClientSuffix := .client
  methodNameStyle : MethodNameStyle := .operationId
deriving DecidableEq, Repr, Inhabited

/-- The text that a client suffix stands for. -/
def ClientSuffix.text : ClientSuffix → String
  | .client => "Client"
  | .api => "Api"

/-- The options, one for each choice. -/
inductive Setting where
  | dateType
  | enumType
  | propertyNameStyle
  | nullableType
  | clientSuffix
  | methodNameStyle
deriving DecidableEq, Repr, Inhabited

/-- A choice for one of the options. -/
inductive Choice where
  | dateType (value : DateType)
  | enumType (value : EnumStyle)
  | propertyNameStyle (value : PropertyNameStyle)
  | nullableType (value : NullableType)
  | clientSuffix (value : ClientSuffix)
  | methodNameStyle (value : MethodNameStyle)
deriving DecidableEq, Repr, Inhabited

/-- The option that a choice is for. -/
def Choice.setting : Choice → Setting
  | .dateType _ => .dateType
  | .enumType _ => .enumType
  | .propertyNameStyle _ => .propertyNameStyle
  | .nullableType _ => .nullableType
  | .clientSuffix _ => .clientSuffix
  | .methodNameStyle _ => .methodNameStyle

/-- The choice for an option that a text spells. -/
def Choice.ofText? (setting : Setting) (value : String) : Option Choice :=
  match setting, value with
  | .dateType, "string" => some (.dateType .string)
  | .dateType, "Date" => some (.dateType .date)
  | .dateType, "date" => some (.dateType .date)
  | .enumType, "constObject" => some (.enumType .constObject)
  | .enumType, "union" => some (.enumType .union)
  | .enumType, "enum" => some (.enumType .native)
  | .propertyNameStyle, "original" => some (.propertyNameStyle .unchanged)
  | .propertyNameStyle, "camelCase" => some (.propertyNameStyle .camelCase)
  | .nullableType, "null" => some (.nullableType .null)
  | .nullableType, "undefined" => some (.nullableType .undefined)
  | .clientSuffix, "Client" => some (.clientSuffix .client)
  | .clientSuffix, "Api" => some (.clientSuffix .api)
  | .methodNameStyle, "operationId" => some (.methodNameStyle .operationId)
  | _, _ => none

/-- The settings with a choice made. -/
def Settings.choose (settings : Settings) : Choice → Settings
  | .dateType value => { settings with dateType := value }
  | .enumType value => { settings with enumStyle := value }
  | .propertyNameStyle value => { settings with propertyNameStyle := value }
  | .nullableType value => { settings with nullableType := value }
  | .clientSuffix value => { settings with clientSuffix := value }
  | .methodNameStyle value => { settings with methodNameStyle := value }

namespace Setting

/-- All options in their order. -/
def all : List Setting :=
  [.dateType, .enumType, .propertyNameStyle, .nullableType, .clientSuffix, .methodNameStyle]

/-- The name of an option in configuration files and messages. -/
def name : Setting → String
  | .dateType => "dateType"
  | .enumType => "enumType"
  | .propertyNameStyle => "propertyNameStyle"
  | .nullableType => "nullableType"
  | .clientSuffix => "clientSuffix"
  | .methodNameStyle => "methodNameStyle"

/-- The option with a given name. -/
def ofName? (name : String) : Option Setting :=
  all.find? fun setting => setting.name = name

/-- The spellings that messages offer. -/
def offered : Setting → String
  | .dateType => "string, Date"
  | .enumType => "constObject, union, enum"
  | .propertyNameStyle => "original, camelCase"
  | .nullableType => "null, undefined"
  | .clientSuffix => "Client, Api"
  | .methodNameStyle => "operationId"

/-- The settings with an option set to the choice that a text spells. -/
def assign? (settings : Settings) (setting : Setting) (value : String) : Option Settings :=
  (Choice.ofText? setting value).map settings.choose

/-- The spelling of the choice that settings hold for an option. -/
def spelling (settings : Settings) : Setting → String
  | .dateType => match settings.dateType with
    | .string => "string"
    | .date => "Date"
  | .enumType => match settings.enumStyle with
    | .constObject => "constObject"
    | .union => "union"
    | .native => "enum"
  | .propertyNameStyle => match settings.propertyNameStyle with
    | .unchanged => "original"
    | .camelCase => "camelCase"
  | .nullableType => match settings.nullableType with
    | .null => "null"
    | .undefined => "undefined"
  | .clientSuffix => settings.clientSuffix.text
  | .methodNameStyle => match settings.methodNameStyle with
    | .operationId => "operationId"

theorem assign?_spelling (settings : Settings) (setting : Setting) :
    assign? settings setting (spelling settings setting) = some settings := by
  obtain ⟨d, e, p, n, c, m⟩ := settings
  cases setting
  · cases d <;> rfl
  · cases e <;> rfl
  · cases p <;> rfl
  · cases n <;> rfl
  · cases c <;> rfl
  · cases m; rfl

end Setting

/-- A text that spells no choice of an option. -/
structure SettingError where
  setting : Setting
  value : String
deriving DecidableEq, Repr, Inhabited

/-- The explanation of a text that spells no choice. -/
def SettingError.message (error : SettingError) : String :=
  "invalid value `" ++ error.value ++ "` for `" ++ error.setting.name ++ "`, expected one of: " ++
    error.setting.offered

namespace Settings

/-- The settings with an option set to the choice that a text spells. -/
def assign (settings : Settings) (setting : Setting) (value : String) :
    Except SettingError Settings :=
  match setting.assign? settings value with
  | some settings => .ok settings
  | none => .error { setting, value }

/-- The settings with several options set, one after the other. -/
def assignAll (settings : Settings) : List (Setting × String) → Except SettingError Settings
  | [] => .ok settings
  | (setting, value) :: rest =>
    match settings.assign setting value with
    | .ok settings => settings.assignAll rest
    | .error error => .error error

end Settings

end ApiScribe
