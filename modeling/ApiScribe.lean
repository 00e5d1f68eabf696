import ApiScribe.Binding
import ApiScribe.Client.Basic
import ApiScribe.Client.Method
import ApiScribe.Client.Prelude
import ApiScribe.CommandLine.Arguments
import ApiScribe.CommandLine.Run
import ApiScribe.CompileError
import ApiScribe.Diagnostic
import ApiScribe.Distinct
import ApiScribe.Document.Basic
import ApiScribe.Document.PathItem
import ApiScribe.Document.Text
import ApiScribe.Files.Access
import ApiScribe.Files.Tree
import ApiScribe.Generation
import ApiScribe.Json.Number
import ApiScribe.Json.Reader
import ApiScribe.Json.Record
import ApiScribe.Json.Value
import ApiScribe.Main
import ApiScribe.Naming.Case
import ApiScribe.Naming.EnumKey
import ApiScribe.Naming.Fresh
import ApiScribe.Number.Binary64
import ApiScribe.Number.Decimal
import ApiScribe.Number.Numeral
import ApiScribe.Operation.Basic
import ApiScribe.Operation.PathTemplate
import ApiScribe.Pointer
import ApiScribe.Proofs.ClassMembers
import ApiScribe.Proofs.ClientRun
import ApiScribe.Proofs.DeclarationOfShape
import ApiScribe.Proofs.DocumentNames
import ApiScribe.Proofs.FreshNames
import ApiScribe.Proofs.GenerationRun
import ApiScribe.Proofs.Hoisting
import ApiScribe.Proofs.Layout
import ApiScribe.Proofs.Meaning
import ApiScribe.Proofs.Mentions
import ApiScribe.Proofs.References
import ApiScribe.Proofs.SessionRun
import ApiScribe.Proofs.Soundness
import ApiScribe.Proofs.TypeOfShape
import ApiScribe.Schema.Basic
import ApiScribe.Schema.OfJson
import ApiScribe.Session
import ApiScribe.Settings.Basic
import ApiScribe.Settings.File
import ApiScribe.Settings.Toml
import ApiScribe.Shape.Basic
import ApiScribe.Shape.Declaration
import ApiScribe.Shape.OfSchema
import ApiScribe.Shape.Type
import ApiScribe.Table
import ApiScribe.Text.LetterCase
import ApiScribe.Text.Letters
import ApiScribe.Text.Lines
import ApiScribe.TypeScript.Names
import ApiScribe.TypeScript.Printer
import ApiScribe.TypeScript.Quoted
import ApiScribe.TypeScript.Syntax
import ApiScribe.Yaml.Cursor
import ApiScribe.Yaml.Scalar
import ApiScribe.Yaml.Token
import ApiScribe.Yaml.Tree
import ApiScribe.Yaml.Value
import ApiScribe.Proofs.UnionBindings
import ApiScribe.Proofs.Narrowing
import ApiScribe.Proofs.Values
import ApiScribe.Proofs.Agreement
import ApiScribe.Proofs.ObjectTypes
import ApiScribe.Proofs.InterfaceBases
import ApiScribe.Proofs.RecordReferences
import ApiScribe.Proofs.Grouping
import ApiScribe.Proofs.Signatures
import ApiScribe.Proofs.Conservation
import ApiScribe.Proofs.CaseMappings
import ApiScribe.Proofs.FileNames
import ApiScribe.Proofs.ShapeReferences
import ApiScribe.Proofs.Hygiene
import ApiScribe.Proofs.WrittenNames
import ApiScribe.Proofs.HoistedNames
import ApiScribe.Proofs.TypeNames
import ApiScribe.Proofs.HoistingRun
import ApiScribe.Proofs.AddedShape
import ApiScribe.Proofs.Bottoms
import ApiScribe.Proofs.Tokens
import ApiScribe.Proofs.TypeTokens
import ApiScribe.Proofs.TypeGrammar
import ApiScribe.Proofs.TypeReading
import ApiScribe.Proofs.MethodParameters
import ApiScribe.Proofs.PathExpressions
import ApiScribe.Proofs.PathPieces
import ApiScribe.Proofs.CollectedBindings
import ApiScribe.Proofs.MemberNames
import ApiScribe.Proofs.EscapedSteps
import ApiScribe.Proofs.MappingTargets
import ApiScribe.Proofs.SchemaMappings
import ApiScribe.Proofs.VariantLiterals
import ApiScribe.Proofs.AdmittedLiterals
import ApiScribe.Proofs.SynthesizedNames
import ApiScribe.Proofs.OperationClashes
import ApiScribe.Proofs.SchemaShapes
import ApiScribe.Proofs.SchemaReading
import ApiScribe.Proofs.NullSpellings
import ApiScribe.Proofs.NormalForm
import ApiScribe.Proofs.NullableDeclarations
import ApiScribe.Proofs.Rounding
import ApiScribe.Proofs.ShortestDecimals
import ApiScribe.Proofs.DeclarationTokens
import ApiScribe.Proofs.EnumerationReading
import ApiScribe.Proofs.EnumerationTexts
import ApiScribe.Proofs.EnumerationValues
import ApiScribe.Proofs.Trimming
import ApiScribe.Proofs.NaturalNumerals
import ApiScribe.Proofs.Locations
import ApiScribe.Proofs.SuccessResponses
import ApiScribe.Proofs.StringLiterals
import ApiScribe.Proofs.CommentEnds
import ApiScribe.Proofs.BlockComments
import ApiScribe.Proofs.FileTrees
import ApiScribe.Proofs.CommandRun
import ApiScribe.Proofs.NumberedNames
import ApiScribe.Proofs.FilesApart
import ApiScribe.Proofs.LetterClasses
import ApiScribe.Proofs.ClientIdentifiers
import ApiScribe.Proofs.TypeEffects
import ApiScribe.Proofs.Fallbacks
