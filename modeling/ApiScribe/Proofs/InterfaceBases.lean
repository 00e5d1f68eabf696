import ApiScribe.Proofs.ObjectTypes

/-!
# What interfaces extend

An interface can extend a type of objects only.  The base of a composition is looked at as it stands:
it must look like objects, or say nothing (`Shape.isExtendable_iff`).  What is behind it is not
followed, so a base can conceal a type that no interface may extend.

`generate_bases` says this of all interfaces of a document.  The base of an interface is a type of
objects exactly if it says something and conceals nothing, and a composition that does not extend a
base is an alias of the intersection of its members.

`exists_concealed_string` is an interface that extends another name of a type of texts.  Nothing is
reported there.
-/

namespace ApiScribe

open TypeScript Relation

namespace Shape

/-- What an interface extends, as it stands. -/
theorem isExtendable_iff {shape : Shape} :
    shape.isExtendable = true ↔ shape.LooksLikeObjects ∨ shape.isUnrestricted = true := by
  obtain ⟨kind, nullable, description⟩ := shape
  constructor
  · intro h
    obtain ⟨hnullable, hkind⟩ := Bool.and_eq_true_iff.mp h
    obtain rfl : nullable = false := by simpa using hnullable
    cases kind with
    | object => exact Or.inl ⟨rfl, .object _ _ _⟩
    | reference => exact Or.inl ⟨rfl, .reference _⟩
    | unknown => exact Or.inr rfl
    | composition kind =>
      cases kind with
      | allOf => exact Or.inl ⟨rfl, .allOf _ _⟩
      | _ => cases hkind
    | _ => cases hkind
  · rintro (⟨rfl, hkind⟩ | hunrestricted)
    · cases hkind <;> rfl
    · cases kind with
      | unknown => exact Bool.and_eq_true_iff.mpr ⟨hunrestricted, rfl⟩
      | _ => cases hunrestricted

/-- A shape that says nothing does not look like objects. -/
theorem LooksLikeObjects.isUnrestricted_eq {shape : Shape} (h : shape.LooksLikeObjects) :
    shape.isUnrestricted = false := by
  obtain ⟨kind, nullable, description⟩ := shape
  obtain ⟨-, hkind⟩ := h
  cases hkind <;> rfl

/-- An interface with bases has one, which a pointer leads to and which can be extended. -/
theorem exists_base_of_declaredAs {scope : Scope} {final : Progress} {name : String} {shape : Shape}
    {kind : DeclarationKind} (h : DeclaredAs scope final name shape kind) {bases : List String}
    {properties : List Property} {index : Option Ty}
    (hkind : kind = .interface bases properties index) (hne : bases ≠ []) :
    ∃ pointer base target, bases = [base] ∧ Pointer.shapeName scope.root pointer = .ok base ∧
      Pointer.resolve scope.root pointer = .ok target ∧ target.isExtendable = true := by
  cases h with
  | interface =>
    cases hkind
    exact absurd rfl hne
  | extension _ _ hbase htarget hextendable =>
    cases hkind
    exact ⟨_, _, _, rfl, hbase, htarget, hextendable⟩
  | _ => cases hkind

end Shape

namespace Output

variable {format : Notation} {text : String} {document : Document} {settings : Settings}
  {output : Output}

/-- A named shape that can be extended is a type of objects, or says nothing, or conceals something. -/
theorem Run.isExtendable_iff (run : Run document settings output) (hdocument : document.WasRead)
    {base : NamedShape} (hbase : base ∈ document.namedShapes) :
    base.shape.isExtendable = true ↔ base.shape.IsObjectType document.root ∨
      base.shape.isUnrestricted = true ∨ base.shape.Conceals document.root := by
  rw [Shape.isExtendable_iff, run.isObjectType_iff hdocument hbase]
  constructor
  · rintro (hlooks | hunrestricted)
    · by_cases hconceals : base.shape.Conceals document.root
      · exact Or.inr (Or.inr hconceals)
      · exact Or.inl ⟨hlooks, hconceals⟩
    · exact Or.inr (Or.inl hunrestricted)
  · rintro (⟨hlooks, -⟩ | hunrestricted | ⟨hlooks, -⟩)
    · exact Or.inl hlooks
    · exact Or.inr hunrestricted
    · exact Or.inl hlooks

/-- And it is a type of objects only if it does neither of the others. -/
theorem Run.isObjectType_of_isExtendable (run : Run document settings output)
    (hdocument : document.WasRead) {base : NamedShape} (hbase : base ∈ document.namedShapes)
    (hextendable : base.shape.isExtendable = true) :
    base.shape.IsObjectType document.root ↔
      base.shape.isUnrestricted = false ∧ ¬ base.shape.Conceals document.root := by
  rw [run.isObjectType_iff hdocument hbase]
  constructor
  · rintro ⟨hlooks, hconceals⟩
    exact ⟨hlooks.isUnrestricted_eq, hconceals⟩
  · rintro ⟨hunrestricted, hconceals⟩
    rcases Shape.isExtendable_iff.mp hextendable with hlooks | htrue
    · exact ⟨hlooks, hconceals⟩
    · exact absurd htrue (ne_true_of_eq_false hunrestricted)

/-- How a run declares a composition of shapes that hold all at once: as an interface of one base if
it extends a base, and as an alias of the intersection of its members if it does not. -/
def Run.DeclaresAllOf (run : Run document settings output) (named : NamedShape)
    (members : List Shape) (kind : DeclarationKind) : Prop :=
  (∃ pointer extra,
      Shape.ExtendsBase document.root named.shape.nullable members pointer extra ∧
      ∃ base ∈ document.namedShapes, Pointer.resolve document.root pointer = .ok base.shape ∧
        ∃ properties index, kind = .interface [base.name] properties index) ∨
    ((∀ pointer extra,
      ¬ Shape.ExtendsBase document.root named.shape.nullable members pointer extra) ∧
      ∃ types, List.Forall₂ (Shape.MemberWrittenAs run.scope run.finished named.name) members types ∧
        kind = .alias ((Shape.intersect types).nullableIf named.shape.nullable
          settings.nullableType))

/-- **What interfaces extend.**  An interface has at most one base, a named shape.  The base is a type
of objects exactly if it says something and conceals nothing.  A composition is declared as such an
interface exactly if it extends a base, and otherwise as an alias of an intersection.  What can be
extended are the types of objects, the shapes that say nothing, and those that conceal something. -/
theorem generate_bases (hread : Document.readAs format text = .ok document)
    (h : generate document settings = .ok output) :
    ∃ run : Run document settings output,
      output.files.get? typesFile = some { types := run.declarations : Module }.text ∧
      (∀ named ∈ document.namedShapes, ∃ declaration ∈ run.declarations,
        declaration.name = named.name ∧
        (∀ bases properties index, declaration.kind = .interface bases properties index →
          bases ≠ [] → ∃ base ∈ document.namedShapes, bases = [base.name] ∧
            (base.shape.IsObjectType document.root ↔
              base.shape.isUnrestricted = false ∧ ¬ base.shape.Conceals document.root)) ∧
        ∀ members discriminator, named.shape.kind = .composition .allOf members discriminator →
          run.DeclaresAllOf named members declaration.kind) ∧
      ∀ base ∈ document.namedShapes, (base.shape.isExtendable = true ↔
        base.shape.IsObjectType document.root ∨ base.shape.isUnrestricted = true ∨
          base.shape.Conceals document.root) := by
  obtain ⟨run⟩ := exists_run h
  have hdocument := Document.wasRead_of_readAs hread
  refine ⟨run, run.get?_typesFile, fun named hnamed => ?_,
    fun base hbase => run.isExtendable_iff hdocument hbase⟩
  obtain ⟨declaration, hmem, before, after, hrun, hle⟩ := run.exists_ownDeclaration hnamed
  obtain ⟨hname, -, hdeclared⟩ := Shape.declaredAs_of_declaration hle hrun
  refine ⟨declaration, hmem, hname, ?_, ?_⟩
  · intro bases properties index hkind hne
    obtain ⟨pointer, base, target, rfl, hbase, htarget, hextendable⟩ :=
      Shape.exists_base_of_declaredAs hdeclared hkind hne
    rw [run.root_eq] at hbase htarget
    obtain ⟨shape, hshape, hresolve⟩ := hdocument.exists_namedShape hbase
    obtain rfl := Except.ok.inj (htarget.symm.trans hresolve)
    exact ⟨⟨base, target⟩, hshape, rfl,
      run.isObjectType_of_isExtendable hdocument hshape hextendable⟩
  · intro members discriminator hkind
    have hallOf := Shape.allOfDeclaredAs_of_declaration hle hkind hrun
    generalize declaration.kind = kind at hallOf
    cases hallOf with
    | extension hextends hbase _ =>
      rw [run.root_eq] at hextends hbase
      obtain ⟨shape, hshape, hresolve⟩ := hdocument.exists_namedShape hbase
      exact Or.inl ⟨_, _, hextends, ⟨_, shape⟩, hshape, hresolve, _, _, rfl⟩
    | intersection hextends htypes =>
      rw [run.root_eq] at hextends
      refine Or.inr ⟨hextends, _, htypes, ?_⟩
      rw [run.settings_eq]

/-- A document in which the base of a composition is a composition of a reference to an object. -/
def catOfBeasts : String :=
  String.intercalate "\n"
    ["openapi: 3.0.0",
      "paths: \x7b\x7d",
      "components:",
      " schemas:",
      "  Pet:",
      "   type: object",
      "  Animal:",
      "   $ref: '#/components/schemas/Pet'",
      "  Beast:",
      "   allOf:",
      "   - $ref: '#/components/schemas/Animal'",
      "  Cat:",
      "   allOf:",
      "   - $ref: '#/components/schemas/Beast'"]

/-- Is the shape seen to describe objects within a number of steps? -/
def describesObjects (root : Json) : Nat → Shape → Bool
  | 0, _ => false
  | steps + 1, shape => !shape.nullable && match shape.kind with
    | .object _ _ _ => true
    | .reference pointer =>
      match Pointer.resolve root pointer with
      | .ok target => describesObjects root steps target
      | .error _ => false
    | .composition .allOf members _ => members.all (describesObjects root steps)
    | _ => false

theorem isObjectType_of_describesObjects {root : Json} {steps : Nat} {shape : Shape}
    (h : describesObjects root steps shape = true) : shape.IsObjectType root := by
  induction steps generalizing shape with
  | zero => cases h
  | succ steps ih =>
    obtain ⟨kind, nullable, description⟩ := shape
    obtain ⟨hnullable, hkind⟩ := Bool.and_eq_true_iff.mp h
    obtain rfl : nullable = false := by simpa using hnullable
    split at hkind
    next hobject =>
      obtain rfl := hobject
      exact .object _ _ _ _
    next pointer hreference =>
      obtain rfl := hreference
      split at hkind
      next target hresolve => exact .reference hresolve (ih hkind)
      next => cases hkind
    next members discriminator hallOf =>
      obtain rfl := hallOf
      exact .allOf fun member hmem => ih (List.all_eq_true.mp hkind member hmem)
    next => cases hkind

/-- Is something of the name declared as an interface that extends a base? -/
def extendsBase (name base : String) (declaration : Declaration) : Bool :=
  declaration.name = name && match declaration.kind with
    | .interface bases _ _ => bases = [base]
    | _ => false

theorem exists_of_extendsBase {name base : String} {declaration : Declaration}
    (h : extendsBase name base declaration = true) :
    declaration.name = name ∧
      ∃ properties index, declaration.kind = .interface [base] properties index := by
  obtain ⟨hname, hkind⟩ := Bool.and_eq_true_iff.mp h
  refine ⟨of_decide_eq_true hname, ?_⟩
  split at hkind
  next bases properties index hinterface =>
    rw [hinterface, of_decide_eq_true hkind]
    exact ⟨properties, index, rfl⟩
  next => cases hkind

theorem generate_bases_catOfBeasts :
    ∃ document output, Document.readAs .yaml catOfBeasts = .ok document ∧
      generate document {} = .ok output ∧
      ∃ run : Run document {} output, ∃ declaration ∈ run.declarations,
        declaration.name = "Cat" ∧
        (∃ properties index, declaration.kind = .interface ["Beast"] properties index) ∧
        ∃ base ∈ document.namedShapes, base.name = "Beast" ∧
          base.shape.IsObjectType document.root ∧ ¬ base.shape.Conceals document.root := by
  have hyields : yields .yaml catOfBeasts {} (fun document _ =>
      document.namedShapes.any (fun named => named.name = "Cat") &&
      document.namedShapes.all (fun named =>
        named.name ≠ "Beast" || describesObjects document.root 4 named.shape) &&
      declares document {} fun declarations => declarations.all fun declaration =>
        declaration.name ≠ "Cat" || extendsBase "Cat" "Beast" declaration) = true := by
    decide +kernel
  obtain ⟨document, output, hread, h, hcheck⟩ := exists_of_yields hyields
  simp only [Bool.and_eq_true, List.any_eq_true, List.all_eq_true, decide_eq_true_eq] at hcheck
  obtain ⟨⟨⟨named, hnamed, hname⟩, hobjects⟩, hdeclares⟩ := hcheck
  obtain ⟨run, -, hbases, -⟩ := generate_bases hread h
  obtain ⟨declaration, hmem, hdeclaration, hextends, -⟩ := hbases named hnamed
  have hcat := List.all_eq_true.mp (run.of_declares hdeclares) declaration hmem
  rw [hdeclaration, hname] at hcat
  obtain ⟨-, properties, index, hkind⟩ := exists_of_extendsBase (by simpa using hcat)
  obtain ⟨base, hbase, heq, hiff⟩ := hextends _ _ _ hkind (List.cons_ne_nil _ _)
  have hbeast : base.name = "Beast" := (List.singleton_inj.mp heq).symm
  have hobject : base.shape.IsObjectType document.root :=
    isObjectType_of_describesObjects (by simpa [hbeast] using hobjects base hbase)
  exact ⟨document, output, hread, h, run, declaration, hmem, hdeclaration.trans hname,
    ⟨properties, index, hkind⟩, base, hbase, hbeast, hobject, (hiff.mp hobject).2⟩

/-- A document in which the base of a composition is another name of a type of texts. -/
def taggedAlias : String :=
  String.intercalate "\n"
    ["openapi: 3.0.0",
      "paths: \x7b\x7d",
      "components:",
      " schemas:",
      "  Id:",
      "   type: string",
      "  Alias:",
      "   $ref: '#/components/schemas/Id'",
      "  Tagged:",
      "   allOf:",
      "   - $ref: '#/components/schemas/Alias'"]

/-- Is the shape a reference to a type of texts? -/
def refersToString (root : Json) (shape : Shape) : Bool :=
  !shape.nullable && match shape.kind with
    | .reference pointer =>
      match Pointer.resolve root pointer with
      | .ok ⟨.primitive .string _, _, _⟩ => true
      | _ => false
    | _ => false

theorem exists_of_refersToString {root : Json} {shape : Shape}
    (h : refersToString root shape = true) : shape.LooksLikeObjects ∧
      ∃ hidden format, shape.LeavesTo root hidden ∧ hidden.kind = .primitive .string format := by
  obtain ⟨kind, nullable, description⟩ := shape
  obtain ⟨hnullable, hkind⟩ := Bool.and_eq_true_iff.mp h
  obtain rfl : nullable = false := by simpa using hnullable
  split at hkind
  next pointer hreference =>
    obtain rfl := hreference
    refine ⟨⟨rfl, .reference _⟩, ?_⟩
    split at hkind
    next hresolve => exact ⟨_, _, .target hresolve, rfl⟩
    next => cases hkind
  next => cases hkind

/-- **Not every base is a type of objects.**  The base of the interface leaves it to a type of texts
what it is, and nothing is reported. -/
theorem exists_concealed_string :
    ∃ document output, Document.readAs .yaml taggedAlias = .ok document ∧
      generate document {} = .ok output ∧ output.diagnostics = [] ∧
      output.files.get? typesFile = some ("export type Id = string;\n\nexport type Alias = Id;\n\n" ++
        "export interface Tagged extends Alias \x7b\x7d\n") ∧
      ∃ run : Run document {} output, ∃ declaration ∈ run.declarations,
        declaration.name = "Tagged" ∧
        (∃ properties index, declaration.kind = .interface ["Alias"] properties index) ∧
        ∃ base ∈ document.namedShapes, base.name = "Alias" ∧
          (∃ hidden format, base.shape.LeavesTo document.root hidden ∧
            hidden.kind = .primitive .string format) ∧
          ¬ base.shape.IsObjectType document.root ∧ base.shape.Conceals document.root := by
  have hyields : yields .yaml taggedAlias {} (fun document output =>
      output.diagnostics.isEmpty &&
      output.files.get? typesFile = some ("export type Id = string;\n\nexport type Alias = Id;\n\n" ++
        "export interface Tagged extends Alias \x7b\x7d\n") &&
      document.namedShapes.any (fun named =>
        named.name = "Alias" && refersToString document.root named.shape) &&
      declares document {} fun declarations =>
        declarations.any (extendsBase "Tagged" "Alias")) = true := by
    decide +kernel
  obtain ⟨document, output, hread, h, hcheck⟩ := exists_of_yields hyields
  simp only [Bool.and_eq_true, List.any_eq_true, decide_eq_true_eq] at hcheck
  obtain ⟨⟨⟨hdiagnostics, hfile⟩, base, hbase, hname, hrefers⟩, hdeclares⟩ := hcheck
  obtain ⟨run⟩ := exists_run h
  obtain ⟨declaration, hmem, hextends⟩ := List.any_eq_true.mp (run.of_declares hdeclares)
  obtain ⟨hdeclaration, hkind⟩ := exists_of_extendsBase hextends
  obtain ⟨hlooks, hidden, format, hleaves, hstring⟩ := exists_of_refersToString hrefers
  have hno : ¬ hidden.LooksLikeObjects := by
    rintro ⟨-, hmay⟩
    rw [hstring] at hmay
    cases hmay
  refine ⟨document, output, hread, h, List.isEmpty_iff.mp hdiagnostics, hfile, run, declaration,
    hmem, hdeclaration, hkind, base, hbase, hname, ⟨hidden, format, hleaves, hstring⟩, ?_, ?_⟩
  · exact fun hobject => hno (hobject.of_leavesTo hleaves).looksLikeObjects
  · exact ⟨hlooks, hidden, .single hleaves, Or.inl hno⟩

end Output

end ApiScribe
