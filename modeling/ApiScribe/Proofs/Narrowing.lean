import ApiScribe.Proofs.Layout
import ApiScribe.Proofs.UnionBindings

/-!
# Narrowing of discriminated unions

A discriminated union binds a property of each shape that it refers to, the variants, to a literal.
A program that tests this property narrows the union to one variant if the declaration of every
variant has the property, required and with its literal: `DeclarationKind.Narrows`.

Whether it has depends on where the property is declared.  A variant *takes up* a property
(`Shape.TakesUp`) when its own object declares it, when one of the objects of its composition does,
or when it extends a base, which makes room for the property in the interface.

* `narrows_of_declaration`: a variant that takes the property up is declared with the literal, by
  whichever route.
* `declaration_ignoresBindings`: a variant that does not is declared as if no union referred to it.
  The binding is looked up in two places only, and `Session.Closed` carries this through all the
  others.

`generate_narrows` says both of every variant of a document.  The second case does occur: a variant
with two bases inherits the property and still does not narrow, `exists_unnarrowed_variant`.
-/

namespace ApiScribe

open TypeScript

/-! ## Types in which a property holds a literal -/

namespace TypeScript

/-- The property is required and holds nothing but the literal. -/
def Property.Holds (name literal : String) (property : Property) : Prop :=
  property.name = name ∧ property.type = .literal (.string literal) ∧ property.optional = false

/-- The type is one of objects in which the property holds the literal; it may admit the bottom
besides. -/
inductive Ty.Narrows (name literal : String) (bottom : Primitive) : Ty → Prop
  | object {properties : List Property} {index : Option Ty} {property : Property}
    (hmem : property ∈ properties) (hholds : property.Holds name literal) :
    Narrows name literal bottom (.object properties index)
  | intersection {members : List Ty} {member : Ty} (hmem : member ∈ members)
    (hmember : Narrows name literal bottom member) :
    Narrows name literal bottom (.intersection members)
  | nullable {type : Ty} (htype : Narrows name literal bottom type) :
    Narrows name literal bottom (.union [type, .primitive bottom])

/-- The same of a declaration. -/
inductive DeclarationKind.Narrows (name literal : String) (bottom : Primitive) :
    DeclarationKind → Prop
  | interface {bases : List String} {properties : List Property} {index : Option Ty}
    {property : Property} (hmem : property ∈ properties) (hholds : property.Holds name literal) :
    Narrows name literal bottom (.interface bases properties index)
  | alias {type : Ty} (htype : type.Narrows name literal bottom) :
    Narrows name literal bottom (.alias type)

variable {name literal : String} {bottom : Primitive} {type : Ty}

theorem Ty.Narrows.withBottom (h : type.Narrows name literal bottom) :
    (type.withBottom bottom).Narrows name literal bottom := by
  cases h with
  | object hmem hholds => exact Ty.Narrows.nullable (Ty.Narrows.object hmem hholds)
  | intersection hmem hmember => exact Ty.Narrows.nullable (Ty.Narrows.intersection hmem hmember)
  | @nullable type htype =>
    -- the bottom is there already and is not added again
    have hany : [type, .primitive bottom].any (Ty.isPrimitive bottom) = true := by
      simp [Ty.isPrimitive]
    rw [Ty.withBottom, if_pos hany]
    exact Ty.Narrows.nullable htype

end TypeScript

namespace Shape

section Written

variable {scope : Scope} {final before after : Progress} {name : String} {binding : Binding}

theorem narrows_nullableIf {type : Ty} {spelled literal : String} {style : NullableType}
    (h : type.Narrows spelled literal style.bottom) (nullable : Bool) :
    (type.nullableIf nullable style).Narrows spelled literal style.bottom := by
  cases nullable with
  | true => exact h.withBottom
  | false => exact h

theorem boundProperty_holds (style : PropertyNameStyle) (binding : Binding)
    (description : Option String) :
    (boundProperty style binding description).Holds (style.spell binding.property)
      binding.literal :=
  ⟨rfl, rfl, rfl⟩

/-! ## Variants that take the property up -/

/-- Where the bound property is declared it is written with its literal. -/
theorem exists_property_holds {required : List String} {entries : List (String × Shape)}
    {properties : List Property}
    (hproperties : List.Forall₂ (PropertyWrittenAs scope final (some binding) required) entries
      properties) (hdeclared : binding.property ∈ entries.map Prod.fst) :
    ∃ property ∈ properties, property.Holds
      (scope.settings.propertyNameStyle.spell binding.property) binding.literal := by
  obtain ⟨entry, hentry, hname⟩ := List.mem_map.mp hdeclared
  obtain ⟨property, hproperty, hwritten⟩ := exists_of_forall₂_left hproperties hentry
  cases hwritten with
  | bound hbinding _ =>
    cases hbinding
    exact ⟨_, hproperty, boundProperty_holds _ _ _⟩
  | free hfree _ => exact absurd hname.symm (hfree binding rfl)

theorem narrows_of_recordWrittenAs {properties : List Property} {additional : AdditionalValues}
    {type : Ty} {spelled literal : String} {bottom : Primitive}
    (hholds : ∃ property ∈ properties, property.Holds spelled literal)
    (h : RecordWrittenAs scope final properties additional type) :
    type.Narrows spelled literal bottom := by
  obtain ⟨property, hmem, hholds⟩ := hholds
  cases h with
  | typed _ _ => exact Ty.Narrows.intersection List.mem_cons_self (Ty.Narrows.object hmem hholds)
  | _ => exact Ty.Narrows.object hmem hholds

variable (hbinding : scope.bindingOf? name = some binding)
include hbinding

theorem narrows_of_memberWrittenAs {member : Shape} {entries : List (String × Shape)}
    {required : List String} {additional : AdditionalValues} {type : Ty}
    (hkind : member.kind = .object entries required additional)
    (hdeclared : binding.property ∈ entries.map Prod.fst)
    (h : MemberWrittenAs scope final name member type) :
    type.Narrows (scope.settings.propertyNameStyle.spell binding.property) binding.literal
      scope.settings.nullableType.bottom := by
  cases h with
  | own _ hproperties htype =>
    cases hkind
    rw [hbinding] at hproperties
    exact narrows_nullableIf (narrows_of_recordWrittenAs
      (exists_property_holds hproperties hdeclared) htype) _
  | other hempty _ =>
    rw [hempty _ _ _ hkind] at hdeclared
    cases hdeclared

/-- The interface that extends a base has the property in any case: from its own properties, or in
front of them. -/
theorem exists_holds_of_bodyWrittenAs {extra : Option Shape} {body : InterfaceBody}
    (h : BodyWrittenAs scope final name extra body) :
    ∃ property ∈ withBoundProperty scope.settings.propertyNameStyle (scope.bindingOf? name) body,
      property.Holds (scope.settings.propertyNameStyle.spell binding.property)
        binding.literal := by
  have hfront : body.declared.contains binding.property = false →
      ∃ property ∈ withBoundProperty scope.settings.propertyNameStyle (some binding) body,
        property.Holds (scope.settings.propertyNameStyle.spell binding.property)
          binding.literal := by
    intro hfree
    rw [withBoundProperty, hfree]
    exact ⟨_, List.mem_cons_self, boundProperty_holds _ _ _⟩
  rw [hbinding]
  cases h with
  | none => exact hfront rfl
  | unknown => exact hfront rfl
  | @object entries _ _ _ properties _ hproperties =>
    cases hdeclared : (entries.map Prod.fst).contains binding.property with
    | false => exact hfront hdeclared
    | true =>
      rw [hbinding] at hproperties
      rw [withBoundProperty, if_pos hdeclared]
      exact exists_property_holds hproperties (List.contains_iff_mem.mp hdeclared)

omit hbinding in
theorem narrows_intersect {types : List Ty} {type : Ty} {spelled literal : String}
    {bottom : Primitive} (hmem : type ∈ types) (h : type.Narrows spelled literal bottom) :
    (intersect types).Narrows spelled literal bottom := by
  match types, hmem with
  | [only], hmem =>
    obtain rfl := List.mem_singleton.mp hmem
    exact h
  | first :: second :: rest, hmem => exact Ty.Narrows.intersection hmem h

omit hbinding in
/-- The shape takes up a property of its name: one of the objects that are written for the name
declares it, or an interface is written that has room for it. -/
def TakesUp (root : Json) (property : String) (shape : Shape) : Prop :=
  property ∈ shape.ownProperties.map Prod.fst ∨
    ∃ members discriminator pointer extra, shape.kind = .composition .allOf members discriminator ∧
      ExtendsBase root shape.nullable members pointer extra

theorem narrows_of_allOfDeclaredAs {members : List Shape} {discriminator : Option Discriminator}
    {nullable : Bool} {description : Option String} {kind : DeclarationKind}
    (htakes : TakesUp scope.root binding.property
      ⟨.composition .allOf members discriminator, nullable, description⟩)
    (h : AllOfDeclaredAs scope final name nullable members kind) :
    kind.Narrows (scope.settings.propertyNameStyle.spell binding.property) binding.literal
      scope.settings.nullableType.bottom := by
  cases h with
  | extension _ _ hbody =>
    obtain ⟨property, hmem, hholds⟩ := exists_holds_of_bodyWrittenAs hbinding hbody
    exact DeclarationKind.Narrows.interface hmem hholds
  | intersection hextends htypes =>
    rcases htakes with hdeclared | ⟨_, _, pointer, extra, hkind, hbase⟩
    · obtain ⟨entry, hentry, hname⟩ := List.mem_map.mp hdeclared
      obtain ⟨member, hmember, hentry⟩ := List.mem_flatMap.mp hentry
      split at hentry
      next entries required additional hkind =>
        obtain ⟨type, htype, hwritten⟩ := exists_of_forall₂_left htypes hmember
        have hentries : binding.property ∈ entries.map Prod.fst :=
          hname ▸ List.mem_map_of_mem hentry
        exact DeclarationKind.Narrows.alias (narrows_nullableIf (narrows_intersect htype
          (narrows_of_memberWrittenAs hbinding hkind hentries hwritten)) nullable)
      next => cases hentry
    · cases hkind
      exact absurd hbase (hextends pointer extra)

theorem narrows_of_objectDeclaredAs {entries : List (String × Shape)} {required : List String}
    {additional : AdditionalValues} {nullable : Bool} {description : Option String}
    {kind : DeclarationKind} (hdeclared : binding.property ∈ entries.map Prod.fst)
    (h : DeclaredAs scope final name ⟨.object entries required additional, nullable, description⟩
      kind) :
    kind.Narrows (scope.settings.propertyNameStyle.spell binding.property) binding.literal
      scope.settings.nullableType.bottom := by
  cases h with
  | interface _ _ hproperties =>
    rw [hbinding] at hproperties
    obtain ⟨property, hmem, hholds⟩ := exists_property_holds hproperties hdeclared
    exact DeclarationKind.Narrows.interface hmem hholds
  | record _ _ hproperties htype =>
    rw [hbinding] at hproperties
    exact DeclarationKind.Narrows.alias (narrows_nullableIf (narrows_of_recordWrittenAs
      (exists_property_holds hproperties hdeclared) htype) nullable)
  | plain hempty _ =>
    rw [List.isEmpty_iff.mp hempty] at hdeclared
    cases hdeclared

/-- **A bound shape that takes the property up narrows**, by whichever route it is declared. -/
theorem narrows_of_declaration {shape : Shape} {declared : Declaration} (hle : after ≤ final)
    (htakes : TakesUp scope.root binding.property shape)
    (h : declaration name shape scope before = (.ok declared, after)) :
    declared.kind.Narrows (scope.settings.propertyNameStyle.spell binding.property)
      binding.literal scope.settings.nullableType.bottom := by
  obtain ⟨kind, nullable, description⟩ := shape
  -- only objects and compositions that hold at once have something to take the property up with
  have hother : ownProperties ⟨kind, nullable, description⟩ = [] →
      (∀ members discriminator, kind ≠ .composition .allOf members discriminator) → False := by
    intro hown hallOf
    rcases htakes with hdeclared | ⟨members, discriminator, _, _, hkind, -⟩
    · rw [hown] at hdeclared
      cases hdeclared
    · exact hallOf members discriminator hkind
  cases kind with
  | object entries required additional =>
    rcases htakes with hdeclared | ⟨_, _, _, _, hkind, -⟩
    · exact narrows_of_objectDeclaredAs hbinding hdeclared (declaredAs_of_declaration hle h).2.2
    · cases hkind
  | composition kind members discriminator =>
    cases kind with
    | allOf =>
      exact narrows_of_allOfDeclaredAs hbinding htakes (allOfDeclaredAs_of_declaration hle rfl h)
    | oneOf => exact (hother rfl fun _ _ hkind => nomatch hkind).elim
    | anyOf => exact (hother rfl fun _ _ hkind => nomatch hkind).elim
  | _ => exact (hother rfl fun _ _ hkind => nomatch hkind).elim

end Written

end Shape

/-! ## Variants that do not -/

/-- The scope of a document in which no union binds anything. -/
def Scope.unbound (scope : Scope) : Scope :=
  { scope with bindings := [] }

/-- The step runs as if nothing were bound. -/
def Session.IgnoresBindings {α : Type} (scope : Scope) (step : Session α) : Prop :=
  ∀ before, step scope before = step scope.unbound before

theorem Session.ignoresBindings_closed (scope : Scope) :
    Session.Closed fun step => Session.IgnoresBindings scope step where
  pure _ _ := rfl
  bind {_ _ step _} hstep hnext before := by
    rw [Session.bind_apply, Session.bind_apply, hstep before]
    rcases step scope.unbound before with ⟨_ | value, between⟩
    · rfl
    · exact hnext value between
  settings _ := rfl
  shapeName _ _ := rfl
  reported _ _ := rfl
  setSubject _ _ := rfl

/-- What was read from the document is the same with and without bindings. -/
theorem Session.IgnoresBindings.onRoot_bind {α β : Type} {scope : Scope}
    {compute : Json → Except CompileError α} {next : α → Session β}
    (h : ∀ value, compute scope.root = .ok value → Session.IgnoresBindings scope (next value)) :
    Session.IgnoresBindings scope (Session.onRoot compute >>= next) := by
  intro before
  rw [Session.bind_apply, Session.bind_apply]
  simp only [Session.onRoot, Scope.unbound]
  cases hcompute : compute scope.root with
  | error error => rfl
  | ok value => exact h value hcompute before

namespace Shape

/-- Hoisting knows no bindings. -/
theorem hoistHolds_ignoresBindings (scope : Scope) (parent : Option String) :
    HoistHolds (fun step => Session.IgnoresBindings scope step) parent :=
  fun _ _ _ _ _ _ => rfl

/-- A binding of a property that is not declared changes none of those that are. -/
theorem propertyTypes_of_notMem {parent : Option String} {binding : Binding}
    {required : List String} {entries : List (String × Shape)}
    (h : binding.property ∉ entries.map Prod.fst) :
    propertyTypes parent (some binding) required entries =
      propertyTypes parent none required entries := by
  induction entries with
  | nil => rfl
  | cons entry entries ih =>
    obtain ⟨name, shape⟩ := entry
    obtain ⟨hname, hentries⟩ := not_or.mp (List.mem_cons.not.mp h)
    rw [propertyTypes, propertyTypes, ih hentries, Option.filter_some,
      if_neg (decide_eq_true_iff.not.mpr hname), Option.filter_none]

theorem interfaceBody_of_not_isBody {name : String} {extra : Shape}
    (h : extra.isBody = false) : interfaceBody name (some extra) = pure none := by
  obtain ⟨kind, nullable, description⟩ := extra
  cases nullable with
  | true => cases kind <;> rfl
  | false =>
    cases kind with
    | unknown => cases h
    | object entries required additional =>
      have htyped : hasTypedValues additional = true := by simpa [isBody] using h
      rw [interfaceBody.eq_def]
      simp only [htyped, if_true]
    | _ => rfl

/-- No interface is written where the base cannot be extended or the other member is no body. -/
theorem extendingInterface_ignoresBindings {scope : Scope} {pointer : String}
    {extra : Option Shape}
    (h : ∀ target, Pointer.resolve scope.root pointer = .ok target → target.isExtendable = true →
      ∃ other, extra = some other ∧ other.isBody = false) (name : String) :
    Session.IgnoresBindings scope (extendingInterface name pointer extra) := by
  have hclosed := Session.ignoresBindings_closed scope
  refine Session.IgnoresBindings.onRoot_bind fun base _ => ?_
  refine Session.IgnoresBindings.onRoot_bind fun target htarget => ?_
  split
  · exact hclosed.bind (hclosed.reported _) fun _ => hclosed.pure _
  next hextendable =>
    obtain ⟨other, rfl, hother⟩ := h target htarget (by simpa using hextendable)
    rw [interfaceBody_of_not_isBody hother]
    exact hclosed.pure none

/-- Where no base is extended nothing is written for the name. -/
theorem composedInterface_ignoresBindings {scope : Scope} {nullable : Bool} {members : List Shape}
    (h : ∀ pointer extra, ¬ ExtendsBase scope.root nullable members pointer extra)
    (name : String) : Session.IgnoresBindings scope (composedInterface name nullable members) := by
  have hclosed := Session.ignoresBindings_closed scope
  have hsingle : ∀ pointer (extra : Option Shape), pointers members = [pointer] →
      (members.filter fun member => !member.isReference) = extra.toList →
      Session.IgnoresBindings scope
        (if nullable then pure none else extendingInterface name pointer extra) := by
    intro pointer extra hpointers hothers
    split
    · exact hclosed.pure none
    next hnullable =>
      refine extendingInterface_ignoresBindings (fun target htarget hextendable => ?_) name
      by_contra hbody
      refine h pointer extra ⟨eq_false_of_ne_true hnullable, hpointers, hothers,
        ⟨target, htarget, hextendable⟩, fun other hother => ?_⟩
      exact eq_true_of_ne_false fun hnot => hbody ⟨other, hother, hnot⟩
  rw [composedInterface.eq_def]
  split
  next pointer hpointers hothers => exact hsingle pointer none hpointers hothers
  next pointer extra hpointers hothers => exact hsingle pointer (some extra) hpointers hothers
  · exact hclosed.bind (shapeNames_holds hclosed _) fun _ =>
      hclosed.bind (hclosed.reported _) fun _ => hclosed.pure none
  · exact hclosed.pure none

section Bound

variable {scope : Scope} {name : String} {binding : Binding}
  (hbinding : scope.bindingOf? name = some binding)
include hbinding

theorem properties_ignoresBindings {entries : List (String × Shape)}
    (h : binding.property ∉ entries.map Prod.fst) (required : List String) :
    Session.IgnoresBindings scope (properties (some name) (some name) required entries) := by
  intro before
  have hfree : Session.IgnoresBindings scope (propertyTypes (some name) none required entries) :=
    propertyTypes_holds (Session.ignoresBindings_closed scope) fun entry _ property =>
      type_holds (Session.ignoresBindings_closed scope) entry.2 property
        (hoistHolds_ignoresBindings scope (some name))
  show propertyTypes (some name) (scope.bindingOf? name) required entries scope before = _
  rw [hbinding, propertyTypes_of_notMem h]
  exact hfree before

/-- **A bound shape that does not take the property up is declared as if it were not bound.** -/
theorem declaration_ignoresBindings {shape : Shape}
    (h : ¬ TakesUp scope.root binding.property shape) :
    Session.IgnoresBindings scope (declaration name shape) := by
  obtain ⟨hown, hbase⟩ := not_or.mp h
  refine declaration_holds (Session.ignoresBindings_closed scope)
    (hoistHolds_ignoresBindings scope (some name)) ?_ ?_
  · intro required entries hsubset
    refine properties_ignoresBindings hbinding (fun hmem => hown ?_) required
    exact List.map_subset _ hsubset hmem
  · intro members discriminator hkind
    refine composedInterface_ignoresBindings (fun pointer extra hextends => hbase ?_) name
    exact ⟨members, discriminator, pointer, extra, hkind, hextends⟩

end Bound

end Shape

/-! ## A whole generation -/

namespace Output

variable {format : Notation} {text : String} {document : Document} {settings : Settings}
  {output : Output}

/-- What a run makes of a shape that a union binds: a declaration with the literal if the shape takes
the property up, and the declaration that it would have unbound if it does not. -/
def Run.DeclaresVariant (run : Run document settings output) (variant : NamedShape)
    (binding : Binding) : Prop :=
  ∃ declaration ∈ run.declarations, declaration.name = variant.name ∧
    (variant.shape.TakesUp document.root binding.property →
      declaration.kind.Narrows (settings.propertyNameStyle.spell binding.property) binding.literal
        settings.nullableType.bottom) ∧
    (¬ variant.shape.TakesUp document.root binding.property →
      ∃ before after, Shape.declaration variant.name variant.shape run.scope.unbound before =
        (.ok declaration, after) ∧ after ≤ run.finished)

theorem Run.declaresVariant (run : Run document settings output) {variant : NamedShape}
    {binding : Binding} (hvariant : variant ∈ document.namedShapes)
    (hbinding : run.scope.bindingOf? variant.name = some binding) :
    run.DeclaresVariant variant binding := by
  obtain ⟨declaration, hmem, before, after, hrun, hle⟩ := run.exists_ownDeclaration hvariant
  refine ⟨declaration, hmem, (Shape.declaredAs_of_declaration hle hrun).1, ?_, ?_⟩
  · intro htakes
    rw [← run.settings_eq]
    rw [← run.root_eq] at htakes
    exact Shape.narrows_of_declaration hbinding hle htakes hrun
  · intro htakes
    rw [← run.root_eq] at htakes
    refine ⟨before, after, ?_, hle⟩
    rw [← Shape.declaration_ignoresBindings hbinding htakes before]
    exact hrun

/-- **Which variants of a discriminated union narrow.**  Every shape that a named union with a
discriminator refers to is a named shape, bound to the literal that the union maps to it.  Its
declaration has the discriminating property, required and with that literal, if the shape takes the
property up; if it does not, it is declared as if no union referred to it. -/
theorem generate_narrows (hread : Document.readAs format text = .ok document)
    (h : generate document settings = .ok output) :
    ∃ run : Run document settings output,
      output.files.get? typesFile = some { types := run.declarations : Module }.text ∧
      ∀ named ∈ document.namedShapes, ∀ kind members discriminator,
        named.shape.kind = .composition kind members (some discriminator) → kind ≠ .allOf →
        ∃ mapped, Binding.mappedLiterals document.root discriminator.mapping = .ok mapped ∧
          ∀ member ∈ members, ∀ pointer, member.kind = .reference pointer →
            ∃ variant ∈ document.namedShapes,
              Pointer.shapeName document.root pointer = .ok variant.name ∧
              run.DeclaresVariant variant
                ⟨discriminator.property, Binding.literalFor mapped variant.name⟩ := by
  obtain ⟨run⟩ := exists_run h
  refine ⟨run, run.get?_typesFile, fun named hnamed kind members discriminator hkind hunion => ?_⟩
  have hbinds := (Binding.binds_of_claimShapes run.bindings_eq).2 named hnamed
  obtain ⟨mapped, hmapped, hmembers⟩ := hbinds kind members discriminator hkind hunion
  refine ⟨mapped, hmapped, fun member hmember pointer hpointer => ?_⟩
  obtain ⟨name, hname, hbound⟩ := hmembers member hmember pointer hpointer
  obtain ⟨shape, hshape, -⟩ := (Document.wasRead_of_readAs hread).exists_namedShape hname
  exact ⟨⟨name, shape⟩, hshape, hname, run.declaresVariant hshape hbound⟩

/-- A document with a union of an object and of a composition of two bases. -/
def catOrDog : String :=
  String.intercalate "\n"
    ["openapi: 3.0.0",
      "paths: \x7b\x7d",
      "components:",
      " schemas:",
      "  Pet:",
      "   oneOf:",
      "   - $ref: '#/components/schemas/Cat'",
      "   - $ref: '#/components/schemas/Dog'",
      "   discriminator: \x7bpropertyName: kind\x7d",
      "  Animal:",
      "   properties: \x7bkind: \x7b\x7d\x7d",
      "  Named: \x7b\x7d",
      "  Cat:",
      "   properties: \x7bkind: \x7b\x7d\x7d",
      "  Dog:",
      "   allOf:",
      "   - $ref: '#/components/schemas/Animal'",
      "   - $ref: '#/components/schemas/Named'"]

/-- Is the shape a union without a mapping that is discriminated by a property and refers to a
schema? -/
def isUnionOver (property pointer : String) (shape : Shape) : Bool :=
  match shape.kind with
  | .composition .oneOf members (some ⟨discriminating, []⟩) =>
    discriminating = property && members.any fun member => match member.kind with
      | .reference other => other = pointer
      | _ => false
  | _ => false

theorem exists_of_isUnionOver {property pointer : String} {shape : Shape}
    (h : isUnionOver property pointer shape = true) :
    ∃ members, shape.kind = .composition .oneOf members (some ⟨property, []⟩) ∧
      ∃ member ∈ members, member.kind = .reference pointer := by
  rw [isUnionOver.eq_def] at h
  split at h
  next members discriminating hkind =>
    obtain ⟨hproperty, hmember⟩ := Bool.and_eq_true_iff.mp h
    obtain ⟨member, hmember, hpointer⟩ := List.any_eq_true.mp hmember
    obtain rfl := of_decide_eq_true hproperty
    refine ⟨members, hkind, member, hmember, ?_⟩
    split at hpointer
    next other hother => rw [hother, of_decide_eq_true hpointer]
    next => cases hpointer
  next => cases h

/-- Is the shape a composition of shapes that hold all at once? -/
def isAllOf (shape : Shape) : Bool :=
  match shape.kind with
  | .composition .allOf _ _ => true
  | _ => false

theorem exists_of_isAllOf {shape : Shape} (h : isAllOf shape = true) :
    ∃ members discriminator, shape.kind = .composition .allOf members discriminator := by
  rw [isAllOf.eq_def] at h
  split at h
  next members discriminator hkind => exact ⟨members, discriminator, hkind⟩
  next => cases h

/-- Is a declaration an alias of the intersection of two declared types? -/
def isNamedIntersection : DeclarationKind → Bool
  | .alias (.intersection [.named _, .named _]) => true
  | _ => false

/-- An intersection of declared types has no properties of its own. -/
theorem not_narrows_of_isNamedIntersection {kind : DeclarationKind} {name literal : String}
    {bottom : Primitive} (h : isNamedIntersection kind = true) :
    ¬ kind.Narrows name literal bottom := by
  rw [isNamedIntersection.eq_def] at h
  split at h
  next first second =>
    rintro ⟨⟩
    next htype =>
      cases htype with
      | intersection hmem hmember =>
        rcases List.mem_pair.mp hmem with rfl | rfl <;> cases hmember
  next => cases h

theorem yields_catOrDog : yields .yaml catOrDog {} (fun document _ =>
    document.namedShapes.any (fun named =>
      isUnionOver "kind" "#/components/schemas/Cat" named.shape &&
        isUnionOver "kind" "#/components/schemas/Dog" named.shape) &&
    decide (Pointer.shapeName document.root "#/components/schemas/Cat" = .ok "Cat") &&
    document.namedShapes.all (fun named => named.name ≠ "Cat" ||
      (named.shape.ownProperties.map Prod.fst).contains "kind") &&
    document.namedShapes.any (fun named => named.name = "Dog" && isAllOf named.shape) &&
    declares document {} fun declarations => declarations.any fun declaration =>
      declaration.name = "Dog" && isNamedIntersection declaration.kind) = true := by
  decide +kernel

theorem generate_narrows_catOrDog :
    ∃ document output, Document.readAs .yaml catOrDog = .ok document ∧
      generate document {} = .ok output ∧
      ∃ run : Run document {} output, ∃ declaration ∈ run.declarations,
        declaration.name = "Cat" ∧ declaration.kind.Narrows "kind" "cat" .null := by
  obtain ⟨document, output, hread, h, hcheck⟩ := exists_of_yields yields_catOrDog
  simp only [Bool.and_eq_true, List.any_eq_true, List.all_eq_true, decide_eq_true_eq] at hcheck
  obtain ⟨⟨⟨⟨⟨named, hnamed, hunion, -⟩, hname⟩, hdeclared⟩, -⟩, -⟩ := hcheck
  obtain ⟨members, hkind, member, hmember, hpointer⟩ := exists_of_isUnionOver hunion
  obtain ⟨run, -, hunions⟩ := generate_narrows hread h
  obtain ⟨mapped, hmapped, hvariants⟩ := hunions named hnamed _ _ _ hkind (by decide)
  obtain ⟨variant, hvariant, hvariantName, declaration, hdeclaration, hdeclarationName, hnarrows,
    -⟩ := hvariants member hmember _ hpointer
  obtain rfl := Except.ok.inj hmapped
  have hcat := Except.ok.inj (hvariantName.symm.trans hname)
  rw [hcat] at hdeclarationName hnarrows
  have htakes := hdeclared variant hvariant
  rw [hcat] at htakes
  refine ⟨document, output, hread, h, run, declaration, hdeclaration, hdeclarationName, ?_⟩
  exact hnarrows (Or.inl (List.contains_iff_mem.mp htakes))

/-- **Not every variant narrows.**  A composition of two bases is written as an intersection of their
names, and the literal of the union is nowhere. -/
theorem exists_unnarrowed_variant :
    ∃ document output, Document.readAs .yaml catOrDog = .ok document ∧
      generate document {} = .ok output ∧
      (∃ named ∈ document.namedShapes, ∃ members,
        named.shape.kind = .composition .oneOf members (some ⟨"kind", []⟩) ∧
        ∃ member ∈ members, member.kind = .reference "#/components/schemas/Dog") ∧
      (∃ variant ∈ document.namedShapes, variant.name = "Dog" ∧ ∃ members discriminator,
        variant.shape.kind = .composition .allOf members discriminator) ∧
      ∀ run : Run document {} output, ∃ declaration ∈ run.declarations,
        declaration.name = "Dog" ∧
          ∀ literal bottom, ¬ declaration.kind.Narrows "kind" literal bottom := by
  obtain ⟨document, output, hread, h, hcheck⟩ := exists_of_yields yields_catOrDog
  simp only [Bool.and_eq_true, List.any_eq_true, decide_eq_true_eq] at hcheck
  obtain ⟨⟨⟨⟨⟨named, hnamed, -, hunion⟩, -⟩, -⟩, variant, hvariant, hvariantName, hallOf⟩,
    hdeclares⟩ := hcheck
  refine ⟨document, output, hread, h, ⟨named, hnamed, exists_of_isUnionOver hunion⟩,
    ⟨variant, hvariant, hvariantName, exists_of_isAllOf hallOf⟩, fun run => ?_⟩
  obtain ⟨declaration, hmem, hdog⟩ := List.any_eq_true.mp (run.of_declares hdeclares)
  obtain ⟨hname, hkind⟩ := Bool.and_eq_true_iff.mp hdog
  exact ⟨declaration, hmem, of_decide_eq_true hname,
    fun _ _ => not_narrows_of_isNamedIntersection hkind⟩

end Output

end ApiScribe
