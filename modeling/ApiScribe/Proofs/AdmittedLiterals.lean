import ApiScribe.Proofs.Meaning
import ApiScribe.Proofs.Narrowing
import ApiScribe.Proofs.VariantLiterals

/-!
# Which literals a variant admits

A mapping may lead to one variant from several literals.  A value of the variant can carry any of them,
but the variant is bound to a single literal, the first one, and its declaration is written with that: of
all texts, the type of the property admits this one only (`Property.AdmitsOnly`).

`Run.admitsOnly` is about variants that are objects and declare the property, whichever way they are
written: as an interface, or as an alias of an object type that may be intersected with a dictionary and
may admit a bottom (`HasProperties`).  `generate_admits` concludes that all literals that are mapped to
the variant are admitted exactly if there is one of them, and `exists_refused_literal` is a document where
there are two.
-/

namespace ApiScribe

open TypeScript

namespace TypeScript

/-! ## Properties that admit one text -/

variable {declarations : List Declaration}

/-- A literal admits the text that it spells. -/
theorem Ty.admits_literal_iff {literal text : String} :
    Ty.Admits declarations (.literal (.string literal)) (.string text) ↔ text = literal := by
  constructor
  · intro h
    cases h with
    | literal hdenotes =>
      cases hdenotes
      rfl
  · rintro rfl
    exact .literal (.string text)

/-- The property is required, and of all texts its type admits only the literal. -/
def Property.AdmitsOnly (declarations : List Declaration) (literal : String) (property : Property) :
    Prop :=
  property.optional = false ∧
    ∀ text, property.type.Admits declarations (.string text) ↔ text = literal

theorem Property.Holds.admitsOnly {name literal : String} {property : Property}
    (h : property.Holds name literal) : property.AdmitsOnly declarations literal := by
  obtain ⟨-, htype, hrequired⟩ := h
  refine ⟨hrequired, fun text => ?_⟩
  rw [htype]
  exact Ty.admits_literal_iff

/-- The type is one of objects with these properties.  Other properties can have values of a type besides,
and a bottom may be admitted. -/
inductive Ty.HasProperties (properties : List Property) : Ty → Prop
  | object {index : Option Ty} : HasProperties properties (.object properties index)
  | intersection {type : Ty} :
    HasProperties properties (.intersection [.object properties none, Ty.dictionary type])
  | nullable {type : Ty} {bottom : Primitive} (h : HasProperties properties type) :
    HasProperties properties (.union [type, .primitive bottom])

/-- An interface or an alias with these properties is declared, without bases. -/
inductive DeclarationKind.HasProperties (properties : List Property) : DeclarationKind → Prop
  | interface {index : Option Ty} : HasProperties properties (.interface [] properties index)
  | alias {type : Ty} (h : type.HasProperties properties) : HasProperties properties (.alias type)

variable {properties : List Property} {type : Ty}

theorem Ty.HasProperties.withBottom (h : type.HasProperties properties) {bottom : Primitive}
    (hunion : ∀ members, type ≠ .union members) :
    (type.withBottom bottom).HasProperties properties := by
  cases h with
  | object => exact .nullable .object
  | intersection => exact .nullable .intersection
  | nullable => exact absurd rfl (hunion _)

end TypeScript

namespace Shape

variable {scope : Scope} {final : Progress} {name : String} {entries : List (String × Shape)}
  {required : List String} {additional : AdditionalValues} {properties : List Property}

/-- What is written for an object has its properties, whether it may be null or not. -/
theorem hasProperties_of_recordWrittenAs {type : Ty}
    (h : RecordWrittenAs scope final properties additional type) (nullable : Bool)
    (style : NullableType) : (type.nullableIf nullable style).HasProperties properties := by
  have hplain : type.HasProperties properties ∧ ∀ members, type ≠ .union members := by
    cases h with
    | typed => exact ⟨.intersection, nofun⟩
    | _ => exact ⟨.object, nofun⟩
  cases nullable with
  | true => exact hplain.1.withBottom hplain.2
  | false => exact hplain.1

/-- An object that declares something is written with what it declares. -/
theorem exists_properties_of_declaredAs {nullable : Bool} {description : Option String}
    {kind : DeclarationKind} (hne : entries ≠ [])
    (h : DeclaredAs scope final name ⟨.object entries required additional, nullable, description⟩
      kind) :
    ∃ properties, kind.HasProperties properties ∧
      List.Forall₂ (PropertyWrittenAs scope final (scope.bindingOf? name) required) entries
        properties := by
  cases h with
  | interface _ _ hproperties => exact ⟨_, .interface, hproperties⟩
  | record _ _ hproperties htype =>
    exact ⟨_, .alias (hasProperties_of_recordWrittenAs htype _ _), hproperties⟩
  | plain hempty _ => exact absurd (List.isEmpty_iff.mp hempty) hne

/-- Each property is written under its spelling, and the bound one admits only its literal. -/
theorem admitsOnly_of_propertyWrittenAs {binding : Binding} {declarations : List Declaration}
    {entry : String × Shape} {property : Property}
    (h : PropertyWrittenAs scope final (some binding) required entry property) :
    property.name = scope.settings.propertyNameStyle.spell entry.1 ∧
      (entry.1 = binding.property → property.AdmitsOnly declarations binding.literal) := by
  cases h with
  | bound hbinding hname =>
    obtain rfl := Option.some.inj hbinding
    have hholds := boundProperty_holds scope.settings.propertyNameStyle binding entry.2.description
    exact ⟨hname ▸ hholds.1, fun _ => hholds.admitsOnly⟩
  | free hfree _ => exact ⟨rfl, fun hname => absurd hname.symm (hfree binding rfl)⟩

end Shape

/-! ## Mapped literals -/

namespace Binding

variable {root : Json} {mapping : List (String × String)} {variant : String}

/-- A variant that is mapped has a first literal. -/
theorem exists_isFirstMapped (h : ¬ IsUnmapped root mapping variant) :
    ∃ literal, IsFirstMapped root mapping variant literal := by
  induction mapping with
  | nil => exact absurd (fun entry hmem => absurd hmem List.not_mem_nil) h
  | cons entry mapping ih =>
    by_cases hentry : LeadsTo root variant entry
    · exact ⟨entry.1, [], entry.2, mapping, rfl, hentry, nofun⟩
    · have hrest : ¬ IsUnmapped root mapping variant := fun hunmapped =>
        h (List.forall_mem_cons.mpr ⟨hentry, hunmapped⟩)
      obtain ⟨literal, before, target, after, rfl, hfound, hbefore⟩ := ih hrest
      exact ⟨literal, entry :: before, target, after, rfl, hfound,
        List.forall_mem_cons.mpr ⟨hentry, hbefore⟩⟩

/-- All literals mapped to a variant are the first one exactly if one entry leads to it. -/
theorem IsFirstMapped.forall_eq_iff {first : String} (hnodup : (Table.names mapping).Nodup)
    (h : IsFirstMapped root mapping variant first) :
    (∀ entry ∈ mapping, LeadsTo root variant entry → entry.1 = first) ↔
      ∃! entry, entry ∈ mapping ∧ LeadsTo root variant entry := by
  obtain ⟨target, hmem, htarget⟩ := h.exists_mem
  constructor
  · intro hall
    refine ⟨(first, target), ⟨hmem, htarget⟩, ?_⟩
    rintro ⟨literal, other⟩ ⟨hother, hleads⟩
    obtain rfl : literal = first := hall _ hother hleads
    have hsame : some other = some target :=
      ((Table.get?_eq_some_iff hnodup).mpr hother).symm.trans
        ((Table.get?_eq_some_iff hnodup).mpr hmem)
    rw [Option.some.inj hsame]
  · rintro ⟨only, -, honly⟩ entry hentry hleads
    rw [honly entry ⟨hentry, hleads⟩, ← honly (first, target) ⟨hmem, htarget⟩]

end Binding

/-! ## A whole generation -/

namespace Output

variable {format : Notation} {text : String} {document : Document} {settings : Settings}
  {output : Output}

/-- A run declares an object of this name.  The declared properties are those of the object, one after the
other and under their spellings, and where the object has the property of the name `property`, the
declared one admits only the literal. -/
def Run.AdmitsOnly (run : Run document settings output) (name : String)
    (entries : List (String × Shape)) (property literal : String) : Prop :=
  ∃ declaration ∈ run.declarations, declaration.name = name ∧
    ∃ properties, declaration.kind.HasProperties properties ∧
      List.Forall₂ (fun (entry : String × Shape) (written : Property) =>
        written.name = settings.propertyNameStyle.spell entry.1 ∧
          (entry.1 = property → written.AdmitsOnly run.declarations literal)) entries properties

/-- **A variant admits the first literal only** that is mapped to it. -/
theorem Run.admitsOnly (run : Run document settings output) {named variant : NamedShape}
    (hnamed : named ∈ document.namedShapes) {members : List Shape} {discriminator : Discriminator}
    (hunion : Binding.IsUnion named.shape members discriminator)
    (hvariant : variant ∈ document.namedShapes)
    (hmember : variant.name ∈ Binding.variants document.root members)
    {entries : List (String × Shape)} {required : List String} {additional : AdditionalValues}
    (hkind : variant.shape.kind = .object entries required additional)
    (hdeclared : discriminator.property ∈ entries.map Prod.fst) {first : String}
    (hfirst : Binding.IsFirstMapped document.root discriminator.mapping variant.name first) :
    run.AdmitsOnly variant.name entries discriminator.property first := by
  obtain ⟨literal, hbound, hliteral⟩ :=
    Binding.exists_literal run.bindings_eq hnamed hunion hmember
  obtain rfl : literal = first :=
    hliteral.unique (Binding.isLiteralFor_cases.mpr (Or.inl hfirst))
  have hbinding : run.scope.bindingOf? variant.name = some ⟨discriminator.property, literal⟩ := hbound
  have hne : entries ≠ [] := by
    rintro rfl
    cases hdeclared
  obtain ⟨name, kind, nullable, description⟩ := variant
  dsimp only at hkind
  subst hkind
  obtain ⟨declaration, hmem, hname, hwritten⟩ := run.exists_declaration hvariant
  obtain ⟨properties, hproperties, hall⟩ := Shape.exists_properties_of_declaredAs hne hwritten
  rw [hbinding] at hall
  refine ⟨declaration, hmem, hname, properties, hproperties, hall.imp fun entry property h => ?_⟩
  have hboth : property.name = run.scope.settings.propertyNameStyle.spell entry.1 ∧
      (entry.1 = discriminator.property → property.AdmitsOnly run.declarations literal) :=
    Shape.admitsOnly_of_propertyWrittenAs h
  rwa [run.settings_eq] at hboth

/-- **Which mapped literals are admitted.**  Every variant of a union of a document that is an object,
declares the discriminating property and is mapped, is declared so that the property is required and
admits the first of the literals mapped to the variant, and no other text.  All of them are admitted
exactly if one entry of the mapping leads to the variant. -/
theorem generate_admits (hread : Document.readAs format text = .ok document)
    (h : generate document settings = .ok output) :
    ∃ run : Run document settings output,
      output.files.get? typesFile = some { types := run.declarations : Module }.text ∧
      ∀ named ∈ document.namedShapes, ∀ members discriminator,
        Binding.IsUnion named.shape members discriminator →
        ∀ variant ∈ document.namedShapes, variant.name ∈ Binding.variants document.root members →
        ∀ entries required additional, variant.shape.kind = .object entries required additional →
        discriminator.property ∈ entries.map Prod.fst →
        ¬ Binding.IsUnmapped document.root discriminator.mapping variant.name →
        ∃ first, Binding.IsFirstMapped document.root discriminator.mapping variant.name first ∧
          run.AdmitsOnly variant.name entries discriminator.property first ∧
          ((∀ entry ∈ discriminator.mapping, Binding.LeadsTo document.root variant.name entry →
              entry.1 = first) ↔
            ∃! entry, entry ∈ discriminator.mapping ∧
              Binding.LeadsTo document.root variant.name entry) := by
  obtain ⟨run⟩ := exists_run h
  refine ⟨run, run.get?_typesFile, ?_⟩
  intro named hnamed members discriminator hunion variant hvariant hmember entries required additional
    hkind hdeclared hmapped
  obtain ⟨first, hfirst⟩ := Binding.exists_isFirstMapped hmapped
  have hnodup : discriminator.mapping.names.Nodup :=
    (Document.wasRead_of_readAs hread).nodup_mapping hnamed hunion
  exact ⟨first, hfirst, run.admitsOnly hnamed hunion hvariant hmember hkind hdeclared hfirst,
    hfirst.forall_eq_iff hnodup⟩

/-- A document with a pet that is called a tom or a kitten, and a dog that is called nothing else. -/
def tomOrKitten : String :=
  String.intercalate "\n"
    ["openapi: 3.0.0",
      "paths: \x7b\x7d",
      "components:",
      " schemas:",
      "  Pet:",
      "   oneOf:",
      "   - $ref: '#/components/schemas/Cat'",
      "   - $ref: '#/components/schemas/Dog'",
      "   discriminator:",
      "    propertyName: kind",
      "    mapping:",
      "     tom: Cat",
      "     kitten: '#/components/schemas/Cat'",
      "     rex: Dog",
      "  Cat:",
      "   properties: \x7bkind: \x7b\x7d\x7d",
      "  Dog:",
      "   properties: \x7bkind: \x7b\x7d\x7d"]

/-- Is the shape an object with one property, of this name? -/
def declaresOnly (property : String) (shape : Shape) : Bool :=
  match shape.kind with
  | .object [(name, _)] _ _ => name = property
  | _ => false

theorem exists_of_declaresOnly {property : String} {shape : Shape}
    (h : declaresOnly property shape = true) :
    ∃ inner required additional, shape.kind = .object [(property, inner)] required additional := by
  rw [declaresOnly.eq_def] at h
  split at h
  next name inner required additional hkind =>
    exact ⟨inner, required, additional, of_decide_eq_true h ▸ hkind⟩
  next => cases h

theorem yields_tomOrKitten : yields .yaml tomOrKitten {} (fun document _ =>
    (["Cat", "Dog"], ⟨"kind", [("tom", "Cat"), ("kitten", "#/components/schemas/Cat"), ("rex", "Dog")]⟩) ∈
        Binding.unions document ∧
      (∀ entry ∈ [("Cat", "Cat"), ("#/components/schemas/Cat", "Cat"), ("Dog", "Dog")],
        Pointer.shapeName document.root (Binding.targetPointer entry.1) = .ok entry.2) ∧
      ∀ name ∈ ["Cat", "Dog"], (document.namedShapes.any fun named =>
        named.name = name && declaresOnly "kind" named.shape) = true) = true := by
  decide +kernel

/-- The variant of this name in the document is an object with the property only. -/
theorem exists_variant {document : Document} {name property : String}
    (h : (document.namedShapes.any fun named =>
      named.name = name && declaresOnly property named.shape) = true) :
    ∃ variant ∈ document.namedShapes, variant.name = name ∧ ∃ inner required additional,
      variant.shape.kind = .object [(property, inner)] required additional := by
  obtain ⟨variant, hvariant, hcheck⟩ := List.any_eq_true.mp h
  obtain ⟨hname, hobject⟩ := Bool.and_eq_true_iff.mp hcheck
  exact ⟨variant, hvariant, of_decide_eq_true hname, exists_of_declaresOnly hobject⟩

theorem generate_admits_rex :
    ∃ document output, Document.readAs .yaml tomOrKitten = .ok document ∧
      generate document {} = .ok output ∧ ∃ run : Run document {} output, ∃ inner,
        run.AdmitsOnly "Dog" [("kind", inner)] "kind" "rex" := by
  obtain ⟨document, output, hread, h, hcheck⟩ := exists_of_yields yields_tomOrKitten
  obtain ⟨hmem, htargets, hobjects⟩ := of_decide_eq_true hcheck
  obtain ⟨named, hnamed, members, hunion, hvariants⟩ := Binding.exists_of_mem_unions hmem
  obtain ⟨variant, hvariant, hname, inner, required, additional, hkind⟩ :=
    exists_variant (hobjects "Dog" (by decide))
  have hmember : variant.name ∈ Binding.variants document.root members := by
    rw [hname, hvariants]
    decide
  have hmapped : ¬ Binding.IsUnmapped document.root
      [("tom", "Cat"), ("kitten", "#/components/schemas/Cat"), ("rex", "Dog")] variant.name := by
    rw [hname]
    exact fun hunmapped => hunmapped ("rex", "Dog") (by decide) (htargets ("Dog", "Dog") (by decide))
  obtain ⟨run, -, hadmits⟩ := generate_admits hread h
  obtain ⟨first, hfirst, honly, -⟩ := hadmits named hnamed members _ hunion variant hvariant hmember
    _ required additional hkind (by simp) hmapped
  rw [hname] at hfirst honly
  have hcat : ∀ target, (target, "Cat") ∈ [("Cat", "Cat"), ("#/components/schemas/Cat", "Cat"),
      ("Dog", "Dog")] → Pointer.shapeName document.root (Binding.targetPointer target) ≠ .ok "Dog" := by
    intro target htarget hdog
    have hsame : "Cat" = "Dog" := Except.ok.inj ((htargets _ htarget).symm.trans hdog)
    exact absurd hsame (by decide)
  have hrex : Binding.IsFirstMapped document.root
      [("tom", "Cat"), ("kitten", "#/components/schemas/Cat"), ("rex", "Dog")] "Dog" "rex" := by
    refine ⟨[("tom", "Cat"), ("kitten", "#/components/schemas/Cat")], "Dog", [], rfl,
      htargets ("Dog", "Dog") (by decide), ?_⟩
    exact List.forall_mem_cons.mpr ⟨hcat _ (by decide),
      List.forall_mem_singleton.mpr (hcat _ (by decide))⟩
  obtain rfl : first = "rex" := (Binding.isLiteralFor_cases.mpr (Or.inl hfirst)).unique
    (Binding.isLiteralFor_cases.mpr (Or.inl hrex))
  exact ⟨document, output, hread, h, run, inner, honly⟩

/-- **A mapped literal can be refused** by the variant that it is mapped to. -/
theorem exists_refused_literal :
    ∃ document output, Document.readAs .yaml tomOrKitten = .ok document ∧
      generate document {} = .ok output ∧
      (∃ named ∈ document.namedShapes, ∃ members discriminator,
        Binding.IsUnion named.shape members discriminator ∧ discriminator.property = "kind" ∧
        "Cat" ∈ Binding.variants document.root members ∧
        ∃ entry ∈ discriminator.mapping, entry.1 = "kitten" ∧
          Binding.LeadsTo document.root "Cat" entry) ∧
      ∀ run : Run document {} output, ∃ declaration ∈ run.declarations, declaration.name = "Cat" ∧
        ∃ property, declaration.kind.HasProperties [property] ∧ property.name = "kind" ∧
          ¬ property.type.Admits run.declarations (.string "kitten") := by
  obtain ⟨document, output, hread, h, hcheck⟩ := exists_of_yields yields_tomOrKitten
  obtain ⟨hmem, htargets, hobjects⟩ := of_decide_eq_true hcheck
  obtain ⟨named, hnamed, members, hunion, hvariants⟩ := Binding.exists_of_mem_unions hmem
  obtain ⟨variant, hvariant, hname, inner, required, additional, hkind⟩ :=
    exists_variant (hobjects "Cat" (by decide))
  have hmember : "Cat" ∈ Binding.variants document.root members := by
    rw [hvariants]
    decide
  refine ⟨document, output, hread, h,
    ⟨named, hnamed, members, _, hunion, rfl, hmember, ("kitten", "#/components/schemas/Cat"),
      by decide, rfl, htargets ("#/components/schemas/Cat", "Cat") (by decide)⟩, fun run => ?_⟩
  have hfirst : Binding.IsFirstMapped document.root
      [("tom", "Cat"), ("kitten", "#/components/schemas/Cat"), ("rex", "Dog")] variant.name "tom" := by
    rw [hname]
    exact ⟨[], "Cat", _, rfl, htargets ("Cat", "Cat") (by decide), nofun⟩
  rw [← hname] at hmember
  obtain ⟨declaration, hdeclaration, hdeclarationName, properties, hproperties, hall⟩ :=
    run.admitsOnly hnamed hunion hvariant hmember hkind (by simp) hfirst
  obtain ⟨property, _, ⟨hspelled, honly⟩, hnil, rfl⟩ := List.forall₂_cons_left_iff.mp hall
  obtain rfl := List.forall₂_nil_left_iff.mp hnil
  refine ⟨declaration, hdeclaration, hdeclarationName.trans hname, property, hproperties, hspelled, ?_⟩
  rw [(honly rfl).2 "kitten"]
  decide

end Output

end ApiScribe
