import ApiScribe.Proofs.TypeGrammar
import ApiScribe.Proofs.TypeOfShape

/-!
# Types that have the same text

A text of a type leaves some things open: which of the bars belong together, whether there was a
union with one member, what a property was described by, and whether `null` was meant as a literal.
`Alike` is what these differences generate.

* `Ty.tree_eq_iff_alike`: types are read as the same tree exactly if they are alike.  From the left
  to the right every type is compared with one that is made from its tree (`Ty.alike_type_tree`), and
  from the right to the left each of the differences is gone in the tree.
* `Shape.hasMembers_of_writtenAs`: the types that shapes are written as have no unions and no
  intersections without members.
* `Ty.text_unambiguous` puts both together with the reading of texts.
-/

namespace ApiScribe

namespace TypeScript

/-! ## Alike types -/

/-- Types put together. -/
def Joint.type : Joint → List Ty → Ty
  | .union => .union
  | .intersection => .intersection

namespace Ty

/-- The type is a word, a numeral or a quoted text. -/
def IsPlain : Ty → Prop
  | .primitive _ => True
  | .literal value => value.IsFinite
  | _ => False

/-- The types differ in nothing but the nesting of unions in unions and of intersections in
intersections, in unions and intersections with one member, in descriptions, and in what stands for
the same spelling. -/
inductive Alike : Ty → Ty → Prop
  | refl (type : Ty) : Alike type type
  | symm {type other : Ty} (h : Alike type other) : Alike other type
  | trans {type other third : Ty} (h : Alike type other) (hother : Alike other third) :
    Alike type third
  | spelled {type other : Ty} (htype : type.IsPlain) (hother : other.IsPlain)
    (h : type.text = other.text) : Alike type other
  | nested (joint : Joint) (before members after : List Ty) :
    Alike (joint.type (before ++ joint.type members :: after))
      (joint.type (before ++ members ++ after))
  | single (joint : Joint) (type : Ty) : Alike (joint.type [type]) type
  | described (before after : List Property) (index : Option Ty) (name : String) (type : Ty)
    (optional : Bool) (description other : Option String) :
    Alike (.object (before ++ ⟨name, type, optional, description⟩ :: after) index)
      (.object (before ++ ⟨name, type, optional, other⟩ :: after) index)
  | array {item other : Ty} (h : Alike item other) : Alike (.array item) (.array other)
  | member {type other : Ty} (joint : Joint) (before after : List Ty) (h : Alike type other) :
    Alike (joint.type (before ++ type :: after)) (joint.type (before ++ other :: after))
  | property {type other : Ty} (before after : List Property) (index : Option Ty) (name : String)
    (optional : Bool) (description : Option String) (h : Alike type other) :
    Alike (.object (before ++ ⟨name, type, optional, description⟩ :: after) index)
      (.object (before ++ ⟨name, other, optional, description⟩ :: after) index)
  | index {type other : Ty} (properties : List Property) (h : Alike type other) :
    Alike (.object properties (some type)) (.object properties (some other))
  | record {key value otherKey otherValue : Ty} (hkey : Alike key otherKey)
    (hvalue : Alike value otherValue) : Alike (.record key value) (.record otherKey otherValue)
  | argument {type other : Ty} (name : String) (before after : List Ty) (h : Alike type other) :
    Alike (.generic name (before ++ type :: after)) (.generic name (before ++ other :: after))

/-- Items that may be replaced one at a time may be replaced all at once. -/
theorem alike_flatMap {α β : Type} (wrap : List β → Ty) (f : α → β) (g : α → List β)
    {items : List α} (h : ∀ item ∈ items, ∀ before after,
      Alike (wrap (before ++ f item :: after)) (wrap (before ++ g item ++ after))) :
    Alike (wrap (items.map f)) (wrap (items.flatMap g)) := by
  -- what has been replaced already stands in front
  have hall : ∀ before,
      Alike (wrap (before ++ items.map f)) (wrap (before ++ items.flatMap g)) := by
    induction items with
    | nil => exact fun _ => .refl _
    | cons item items ih =>
      obtain ⟨hitem, hitems⟩ := List.forall_mem_cons.mp h
      intro before
      rw [List.map_cons, List.flatMap_cons, ← List.append_assoc]
      exact (hitem before (items.map f)).trans (ih hitems (before ++ g item))
  exact hall []

theorem alike_map {α : Type} (wrap : List α → Ty) (f : α → α) {items : List α}
    (h : ∀ item ∈ items, ∀ before after,
      Alike (wrap (before ++ item :: after)) (wrap (before ++ f item :: after))) :
    Alike (wrap items) (wrap (items.map f)) := by
  have hstep : ∀ item ∈ items, ∀ before after,
      Alike (wrap (before ++ id item :: after)) (wrap (before ++ [f item] ++ after)) := by
    intro item hitem before after
    rw [List.append_assoc, List.singleton_append]
    exact h item hitem before after
  have hall := alike_flatMap wrap id (fun item => [f item]) hstep
  rwa [List.map_id, ← List.map_eq_flatMap] at hall

/-! ## The type of a tree -/

/-- A type with the spelling. -/
noncomputable def plain (spelling : String) : Ty :=
  Classical.epsilon fun type => type.IsPlain ∧ type.text = spelling

theorem alike_plain {type : Ty} (h : type.IsPlain) : Alike type (plain type.text) := by
  obtain ⟨hplain, htext⟩ := Classical.epsilon_spec (p := fun other : Ty =>
    other.IsPlain ∧ other.text = type.text) ⟨type, h, rfl⟩
  exact .spelled h hplain htext.symm

end Ty

namespace TypeTree

mutual

/-- A type that is read as the tree. -/
noncomputable def type : TypeTree → Ty
  | .keyword word => Ty.plain word
  | .numeral spelling => Ty.plain spelling
  | .quoted value => Ty.plain (quote value)
  | .named name => .named name
  | .array item => .array item.type
  | .compound joint members => joint.type (types members)
  | .object properties index => .object (propertyTypes properties) (type? index)
  | .record key value => .record key.type value.type
  | .applied name arguments => .generic name (types arguments)

/-- Types that are read as the trees. -/
noncomputable def types : List TypeTree → List Ty
  | [] => []
  | tree :: rest => tree.type :: types rest

/-- A type that is read as the tree, if there is one. -/
noncomputable def type? : Option TypeTree → Option Ty
  | none => none
  | some tree => some tree.type

/-- Properties without descriptions. -/
noncomputable def propertyTypes : List (String × Bool × TypeTree) → List Property
  | [] => []
  | (name, optional, tree) :: rest => ⟨name, tree.type, optional, none⟩ :: propertyTypes rest

end

theorem types_eq (trees : List TypeTree) : types trees = trees.map type := by
  induction trees with
  | nil => rfl
  | cons tree trees ih => rw [types, List.map_cons, ih]

/-- What is joined to one member may be joined to the members of that. -/
theorem alike_parts (joint : Joint) (tree : TypeTree) (before after : List Ty) :
    Ty.Alike (joint.type (before ++ tree.type :: after))
      (joint.type (before ++ (tree.parts joint).map type ++ after)) := by
  by_cases hother : tree.IsOther joint
  · rw [parts_of_isOther hother, List.map_singleton, List.append_assoc, List.singleton_append]
    exact .refl _
  · obtain ⟨members, rfl⟩ := exists_of_not_isOther hother
    rw [parts_compound, type, types_eq]
    exact .nested joint before _ after

theorem alike_joined (joint : Joint) (trees : List TypeTree) :
    Ty.Alike (joint.type (trees.map type)) (joined joint trees).type := by
  by_cases hlength : trees.length = 1
  · obtain ⟨tree, rfl⟩ := List.length_eq_one_iff.mp hlength
    exact .single joint tree.type
  · rw [joined_of_length_ne_one hlength, type, types_eq]
    exact .refl _

end TypeTree

namespace Ty

theorem type_tree_of_isPlain {type : Ty} (h : type.IsPlain) : type.tree.type = plain type.text := by
  cases type with
  | primitive primitive => rw [tree, TypeTree.type, text]
  | literal value =>
    cases value with
    | boolean value => cases value <;> rw [tree, Literal.tree, TypeTree.type, text, Literal.text]
    | _ => rw [tree, Literal.tree, TypeTree.type, text, Literal.text]
  | _ => cases h

/-- The property as it is made from its tree. -/
noncomputable def remade (property : Property) : Property :=
  ⟨property.name, property.type.tree.type, property.optional, none⟩

theorem propertyTypes_trees (properties : List Property) :
    TypeTree.propertyTypes (Property.trees properties) = properties.map remade := by
  induction properties with
  | nil => rfl
  | cons property properties ih =>
    obtain ⟨name, type, optional, description⟩ := property
    rw [Property.trees, Property.tree, TypeTree.propertyTypes, ih]
    rfl

theorem alike_remade {property : Property} (h : Alike property.type property.type.tree.type)
    (before after : List Property) (index : Option Ty) :
    Alike (.object (before ++ property :: after) index)
      (.object (before ++ remade property :: after) index) := by
  obtain ⟨name, type, optional, description⟩ := property
  exact (Alike.property before after index name optional description h).trans
    (.described before after index name _ optional description none)

theorem alike_of_members (joint : Joint) {members : List Ty}
    (h : ∀ member ∈ members, Alike member member.tree.type) :
    Alike (joint.type members) (TypeTree.join joint (trees members)).type := by
  have hparts := alike_flatMap joint.type id
    (fun member : Ty => (member.tree.parts joint).map TypeTree.type)
    fun member hmember before after => (Alike.member joint before after (h member hmember)).trans
      (TypeTree.alike_parts joint member.tree before after)
  rw [List.map_id, ← List.map_flatMap] at hparts
  rw [trees_eq, TypeTree.join, List.flatMap_map]
  exact hparts.trans (TypeTree.alike_joined joint _)

variable {alphabet : IdentifierAlphabet}

/-- **A type is alike to one that is made from its tree.** -/
theorem alike_type_tree {type : Ty} (h : type.Everywhere (IsSpelled alphabet)) :
    Alike type type.tree.type := by
  induction h with
  | @primitive primitive _ =>
    have hplain : (Ty.primitive primitive).IsPlain := trivial
    rw [type_tree_of_isPlain hplain]
    exact alike_plain hplain
  | @literal value here =>
    have hplain : (Ty.literal value).IsPlain := here
    rw [type_tree_of_isPlain hplain]
    exact alike_plain hplain
  | array _ _ ih => exact .array ih
  | union _ _ ih => exact alike_of_members .union ih
  | intersection _ _ ih => exact alike_of_members .intersection ih
  | @object properties index _ _ _ ihproperties ihindex =>
    have hproperties := alike_map (fun properties => .object properties index) remade
      fun property hproperty before after =>
        alike_remade (ihproperties property hproperty) before after index
    rw [tree, TypeTree.type, propertyTypes_trees]
    refine hproperties.trans ?_
    cases index with
    | none => exact .refl _
    | some type => exact .index _ (ihindex type rfl)
  | record _ _ _ ihkey ihvalue => exact .record ihkey ihvalue
  | named _ => exact .refl _
  | @generic name arguments _ _ ih =>
    have hall := alike_map (Ty.generic name) (fun argument => argument.tree.type)
      fun argument hargument before after => .argument name before after (ih argument hargument)
    rw [tree, TypeTree.type, trees_eq, TypeTree.types_eq, List.map_map]
    exact hall

theorem isLegible_of_isPlain (alphabet : IdentifierAlphabet) {type : Ty} (h : type.IsPlain) :
    type.Everywhere (IsLegible alphabet) := by
  cases type with
  | primitive primitive => exact .primitive ⟨trivial, trivial, trivial⟩
  | literal value => exact .literal ⟨trivial, trivial, h⟩
  | _ => cases h

theorem tree_type (joint : Joint) (members : List Ty) :
    (joint.type members).tree = TypeTree.join joint (members.map tree) := by
  rw [← trees_eq]
  cases joint <;> rfl

/-- **Alike types are read as the same tree.** -/
theorem Alike.tree_eq {type other : Ty} (h : Alike type other) : type.tree = other.tree := by
  induction h with
  | refl => rfl
  | symm _ ih => exact ih.symm
  | trans _ _ ih ihother => exact ih.trans ihother
  | @spelled type other htype hother h =>
    have hread := treeOfText?_text (isLegible_of_isPlain asciiAlphabet htype)
    have hreadOther := treeOfText?_text (isLegible_of_isPlain asciiAlphabet hother)
    rw [h, hreadOther] at hread
    exact (Option.some.inj hread).symm
  | nested joint before members after =>
    rw [tree_type, tree_type, TypeTree.join, TypeTree.join]
    simp only [List.map_append, List.map_cons, List.flatMap_append, List.flatMap_cons, tree_type]
    rw [TypeTree.parts_join (forall_isFlat members), List.append_assoc]
  | single joint type =>
    rw [tree_type, TypeTree.join, List.map_singleton, List.flatMap_singleton]
    exact type.isFlat_tree.joined_parts joint
  | described => simp only [tree, Property.trees_eq, List.map_append, List.map_cons, Property.tree]
  | array _ ih => rw [tree, tree, ih]
  | member joint before after _ ih => rw [tree_type, tree_type, List.map_append, List.map_append,
      List.map_cons, List.map_cons, ih]
  | property before after index name optional description _ ih =>
    simp only [tree, Property.trees_eq, List.map_append, List.map_cons, Property.tree, ih]
  | index properties _ ih => simp only [tree, tree?, ih]
  | record _ _ ihkey ihvalue => rw [tree, tree, ihkey, ihvalue]
  | argument name before after _ ih =>
    simp only [tree, trees_eq, List.map_append, List.map_cons, ih]

/-- **Types are read as the same tree exactly if they are alike.** -/
theorem tree_eq_iff_alike {type other : Ty} (htype : type.Everywhere (IsSpelled alphabet))
    (hother : other.Everywhere (IsSpelled alphabet)) :
    type.tree = other.tree ↔ type.Alike other := by
  refine ⟨fun htree => ?_, Alike.tree_eq⟩
  have halike := alike_type_tree hother
  rw [← htree] at halike
  exact (alike_type_tree htype).trans halike.symm

/-! ## Types of shapes -/

theorem everywhere_withBottom {type : Ty} (h : type.Everywhere HasMembers) (bottom : Primitive) :
    (type.withBottom bottom).Everywhere HasMembers := by
  have hbottom : (Ty.primitive bottom).Everywhere HasMembers := .primitive trivial
  rw [Ty.withBottom.eq_def]
  split
  next members =>
    split
    · exact h
    · cases h with
      | union _ hmembers =>
        have hne : members ++ [.primitive bottom] ≠ [] := by simp
        have hall := List.forall_mem_append.mpr ⟨hmembers, List.forall_mem_singleton.mpr hbottom⟩
        exact .union hne hall
  next =>
    split
    · exact h
    · exact .union (List.cons_ne_nil _ _)
        (List.forall_mem_cons.mpr ⟨h, List.forall_mem_singleton.mpr hbottom⟩)

theorem everywhere_combine {wrap : List Ty → Ty} {types : List Ty}
    (hwrap : types ≠ [] → (wrap types).Everywhere HasMembers)
    (h : ∀ type ∈ types, type.Everywhere HasMembers) :
    (combine wrap types).Everywhere HasMembers := by
  match types with
  | [] => exact .primitive trivial
  | [type] => exact h type (List.mem_singleton_self type)
  | first :: second :: rest => exact hwrap (List.cons_ne_nil _ _)

theorem everywhere_dictionary {value : Ty} (h : value.Everywhere HasMembers) :
    (dictionary value).Everywhere HasMembers :=
  .record trivial (.primitive trivial) h

end Ty

end TypeScript

open TypeScript

namespace Shape

variable {scope : Scope} {final : Progress}

theorem hasMembers_of_dictionaryWrittenAs {additional : AdditionalValues} {type : Ty}
    (h : DictionaryWrittenAs scope final additional type)
    (hvalues : ∀ values, additional = .typed values → ∀ type, WrittenAs scope final values type →
      type.Everywhere Ty.HasMembers) : type.Everywhere Ty.HasMembers := by
  cases h with
  | typed htype => exact Ty.everywhere_dictionary (hvalues _ rfl _ htype)
  | _ => exact Ty.everywhere_dictionary (.primitive trivial)

theorem hasMembers_of_recordWrittenAs {properties : List Property} {additional : AdditionalValues}
    {type : Ty} (h : RecordWrittenAs scope final properties additional type)
    (hproperties : ∀ property ∈ properties, property.type.Everywhere Ty.HasMembers)
    (hvalues : ∀ values, additional = .typed values → ∀ type, WrittenAs scope final values type →
      type.Everywhere Ty.HasMembers) : type.Everywhere Ty.HasMembers := by
  have hplain : (Ty.object properties none).Everywhere Ty.HasMembers :=
    .object trivial hproperties fun _ heq => nomatch heq
  cases h with
  | unspecified => exact hplain
  | forbidden => exact hplain
  | unrestricted =>
    refine .object trivial hproperties fun type heq => ?_
    cases heq
    exact .primitive trivial
  | typed _ htype =>
    have hdictionary := Ty.everywhere_dictionary (hvalues _ rfl _ htype)
    exact .intersection (List.cons_ne_nil _ _)
      (List.forall_mem_cons.mpr ⟨hplain, List.forall_mem_singleton.mpr hdictionary⟩)

theorem hasMembers_of_coreWrittenAs {shape : Shape}
    (h : ∀ core, CoreWrittenAs scope final shape.kind core → core.Everywhere Ty.HasMembers) :
    ∀ type, WrittenAs scope final shape type → type.Everywhere Ty.HasMembers := by
  intro type hwritten
  obtain ⟨core, hcore, rfl⟩ := hwritten.cases
  rw [Ty.nullableIf]
  split
  · exact Ty.everywhere_withBottom (h core hcore) _
  · exact h core hcore

/-- **No shape is written with a union or an intersection without members.** -/
theorem hasMembers_of_writtenAs (shape : Shape) : ∀ type, WrittenAs scope final shape type →
    type.Everywhere Ty.HasMembers := by
  induction shape using Shape.induct with
  | primitive primitive =>
    refine hasMembers_of_coreWrittenAs fun core h => ?_
    cases h
    cases primitive with
    | string =>
      rw [PrimitiveType.type]
      split <;> exact .primitive trivial
    | _ => exact .primitive trivial
  | array items _ _ ih =>
    refine hasMembers_of_coreWrittenAs fun core h => ?_
    cases h with
    | array hitem => exact .array trivial (ih _ hitem)
  | object entries required additional _ _ ihentries ihvalues =>
    refine hasMembers_of_coreWrittenAs fun core h => ?_
    cases h with
    | dictionary htype => exact hasMembers_of_dictionaryWrittenAs htype ihvalues
    | object _ hproperties htype =>
      refine hasMembers_of_recordWrittenAs htype (fun property hmem => ?_) ihvalues
      obtain ⟨entry, hentry, hproperty⟩ := exists_of_forall₂_right hproperties hmem
      cases hproperty with
      | bound => exact .literal trivial
      | free _ htype => exact ihentries entry hentry _ htype
  | reference =>
    refine hasMembers_of_coreWrittenAs fun core h => ?_
    cases h
    exact .named trivial
  | enumeration values =>
    refine hasMembers_of_coreWrittenAs fun core h => ?_
    cases h with
    | hoisted => exact .named trivial
    | literals =>
      have hliterals : ∀ type ∈ values.map fun value => Ty.literal value.literal,
          type.Everywhere Ty.HasMembers := by
        intro type hmem
        obtain ⟨value, -, rfl⟩ := List.mem_map.mp hmem
        exact .literal trivial
      exact Ty.everywhere_combine (fun hne => .union hne hliterals) hliterals
  | composition kind members discriminator _ _ ih =>
    refine hasMembers_of_coreWrittenAs fun core h => ?_
    cases h with
    | @composition _ _ _ types htypes =>
      have hmembers : ∀ type ∈ types, type.Everywhere Ty.HasMembers := by
        intro type hmem
        obtain ⟨member, hmember, htype⟩ := exists_of_forall₂_right htypes hmem
        exact ih member hmember type htype
      refine Ty.everywhere_combine (fun hne => ?_) hmembers
      split
      · exact .intersection hne hmembers
      · exact .union hne hmembers
  | constant =>
    refine hasMembers_of_coreWrittenAs fun core h => ?_
    cases h
    exact .literal trivial
  | unknown =>
    refine hasMembers_of_coreWrittenAs fun core h => ?_
    cases h
    exact .primitive trivial
  | unclassified =>
    refine hasMembers_of_coreWrittenAs fun core h => ?_
    cases h
    exact .primitive trivial

end Shape

/-! ## Texts -/

/-- **A type is told by its text.**  Where names are those of declared types and numbers are finite,
the text of a type that has a member in every union and intersection is read as the tree of the type;
types have the same tree exactly if they are alike, so those with the same text are.  The types of
shapes have these members. -/
theorem TypeScript.Ty.text_unambiguous (alphabet : IdentifierAlphabet) {type other : Ty}
    (htype : type.Everywhere (Ty.IsLegible alphabet))
    (hother : other.Everywhere (Ty.IsLegible alphabet)) :
    TypeTree.ofText? alphabet type.text = some type.tree ∧
      (type.tree = other.tree ↔ type.Alike other) ∧
      (type.text = other.text → type.Alike other) ∧
      ∀ shape parent property scope before after written,
        Shape.type parent property shape scope before = (.ok written, after) →
          written.Everywhere Ty.HasMembers := by
  have hread := Ty.treeOfText?_text htype
  have htree := Ty.tree_eq_iff_alike (htype.mono fun _ => Ty.IsLegible.spelled)
    (hother.mono fun _ => Ty.IsLegible.spelled)
  refine ⟨hread, htree, fun htext => htree.mp ?_, ?_⟩
  · rw [htext, Ty.treeOfText?_text hother] at hread
    exact (Option.some.inj hread).symm
  · intro shape parent property scope before after written h
    exact Shape.hasMembers_of_writtenAs shape written
      ⟨parent, property, before, after, h, le_refl after⟩

/-- Pets that may be missing, with a property of a difficult name, or plants. -/
def petsOrPlants : Ty :=
  .union [.intersection [.array (.union [.named "Pet", .literal .null]),
      .object [⟨"a | b", .literal (.string "it's; so"), true, some "A choice."⟩] none],
    .union [.named "Plant"]]

/-- The same with the unions grouped in another way. -/
def petsOrPlantsRegrouped : Ty :=
  .union [.union [.intersection [.array (.union [.union [.named "Pet"], .primitive .null]),
      .object [⟨"a | b", .literal (.string "it's; so"), true, none⟩] none]], .named "Plant"]

/-- Types that are written alike. -/
theorem TypeScript.Ty.text_unambiguous_petsOrPlants :
    petsOrPlants.Everywhere (Ty.IsLegible asciiAlphabet) ∧
      petsOrPlantsRegrouped.Everywhere (Ty.IsLegible asciiAlphabet) ∧
      petsOrPlants.text = "(Pet | null)[] & \x7b 'a | b'?: 'it\\'s; so' \x7d | Plant" ∧
      petsOrPlants.text = petsOrPlantsRegrouped.text ∧
      TypeTree.ofText? asciiAlphabet petsOrPlants.text = some petsOrPlants.tree ∧
      petsOrPlants.Alike petsOrPlantsRegrouped := by
  have hnamed : ∀ name, asciiAlphabet.Accepts name ∧ TypeTree.isTypeName name = true →
      (Ty.named name).Everywhere (Ty.IsLegible asciiAlphabet) :=
    fun _ hname => .named ⟨trivial, hname.2, hname.1⟩
  have hpet := hnamed "Pet"
    ⟨⟨⟨'P', rfl, rfl⟩, List.forall_iff_forall_mem.mp (by decide), by decide⟩, by decide⟩
  have hplant := hnamed "Plant"
    ⟨⟨⟨'P', rfl, rfl⟩, List.forall_iff_forall_mem.mp (by decide), by decide⟩, by decide⟩
  have hprimitive : (Ty.primitive .null).Everywhere (Ty.IsLegible asciiAlphabet) :=
    .primitive ⟨trivial, trivial, trivial⟩
  have hliteral : (Ty.literal .null).Everywhere (Ty.IsLegible asciiAlphabet) :=
    .literal ⟨trivial, trivial, trivial⟩
  have hunion : ∀ first rest,
      (∀ member ∈ first :: rest, member.Everywhere (Ty.IsLegible asciiAlphabet)) →
      (Ty.union (first :: rest)).Everywhere (Ty.IsLegible asciiAlphabet) :=
    fun first rest => .union ⟨List.cons_ne_nil first rest, trivial, trivial⟩
  have hpets : ∀ item description, item.Everywhere (Ty.IsLegible asciiAlphabet) →
      (Ty.intersection [.array item,
        .object [⟨"a | b", .literal (.string "it's; so"), true, description⟩] none]).Everywhere
          (Ty.IsLegible asciiAlphabet) := by
    intro item description hitem
    have hchoice : (Ty.literal (.string "it's; so")).Everywhere (Ty.IsLegible asciiAlphabet) :=
      .literal ⟨trivial, trivial, trivial⟩
    refine .intersection ⟨List.cons_ne_nil _ _, trivial, trivial⟩ ?_
    simp only [List.forall_mem_cons]
    exact ⟨.array ⟨trivial, trivial, trivial⟩ hitem,
      .object ⟨trivial, trivial, trivial⟩ (List.forall_mem_singleton.mpr hchoice) nofun, nofun⟩
  have hleft : petsOrPlants.Everywhere (Ty.IsLegible asciiAlphabet) := by
    have hitem := hunion (.named "Pet") [.literal .null] (by simp [hpet, hliteral])
    have hplants := hunion (.named "Plant") [] (by simp [hplant])
    exact hunion _ _ (by simp [hpets _ (some "A choice.") hitem, hplants])
  have hright : petsOrPlantsRegrouped.Everywhere (Ty.IsLegible asciiAlphabet) := by
    have hpetAlone := hunion (.named "Pet") [] (by simp [hpet])
    have hitem := hunion (.union [.named "Pet"]) [.primitive .null]
      (by simp [hpetAlone, hprimitive])
    have hpetsAlone := hunion _ [] (List.forall_mem_singleton.mpr (hpets _ none hitem))
    exact hunion _ _ (by simp [hpetsAlone, hplant])
  obtain ⟨hread, -, halike, -⟩ := Ty.text_unambiguous asciiAlphabet hleft hright
  exact ⟨hleft, hright, by decide, by decide, hread, halike (by decide)⟩

end ApiScribe
