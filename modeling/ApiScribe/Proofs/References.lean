import ApiScribe.Proofs.Layout
import ApiScribe.Proofs.Mentions

/-!
# No dangling references

Every name that a generated type mentions is declared.

A name gets into a type in two ways: a reference leads to it, or an enumeration was hoisted under it
(`Scope.Declares`).  `Shape.closed_of_writtenAs` shows by induction on the shape that there is no
third, and `closed_of_declaredAs` carries this to declarations, whose bases are references too.
Signatures are made of types of shapes, so the same holds for clients.

A reference that is used as a type is followed in the value of the document, while declarations come
from the named shapes; `Document.WasRead.exists_namedShape` is what closes the gap
(`Output.Run.mem_names_of_declares`).
-/

namespace ApiScribe

open TypeScript

/-- The names that a session which ends in `final` may mention: those that pointers lead to, and
those of hoisted enumerations. -/
def Scope.Declares (scope : Scope) (final : Progress) (name : String) : Prop :=
  (∃ pointer, Pointer.shapeName scope.root pointer = .ok name) ∨
    name ∈ final.inlineEnums.map InlineEnum.name

namespace Shape

variable {scope : Scope} {final : Progress}

/-! ## Types of shapes -/

/-- Properties mention what the shapes that they are written from mention. -/
theorem closed_of_propertiesWrittenAs {binding : Option Binding} {required : List String}
    {entries : List (String × Shape)} {properties : List Property}
    (h : List.Forall₂ (PropertyWrittenAs scope final binding required) entries properties)
    (hentries : ∀ entry ∈ entries, ∀ type, WrittenAs scope final entry.2 type →
      type.Closed (scope.Declares final)) :
    ∀ property ∈ properties, property.type.Closed (scope.Declares final) := by
  intro property hmem
  obtain ⟨entry, hentry, hproperty⟩ := exists_of_forall₂_right h hmem
  cases hproperty with
  | bound => exact Ty.closed_literal _
  | free _ htype => exact hentries entry hentry _ htype

theorem closed_of_recordWrittenAs {properties : List Property} {additional : AdditionalValues}
    {type : Ty} (h : RecordWrittenAs scope final properties additional type)
    (hproperties : ∀ property ∈ properties, property.type.Closed (scope.Declares final))
    (hvalues : ∀ values, additional = .typed values → ∀ type, WrittenAs scope final values type →
      type.Closed (scope.Declares final)) : type.Closed (scope.Declares final) := by
  have hplain : Ty.Closed (scope.Declares final) (.object properties none) :=
    Ty.Closed.object hproperties fun _ heq => nomatch heq
  cases h with
  | unspecified => exact hplain
  | forbidden => exact hplain
  | unrestricted =>
    refine Ty.Closed.object hproperties ?_
    intro type heq
    cases heq
    exact Ty.closed_primitive _
  | typed _ htype =>
    apply Ty.Closed.intersection
    intro type hmem
    rcases List.mem_pair.mp hmem with rfl | rfl
    · exact hplain
    · exact (hvalues _ rfl _ htype).dictionary

theorem closed_openIndex {additional : AdditionalValues} {type : Ty}
    (h : openIndex additional = some type) : type.Closed (scope.Declares final) := by
  cases additional <;> cases h
  exact Ty.closed_primitive _

/-- The bottom of a nullable shape mentions nothing, so only the kind matters. -/
theorem closed_of_coreWrittenAs {shape : Shape}
    (h : ∀ core, CoreWrittenAs scope final shape.kind core → core.Closed (scope.Declares final)) :
    ∀ type, WrittenAs scope final shape type → type.Closed (scope.Declares final) := by
  intro type hwritten
  obtain ⟨core, hcore, rfl⟩ := hwritten.cases
  exact (h core hcore).nullableIf _ _

/-- **Only references and hoisted enumerations bring names into a type.** -/
theorem closed_of_writtenAs (shape : Shape) : ∀ type, WrittenAs scope final shape type →
    type.Closed (scope.Declares final) := by
  induction shape using Shape.induct with
  | primitive primitive format nullable description =>
    apply closed_of_coreWrittenAs
    intro core h
    cases h
    cases primitive with
    | string =>
      rw [PrimitiveType.type]
      split <;> exact Ty.closed_primitive _
    | _ => exact Ty.closed_primitive _
  | array items nullable description ih =>
    apply closed_of_coreWrittenAs
    intro core h
    cases h with
    | array hitem => exact (ih _ hitem).array
  | object entries required additional nullable description ihentries ihvalues =>
    apply closed_of_coreWrittenAs
    intro core h
    cases h with
    | dictionary htype =>
      cases htype with
      | typed htype => exact (ihvalues _ rfl _ htype).dictionary
      | _ => exact (Ty.closed_primitive _).dictionary
    | object _ hproperties htype =>
      exact closed_of_recordWrittenAs htype
        (closed_of_propertiesWrittenAs hproperties ihentries) ihvalues
  | reference pointer nullable description =>
    apply closed_of_coreWrittenAs
    intro core h
    cases h with
    | reference hname => exact Ty.closed_named (Or.inl ⟨pointer, hname⟩)
  | enumeration values nullable description =>
    apply closed_of_coreWrittenAs
    intro core h
    cases h with
    | hoisted hmem _ => exact Ty.closed_named (Or.inr (List.mem_map_of_mem hmem))
    | literals =>
      have hliterals : ∀ type ∈ values.map fun value => Ty.literal value.literal,
          type.Closed (scope.Declares final) := by
        intro type hmem
        obtain ⟨value, -, rfl⟩ := List.mem_map.mp hmem
        exact Ty.closed_literal _
      exact Ty.Closed.combine (Ty.Closed.union hliterals) hliterals
  | composition kind members discriminator nullable description ih =>
    apply closed_of_coreWrittenAs
    intro core h
    cases h with
    | @composition _ _ _ types htypes =>
      have hclosed : ∀ type ∈ types, type.Closed (scope.Declares final) := by
        intro type hmem
        obtain ⟨member, hmember, htype⟩ := exists_of_forall₂_right htypes hmem
        exact ih member hmember type htype
      refine Ty.Closed.combine ?_ hclosed
      split
      · exact Ty.Closed.intersection hclosed
      · exact Ty.Closed.union hclosed
  | constant value nullable description =>
    apply closed_of_coreWrittenAs
    intro core h
    cases h
    exact Ty.closed_literal _
  | unknown nullable description =>
    apply closed_of_coreWrittenAs
    intro core h
    cases h
    exact Ty.closed_primitive _
  | unclassified typeName nullable description =>
    apply closed_of_coreWrittenAs
    intro core h
    cases h
    exact Ty.closed_primitive _

/-! ## Declarations of shapes -/

theorem closed_of_memberWrittenAs {name : String} {member : Shape} {type : Ty}
    (h : MemberWrittenAs scope final name member type) : type.Closed (scope.Declares final) := by
  cases h with
  | own _ hproperties htype =>
    refine Ty.Closed.nullableIf ?_ _ _
    exact closed_of_recordWrittenAs htype
      (closed_of_propertiesWrittenAs hproperties fun entry _ => closed_of_writtenAs entry.2)
      fun values _ => closed_of_writtenAs values
  | other _ htype => exact closed_of_writtenAs member _ htype

theorem closed_of_bodyWrittenAs {name : String} {extra : Option Shape} {body : InterfaceBody}
    (h : BodyWrittenAs scope final name extra body) :
    (∀ property ∈ body.properties, property.type.Closed (scope.Declares final)) ∧
      ∀ type, body.index = some type → type.Closed (scope.Declares final) := by
  cases h with
  | none => exact ⟨fun _ hmem => absurd hmem List.not_mem_nil, fun _ heq => nomatch heq⟩
  | unknown => exact ⟨fun _ hmem => absurd hmem List.not_mem_nil, fun _ heq => nomatch heq⟩
  | object _ hproperties =>
    exact ⟨closed_of_propertiesWrittenAs hproperties fun entry _ => closed_of_writtenAs entry.2,
      fun type heq => closed_openIndex heq⟩

theorem closed_intersect {types : List Ty}
    (h : ∀ type ∈ types, Ty.Closed (scope.Declares final) type) :
    (intersect types).Closed (scope.Declares final) := by
  rw [intersect.eq_def]
  split
  · exact Ty.closed_primitive _
  · exact h _ (List.mem_singleton_self _)
  · exact Ty.Closed.intersection h

/-- The property that a binding puts in front of a body is a literal. -/
theorem closed_withBoundProperty {style : PropertyNameStyle} {binding : Option Binding}
    {body : InterfaceBody}
    (h : ∀ property ∈ body.properties, property.type.Closed (scope.Declares final)) :
    ∀ property ∈ withBoundProperty style binding body,
      property.type.Closed (scope.Declares final) := by
  cases binding with
  | none => exact h
  | some binding =>
    rw [withBoundProperty]
    split
    · exact h
    · exact List.forall_mem_cons.mpr ⟨Ty.closed_literal _, h⟩

theorem declares_of_interface {bases : List String} {properties : List Property}
    {index : Option Ty} (hbases : ∀ base ∈ bases, scope.Declares final base)
    (hproperties : ∀ property ∈ properties, property.type.Closed (scope.Declares final))
    (hindex : ∀ type, index = some type → type.Closed (scope.Declares final)) {mentioned : String}
    (h : DeclarationKind.Mentions mentioned (.interface bases properties index)) :
    scope.Declares final mentioned := by
  cases h with
  | base hbase => exact hbases _ hbase
  | property hmem hproperty => exact hproperties _ hmem _ hproperty
  | index heq htype => exact hindex _ heq _ htype

/-- **A declaration mentions only names that pointers lead to and names of hoisted enumerations**,
in its types and among its bases. -/
theorem declares_of_declaredAs {name : String} {shape : Shape} {kind : DeclarationKind}
    (h : DeclaredAs scope final name shape kind) {mentioned : String}
    (hmentions : kind.Mentions mentioned) : scope.Declares final mentioned := by
  cases h with
  | enumeration => cases hmentions
  | interface _ _ hproperties =>
    exact declares_of_interface (fun _ hmem => absurd hmem List.not_mem_nil)
      (closed_of_propertiesWrittenAs hproperties fun entry _ => closed_of_writtenAs entry.2)
      (fun _ => closed_openIndex) hmentions
  | record _ _ hproperties htype =>
    cases hmentions with
    | aliased hmentions =>
      have hrecord := closed_of_recordWrittenAs htype
        (closed_of_propertiesWrittenAs hproperties fun entry _ => closed_of_writtenAs entry.2)
        fun values _ => closed_of_writtenAs values
      exact hrecord.nullableIf _ _ _ hmentions
  | @extension _ _ _ pointer base _ _ _ _ _ hbase _ _ hbody =>
    obtain ⟨hproperties, hindex⟩ := closed_of_bodyWrittenAs hbody
    have hbases : ∀ other ∈ [base], scope.Declares final other := by
      intro other hmem
      rw [List.mem_singleton.mp hmem]
      exact Or.inl ⟨pointer, hbase⟩
    exact declares_of_interface hbases (closed_withBoundProperty hproperties) hindex hmentions
  | @intersection _ _ _ _ types htypes =>
    cases hmentions with
    | aliased hmentions =>
      have htype : ∀ type ∈ types, type.Closed (scope.Declares final) := by
        intro type hmem
        obtain ⟨member, -, hwritten⟩ := exists_of_forall₂_right htypes hmem
        exact closed_of_memberWrittenAs hwritten
      exact (closed_intersect htype).nullableIf _ _ _ hmentions
  | plain _ htype =>
    cases hmentions with
    | aliased hmentions => exact closed_of_writtenAs shape _ htype _ hmentions

end Shape

/-! ## Signatures of methods -/

namespace Client

variable {scope : Scope} {final : Progress}

/-- The signature of the method mentions the name. -/
def Mentions (name : String) (function : Function) : Prop :=
  (∃ parameter ∈ function.parameters, parameter.type.Mentions name) ∨
    ∃ type, function.result = some type ∧ type.Mentions name

theorem mem_signatureNames {name : String} {function : Function} :
    name ∈ signatureNames function ↔ Mentions name function := by
  rw [signatureNames, List.mem_append, List.mem_flatMap, Mentions]
  refine or_congr ?_ ?_
  · exact exists_congr fun parameter => and_congr_right fun _ => Ty.mem_names_iff
  · cases function.result with
    | none => exact ⟨fun h => absurd h List.not_mem_nil, fun ⟨_, heq, _⟩ => nomatch heq⟩
    | some type =>
      refine ⟨fun h => ⟨type, rfl, Ty.mem_names_iff.mp h⟩, ?_⟩
      rintro ⟨_, heq, h⟩
      cases heq
      exact Ty.mem_names_iff.mpr h

theorem closed_of_parameterType {type : Ty} (h : ParameterType scope final type) :
    type.Closed (scope.Declares final) := by
  induction h with
  | written htype => exact Shape.closed_of_writtenAs _ _ htype
  | text => exact Ty.closed_primitive _
  | query hproperties =>
    refine Ty.Closed.object ?_ fun _ heq => nomatch heq
    intro property hmem
    obtain ⟨shape, htype⟩ := hproperties property hmem
    exact Shape.closed_of_writtenAs shape _ htype
  | required _ ih => exact ih.withBottom _

/-- A signature mentions only names that pointers lead to and names of hoisted enumerations. -/
theorem declares_of_mentions {operation : Operation} {function : Function}
    (h : MethodOf scope final operation function) {name : String}
    (hmentions : Mentions name function) : scope.Declares final name := by
  rcases hmentions with ⟨parameter, hmem, hmentions⟩ | ⟨type, htype, hmentions⟩
  · exact closed_of_parameterType (h.parameters parameter hmem) name hmentions
  · obtain ⟨response, hresult, hresponse⟩ := h.result
    obtain rfl := Option.some.inj (htype.symm.trans hresult)
    cases hmentions with
    | argument hmem hmentions =>
      rw [List.mem_singleton.mp hmem] at hmentions
      rcases hresponse with rfl | ⟨shape, hwritten⟩
      · cases hmentions
      · exact Shape.closed_of_writtenAs shape _ hwritten name hmentions

/-- The imports of a client are the names that the signatures of its methods mention. -/
theorem IsRun.mem_imports {client : Client} {functions : List Function}
    (h : client.IsRun scope final functions) {name : String} :
    name ∈ client.imports ↔ ∃ function ∈ functions, Mentions name function := by
  rw [h.imports, mem_sortedNames, List.mem_flatMap]
  exact exists_congr fun function => and_congr_right fun _ => mem_signatureNames

/-- Whatever a client imports, a pointer leads to it or an enumeration was hoisted under it. -/
theorem IsRun.declares_of_mem_imports {client : Client} {functions : List Function}
    (h : client.IsRun scope final functions) {name : String} (hmem : name ∈ client.imports) :
    scope.Declares final name := by
  obtain ⟨function, hfunction, hmentions⟩ := h.mem_imports.mp hmem
  obtain ⟨operation, -, hmethod⟩ := exists_of_forall₂_right h.methodsOf hfunction
  exact declares_of_mentions hmethod hmentions

end Client

/-! ## A whole generation -/

namespace Output

variable {format : Notation} {text : String} {document : Document} {settings : Settings}
  {output : Output}

/-- The names that a run may mention are the names of its declarations. -/
theorem Run.mem_names_of_declares (run : Run document settings output)
    (hdocument : document.WasRead) {name : String} (h : run.scope.Declares run.finished name) :
    name ∈ run.declarations.map Declaration.name := by
  obtain ⟨blocks, hblocks⟩ := run.exists_laidOut
  refine hblocks.names_perm.mem_iff.mpr ?_
  rcases h with ⟨pointer, hpointer⟩ | hinline
  · rw [run.root_eq] at hpointer
    obtain ⟨shape, hshape, -⟩ := hdocument.exists_namedShape hpointer
    exact List.mem_append_right _ (List.mem_map.mpr ⟨⟨name, shape⟩, hshape, rfl⟩)
  · exact List.mem_append_left _ hinline

/-- What a declaration of a run mentions, the run declares. -/
theorem Run.mem_names_of_mentions (run : Run document settings output)
    (hdocument : document.WasRead) {declaration : Declaration}
    (hdeclaration : declaration ∈ run.declarations) {name : String}
    (hmentions : declaration.kind.Mentions name) :
    name ∈ run.declarations.map Declaration.name := by
  obtain ⟨blocks, hblocks⟩ := run.exists_laidOut
  rw [hblocks.declarations] at hdeclaration
  obtain ⟨block, hblock, hmem⟩ := List.mem_flatMap.mp hdeclaration
  rcases List.mem_append.mp hmem with hmem | hmem
  · obtain ⟨inline, -, rfl⟩ := List.mem_map.mp hmem
    cases hmentions
  · rw [List.mem_singleton.mp hmem] at hmentions
    exact run.mem_names_of_declares hdocument
      (Shape.declares_of_declaredAs (hblocks.isRun block hblock).declaredAs hmentions)

/-- **References are closed.**  Every name that a declaration mentions is declared, by a named
shape or by an enumeration that was hoisted before the clients were written; and every client
imports, in strictly ascending order, just the names that the signatures of its methods mention,
all of which are declared. -/
theorem generate_references (hread : Document.readAs format text = .ok document)
    (h : generate document settings = .ok output) :
    ∃ run : Run document settings output,
      output.files.get? typesFile = some { types := run.declarations : Module }.text ∧
      (∀ declaration ∈ run.declarations, ∀ name, declaration.kind.Mentions name →
        name ∈ run.declarations.map Declaration.name) ∧
      (∀ name ∈ run.declarations.map Declaration.name,
        name ∈ document.namedShapes.map NamedShape.name ∨
          name ∈ run.declared.inlineEnums.map InlineEnum.name) ∧
      run.finished.inlineEnums = run.declared.inlineEnums ∧
      ∀ client ∈ output.clients, ∃ functions, client.IsRun run.scope run.finished functions ∧
        client.imports.Pairwise (· < ·) ∧ client.imports.Nodup ∧
        (∀ name, name ∈ client.imports ↔ ∃ function ∈ functions, Client.Mentions name function) ∧
        ∀ name ∈ client.imports, name ∈ run.declarations.map Declaration.name := by
  obtain ⟨run⟩ := exists_run h
  have hdocument := Document.wasRead_of_readAs hread
  refine ⟨run, run.get?_typesFile, ?_, ?_, run.inlineEnums_eq, ?_⟩
  · intro declaration hmem name hmentions
    exact run.mem_names_of_mentions hdocument hmem hmentions
  · intro name hname
    obtain ⟨blocks, hblocks⟩ := run.exists_laidOut
    rw [← run.inlineEnums_eq]
    exact (List.mem_append.mp (hblocks.names_perm.mem_iff.mp hname)).symm
  · intro client hclient
    obtain ⟨functions, hrun⟩ := run.isRun_client client hclient
    have hsorted : client.imports.Pairwise (· < ·) := by
      rw [hrun.imports]
      exact pairwise_sortedNames _
    exact ⟨functions, hrun, hsorted, hsorted.imp ne_of_lt, fun name => hrun.mem_imports,
      fun name hmem => run.mem_names_of_declares hdocument (hrun.declares_of_mem_imports hmem)⟩

/-- A document in which an operation answers with a shape that has an enumeration. -/
def answerWithStatus : String :=
  String.intercalate "\n"
    ["openapi: 3.0.0",
      "paths:",
      " /me:",
      "  get:",
      "   responses:",
      "    200:",
      "     content:",
      "      application/json:",
      "       schema:",
      "        $ref: '#/components/schemas/User'",
      "components:",
      " schemas:",
      "  User:",
      "   properties:",
      "    status:",
      "     enum: [busy]"]

theorem generate_references_answerWithStatus :
    ∃ document output, Document.readAs .yaml answerWithStatus = .ok document ∧
      generate document {} = .ok output ∧
      ∃ run : Run document {} output,
        (∀ declaration ∈ run.declarations, ∀ name, declaration.kind.Mentions name →
          name ∈ run.declarations.map Declaration.name) ∧
        run.finished.inlineEnums = run.declared.inlineEnums ∧
        ∃ client ∈ output.clients, client.imports = ["User"] ∧
          "User" ∈ run.declarations.map Declaration.name ∧
          ∃ functions, client.IsRun run.scope run.finished functions ∧
            ∀ name, name ∈ ["User"] ↔ ∃ function ∈ functions, Client.Mentions name function := by
  have hyields : yields .yaml answerWithStatus {} (fun _ output =>
      output.clients.any fun client => client.imports = ["User"]) = true := by
    decide +kernel
  obtain ⟨document, output, hread, h, hcheck⟩ := exists_of_yields hyields
  obtain ⟨client, hclient, himports⟩ := List.any_eq_true.mp hcheck
  rw [decide_eq_true_eq] at himports
  obtain ⟨run, -, hclosed, -, hhoisted, hclients⟩ := generate_references hread h
  obtain ⟨functions, hrun, -, -, hmentions, hdeclared⟩ := hclients client hclient
  rw [himports] at hmentions hdeclared
  exact ⟨document, output, hread, h, run, hclosed, hhoisted, client, hclient, himports,
    hdeclared "User" (List.mem_singleton_self _), functions, hrun, hmentions⟩

end Output

end ApiScribe
