import ApiScribe.Client.Basic
import ApiScribe.Proofs.FreshNames
import ApiScribe.Proofs.TypeOfShape

/-!
# Runs that write clients

What is known of a client once it is written.

* Writing clients keeps every stable relation that handing out class names keeps
  (`ofOperations_keeps`).  No declaration is around the shapes in a signature, so nothing is hoisted
  there, whatever their depth.
* `ParameterType` lists the types that parameters have.  `Signature.Typed` says that all parameters
  so far have such a type; each step that adds a parameter keeps it.
* `IsRun` is what remains of the run of a client: the methods that it was written from, and the class
  that they are in.
-/

namespace ApiScribe.Client

open TypeScript

/-! ## What writing clients keeps -/

section Keeps

variable {R : Progress → Progress → Prop} {scope : Scope} (hR : Session.Stable R)
include hR

theorem distinctParameters_keeps (seen : List (ParameterLocation × String))
    (parameters : List OperationParameter) :
    Session.Keeps R scope (distinctParameters seen parameters) := by
  induction parameters generalizing seen with
  | nil => exact hR.pure _
  | cons parameter parameters ih =>
    rw [distinctParameters]
    split
    · exact hR.bind (hR.reported _) fun _ => ih seen
    · exact hR.bind (ih _) fun _ => hR.pure _

theorem bindPlaceholder_keeps (declared : List OperationParameter) (signature : Signature)
    (placeholder : String) :
    Session.Keeps R scope (bindPlaceholder declared signature placeholder) := by
  refine hR.bind hR.settings fun _ => ?_
  split
  · split
    · exact hR.pure _
    · exact hR.bind (Shape.type_keeps hR _ none Shape.HoistKeeps.none) fun _ => hR.pure _
  · exact hR.bind (hR.reported _) fun _ => hR.pure _

theorem pathParts_keeps (declared : List OperationParameter) (signature : Signature)
    (segments : List PathSegment) :
    Session.Keeps R scope (pathParts declared signature segments) := by
  induction segments generalizing signature with
  | nil => exact hR.pure _
  | cons segment segments ih =>
    cases segment with
    | text content => exact hR.bind (ih signature) fun _ => hR.pure _
    | placeholder placeholder =>
      exact hR.bind (bindPlaceholder_keeps hR declared signature placeholder) fun _ =>
        hR.bind (ih _) fun _ => hR.pure _

theorem addUnusedPath_keeps (signature : Signature) (parameters : List OperationParameter) :
    Session.Keeps R scope (addUnusedPath signature parameters) := by
  induction parameters generalizing signature with
  | nil => exact hR.pure _
  | cons parameter parameters ih =>
    rw [addUnusedPath]
    split
    · exact ih signature
    · exact hR.bind hR.settings fun _ =>
        hR.bind (Shape.type_keeps hR _ none Shape.HoistKeeps.none) fun _ => ih _

theorem queryProperties_keeps (parameters : List OperationParameter) :
    Session.Keeps R scope (queryProperties parameters) := by
  induction parameters with
  | nil => exact hR.pure _
  | cons parameter parameters ih =>
    exact hR.bind (Shape.type_keeps hR _ none Shape.HoistKeeps.none) fun _ =>
      hR.bind ih fun _ => hR.pure _

theorem addBody_keeps (signature : Signature) (body : Option RequestBody) :
    Session.Keeps R scope (addBody signature body) := by
  cases body with
  | none => exact hR.pure _
  | some body =>
    exact hR.bind (Shape.type_keeps hR _ none Shape.HoistKeeps.none) fun _ => hR.pure _

theorem addQuery_keeps (signature : Signature) (query : List OperationParameter) :
    Session.Keeps R scope (addQuery signature query) := by
  rw [addQuery]
  split
  · exact hR.pure _
  · exact hR.bind (queryProperties_keeps hR query) fun _ => hR.pure _

theorem responseType_keeps (response : Option Shape) :
    Session.Keeps R scope (responseType response) := by
  cases response with
  | none => exact hR.pure _
  | some shape => exact Shape.type_keeps hR shape none Shape.HoistKeeps.none

theorem method_keeps (operation : Operation) : Session.Keeps R scope (method operation) :=
  hR.bind (hR.setSubject _) fun _ =>
    hR.bind (distinctParameters_keeps hR _ _) fun _ =>
      hR.bind (pathParts_keeps hR _ _ _) fun _ =>
        hR.bind (addUnusedPath_keeps hR _ _) fun _ =>
          hR.bind (addBody_keeps hR _ _) fun _ =>
            hR.bind (addQuery_keeps hR _ _) fun _ =>
              hR.bind (responseType_keeps hR _) fun _ => hR.pure _

theorem methods_keeps (operations : List Operation) :
    Session.Keeps R scope (methods operations) := by
  induction operations with
  | nil => exact hR.pure _
  | cons operation operations ih =>
    exact hR.bind (method_keeps hR operation) fun _ => hR.bind ih fun _ => hR.pure _

/-- **Writing a client keeps a stable relation** that handing out class names keeps. -/
theorem ofOperations_keeps
    (hclaim : ∀ progress requested, R progress (Progress.claimClientName progress requested).2)
    (tag : String) (operations : List Operation) :
    Session.Keeps R scope (ofOperations tag operations) :=
  hR.bind (hR.setSubject _) fun _ =>
    hR.bind hR.settings fun settings =>
      hR.bind (fun before => hclaim before (requestedName settings tag)) fun _ =>
        hR.bind (methods_keeps hR _) fun _ => hR.pure _

end Keeps

/-- Handing out a class name takes nothing back. -/
theorem le_claimClientName (progress : Progress) (requested : String) :
    progress ≤ (progress.claimClientName requested).2 := by
  rw [Progress.claimClientName]
  split
  · exact ⟨List.prefix_rfl, List.prefix_append _ _, List.prefix_rfl⟩
  · exact ⟨List.prefix_rfl, List.prefix_append _ _, List.prefix_append _ _⟩

/-- Handing out a class name hoists nothing. -/
theorem inlineEnums_claimClientName (progress : Progress) (requested : String) :
    (progress.claimClientName requested).2.inlineEnums = progress.inlineEnums := by
  rw [Progress.claimClientName]
  split <;> rfl

theorem methods_keeps_le (scope : Scope) (operations : List Operation) :
    Session.Keeps (fun before after => before ≤ after) scope (methods operations) :=
  methods_keeps Progress.stable_le operations

/-! ## The types in signatures -/

/-- The types that the parameters of a method have: that of a shape, that of a placeholder without a
declaration, and that of the whole query.  A parameter that was made required admits `undefined`
besides. -/
inductive ParameterType (scope : Scope) (final : Progress) : Ty → Prop
  | written {shape : Shape} {type : Ty} (htype : shape.WrittenAs scope final type) :
    ParameterType scope final type
  | text : ParameterType scope final (.primitive .string)
  | query {properties : List Property}
    (hproperties : ∀ property ∈ properties, ∃ shape : Shape,
      shape.WrittenAs scope final property.type) :
    ParameterType scope final (.object properties none)
  | required {type : Ty} (htype : ParameterType scope final type) :
    ParameterType scope final (type.withBottom .undefined)

/-- All parameters so far have types of parameters. -/
def Signature.Typed (scope : Scope) (final : Progress) (signature : Signature) : Prop :=
  ∀ parameter ∈ signature.parameters, ParameterType scope final parameter.type

section Typed

variable {scope : Scope} {final before after : Progress} {signature result : Signature}

theorem Signature.typed_empty : Signature.Typed scope final {} :=
  fun _ h => absurd h List.not_mem_nil

theorem Signature.Typed.add (h : signature.Typed scope final) {type : Ty}
    (htype : ParameterType scope final type) (base : String) (optional : Bool) :
    (signature.add base type optional).2.Typed scope final := by
  intro parameter hmem
  rcases List.mem_append.mp hmem with hmem | hmem
  · exact h parameter hmem
  · rw [List.mem_singleton.mp hmem]
    exact htype

/-- A shape that no declaration is around, written before the end. -/
theorem writtenAs_of_type {shape : Shape} {type : Ty} (hle : after ≤ final)
    (h : shape.type none none scope before = (.ok type, after)) :
    shape.WrittenAs scope final type :=
  ⟨none, none, before, after, h, hle⟩

theorem typed_of_bindPlaceholder {declared : List OperationParameter} {placeholder name : String}
    (hle : after ≤ final) (htyped : signature.Typed scope final)
    (h : bindPlaceholder declared signature placeholder scope before =
      (.ok (name, result), after)) : result.Typed scope final := by
  rw [bindPlaceholder, Session.bind_eq_ok] at h
  obtain ⟨settings, _, hsettings, h⟩ := h
  cases hdeclared : declaredFor? declared placeholder with
  | none =>
    rw [hdeclared] at h
    simp only [Session.bind_eq_ok, Session.pure_eq_ok] at h
    obtain ⟨_, _, _, heq, -⟩ := h
    cases heq
    exact htyped.add ParameterType.text _ _
  | some parameter =>
    rw [hdeclared] at h
    cases hbound : signature.bound.get? parameter.name with
    | some bound =>
      simp only [hbound] at h
      obtain ⟨heq, -⟩ := Session.pure_eq_ok.mp h
      cases heq
      exact htyped
    | none =>
      simp only [hbound, Session.bind_eq_ok, Session.pure_eq_ok, Prod.mk.injEq] at h
      obtain ⟨type, _, htype, ⟨-, rfl⟩, rfl⟩ := h
      exact htyped.add (ParameterType.written (writtenAs_of_type hle htype)) _ _

theorem typed_of_pathParts {declared : List OperationParameter} {segments : List PathSegment}
    {parts : List TemplatePart} (hle : after ≤ final) (htyped : signature.Typed scope final)
    (h : pathParts declared signature segments scope before = (.ok (parts, result), after)) :
    result.Typed scope final := by
  induction segments generalizing signature before parts with
  | nil =>
    obtain ⟨heq, -⟩ := Session.pure_eq_ok.mp h
    cases heq
    exact htyped
  | cons segment segments ih =>
    cases segment with
    | text content =>
      simp only [pathParts, Session.bind_eq_ok, Session.pure_eq_ok, Prod.mk.injEq] at h
      obtain ⟨⟨others, rest⟩, _, hothers, ⟨-, rfl⟩, rfl⟩ := h
      exact ih htyped hothers
    | placeholder placeholder =>
      simp only [pathParts, Session.bind_eq_ok, Session.pure_eq_ok, Prod.mk.injEq] at h
      obtain ⟨⟨name, bound⟩, _, hbound, ⟨others, rest⟩, _, hothers, ⟨-, rfl⟩, rfl⟩ := h
      have hrest := (pathParts_keeps Progress.stable_le declared bound segments).of_eq_ok hothers
      exact ih (typed_of_bindPlaceholder (le_trans hrest hle) htyped hbound) hothers

theorem typed_of_addUnusedPath {parameters : List OperationParameter} (hle : after ≤ final)
    (htyped : signature.Typed scope final)
    (h : addUnusedPath signature parameters scope before = (.ok result, after)) :
    result.Typed scope final := by
  induction parameters generalizing signature before with
  | nil =>
    obtain ⟨rfl, -⟩ := Session.pure_eq_ok.mp h
    exact htyped
  | cons parameter parameters ih =>
    rw [addUnusedPath] at h
    split at h
    · exact ih htyped h
    · simp only [Session.bind_eq_ok, Session.settings_eq_ok] at h
      obtain ⟨settings, _, -, type, _, htype, h⟩ := h
      have hrest := (addUnusedPath_keeps Progress.stable_le _ parameters).of_eq_ok h
      exact ih (htyped.add
        (ParameterType.written (writtenAs_of_type (le_trans hrest hle) htype)) _ _) h

theorem typed_of_addBody {body : Option RequestBody} {entries : List (String × Expr)}
    (hle : after ≤ final) (htyped : signature.Typed scope final)
    (h : addBody signature body scope before = (.ok (entries, result), after)) :
    result.Typed scope final := by
  cases body with
  | none =>
    obtain ⟨heq, -⟩ := Session.pure_eq_ok.mp h
    cases heq
    exact htyped
  | some body =>
    simp only [addBody, Session.bind_eq_ok, Session.pure_eq_ok, Prod.mk.injEq] at h
    obtain ⟨type, _, htype, ⟨-, rfl⟩, rfl⟩ := h
    exact htyped.add (ParameterType.written (writtenAs_of_type hle htype)) _ _

theorem writtenAs_of_queryProperties {parameters : List OperationParameter}
    {properties : List Property} (hle : after ≤ final)
    (h : queryProperties parameters scope before = (.ok properties, after)) :
    ∀ property ∈ properties, ∃ shape : Shape, shape.WrittenAs scope final property.type := by
  induction parameters generalizing properties before with
  | nil =>
    obtain ⟨rfl, -⟩ := Session.pure_eq_ok.mp h
    exact fun _ hmem => absurd hmem List.not_mem_nil
  | cons parameter parameters ih =>
    simp only [queryProperties, Session.bind_eq_ok, Session.pure_eq_ok] at h
    obtain ⟨type, _, htype, others, _, hothers, rfl, rfl⟩ := h
    have hrest := (queryProperties_keeps Progress.stable_le parameters).of_eq_ok hothers
    exact List.forall_mem_cons.mpr
      ⟨⟨parameter.shape, writtenAs_of_type (le_trans hrest hle) htype⟩, ih hothers⟩

theorem typed_of_addQuery {query : List OperationParameter} {entries : List (String × Expr)}
    (hle : after ≤ final) (htyped : signature.Typed scope final)
    (h : addQuery signature query scope before = (.ok (entries, result), after)) :
    result.Typed scope final := by
  rw [addQuery] at h
  split at h
  · obtain ⟨heq, -⟩ := Session.pure_eq_ok.mp h
    cases heq
    exact htyped
  · simp only [Session.bind_eq_ok, Session.pure_eq_ok, Prod.mk.injEq] at h
    obtain ⟨properties, _, hproperties, ⟨-, rfl⟩, rfl⟩ := h
    exact htyped.add (ParameterType.query (writtenAs_of_queryProperties hle hproperties)) _ _

theorem typed_requireInFront {parameters : List TypeScript.Parameter}
    (h : ∀ parameter ∈ parameters, ParameterType scope final parameter.type) :
    ∀ parameter ∈ (requireInFront parameters).1, ParameterType scope final parameter.type := by
  induction parameters with
  | nil => exact h
  | cons parameter parameters ih =>
    obtain ⟨hhead, htail⟩ := List.forall_mem_cons.mp h
    rw [requireInFront]
    dsimp only
    split
    · exact List.forall_mem_cons.mpr ⟨hhead, ih htail⟩
    · split
      · exact List.forall_mem_cons.mpr ⟨hhead.required, ih htail⟩
      · exact List.forall_mem_cons.mpr ⟨hhead, ih htail⟩

end Typed

/-! ## Methods -/

/-- The method belongs to the operation: it has its name, parameters of such types, and an answer
that is that of a shape or of nothing. -/
structure MethodOf (scope : Scope) (final : Progress) (operation : Operation)
    (function : Function) : Prop where
  name : function.name = operation.methodName
  parameters : ∀ parameter ∈ function.parameters, ParameterType scope final parameter.type
  result : ∃ response, function.result = some (.generic "Promise" [response]) ∧
    (response = .primitive .void ∨ ∃ shape : Shape, shape.WrittenAs scope final response)

section Methods

variable {scope : Scope} {final before after : Progress}

theorem methodOf_of_method {operation : Operation} {function : Function} (hle : after ≤ final)
    (h : method operation scope before = (.ok function, after)) :
    MethodOf scope final operation function := by
  simp only [method, Session.bind_eq_ok, Session.pure_eq_ok] at h
  obtain ⟨_, _, -, declared, _, -, ⟨parts, placed⟩, p₁, hplaced, unused, p₂, hunused,
    ⟨bodyEntries, withBody⟩, p₃, hbody, ⟨queryEntries, withQuery⟩, p₄, hquery, response, _,
    hresponse, rfl, rfl⟩ := h
  have h₄ := le_trans ((responseType_keeps Progress.stable_le _).of_eq_ok hresponse) hle
  have h₃ := le_trans ((addQuery_keeps Progress.stable_le _ _).of_eq_ok hquery) h₄
  have h₂ := le_trans ((addBody_keeps Progress.stable_le _ _).of_eq_ok hbody) h₃
  have h₁ := le_trans ((addUnusedPath_keeps Progress.stable_le _ _).of_eq_ok hunused) h₂
  have htyped := typed_of_addQuery h₄
    (typed_of_addBody h₃
      (typed_of_addUnusedPath h₂ (typed_of_pathParts h₁ Signature.typed_empty hplaced) hunused)
      hbody) hquery
  refine ⟨rfl, typed_requireInFront htyped, response, rfl, ?_⟩
  cases hshape : operation.response with
  | none =>
    rw [hshape] at hresponse
    obtain ⟨rfl, -⟩ := Session.pure_eq_ok.mp hresponse
    exact Or.inl rfl
  | some shape =>
    rw [hshape] at hresponse
    exact Or.inr ⟨shape, writtenAs_of_type hle hresponse⟩

theorem methodsOf_of_methods {operations : List Operation} {functions : List Function}
    (hle : after ≤ final) (h : methods operations scope before = (.ok functions, after)) :
    List.Forall₂ (MethodOf scope final) operations functions := by
  induction operations generalizing functions before with
  | nil =>
    obtain ⟨rfl, -⟩ := Session.pure_eq_ok.mp h
    exact List.Forall₂.nil
  | cons operation operations ih =>
    simp only [methods, Session.bind_eq_ok, Session.pure_eq_ok] at h
    obtain ⟨function, _, hfunction, others, _, hothers, rfl, rfl⟩ := h
    have hrest := (methods_keeps_le scope operations).of_eq_ok hothers
    exact List.Forall₂.cons (methodOf_of_method (le_trans hrest hle) hfunction) (ih hothers)

end Methods

/-! ## Class names -/

/-- A class name ends in the suffix that the settings choose or in a digit. -/
theorem candidate_requestedName_ne_types (settings : Settings) (tag : String) (number : Nat) :
    Naming.candidate (requestedName settings tag) number ≠ "types" := by
  intro h
  have hletters : ∀ c ∈ "types".toList, c.isDigit = false :=
    List.forall_iff_forall_mem.mp (by decide)
  obtain rfl : number = 0 := Naming.eq_zero_of_forall_not_isDigit (by rwa [h])
  have hlast : (requestedName settings tag).toList.getLast? = some 's' := by
    rw [← Naming.candidate.eq_1 (requestedName settings tag), h]
    rfl
  rw [requestedName, String.toList_append, List.getLast?_append] at hlast
  cases hsuffix : settings.clientSuffix <;> rw [hsuffix] at hlast <;> cases hlast

/-! ## Clients -/

/-- What remains of the run that wrote a client: its methods, the names that it imports for them,
and the text of the module in which the methods are those of its one class. -/
structure IsRun (scope : Scope) (final : Progress) (client : Client) (functions : List Function) :
    Prop where
  run : ∃ before after, methods client.operations scope before = (.ok functions, after) ∧
    after ≤ final
  className : ∃ number,
    client.className = Naming.candidate (requestedName scope.settings client.tag) number
  imports : client.imports = sortedNames (functions.flatMap signatureNames)
  source : client.source =
    ({ imports := if client.imports.isEmpty then []
        else [{ items := client.imports, source := typesModule, typeOnly := true }]
       classes := [{ name := client.className, prelude, methods := functions }] } : Module).text

section IsRun

variable {scope : Scope} {final before after : Progress} {client : Client}

theorem IsRun.methodsOf {functions : List Function} (h : client.IsRun scope final functions) :
    List.Forall₂ (MethodOf scope final) client.operations functions := by
  obtain ⟨before, after, hrun, hle⟩ := h.run
  exact methodsOf_of_methods hle hrun

/-- No client is written to the file of the declarations. -/
theorem IsRun.fileName_ne {functions : List Function} (h : client.IsRun scope final functions) :
    client.fileName ≠ "types.ts" := by
  intro heq
  obtain ⟨number, hname⟩ := h.className
  refine candidate_requestedName_ne_types scope.settings client.tag number ?_
  rw [← hname]
  exact (String.append_left_inj ".ts").mp heq

theorem isRun_of_ofOperations {tag : String} {operations : List Operation} (hle : after ≤ final)
    (h : ofOperations tag operations scope before = (.ok client, after)) :
    (client.tag, client.operations) = (tag, operations) ∧
      ∃ functions, client.IsRun scope final functions := by
  simp only [ofOperations, Session.bind_eq_ok, Session.pure_eq_ok, Session.settings_eq_ok,
    Session.claimClientName_eq_ok] at h
  obtain ⟨_, _, -, _, _, ⟨rfl, rfl⟩, className, claimed, hclaimed, functions, _, hfunctions, rfl,
    rfl⟩ := h
  rw [Progress.claimClientName, Prod.mk.injEq] at hclaimed
  exact ⟨rfl, functions, ⟨claimed, _, hfunctions, hle⟩, ⟨_, hclaimed.1.symm⟩, rfl, rfl⟩

end IsRun

end ApiScribe.Client
