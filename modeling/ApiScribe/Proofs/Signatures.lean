import ApiScribe.Proofs.ClientRun
import ApiScribe.Proofs.UnionBindings

/-!
# What a method is made of

Every parameter of a method has a role: it stands for a declared path parameter, for a placeholder
without a declaration, for the body, or for the whole query.  `Operation.roles` lists the roles of an
operation in the order of the parameters, without a session.

`Signature.Gains` says that a signature was made from another one by adding a parameter for each of
some roles.  Every step that writes a signature is such a gain, and two gains after each other are
one, so the whole signature gains the roles of the operation.  What holds of the parameters is then an
induction over gains (`Gains.covers`): no two have the same name, and a name that a role asks for
always belongs to some parameter, if not to the one that asked for it.

`MethodRun` is what remains of a run that wrote a method, and `exists_methodRun` says that every method
has one.  `assembles_of_method` is what later readers need of it.
-/

namespace ApiScribe

open TypeScript

/-- The shape is written as the type where no declaration is around. -/
def Shape.StandsAs (scope : Scope) (shape : Shape) (type : Ty) : Prop :=
  ∃ before after, shape.type none none scope before = (.ok type, after)

namespace Client

/-! ## Roles -/

/-- What a parameter of a method stands for. -/
inductive Role where
  | path (parameter : OperationParameter)
  | free (placeholder : String)
  | body (body : RequestBody)
  | query (parameters : List OperationParameter)

namespace Role

/-- The parameter name that a role asks for. -/
def requestedName (settings : Settings) : Role → String
  | .path parameter => pathName settings parameter.name
  | .free placeholder => pathName settings placeholder
  | .body _ => "body"
  | .query _ => "params"

/-- May the parameter be left out? -/
def optional : Role → Bool
  | .path _ => false
  | .free _ => false
  | .body content => !content.required
  | .query parameters => !parameters.any fun parameter => parameter.required

/-- The name of the declared path parameter that has the role. -/
def declaredName? : Role → Option String
  | .path parameter => some parameter.name
  | _ => none

/-- Is it the role of a placeholder without a declaration? -/
def isFree : Role → Bool
  | .free _ => true
  | _ => false

/-- The property for a parameter in the object for the query. -/
structure PropertyFor (scope : Scope) (parameter : OperationParameter) (property : Property) :
    Prop where
  name : property.name = parameter.name
  optional : property.optional = !parameter.required
  type : parameter.shape.StandsAs scope property.type

/-- The type is that of a parameter with the role. -/
inductive HasType (scope : Scope) : Role → Ty → Prop
  | path {parameter : OperationParameter} {type : Ty} (h : parameter.shape.StandsAs scope type) :
    HasType scope (.path parameter) type
  | free (placeholder : String) : HasType scope (.free placeholder) (.primitive .string)
  | body {content : RequestBody} {type : Ty} (h : content.shape.StandsAs scope type) :
    HasType scope (.body content) type
  | query {parameters : List OperationParameter} {properties : List Property}
    (h : List.Forall₂ (PropertyFor scope) parameters properties) :
    HasType scope (.query parameters) (.object properties none)

/-- The parameter plays the role.  It may have been made required; it admits `undefined` then. -/
structure IsPlayedBy (scope : Scope) (role : Role) (parameter : TypeScript.Parameter) : Prop where
  name : ∃ number,
    parameter.name = Naming.candidate (role.requestedName scope.settings) number
  type : ∃ type, role.HasType scope type ∧
    (parameter.type = type ∧ parameter.optional = role.optional ∨
      parameter.type = type.withBottom .undefined ∧ role.optional = true ∧
        parameter.optional = false)

end Role

/-- Parameters, each pair of location and name at its first occurrence only. -/
def firstParameters (seen : List (ParameterLocation × String)) :
    List OperationParameter → List OperationParameter
  | [] => []
  | parameter :: rest =>
    if seen.contains (parameter.location, parameter.name) then firstParameters seen rest
    else parameter :: firstParameters ((parameter.location, parameter.name) :: seen) rest

/-- The roles that the placeholders of a path bring in, where the declared parameters with the bound
names have theirs already. -/
def placedRoles (declared : List OperationParameter) (bound : List String) :
    List PathSegment → List Role
  | [] => []
  | .text _ :: rest => placedRoles declared bound rest
  | .placeholder placeholder :: rest =>
    match declaredFor? declared placeholder with
    | some parameter =>
      if parameter.name ∈ bound then placedRoles declared bound rest
      else .path parameter :: placedRoles declared (bound ++ [parameter.name]) rest
    | none => .free placeholder :: placedRoles declared bound rest

/-- The roles of the declared path parameters whose names are not bound. -/
def unplacedRoles (declared : List OperationParameter) (bound : List String) : List Role :=
  (declared.filter fun parameter => parameter.name ∉ bound).map .path

/-- The role of the query, if there is one. -/
def queryRoles (query : List OperationParameter) : List Role :=
  if query.isEmpty then [] else [.query query]

/-- There is no other role for the query. -/
theorem eq_query_of_mem_queryRoles {query : List OperationParameter} {role : Role}
    (h : role ∈ queryRoles query) : role = .query query := by
  rw [queryRoles] at h
  split at h
  · cases h
  · exact List.mem_singleton.mp h

end Client

namespace Operation

/-- The parameters of an operation at a location, each name at its first occurrence only. -/
def parametersAt (operation : Operation) (location : ParameterLocation) :
    List OperationParameter :=
  (Client.firstParameters [] operation.parameters).filter fun parameter =>
    parameter.location = location

/-- The roles that the placeholders in the path of an operation bring in. -/
def placeholderRoles (operation : Operation) : List Client.Role :=
  Client.placedRoles (operation.parametersAt .path) [] (PathSegment.ofPath operation.path)

/-- The roles of the parameters of the method that calls an operation. -/
def roles (operation : Operation) : List Client.Role :=
  operation.placeholderRoles ++
    Client.unplacedRoles (operation.parametersAt .path)
      (operation.placeholderRoles.filterMap Client.Role.declaredName?) ++
    operation.body.toList.map .body ++
    Client.queryRoles (operation.parametersAt .query)

end Operation

namespace Client

/-! ## Requests -/

/-- The part of a path expression for a piece of the path: the text itself, or the value of the
parameter whose role the placeholder belongs to. -/
inductive IsPartOf (declared : List OperationParameter) (played : List (Role × String)) :
    PathSegment → TemplatePart → Prop
  | text (content : String) : IsPartOf declared played (.text content) (.text content)
  | declared {placeholder name : String} {parameter : OperationParameter} {role : Role}
    (hdeclared : declaredFor? declared placeholder = some parameter)
    (hrole : role.declaredName? = some parameter.name) (hplayed : (role, name) ∈ played) :
    IsPartOf declared played (.placeholder placeholder) (.value (encoded name))
  | free {placeholder name : String} (hdeclared : declaredFor? declared placeholder = none)
    (hplayed : (.free placeholder, name) ∈ played) :
    IsPartOf declared played (.placeholder placeholder) (.value (encoded name))

/-- The option of a request that passes on the parameter with the role. -/
inductive IsOptionOf (played : List (Role × String)) : Role → String × Expr → Prop
  | body {content : RequestBody} {name : String} (hplayed : (.body content, name) ∈ played) :
    IsOptionOf played (.body content) ("body", .ident name)
  | query {parameters : List OperationParameter} {name : String}
    (hplayed : (.query parameters, name) ∈ played) :
    IsOptionOf played (.query parameters) ("query", .ident name)

/-- The names of the parameters for placeholders without a declaration, in order. -/
def freeNames (played : List (Role × String)) : List String :=
  (played.filter fun entry => entry.1.isFree).map Prod.snd

theorem freeNames_append (played added : List (Role × String)) :
    freeNames (played ++ added) = freeNames played ++ freeNames added := by
  rw [freeNames, List.filter_append, List.map_append]
  rfl

/-- Roles of which none is free have no free names. -/
theorem freeNames_eq_nil {played : List (Role × String)}
    (h : ∀ role ∈ played.map Prod.fst, role.isFree = false) : freeNames played = [] := by
  rw [freeNames, List.map_eq_nil_iff, List.filter_eq_nil_iff]
  exact fun entry hentry => ne_true_of_eq_false (h _ (List.mem_map_of_mem hentry))

/-- The parts of a path expression for the pieces of a path.  A declared placeholder gets the name of
the parameter with its role, and the others get the names of a list, one after another. -/
inductive Fills (declared : List OperationParameter) (played : List (Role × String)) :
    List String → List PathSegment → List TemplatePart → Prop
  | nil : Fills declared played [] [] []
  | text {names : List String} {segments : List PathSegment} {parts : List TemplatePart}
    (content : String) (h : Fills declared played names segments parts) :
    Fills declared played names (.text content :: segments) (.text content :: parts)
  | declared {names : List String} {segments : List PathSegment} {parts : List TemplatePart}
    {placeholder name : String} {parameter : OperationParameter}
    (hdeclared : declaredFor? declared placeholder = some parameter)
    (hplayed : (.path parameter, name) ∈ played) (h : Fills declared played names segments parts) :
    Fills declared played names (.placeholder placeholder :: segments)
      (.value (encoded name) :: parts)
  | free {names : List String} {segments : List PathSegment} {parts : List TemplatePart}
    {placeholder name : String} (hdeclared : declaredFor? declared placeholder = none)
    (hplayed : (.free placeholder, name) ∈ played)
    (h : Fills declared played names segments parts) :
    Fills declared played (name :: names) (.placeholder placeholder :: segments)
      (.value (encoded name) :: parts)

/-- Every piece has its part. -/
theorem Fills.isPartOf {declared : List OperationParameter} {played : List (Role × String)}
    {names : List String} {segments : List PathSegment} {parts : List TemplatePart}
    (h : Fills declared played names segments parts) :
    List.Forall₂ (IsPartOf declared played) segments parts := by
  induction h with
  | nil => exact List.Forall₂.nil
  | text content _ ih => exact List.Forall₂.cons (.text content) ih
  | declared hdeclared hplayed _ ih =>
    exact List.Forall₂.cons (.declared hdeclared rfl hplayed) ih
  | free hdeclared hplayed _ ih => exact List.Forall₂.cons (.free hdeclared hplayed) ih

theorem Fills.append {declared : List OperationParameter} {played : List (Role × String)}
    {names others : List String} {segments rest : List PathSegment}
    {parts more : List TemplatePart} (h : Fills declared played names segments parts)
    (hrest : Fills declared played others rest more) :
    Fills declared played (names ++ others) (segments ++ rest) (parts ++ more) := by
  induction h with
  | nil => exact hrest
  | text content _ ih => exact .text content ih
  | declared hdeclared hplayed _ ih => exact .declared hdeclared hplayed ih
  | free hdeclared hplayed _ ih => exact .free hdeclared hplayed ih

section Mono

variable {played more : List (Role × String)} (hmore : ∀ entry ∈ played, entry ∈ more)
include hmore

theorem Fills.mono {declared : List OperationParameter} {names : List String}
    {segments : List PathSegment} {parts : List TemplatePart}
    (h : Fills declared played names segments parts) :
    Fills declared more names segments parts := by
  induction h with
  | nil => exact .nil
  | text content _ ih => exact .text content ih
  | declared hdeclared hplayed _ ih => exact .declared hdeclared (hmore _ hplayed) ih
  | free hdeclared hplayed _ ih => exact .free hdeclared (hmore _ hplayed) ih

theorem IsOptionOf.mono {role : Role} {entry : String × Expr} (h : IsOptionOf played role entry) :
    IsOptionOf more role entry := by
  cases h with
  | body hplayed => exact .body (hmore _ hplayed)
  | query hplayed => exact .query (hmore _ hplayed)

end Mono

section Signatures

variable {scope : Scope} {before after : Progress} {played added : List (Role × String)}
  {signature between result : Signature}

/-! ## Gains -/

/-- The second signature comes from the first by adding a parameter for each of the roles.  With a
role stands the name that its parameter got. -/
inductive Signature.Gains (scope : Scope) : List (Role × String) → Signature → Signature → Prop
  | none (signature : Signature) : Gains scope [] signature signature
  | add {played : List (Role × String)} {signature between : Signature} {role : Role} {type : Ty}
    (h : Gains scope played signature between) (htype : role.HasType scope type) :
    Gains scope
      (played ++ [(role, Naming.fresh between.used (role.requestedName scope.settings))])
      signature (between.add (role.requestedName scope.settings) type role.optional).2
  | bind {played : List (Role × String)} {signature result : Signature}
    (h : Gains scope played signature result) (bound : Table String) :
    Gains scope played signature { result with bound }

theorem Signature.Gains.single (signature : Signature) {role : Role} {type : Ty}
    (h : role.HasType scope type) :
    Gains scope [(role, Naming.fresh signature.used (role.requestedName scope.settings))] signature
      (signature.add (role.requestedName scope.settings) type role.optional).2 :=
  (none signature).add h

theorem Signature.Gains.trans (h : Gains scope played signature between)
    (h' : Gains scope added between result) : Gains scope (played ++ added) signature result := by
  induction h' with
  | none => rwa [List.append_nil]
  | add _ htype ih =>
    rw [← List.append_assoc]
    exact (ih h).add htype
  | bind _ bound ih => exact (ih h).bind bound

/-- The parameters of the signature have these roles and names, and nothing else is in use. -/
structure Signature.Covers (scope : Scope) (played : List (Role × String)) (signature : Signature) :
    Prop where
  roles : List.Forall₂ (Role.IsPlayedBy scope) (played.map Prod.fst) signature.parameters
  names : played.map Prod.snd = signature.parameters.map TypeScript.Parameter.name
  used : signature.used = (played.map Prod.snd).reverse
  nodup : (played.map Prod.snd).Nodup
  requested : ∀ role ∈ played.map Prod.fst,
    role.requestedName scope.settings ∈ played.map Prod.snd
  optional : signature.parameters.map TypeScript.Parameter.optional =
    (played.map Prod.fst).map Role.optional

theorem Signature.covers_empty : Signature.Covers scope [] {} where
  roles := List.Forall₂.nil
  names := rfl
  used := rfl
  nodup := List.nodup_nil
  requested := fun _ h => absurd h List.not_mem_nil
  optional := rfl

/-- **A parameter more is a role more.** -/
theorem Signature.Covers.add (h : signature.Covers scope played) {role : Role} {type : Ty}
    (htype : role.HasType scope type) :
    (signature.add (role.requestedName scope.settings) type role.optional).2.Covers scope
      (played ++ [(role, Naming.fresh signature.used (role.requestedName scope.settings))]) := by
  have hused : ∀ name, name ∈ signature.used ↔ name ∈ played.map Prod.snd := by
    intro name
    rw [h.used, List.mem_reverse]
  have hplayed : role.IsPlayedBy scope
      ⟨Naming.fresh signature.used (role.requestedName scope.settings), type, role.optional⟩ :=
    ⟨⟨_, rfl⟩, type, htype, Or.inl ⟨rfl, rfl⟩⟩
  rw [Signature.add]
  constructor
  · rw [List.map_append]
    exact List.rel_append h.roles (List.Forall₂.cons hplayed List.Forall₂.nil)
  · rw [List.map_append, List.map_append, h.names]
    rfl
  · rw [List.map_append, List.map_singleton, List.reverse_append, h.used]
    rfl
  · rw [List.map_append, List.map_singleton, ← List.concat_eq_append]
    exact h.nodup.concat fun hmem => Naming.fresh_notMem _ _ ((hused _).mpr hmem)
  · rw [List.map_append, List.map_append, List.map_singleton, List.map_singleton]
    intro other hother
    rcases List.mem_append.mp hother with hother | hother
    · exact List.mem_append_left _ (h.requested other hother)
    · rw [List.mem_singleton.mp hother]
      by_cases hmem : role.requestedName scope.settings ∈ signature.used
      · exact List.mem_append_left _ ((hused _).mp hmem)
      · exact List.mem_append_right _ (List.mem_singleton.mpr (Naming.fresh_eq_self hmem).symm)
  · rw [List.map_append, List.map_append, List.map_append, h.optional]
    rfl

/-- **A signature that gained some roles from nothing has these roles.** -/
theorem Signature.Gains.covers (h : Gains scope added signature result)
    (hcovers : signature.Covers scope played) : result.Covers scope (played ++ added) := by
  induction h with
  | none => rwa [List.append_nil]
  | add _ htype ih =>
    rw [← List.append_assoc]
    exact (ih hcovers).add htype
  | bind _ _ ih =>
    obtain ⟨hroles, hnames, hused, hnodup, hrequested, hoptional⟩ := ih hcovers
    exact ⟨hroles, hnames, hused, hnodup, hrequested, hoptional⟩

/-! ## Parameters in the path -/

/-- The names of the declared path parameters that have a role. -/
def boundNames (played : List (Role × String)) : List String :=
  (played.map Prod.fst).filterMap Role.declaredName?

theorem boundNames_append (played added : List (Role × String)) :
    boundNames (played ++ added) =
      boundNames played ++ (added.map Prod.fst).filterMap Role.declaredName? := by
  rw [boundNames, List.map_append, List.filterMap_append]
  rfl

/-- The signature knows, for each declared path parameter that has a role, the name that it got. -/
structure Signature.Binds (declared : List OperationParameter) (played : List (Role × String))
    (signature : Signature) : Prop where
  isSome : ∀ name, (signature.bound.get? name).isSome ↔ name ∈ boundNames played
  played : ∀ parameter ∈ declared, ∀ value, signature.bound.get? parameter.name = some value →
    (.path parameter, value) ∈ played

theorem Signature.binds_empty (declared : List OperationParameter) :
    Signature.Binds declared [] {} where
  isSome _ := iff_of_false Bool.false_ne_true List.not_mem_nil
  played _ _ _ h := nomatch h

section Binds

variable {declared : List OperationParameter}

/-- A parameter that is declared for no part of the path changes nothing. -/
theorem Signature.Binds.append (h : signature.Binds declared played) {role : Role} (value : String)
    (hrole : role.declaredName? = none) :
    signature.Binds declared (played ++ [(role, value)]) where
  isSome name := by
    rw [h.isSome, boundNames_append, List.map_singleton, List.filterMap_cons_none hrole,
      List.filterMap_nil, List.append_nil]
  played parameter hmem found hfound :=
    List.mem_append_left _ (h.played parameter hmem found hfound)

/-- One that is declared is bound to its name. -/
theorem Signature.Binds.bind (hnodup : (declared.map OperationParameter.name).Nodup)
    (h : signature.Binds declared played) {parameter : OperationParameter}
    (hparameter : parameter ∈ declared) (value : String) :
    Signature.Binds declared (played ++ [(.path parameter, value)])
      { signature with bound := signature.bound ++ [(parameter.name, value)] } where
  isSome other := by
    have hname : (Role.path parameter).declaredName? = some parameter.name := rfl
    rw [Table.get?_append, Option.isSome_or, Bool.or_eq_true, h.isSome, boundNames_append,
      List.map_singleton, List.filterMap_cons_some hname, List.filterMap_nil, List.mem_append,
      List.mem_singleton]
    rw [eq_comm (a := other)]
    by_cases heq : parameter.name = other <;> simp [Table.get?, heq]
  played other hother found hfound := by
    rw [Table.get?_append] at hfound
    rcases Option.or_eq_some_iff.mp hfound with hfound | ⟨-, hfound⟩
    · exact List.mem_append_left _ (h.played other hother found hfound)
    · rw [Table.get?] at hfound
      split at hfound
      next heq =>
        have hsame : parameter = other := List.inj_on_of_nodup_map hnodup hparameter hother heq
        rw [← Option.some.inj hfound, hsame]
        exact List.mem_append_right _ (List.mem_singleton_self _)
      next => cases hfound

end Binds

theorem eq_of_distinctParameters {seen : List (ParameterLocation × String)}
    {parameters declared : List OperationParameter}
    (h : distinctParameters seen parameters scope before = (.ok declared, after)) :
    declared = firstParameters seen parameters := by
  induction parameters generalizing seen before declared with
  | nil => exact (Session.pure_eq_ok.mp h).1.symm
  | cons parameter parameters ih =>
    rw [distinctParameters] at h
    rw [firstParameters]
    split at h
    next hseen =>
      obtain ⟨_, _, -, h⟩ := Session.bind_eq_ok.mp h
      rw [if_pos hseen]
      exact ih h
    next hnew =>
      simp only [Session.bind_eq_ok, Session.pure_eq_ok] at h
      obtain ⟨others, _, hothers, rfl, rfl⟩ := h
      rw [if_neg hnew, ← ih hothers]

/-- What is left of the parameters has each pair of location and name once. -/
theorem nodup_firstParameters (seen : List (ParameterLocation × String))
    (parameters : List OperationParameter) :
    ((firstParameters seen parameters).map fun parameter =>
        (parameter.location, parameter.name)).Nodup ∧
      ∀ parameter ∈ firstParameters seen parameters,
        (parameter.location, parameter.name) ∉ seen := by
  induction parameters generalizing seen with
  | nil => exact ⟨List.nodup_nil, fun _ hmem => absurd hmem List.not_mem_nil⟩
  | cons parameter parameters ih =>
    rw [firstParameters]
    split
    next => exact ih seen
    next hnew =>
      obtain ⟨hnodup, hseen⟩ := ih ((parameter.location, parameter.name) :: seen)
      refine ⟨?_, List.forall_mem_cons.mpr ⟨by simpa using hnew, fun other hother => ?_⟩⟩
      · rw [List.map_cons, List.nodup_cons]
        refine ⟨fun hmem => ?_, hnodup⟩
        obtain ⟨other, hother, heq⟩ := List.mem_map.mp hmem
        exact hseen other hother (heq ▸ List.mem_cons_self)
      · exact fun hmem => hseen other hother (List.mem_cons_of_mem _ hmem)

/-- At a location every name stands once. -/
theorem nodup_parametersAt (operation : Operation) (location : ParameterLocation) :
    ((operation.parametersAt location).map OperationParameter.name).Nodup := by
  have hkeys := (nodup_firstParameters [] operation.parameters).1
  have hnodup := List.pairwise_map.mp hkeys
  refine List.pairwise_map.mpr ((hnodup.sublist List.filter_sublist).imp_of_mem ?_)
  intro first second hfirst hsecond hne heq
  have hlocation : ∀ parameter ∈ operation.parametersAt location,
      parameter.location = location := by
    intro parameter hmem
    simpa using (List.mem_filter.mp hmem).2
  exact hne (Prod.ext ((hlocation first hfirst).trans (hlocation second hsecond).symm) heq)

theorem mem_of_declaredFor? {declared : List OperationParameter} {placeholder : String}
    {parameter : OperationParameter} (h : declaredFor? declared placeholder = some parameter) :
    parameter ∈ declared := by
  rw [declaredFor?] at h
  split at h
  next hexact =>
    rw [← Option.some.inj h]
    exact List.mem_of_find?_eq_some hexact
  next => exact List.mem_of_find?_eq_some h

/-- The roles that a path brings in are those of its first piece and those of the rest. -/
theorem placedRoles_cons (declared : List OperationParameter) (bound : List String)
    (segment : PathSegment) (segments : List PathSegment) :
    placedRoles declared bound (segment :: segments) =
      placedRoles declared bound [segment] ++
        placedRoles declared
          (bound ++ (placedRoles declared bound [segment]).filterMap Role.declaredName?)
          segments := by
  cases segment with
  | text content =>
    show _ = [] ++ placedRoles declared (bound ++ []) segments
    rw [List.append_nil]
    rfl
  | placeholder placeholder =>
    rw [placedRoles, placedRoles]
    cases declaredFor? declared placeholder with
    | none =>
      show _ = _ :: placedRoles declared (bound ++ []) segments
      rw [List.append_nil]
    | some parameter =>
      dsimp only
      split
      next =>
        show _ = placedRoles declared (bound ++ []) segments
        rw [List.append_nil]
      next => rfl

/-- What one placeholder brings in. -/
theorem gains_of_bindPlaceholder {declared : List OperationParameter} {placeholder name : String}
    (hnodup : (declared.map OperationParameter.name).Nodup) (hbinds : signature.Binds declared played)
    (h : bindPlaceholder declared signature placeholder scope before =
      (.ok (name, result), after)) :
    ∃ added : List (Role × String),
      added.map Prod.fst = placedRoles declared (boundNames played) [.placeholder placeholder] ∧
      Signature.Gains scope added signature result ∧ result.Binds declared (played ++ added) ∧
      Fills declared (played ++ added) (freeNames added) [.placeholder placeholder]
        [.value (encoded name)] := by
  rw [bindPlaceholder, Session.bind_eq_ok] at h
  obtain ⟨settings, _, hsettings, h⟩ := h
  obtain ⟨rfl, rfl⟩ := Session.settings_eq_ok.mp hsettings
  rw [placedRoles]
  cases hdeclared : declaredFor? declared placeholder with
  | none =>
    rw [hdeclared] at h
    simp only [Session.bind_eq_ok, Session.pure_eq_ok] at h
    obtain ⟨_, _, -, heq, -⟩ := h
    cases heq
    have hplayed := List.mem_append_right played
      (List.mem_singleton_self (Role.free placeholder,
        Naming.fresh signature.used (pathName scope.settings placeholder)))
    exact ⟨_, rfl, .single signature (.free placeholder),
      ⟨(hbinds.append _ rfl).isSome, (hbinds.append _ rfl).played⟩,
      .free hdeclared hplayed .nil⟩
  | some parameter =>
    have hparameter := mem_of_declaredFor? hdeclared
    rw [hdeclared] at h
    dsimp only
    cases hvalue : signature.bound.get? parameter.name with
    | some value =>
      simp only [hvalue] at h
      obtain ⟨heq, -⟩ := Session.pure_eq_ok.mp h
      cases heq
      rw [if_pos ((hbinds.isSome _).mp (by rw [hvalue]; rfl))]
      have hmem := hbinds.played parameter hparameter _ hvalue
      exact ⟨[], rfl, .none signature, by rwa [List.append_nil],
        .declared hdeclared (List.mem_append_left _ hmem) .nil⟩
    | none =>
      simp only [hvalue, Session.bind_eq_ok, Session.pure_eq_ok, Prod.mk.injEq] at h
      obtain ⟨type, _, htype, ⟨rfl, rfl⟩, -⟩ := h
      rw [if_neg fun hmem => by simpa [hvalue] using (hbinds.isSome _).mpr hmem]
      have hgains := Signature.Gains.single signature (Role.HasType.path ⟨_, _, htype⟩)
      have hbound := hbinds.bind hnodup hparameter
        (Naming.fresh signature.used (pathName scope.settings parameter.name))
      exact ⟨_, rfl, hgains.bind _, ⟨hbound.isSome, hbound.played⟩,
        .declared hdeclared (List.mem_append_right _ (List.mem_singleton_self _)) .nil⟩

/-- **What the pieces of a path bring in**: the parameters for its placeholders, and for each piece
the part of the expression. -/
theorem gains_of_pathParts {declared : List OperationParameter} {segments : List PathSegment}
    {parts : List TemplatePart} (hnodup : (declared.map OperationParameter.name).Nodup)
    (hbinds : signature.Binds declared played)
    (h : pathParts declared signature segments scope before = (.ok (parts, result), after)) :
    ∃ added : List (Role × String),
      added.map Prod.fst = placedRoles declared (boundNames played) segments ∧
      Signature.Gains scope added signature result ∧ result.Binds declared (played ++ added) ∧
      Fills declared (played ++ added) (freeNames added) segments parts := by
  induction segments generalizing signature before parts played with
  | nil =>
    obtain ⟨heq, -⟩ := Session.pure_eq_ok.mp h
    cases heq
    exact ⟨[], rfl, .none _, by rwa [List.append_nil], .nil⟩
  | cons segment segments ih =>
    cases segment with
    | text content =>
      simp only [pathParts, Session.bind_eq_ok, Session.pure_eq_ok, Prod.mk.injEq] at h
      obtain ⟨⟨others, rest⟩, _, hothers, ⟨rfl, rfl⟩, rfl⟩ := h
      obtain ⟨added, hroles, hgains, hrest, hparts⟩ := ih hbinds hothers
      exact ⟨added, hroles, hgains, hrest, .text content hparts⟩
    | placeholder placeholder =>
      simp only [pathParts, Session.bind_eq_ok, Session.pure_eq_ok, Prod.mk.injEq] at h
      obtain ⟨⟨name, placed⟩, _, hplaced, ⟨others, rest⟩, _, hothers, ⟨rfl, rfl⟩, rfl⟩ := h
      obtain ⟨first, hfirst, hgain, hbound, hpart⟩ :=
        gains_of_bindPlaceholder hnodup hbinds hplaced
      obtain ⟨added, hroles, hgains, hrest, hparts⟩ := ih hbound hothers
      rw [boundNames_append, hfirst] at hroles
      rw [List.append_assoc] at hrest hparts
      have hfirstPart : Fills declared (played ++ (first ++ added)) (freeNames first)
          [.placeholder placeholder] [.value (encoded name)] := by
        refine hpart.mono fun entry hentry => ?_
        rw [← List.append_assoc]
        exact List.mem_append_left _ hentry
      refine ⟨first ++ added, ?_, hgain.trans hgains, hrest, ?_⟩
      · rw [List.map_append, hfirst, hroles, ← placedRoles_cons]
      · rw [freeNames_append]
        exact hfirstPart.append hparts

/-- The declared parameters without a placeholder come after those with one. -/
theorem gains_of_addUnusedPath {declared others : List OperationParameter}
    (hbinds : signature.Binds others played)
    (h : addUnusedPath signature declared scope before = (.ok result, after)) :
    ∃ added : List (Role × String),
      added.map Prod.fst = unplacedRoles declared (boundNames played) ∧
      Signature.Gains scope added signature result := by
  induction declared generalizing signature before with
  | nil =>
    obtain ⟨rfl, -⟩ := Session.pure_eq_ok.mp h
    exact ⟨[], rfl, .none signature⟩
  | cons parameter declared ih =>
    rw [addUnusedPath] at h
    rw [unplacedRoles, List.filter_cons]
    split at h
    next hbound =>
      rw [if_neg (by simpa using (hbinds.isSome _).mp hbound)]
      exact ih hbinds h
    next hfree =>
      simp only [Session.bind_eq_ok, Session.settings_eq_ok] at h
      obtain ⟨_, _, ⟨rfl, rfl⟩, type, _, htype, h⟩ := h
      rw [if_pos (by simpa using fun hmem => hfree ((hbinds.isSome _).mpr hmem))]
      have hgain := Signature.Gains.single signature (Role.HasType.path ⟨_, _, htype⟩)
      have hbinds' : Signature.Binds others played
          (signature.add (pathName scope.settings parameter.name) type false).2 :=
        ⟨hbinds.isSome, hbinds.played⟩
      obtain ⟨added, hroles, hgains⟩ := ih hbinds' h
      refine ⟨_, ?_, hgain.trans hgains⟩
      exact congrArg (List.cons (Role.path parameter)) hroles

/-! ## The body and the query -/

theorem gains_of_addBody {body : Option RequestBody} {entries : List (String × Expr)}
    (h : addBody signature body scope before = (.ok (entries, result), after)) :
    ∃ added : List (Role × String), added.map Prod.fst = body.toList.map .body ∧
      Signature.Gains scope added signature result ∧
      List.Forall₂ (IsOptionOf added) (body.toList.map .body) entries := by
  cases body with
  | none =>
    obtain ⟨heq, -⟩ := Session.pure_eq_ok.mp h
    cases heq
    exact ⟨[], rfl, .none signature, List.Forall₂.nil⟩
  | some content =>
    simp only [addBody, Session.bind_eq_ok, Session.pure_eq_ok, Prod.mk.injEq] at h
    obtain ⟨type, _, htype, ⟨rfl, rfl⟩, -⟩ := h
    exact ⟨_, rfl, .single signature (Role.HasType.body ⟨_, _, htype⟩),
      List.Forall₂.cons (.body (List.mem_singleton_self _)) List.Forall₂.nil⟩

/-- There is one property for each parameter in the query. -/
theorem forall₂_of_queryProperties {parameters : List OperationParameter}
    {properties : List Property}
    (h : queryProperties parameters scope before = (.ok properties, after)) :
    List.Forall₂ (Role.PropertyFor scope) parameters properties := by
  induction parameters generalizing properties before with
  | nil =>
    obtain ⟨rfl, -⟩ := Session.pure_eq_ok.mp h
    exact List.Forall₂.nil
  | cons parameter parameters ih =>
    simp only [queryProperties, Session.bind_eq_ok, Session.pure_eq_ok] at h
    obtain ⟨type, _, htype, others, _, hothers, rfl, rfl⟩ := h
    exact List.Forall₂.cons ⟨rfl, rfl, _, _, htype⟩ (ih hothers)

theorem gains_of_addQuery {query : List OperationParameter} {entries : List (String × Expr)}
    (h : addQuery signature query scope before = (.ok (entries, result), after)) :
    ∃ added : List (Role × String), added.map Prod.fst = queryRoles query ∧
      Signature.Gains scope added signature result ∧
      List.Forall₂ (IsOptionOf added) (queryRoles query) entries := by
  rw [addQuery] at h
  rw [queryRoles]
  split at h
  next hempty =>
    obtain ⟨heq, -⟩ := Session.pure_eq_ok.mp h
    cases heq
    rw [if_pos hempty]
    exact ⟨[], rfl, .none signature, List.Forall₂.nil⟩
  next hquery =>
    simp only [Session.bind_eq_ok, Session.pure_eq_ok, Prod.mk.injEq] at h
    obtain ⟨properties, _, hproperties, ⟨rfl, rfl⟩, -⟩ := h
    rw [if_neg hquery]
    exact ⟨_, rfl,
      .single signature (Role.HasType.query (forall₂_of_queryProperties hproperties)),
      List.Forall₂.cons (.query (List.mem_singleton_self _)) List.Forall₂.nil⟩

/-! ## Required parameters -/

theorem Role.IsPlayedBy.required {role : Role} {parameter : TypeScript.Parameter}
    (h : role.IsPlayedBy scope parameter) (hoptional : parameter.optional = true) :
    role.IsPlayedBy scope
      { parameter with optional := false, type := parameter.type.withBottom .undefined } := by
  obtain ⟨hname, type, htype, ⟨rfl, hrole⟩ | ⟨-, -, hfalse⟩⟩ := h
  · exact ⟨hname, _, htype, Or.inr ⟨rfl, hrole.symm.trans hoptional, rfl⟩⟩
  · rw [hoptional] at hfalse
    cases hfalse

/-- Parameters keep their roles when some of them are made required. -/
theorem forall₂_requireInFront {roles : List Role} {parameters : List TypeScript.Parameter}
    (h : List.Forall₂ (Role.IsPlayedBy scope) roles parameters) :
    List.Forall₂ (Role.IsPlayedBy scope) roles (requireInFront parameters).1 := by
  induction h with
  | nil => exact List.Forall₂.nil
  | cons hhead _ ih =>
    rw [requireInFront]
    dsimp only
    split
    next => exact List.Forall₂.cons hhead ih
    next hoptional =>
      split
      next => exact List.Forall₂.cons (hhead.required (by simpa using hoptional)) ih
      next => exact List.Forall₂.cons hhead ih

theorem names_requireInFront (parameters : List TypeScript.Parameter) :
    (requireInFront parameters).1.map TypeScript.Parameter.name =
      parameters.map TypeScript.Parameter.name := by
  induction parameters with
  | nil => rfl
  | cons parameter parameters ih =>
    rw [requireInFront]
    dsimp only
    split
    next => exact congrArg (List.cons _) ih
    next =>
      split
      next => exact congrArg (List.cons _) ih
      next => exact congrArg (List.cons _) ih

end Signatures

/-! ## Methods -/

/-- The type is that of the answer. -/
def IsAnswer (scope : Scope) (response : Option Shape) (type : Ty) : Prop :=
  match response with
  | some shape => shape.StandsAs scope type
  | none => type = .primitive .void

/-- What the body of a method does: it sends a request with the method of the operation, to its path
with the values of parameters in place of the placeholders, and passes the query and the body on. -/
def Sends (operation : Operation) (played : List (Role × String)) (response : Ty)
    (body : List Statement) : Prop :=
  ∃ parts options,
    List.Forall₂ (IsPartOf (operation.parametersAt .path) played)
      (PathSegment.ofPath operation.path) parts ∧
    List.Forall₂ (IsOptionOf played)
      (queryRoles (operation.parametersAt .query) ++ operation.body.toList.map .body) options ∧
    body = [.return (some (requestCall operation.method
      (pathExpression operation.path parts) options response))]

/-- The method is put together from what the operation says: its name, a parameter for each role,
the answer, and the request. -/
structure Assembles (scope : Scope) (operation : Operation) (function : Function) : Prop where
  name : function.name = operation.methodName
  parameters : List.Forall₂ (Role.IsPlayedBy scope) operation.roles function.parameters
  nodup : (function.parameters.map TypeScript.Parameter.name).Nodup
  requested : ∀ role ∈ operation.roles, role.requestedName scope.settings ∈
    function.parameters.map TypeScript.Parameter.name
  result : ∃ response, function.result = some (.generic "Promise" [response]) ∧
    IsAnswer scope operation.response response ∧
    Sends operation
      (operation.roles.zip (function.parameters.map TypeScript.Parameter.name)) response
      function.body

variable {scope : Scope} {before after : Progress}

theorem isAnswer_of_responseType {response : Option Shape} {type : Ty}
    (h : responseType response scope before = (.ok type, after)) :
    IsAnswer scope response type := by
  cases response with
  | none => exact (Session.pure_eq_ok.mp h).1.symm
  | some shape => exact ⟨_, _, h⟩

/-- What remains of the run that wrote a method: the roles with the names of their parameters, the
signature in which no parameter was made required yet, and the parts of the request. -/
structure MethodRun (scope : Scope) (operation : Operation) (function : Function) where
  played : List (Role × String)
  signature : Signature
  parts : List TemplatePart
  options : List (String × Expr)
  response : Ty
  roles_eq : played.map Prod.fst = operation.roles
  covers : signature.Covers scope played
  fills : Fills (operation.parametersAt .path) played (freeNames played)
    (PathSegment.ofPath operation.path) parts
  passesOn : List.Forall₂ (IsOptionOf played)
    (queryRoles (operation.parametersAt .query) ++ operation.body.toList.map .body) options
  answers : IsAnswer scope operation.response response
  name_eq : function.name = operation.methodName
  parameters_eq : function.parameters = (requireInFront signature.parameters).1
  result_eq : function.result = some (.generic "Promise" [response])
  body_eq : function.body = [.return (some (requestCall operation.method
    (pathExpression operation.path parts) options response))]

/-- **Every method comes from a run.** -/
theorem exists_methodRun {operation : Operation} {function : Function}
    (h : method operation scope before = (.ok function, after)) :
    Nonempty (MethodRun scope operation function) := by
  simp only [method, Session.bind_eq_ok, Session.pure_eq_ok] at h
  obtain ⟨_, _, -, declared, _, hdeclared, ⟨parts, placed⟩, _, hplaced, unused, _, hunused,
    ⟨bodyEntries, withBody⟩, _, hbody, ⟨queryEntries, withQuery⟩, _, hquery, response, _,
    hresponse, rfl, -⟩ := h
  obtain rfl := eq_of_distinctParameters hdeclared
  obtain ⟨path, hpath, hpathGains, hbinds, hparts⟩ := gains_of_pathParts
    (nodup_parametersAt operation .path) (Signature.binds_empty _) hplaced
  obtain ⟨rest, hrest, hrestGains⟩ := gains_of_addUnusedPath hbinds hunused
  obtain ⟨bodies, hbodies, hbodyGains, hbodyOptions⟩ := gains_of_addBody hbody
  obtain ⟨queries, hqueries, hqueryGains, hqueryOptions⟩ := gains_of_addQuery hquery
  rw [List.nil_append] at hbinds hparts hrest
  have hcovers := (((hpathGains.trans hrestGains).trans hbodyGains).trans hqueryGains).covers
    Signature.covers_empty
  rw [List.nil_append] at hcovers
  have hroles : (path ++ rest ++ bodies ++ queries).map Prod.fst = operation.roles := by
    rw [List.map_append, List.map_append, List.map_append, hrest, boundNames, hpath, hbodies,
      hqueries]
    rfl
  -- placeholders without a declaration are the only free roles
  have hunplaced : freeNames rest = [] := by
    refine freeNames_eq_nil fun role hrole => ?_
    rw [hrest] at hrole
    obtain ⟨parameter, -, rfl⟩ := List.mem_map.mp hrole
    rfl
  have hbodyNames : freeNames bodies = [] := by
    refine freeNames_eq_nil fun role hrole => ?_
    rw [hbodies] at hrole
    obtain ⟨content, -, rfl⟩ := List.mem_map.mp hrole
    rfl
  have hqueryNames : freeNames queries = [] := by
    refine freeNames_eq_nil fun role hrole => ?_
    rw [hqueries] at hrole
    obtain rfl := eq_query_of_mem_queryRoles hrole
    rfl
  have hfree : freeNames (path ++ rest ++ bodies ++ queries) = freeNames path := by
    rw [freeNames_append, freeNames_append, freeNames_append, hunplaced, hbodyNames, hqueryNames]
    simp only [List.append_nil]
  refine ⟨⟨_, _, parts, queryEntries ++ bodyEntries, response, hroles, hcovers, ?_,
    List.rel_append ?_ ?_, isAnswer_of_responseType hresponse, rfl, rfl, rfl, rfl⟩⟩
  · rw [hfree]
    exact hparts.mono fun entry hentry => by simp [hentry]
  · exact hqueryOptions.imp fun _ _ hoption => hoption.mono fun entry hentry => by simp [hentry]
  · exact hbodyOptions.imp fun _ _ hoption => hoption.mono fun entry hentry => by simp [hentry]

namespace MethodRun

variable {operation : Operation} {function : Function} (run : MethodRun scope operation function)
include run

/-- The names of the parameters are those that stand with the roles. -/
theorem names_eq :
    function.parameters.map TypeScript.Parameter.name = run.played.map Prod.snd := by
  rw [run.parameters_eq, names_requireInFront, run.covers.names]

/-- The roles stand with the names of the parameters, in order. -/
theorem played_eq :
    operation.roles.zip (function.parameters.map TypeScript.Parameter.name) = run.played := by
  rw [run.names_eq, ← run.roles_eq]
  exact (List.zip_of_prod rfl rfl).symm

end MethodRun

/-- **What a method is made of.** -/
theorem assembles_of_method {operation : Operation} {function : Function}
    (h : method operation scope before = (.ok function, after)) :
    Assembles scope operation function := by
  obtain ⟨run⟩ := exists_methodRun h
  have hroles : List.Forall₂ (Role.IsPlayedBy scope) operation.roles function.parameters := by
    rw [← run.roles_eq, run.parameters_eq]
    exact forall₂_requireInFront run.covers.roles
  refine ⟨run.name_eq, hroles, ?_, fun role hrole => ?_, run.response, run.result_eq, run.answers,
    ?_⟩
  · rw [run.names_eq]
    exact run.covers.nodup
  · rw [run.names_eq]
    exact run.covers.requested role (run.roles_eq ▸ hrole)
  · rw [run.played_eq]
    exact ⟨run.parts, run.options, run.fills.isPartOf, run.passesOn, run.body_eq⟩

theorem assembles_of_methods {operations : List Operation} {functions : List Function}
    (h : methods operations scope before = (.ok functions, after)) :
    List.Forall₂ (Assembles scope) operations functions := by
  induction operations generalizing functions before with
  | nil =>
    obtain ⟨rfl, -⟩ := Session.pure_eq_ok.mp h
    exact List.Forall₂.nil
  | cons operation operations ih =>
    simp only [methods, Session.bind_eq_ok, Session.pure_eq_ok] at h
    obtain ⟨function, _, hfunction, others, _, hothers, rfl, rfl⟩ := h
    exact List.Forall₂.cons (assembles_of_method hfunction) (ih hothers)

/-- **The methods of a client are made from its operations.** -/
theorem IsRun.assembles {final : Progress} {client : Client} {functions : List Function}
    (h : client.IsRun scope final functions) :
    List.Forall₂ (Assembles scope) client.operations functions := by
  obtain ⟨before, after, hrun, -⟩ := h.run
  exact assembles_of_methods hrun

end Client

end ApiScribe
