import ApiScribe.Proofs.Signatures
import ApiScribe.Proofs.Values

/-!
# The parameters of a method

A caller sees of an operation only the parameters of its method.  They are written in four passes, over
the placeholders of the path, the path parameters that no placeholder belongs to, the body and the
query, and afterwards some of them are made required.  `method_signature` says what comes of this,
without the passes.

* The parameters are those that the operation calls for, each once: `roles_perm`.  What a path
  parameter with a placeholder contributes to the first pass is missing in the second, and nothing else
  is.
* A parameter is optional exactly if it need not be given and none behind it has to be
  (`arePlayedBy_requireInFront`).  One that is required only for its place admits `undefined`.
* In the request, every name stands for the parameter that was made for the place
  (`MethodRun.fills`, `MethodRun.passesOn`).
-/

namespace ApiScribe

open TypeScript

namespace Client

/-! ## Declared parameters -/

/-- Is it the declaration of a parameter of the same name at the same location? -/
def isDeclaredLike (parameter other : OperationParameter) : Bool :=
  other.location = parameter.location && other.name = parameter.name

/-- What is left of parameters is the first declaration of each location and name that is new. -/
theorem mem_firstParameters_iff {seen : List (ParameterLocation × String)}
    {parameters : List OperationParameter} {parameter : OperationParameter} :
    parameter ∈ firstParameters seen parameters ↔
      (parameter.location, parameter.name) ∉ seen ∧
        parameters.find? (isDeclaredLike parameter) = some parameter := by
  induction parameters generalizing seen with
  | nil => simp [firstParameters]
  | cons first parameters ih =>
    by_cases hlike : isDeclaredLike parameter first = true
    · have hkey : (first.location, first.name) = (parameter.location, parameter.name) := by
        simpa [isDeclaredLike] using hlike
      rw [List.find?_cons_of_pos hlike, firstParameters]
      split
      next hseen =>
        -- the first declaration is not new, and no other one of its name is
        rw [hkey, List.contains_iff_mem] at hseen
        rw [ih]
        exact iff_of_false (fun h => h.1 hseen) fun h => h.1 hseen
      next hseen =>
        rw [hkey, List.contains_iff_mem] at hseen
        rw [List.mem_cons, ih, hkey, Option.some_inj]
        have hnot : ¬ (parameter.location, parameter.name) ∉
            (parameter.location, parameter.name) :: seen := fun h => h List.mem_cons_self
        simp only [hnot, hseen, false_and, or_false, not_false_eq_true, true_and]
        exact eq_comm
    · have hkey : (parameter.location, parameter.name) ≠ (first.location, first.name) := by
        intro heq
        obtain ⟨hlocation, hname⟩ := Prod.mk.inj heq
        exact hlike (by simp [isDeclaredLike, hlocation, hname])
      have hne : parameter ≠ first := fun heq => hkey (by rw [heq])
      rw [List.find?_cons_of_neg hlike, firstParameters]
      split
      next => exact ih
      next =>
        rw [List.mem_cons, ih, List.mem_cons, not_or]
        simp only [hne, false_or, hkey, not_false_eq_true, true_and]

/-- **The parameters at a location** are those of which no earlier one has the same location and
name. -/
theorem mem_parametersAt_iff {operation : Operation} {location : ParameterLocation}
    {parameter : OperationParameter} :
    parameter ∈ operation.parametersAt location ↔
      parameter.location = location ∧
        operation.parameters.find? (isDeclaredLike parameter) = some parameter := by
  rw [Operation.parametersAt, List.mem_filter, mem_firstParameters_iff, decide_eq_true_iff]
  constructor
  · exact fun h => ⟨h.2, h.1.2⟩
  · exact fun h => ⟨⟨List.not_mem_nil, h.2⟩, h.1⟩

/-! ## Roles -/

/-- The placeholders among the pieces of a path that belong to no declared parameter, as often as they
occur. -/
def undeclaredAmong (declared : List OperationParameter) (segments : List PathSegment) :
    List String :=
  segments.filterMap fun segment => match segment with
    | .text _ => none
    | .placeholder placeholder =>
      match declaredFor? declared placeholder with
      | some _ => none
      | none => some placeholder

/-- A path parameter that gets a role is one fewer to get a role. -/
theorem unplacedRoles_perm {declared : List OperationParameter} {bound : List String}
    (hnodup : (declared.map OperationParameter.name).Nodup) {parameter : OperationParameter}
    (hmem : parameter ∈ declared) (hbound : parameter.name ∉ bound) :
    (Role.path parameter :: unplacedRoles declared (bound ++ [parameter.name])).Perm
      (unplacedRoles declared bound) := by
  induction declared with
  | nil => cases hmem
  | cons first declared ih =>
    rw [List.map_cons, List.nodup_cons] at hnodup
    obtain ⟨hfirst, hnodup⟩ := hnodup
    rw [unplacedRoles, unplacedRoles, List.filter_cons, List.filter_cons]
    rcases List.mem_cons.mp hmem with rfl | hmem
    · -- nothing else has the name
      have hothers : ∀ other ∈ declared, other.name ≠ parameter.name := by
        intro other hother heq
        exact hfirst (heq ▸ List.mem_map_of_mem hother)
      have hfilter : (declared.filter fun other => other.name ∉ bound ++ [parameter.name]) =
          declared.filter fun other => other.name ∉ bound := by
        refine List.filter_congr fun other hother => ?_
        simp [hothers other hother]
      rw [if_neg (by simp), if_pos (by simpa using hbound), hfilter]
      exact List.Perm.refl _
    · have hne : first.name ≠ parameter.name := by
        intro heq
        exact hfirst (heq ▸ List.mem_map_of_mem hmem)
      have hrest := ih hnodup hmem
      by_cases hplaced : first.name ∈ bound
      · rw [if_neg (by simp [hplaced]), if_neg (by simp [hplaced])]
        exact hrest
      · rw [if_pos (by simp [hplaced, hne]), if_pos (by simp [hplaced])]
        exact (List.Perm.swap _ _ _).trans (hrest.cons (Role.path first))

/-- **What the placeholders and the rest bring in together**: each declared parameter once, and each
other placeholder as often as it occurs. -/
theorem roles_perm {declared : List OperationParameter}
    (hnodup : (declared.map OperationParameter.name).Nodup) (bound : List String)
    (segments : List PathSegment) :
    (placedRoles declared bound segments ++
        unplacedRoles declared
          (bound ++ (placedRoles declared bound segments).filterMap Role.declaredName?)).Perm
      (unplacedRoles declared bound ++ (undeclaredAmong declared segments).map .free) := by
  induction segments generalizing bound with
  | nil => simp [placedRoles, undeclaredAmong]
  | cons segment segments ih =>
    cases segment with
    | text content => exact ih bound
    | placeholder placeholder =>
      rw [placedRoles, undeclaredAmong, List.filterMap_cons]
      cases hdeclared : declaredFor? declared placeholder with
      | none =>
        simp only [hdeclared]
        exact ((ih bound).cons (Role.free placeholder)).trans List.perm_middle.symm
      | some parameter =>
        simp only [hdeclared]
        split
        next => exact ih bound
        next hbound =>
          have hrest := (ih (bound ++ [parameter.name])).cons (Role.path parameter)
          have hone := unplacedRoles_perm hnodup (mem_of_declaredFor? hdeclared) hbound
          rw [List.append_assoc] at hrest
          exact hrest.trans (hone.append_right _)

end Client

/-- The placeholders in the path of an operation that belong to no declared parameter. -/
def Operation.undeclaredPlaceholders (operation : Operation) : List String :=
  Client.undeclaredAmong (operation.parametersAt .path) (PathSegment.ofPath operation.path)

namespace Client

/-- **The roles of an operation**: one for each path parameter, one for each placeholder without a
declaration, one for the body and one for the query. -/
theorem operation_roles_perm (operation : Operation) :
    operation.roles.Perm
      ((operation.parametersAt .path).map .path ++ operation.undeclaredPlaceholders.map .free ++
        operation.body.toList.map .body ++ queryRoles (operation.parametersAt .query)) := by
  have hpath := roles_perm (nodup_parametersAt operation .path) []
    (PathSegment.ofPath operation.path)
  have hall : unplacedRoles (operation.parametersAt .path) [] =
      (operation.parametersAt .path).map .path := by
    rw [unplacedRoles, List.filter_eq_self.mpr fun _ _ => by simp]
  rw [hall, List.nil_append] at hpath
  exact (hpath.append_right _).append_right _

/-! ## Optional parameters -/

/-- The parameters play the roles, in order.  A parameter is optional exactly if its role and all roles
behind it are. -/
inductive ArePlayedBy (scope : Scope) : List Role → List TypeScript.Parameter → Prop
  | nil : ArePlayedBy scope [] []
  | cons {role : Role} {roles : List Role} {parameter : TypeScript.Parameter}
    {parameters : List TypeScript.Parameter} (hplayed : role.IsPlayedBy scope parameter)
    (hoptional : parameter.optional = (role.optional && roles.all Role.optional))
    (h : ArePlayedBy scope roles parameters) :
    ArePlayedBy scope (role :: roles) (parameter :: parameters)

theorem requireInFront_snd (parameters : List TypeScript.Parameter) :
    (requireInFront parameters).2 = !parameters.all TypeScript.Parameter.optional := by
  induction parameters with
  | nil => rfl
  | cons parameter parameters ih =>
    rw [requireInFront, List.all_cons, ← Bool.not_not (parameters.all _), ← ih]
    dsimp only
    cases parameter.optional <;> cases (requireInFront parameters).2 <;> rfl

variable {scope : Scope} {before after : Progress} {operation : Operation} {function : Function}
  {role : Role} {roles : List Role} {parameter : TypeScript.Parameter}
  {parameters : List TypeScript.Parameter}

/-- **Making parameters required** leaves those optional behind which nothing is required. -/
theorem arePlayedBy_requireInFront (h : List.Forall₂ (Role.IsPlayedBy scope) roles parameters)
    (hoptional : parameters.map TypeScript.Parameter.optional = roles.map Role.optional) :
    ArePlayedBy scope roles (requireInFront parameters).1 := by
  induction h with
  | nil => exact .nil
  | @cons role parameter roles parameters hplayed _ ih =>
    rw [List.map_cons, List.map_cons, List.cons.injEq] at hoptional
    obtain ⟨hhead, htail⟩ := hoptional
    have hrest := ih htail
    have hall : parameters.all TypeScript.Parameter.optional = roles.all Role.optional := by
      have hsame := congrArg (fun flags => flags.all id) htail
      simpa only [List.all_map, Function.id_comp] using hsame
    have hfollows := requireInFront_snd parameters
    rw [hall] at hfollows
    rw [requireInFront]
    dsimp only
    split
    next hrequired =>
      have hrequired : parameter.optional = false := by simpa using hrequired
      refine .cons hplayed ?_ hrest
      rw [← hhead, hrequired, Bool.false_and]
    next hoptional =>
      have hoptional : parameter.optional = true := by simpa using hoptional
      split
      next hbehind =>
        refine .cons (hplayed.required hoptional) ?_ hrest
        rw [hfollows, Bool.not_eq_true'] at hbehind
        rw [hbehind, Bool.and_false]
      next hbehind =>
        refine .cons hplayed ?_ hrest
        rw [hfollows, Bool.not_eq_true, Bool.not_eq_false'] at hbehind
        rw [hbehind, Bool.and_true, hhead]

theorem ArePlayedBy.optional_of_all (h : ArePlayedBy scope roles parameters)
    (hall : roles.all Role.optional = true) :
    ∀ parameter ∈ parameters, parameter.optional = true := by
  induction h with
  | nil => exact fun _ hmem => absurd hmem List.not_mem_nil
  | cons hplayed hoptional _ ih =>
    rw [List.all_cons, Bool.and_eq_true] at hall
    refine List.forall_mem_cons.mpr ⟨?_, ih hall.2⟩
    rw [hoptional, hall.1, hall.2]
    rfl

/-- **No optional parameter stands in front of a required one.** -/
theorem ArePlayedBy.pairwise (h : ArePlayedBy scope roles parameters) :
    parameters.Pairwise fun first second =>
      first.optional = true → second.optional = true := by
  induction h with
  | nil => exact List.Pairwise.nil
  | cons hplayed hoptional hrest ih =>
    refine List.Pairwise.cons (fun second hsecond hfirst => ?_) ih
    rw [hoptional, Bool.and_eq_true] at hfirst
    exact hrest.optional_of_all hfirst.2 second hsecond

/-- What holds of a parameter by its role alone. -/
theorem ArePlayedBy.of_mem_zip (h : ArePlayedBy scope roles parameters)
    (hmem : (role, parameter) ∈ roles.zip parameters) :
    role.IsPlayedBy scope parameter ∧ (parameter.optional = true → role.optional = true) := by
  induction h with
  | nil => cases hmem
  | cons hplayed hoptional _ ih =>
    rw [List.zip_cons_cons] at hmem
    rcases List.mem_cons.mp hmem with heq | hmem
    · obtain ⟨rfl, rfl⟩ := Prod.mk.inj heq
      refine ⟨hplayed, fun hparameter => ?_⟩
      rw [hoptional, Bool.and_eq_true] at hparameter
      exact hparameter.1
    · exact ih hmem

/-- A parameter that is required only for its place admits `undefined`. -/
theorem Role.IsPlayedBy.has_undefined (h : role.IsPlayedBy scope parameter)
    (hrole : role.optional = true) (hparameter : parameter.optional = false)
    (declarations : List Declaration) : parameter.type.Has declarations none := by
  obtain ⟨-, type, -, ⟨-, hsame⟩ | ⟨htype, -, -⟩⟩ := h
  · rw [hparameter, hrole] at hsame
    cases hsame
  · rw [htype, Ty.has_withBottom_iff]
    exact Or.inr ((Ty.has_bottom_iff .undefined).mpr rfl)

/-- Nothing stands behind the query, so its parameter keeps the type of an object. -/
theorem ArePlayedBy.type_of_query {query : List OperationParameter}
    (h : ArePlayedBy scope (roles ++ queryRoles query) parameters)
    (hother : ∀ role ∈ roles, ∀ others, role ≠ .query others) {others : List OperationParameter}
    (hmem : (.query others, parameter) ∈ (roles ++ queryRoles query).zip parameters) :
    ∃ properties, parameter.type = .object properties none ∧
      List.Forall₂ (Role.PropertyFor scope) others properties := by
  induction roles generalizing parameters with
  | nil =>
    have hrole := eq_query_of_mem_queryRoles (List.of_mem_zip hmem).1
    rw [List.nil_append, queryRoles] at h hmem
    split at h
    next hempty =>
      rw [if_pos hempty] at hmem
      cases hmem
    next hquery =>
      rw [if_neg hquery] at hmem
      cases h with
      | cons hplayed hoptional hrest =>
        cases hrest
        obtain ⟨-, heq⟩ := Prod.mk.inj (List.mem_singleton.mp hmem)
        subst heq
        rw [List.all_nil, Bool.and_true] at hoptional
        obtain ⟨-, type, htype, ⟨hsame, -⟩ | ⟨-, hrole', hparameter⟩⟩ := hplayed
        · cases htype with
          | query hproperties =>
            cases hrole
            exact ⟨_, hsame, hproperties⟩
        · rw [hparameter, hrole'] at hoptional
          cases hoptional
  | cons role roles ih =>
    obtain ⟨hhead, htail⟩ := List.forall_mem_cons.mp hother
    cases h with
    | cons hplayed hoptional hrest =>
      rw [List.cons_append, List.zip_cons_cons] at hmem
      rcases List.mem_cons.mp hmem with heq | hmem
      · exact absurd (Prod.mk.inj heq).1.symm (hhead others)
      · exact ih hrest htail hmem

/-! ## Signatures -/

/-- The signature of the method is the one that the operation calls for, and the request passes every
parameter on to the place that it was made for. -/
structure HasSignature (scope : Scope) (operation : Operation) (function : Function) : Prop where
  names : (function.parameters.map TypeScript.Parameter.name).Nodup
  roles : operation.roles.Perm
    ((operation.parametersAt .path).map .path ++ operation.undeclaredPlaceholders.map .free ++
      operation.body.toList.map .body ++ queryRoles (operation.parametersAt .query))
  parameters : ArePlayedBy scope operation.roles function.parameters
  inPath : ∀ role parameter, (role, parameter) ∈ operation.roles.zip function.parameters →
    (∃ declared, role = .path declared) ∨ (∃ placeholder, role = .free placeholder) →
    parameter.optional = false
  inQuery : ∀ query parameter,
    (.query query, parameter) ∈ operation.roles.zip function.parameters →
    ∃ properties, parameter.type = .object properties none ∧
      List.Forall₂ (Role.PropertyFor scope) query properties
  order : function.parameters.Pairwise fun first second =>
    first.optional = true → second.optional = true
  made : ∀ role parameter, (role, parameter) ∈ operation.roles.zip function.parameters →
    role.optional = true → parameter.optional = false →
    ∀ declarations, parameter.type.Has declarations none
  request : ∃ parts options response,
    Fills (operation.parametersAt .path)
      (operation.roles.zip (function.parameters.map TypeScript.Parameter.name))
      (freeNames (operation.roles.zip (function.parameters.map TypeScript.Parameter.name)))
      (PathSegment.ofPath operation.path) parts ∧
    List.Forall₂
      (IsOptionOf (operation.roles.zip (function.parameters.map TypeScript.Parameter.name)))
      (queryRoles (operation.parametersAt .query) ++ operation.body.toList.map .body) options ∧
    function.body = [.return (some (requestCall operation.method
      (pathExpression operation.path parts) options response))]

theorem MethodRun.arePlayedBy (run : MethodRun scope operation function) :
    ArePlayedBy scope operation.roles function.parameters := by
  rw [← run.roles_eq, run.parameters_eq]
  exact arePlayedBy_requireInFront run.covers.roles run.covers.optional

/-- The only role for a query is the last one. -/
theorem operation_roles_eq (operation : Operation) :
    ∃ roles, operation.roles = roles ++ queryRoles (operation.parametersAt .query) ∧
      ∀ role ∈ roles, ∀ others, role ≠ .query others := by
  refine ⟨_, rfl, fun role hrole others heq => ?_⟩
  subst heq
  have hpath := (roles_perm (nodup_parametersAt operation .path) []
    (PathSegment.ofPath operation.path)).mem_iff (a := .query others)
  rw [List.nil_append] at hpath
  rcases List.mem_append.mp hrole with hrole | hrole
  · have hmem := hpath.mp hrole
    simp [unplacedRoles] at hmem
  · simp at hrole

/-- **The signature of a method** is complete and well formed. -/
theorem method_signature (h : method operation scope before = (.ok function, after)) :
    HasSignature scope operation function ∧
      ∀ location, ((operation.parametersAt location).map OperationParameter.name).Nodup ∧
        ∀ parameter, parameter ∈ operation.parametersAt location ↔
          parameter.location = location ∧
            operation.parameters.find? (isDeclaredLike parameter) = some parameter := by
  obtain ⟨run⟩ := exists_methodRun h
  have hplayed := run.arePlayedBy
  refine ⟨⟨?_, operation_roles_perm operation, hplayed, ?_, ?_, hplayed.pairwise, ?_, ?_⟩,
    fun location => ⟨nodup_parametersAt operation location, fun _ => mem_parametersAt_iff⟩⟩
  · rw [run.names_eq]
    exact run.covers.nodup
  · intro role parameter hmem hpath
    have hrole : role.optional = false := by
      rcases hpath with ⟨declared, rfl⟩ | ⟨placeholder, rfl⟩ <;> rfl
    by_contra hoptional
    have hsame := (hplayed.of_mem_zip hmem).2 (eq_true_of_ne_false hoptional)
    rw [hrole] at hsame
    cases hsame
  · intro query parameter hmem
    obtain ⟨roles, hroles, hother⟩ := operation_roles_eq operation
    rw [hroles] at hplayed hmem
    exact hplayed.type_of_query hother hmem
  · intro role parameter hmem hrole hparameter declarations
    exact (hplayed.of_mem_zip hmem).1.has_undefined hrole hparameter declarations
  · rw [run.played_eq]
    exact ⟨run.parts, run.options, run.response, run.fills, run.passesOn, run.body_eq⟩

/-- Put a file of a user under a name: the user is declared in another case than the path has it, and
the name is not declared at all.  What to put there may be left out, but not how. -/
def putFile : Operation where
  method := .put
  path := "/users/\x7buser_id\x7d/files/\x7bname\x7d"
  id := "putFile"
  summary := none
  tags := []
  parameters :=
    [{ name := "userId", location := .path, required := true, shape := .string },
      { name := "mode", location := .query, required := true, shape := .string },
      { name := "mode", location := .query, required := false, shape := .unknown }]
  body := some { shape := .string, required := false }
  response := none

/-- Does the operation have a method, and does it pass a check? -/
def yieldsMethod (operation : Operation) (scope : Scope) (check : Function → Bool) : Bool :=
  match (method operation scope {}).1 with
  | .ok function => check function
  | .error _ => false

theorem exists_of_yieldsMethod {check : Function → Bool}
    (h : yieldsMethod operation scope check = true) :
    ∃ function after, method operation scope {} = (.ok function, after) ∧
      check function = true := by
  rw [yieldsMethod] at h
  split at h
  next function hfunction => exact ⟨function, _, Prod.ext hfunction rfl, h⟩
  next => cases h

theorem method_signature_putFile :
    ∃ scope function after, method putFile scope {} = (.ok function, after) ∧
      HasSignature scope putFile function ∧
      function.parameters.map TypeScript.Parameter.name = ["userId", "name", "body", "params"] ∧
      function.parameters.map TypeScript.Parameter.optional = [false, false, false, false] := by
  have hyields : yieldsMethod putFile ⟨.null, {}, [], []⟩ (fun function =>
      function.parameters.map TypeScript.Parameter.name = ["userId", "name", "body", "params"] &&
        function.parameters.map TypeScript.Parameter.optional = [false, false, false, false]) =
      true := by decide +kernel
  obtain ⟨function, after, h, hcheck⟩ := exists_of_yieldsMethod hyields
  obtain ⟨hnames, hoptional⟩ := (Bool.and_eq_true _ _).mp hcheck
  exact ⟨_, function, after, h, (method_signature h).1, of_decide_eq_true hnames,
    of_decide_eq_true hoptional⟩

end Client

end ApiScribe
