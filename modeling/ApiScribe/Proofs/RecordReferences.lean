import ApiScribe.Operation.Basic
import ApiScribe.Proofs.GenerationRun
import ApiScribe.Proofs.TypeOfShape

/-!
# References to bodies and responses

The body and the responses of an operation may be written elsewhere, and a reference stands in their
place.  What it leads to may be a reference again, a *link*: an object with a textual `$ref`.  A chain
of links ends at a value that is none (`Pointer.LeadsTo`), and one would expect the operation to be as
if that value were written in place of the first reference.

References are followed by one step.  A reference that leads to its record directly is as good as the
record (`ofRecord_rewrite`).  One that leads to a link is not an error: a link can be read as a record
without content, so nothing is found there, and the body or the response is left out
(`ofRecord_withoutLinks`).

`ofDocument_inPlace` states both of all operations of a document, and when a body survives.
`exists_lost_body` is an operation whose body does not.
-/

namespace ApiScribe

/-- Is the value a link, that is, an object with a textual reference? -/
def Json.isLink (value : Json) : Bool :=
  match value.member? "$ref" with
  | some (.string _) => true
  | _ => false

theorem Json.isLink_of_member? {value : Json} {next : String}
    (h : value.member? "$ref" = some (.string next)) : value.isLink = true := by
  rw [isLink, h]

/-- The pointer leads to the value, which is no link, through links that each refer to the next. -/
inductive Pointer.LeadsTo (root : Json) : String → List Json → Json → Prop
  | final {pointer : String} {value : Json} (hlookup : lookup root pointer = .ok value)
    (hvalue : value.isLink = false) : LeadsTo root pointer [] value
  | link {pointer next : String} {link value : Json} {links : List Json}
    (hlookup : lookup root pointer = .ok link)
    (hnext : link.member? "$ref" = some (.string next)) (h : LeadsTo root next links value) :
    LeadsTo root pointer (link :: links) value

/-! ## One reference -/

namespace OrReference

variable {α : Type} {root : Json} {decode : Json → Option α}

/-- What is declared may be written in this way: as it is, or with the record that a reference leads
to in place of the reference. -/
inductive InPlace (root : Json) (decode : Json → Option α) : OrReference α → OrReference α → Prop
  | kept (declared : OrReference α) : InPlace root decode declared declared
  | final {pointer : String} {links : List Json} {value : Json} {record : α}
    (h : Pointer.LeadsTo root pointer links value) (hdecode : decode value = some record) :
    InPlace root decode (.reference pointer) (.item record)

/-- A way of writing what is declared with records in place of references. -/
def WritesInPlace (root : Json) (decode : Json → Option α) (write : OrReference α → OrReference α) :
    Prop :=
  ∀ declared, InPlace root decode declared (write declared)

/-- Is it a reference to a link? -/
def isIndirect (root : Json) : OrReference α → Bool
  | .reference pointer =>
    match Pointer.lookup root pointer with
    | .ok value => value.isLink
    | .error _ => false
  | .item _ => false

/-- A reference is indirect exactly if there are links on its way. -/
theorem isIndirect_of_leadsTo {pointer : String} {links : List Json} {value : Json}
    (h : Pointer.LeadsTo root pointer links value) :
    (reference pointer : OrReference α).isIndirect root = !links.isEmpty := by
  cases h with
  | final hlookup hvalue => simp only [isIndirect, hlookup, hvalue, List.isEmpty_nil, Bool.not_true]
  | link hlookup hnext _ =>
    simp only [isIndirect, hlookup, Json.isLink_of_member? hnext, List.isEmpty_cons, Bool.not_false]

/-- Where a record stands that is written in place of a direct reference, the same record was found
before. -/
theorem InPlace.resolve_eq {declared written : OrReference α}
    (h : InPlace root decode declared written) (hdirect : declared.isIndirect root = false) :
    written.resolve decode root = declared.resolve decode root := by
  cases h with
  | kept => rfl
  | final h hdecode =>
    rw [isIndirect_of_leadsTo h] at hdirect
    cases h with
    | final hlookup _ =>
      simp only [resolve, Pointer.lookupAs, hlookup, bind, Except.bind, hdecode]
    | link => cases hdirect

/-- The links that references lead to have no content of their own beside the reference. -/
def HasBareLink (root : Json) (declared : OrReference α) : Prop :=
  ∀ pointer link, declared = .reference pointer → Pointer.lookup root pointer = .ok link →
    link.isLink = true → link.member? "content" = none

/-- What is found at a bare link was read from a value without content. -/
theorem exists_of_resolve {declared : OrReference α} {record : α}
    (hindirect : declared.isIndirect root = true) (hbare : declared.HasBareLink root)
    (h : declared.resolve decode root = .ok record) :
    ∃ members : Table Json, members.get? "content" = none ∧
      decode (.object members) = some record := by
  cases declared with
  | item value => cases hindirect
  | reference pointer =>
    simp only [resolve, Pointer.lookupAs, CompileError.bind_eq_ok] at h
    obtain ⟨value, hlookup, h⟩ := h
    rw [isIndirect, hlookup] at hindirect
    have hcontent := hbare pointer value rfl hlookup hindirect
    split at h
    next target hdecode =>
      cases h
      cases value with
      | object members => exact ⟨members, hcontent, hdecode⟩
      | _ => cases hindirect
    next => cases h

theorem content_of_body {declared : OrReference BodyRecord} {record : BodyRecord}
    (hindirect : declared.isIndirect root = true) (hbare : declared.HasBareLink root)
    (h : declared.resolve BodyRecord.ofJson? root = .ok record) : record.content = none := by
  obtain ⟨members, hcontent, hdecode⟩ := exists_of_resolve hindirect hbare h
  simp only [BodyRecord.ofJson?, Json.record?, Json.optionalField?, hcontent,
    Option.bind_eq_bind, Option.bind_some, Option.bind_eq_some_iff, Option.pure_def,
    Option.some.injEq] at hdecode
  obtain ⟨_, _, rfl⟩ := hdecode
  rfl

theorem content_of_response {declared : OrReference ResponseRecord} {record : ResponseRecord}
    (hindirect : declared.isIndirect root = true) (hbare : declared.HasBareLink root)
    (h : declared.resolve ResponseRecord.ofJson? root = .ok record) : record.content = none := by
  obtain ⟨members, hcontent, hdecode⟩ := exists_of_resolve hindirect hbare h
  simp only [ResponseRecord.ofJson?, Json.record?, Option.bind_eq_bind, Option.bind_some,
    Option.bind_eq_some_iff, Option.pure_def, Option.some.injEq] at hdecode
  obtain ⟨_, _, content, hnone, rfl⟩ := hdecode
  rw [Json.optionalField?, hcontent] at hnone
  exact (Option.some.inj hnone).symm

end OrReference

/-! ## One operation -/

/-- The record with its body and its responses written in another way. -/
def OperationRecord.rewrite (body : OrReference BodyRecord → OrReference BodyRecord)
    (response : OrReference ResponseRecord → OrReference ResponseRecord)
    (declared : OperationRecord) : OperationRecord :=
  { declared with
    body := declared.body.map body
    responses := declared.responses.map fun entry => (entry.1, response entry.2) }

/-- The record without what is declared by references to links. -/
def OperationRecord.withoutLinks (root : Json) (declared : OperationRecord) : OperationRecord :=
  { declared with
    body := declared.body.filter fun body => !body.isIndirect root
    responses := declared.responses.filter fun entry => !entry.2.isIndirect root }

/-- Nothing that the operation reads is declared by a reference to a link: neither its body nor the
response to a successful request. -/
structure OperationRecord.IsDirect (root : Json) (declared : OperationRecord) : Prop where
  body : ∀ body, declared.body = some body → body.isIndirect root = false
  responses : ∀ response ∈ Operation.successResponses declared.responses,
    response.isIndirect root = false

/-- The links at which the body and the responses to successful requests are looked for are bare. -/
structure OperationRecord.HasBareLinks (root : Json) (declared : OperationRecord) : Prop where
  body : ∀ body, declared.body = some body → body.HasBareLink root
  responses : ∀ response ∈ Operation.successResponses declared.responses, response.HasBareLink root

namespace Operation

variable {root : Json} {path : String} {shared : List (OrReference ParameterRecord)}
  {method : HttpMethod} {declared : OperationRecord} {operation : Operation}

/-- Which responses count depends on their codes alone. -/
theorem successResponses_map (f : OrReference ResponseRecord → OrReference ResponseRecord)
    (responses : Table (OrReference ResponseRecord)) :
    successResponses (responses.map fun entry => (entry.1, f entry.2)) =
      (successResponses responses).map f := by
  simp only [successResponses, List.map_flatMap, List.filterMap_map]
  refine congrArg (fun part => List.flatMap part (List.range' 200 100)) (funext fun code => ?_)
  rw [List.filter_filterMap, List.filter_filterMap, List.map_filterMap, List.map_map,
    List.map_filterMap]
  refine congrArg (fun part => List.filterMap part responses) (funext fun entry => ?_)
  simp only [Function.comp_apply]
  cases Numeral.below? statusBound entry.1.toList with
  | none => rfl
  | some number =>
    by_cases hcode : number = code <;> simp [Option.filter_some, hcode]

theorem successResponses_filter (p : OrReference ResponseRecord → Bool)
    (responses : Table (OrReference ResponseRecord)) :
    successResponses (responses.filter fun entry => p entry.2) =
      (successResponses responses).filter p := by
  simp only [successResponses, List.filter_flatMap, List.filterMap_filter]
  refine congrArg (fun part => List.flatMap part (List.range' 200 100)) (funext fun code => ?_)
  rw [List.filter_filterMap, List.filter_filterMap, List.filter_map, List.filter_filterMap]
  refine congrArg (fun part => List.map Prod.snd (List.filterMap part responses))
    (funext fun entry => ?_)
  cases Numeral.below? statusBound entry.1.toList with
  | none => cases p entry.2 <;> rfl
  | some number =>
    by_cases hcode : number = code <;> cases hp : p entry.2 <;>
      simp [Option.filter_some, hcode, hp]

theorem bodyOf_map {f : OrReference BodyRecord → OrReference BodyRecord}
    (hf : OrReference.WritesInPlace root BodyRecord.ofJson? f)
    {body : Option (OrReference BodyRecord)}
    (hdirect : ∀ declared, body = some declared → declared.isIndirect root = false) :
    bodyOf root (body.map f) = bodyOf root body := by
  cases body with
  | none => rfl
  | some declared =>
    simp only [Option.map_some, bodyOf, (hf declared).resolve_eq (hdirect declared rfl)]

theorem firstJson_map {f : OrReference ResponseRecord → OrReference ResponseRecord}
    (hf : OrReference.WritesInPlace root ResponseRecord.ofJson? f)
    {responses : List (OrReference ResponseRecord)}
    (hdirect : ∀ response ∈ responses, response.isIndirect root = false) :
    firstJson root (responses.map f) = firstJson root responses := by
  induction responses with
  | nil => rfl
  | cons response responses ih =>
    obtain ⟨hresponse, hresponses⟩ := List.forall_mem_cons.mp hdirect
    simp only [List.map_cons, firstJson, (hf response).resolve_eq hresponse, ih hresponses]

/-- **References that lead to their records directly may be written in place.** -/
theorem ofRecord_rewrite {body : OrReference BodyRecord → OrReference BodyRecord}
    {response : OrReference ResponseRecord → OrReference ResponseRecord}
    (hbody : OrReference.WritesInPlace root BodyRecord.ofJson? body)
    (hresponse : OrReference.WritesInPlace root ResponseRecord.ofJson? response)
    (hdirect : declared.IsDirect root) :
    ofRecord root path shared method (declared.rewrite body response) =
      ofRecord root path shared method declared := by
  simp only [ofRecord, OperationRecord.rewrite, successShape, successResponses_map,
    bodyOf_map hbody hdirect.body, firstJson_map hresponse hdirect.responses]

/-! ## What is not found -/

/-- A bare link is read as a body without content. -/
theorem bodyOf_eq_none {indirect : OrReference BodyRecord} {body : Option RequestBody}
    (hindirect : indirect.isIndirect root = true) (hbare : indirect.HasBareLink root)
    (h : bodyOf root (some indirect) = .ok body) : body = none := by
  obtain ⟨record, hrecord, h⟩ := CompileError.bind_eq_ok.mp h
  rw [OrReference.content_of_body hindirect hbare hrecord] at h
  exact (Except.ok.inj h).symm

theorem bodyOf_filter {declared : Option (OrReference BodyRecord)} {body : Option RequestBody}
    (hbare : ∀ body, declared = some body → body.HasBareLink root)
    (h : bodyOf root declared = .ok body) :
    bodyOf root (declared.filter fun body => !body.isIndirect root) = .ok body := by
  cases declared with
  | none => exact h
  | some declared =>
    cases hindirect : declared.isIndirect root with
    | false => rwa [Option.filter_some, hindirect]
    | true =>
      rw [Option.filter_some, hindirect, bodyOf_eq_none hindirect (hbare declared rfl) h]
      rfl

/-- A bare link is passed over in the search for an answer. -/
theorem firstJson_filter {responses : List (OrReference ResponseRecord)} {answer : Option Shape}
    (hbare : ∀ response ∈ responses, response.HasBareLink root)
    (h : firstJson root responses = .ok answer) :
    firstJson root (responses.filter fun response => !response.isIndirect root) = .ok answer := by
  induction responses with
  | nil => exact h
  | cons response responses ih =>
    obtain ⟨hresponse, hresponses⟩ := List.forall_mem_cons.mp hbare
    rw [firstJson] at h
    obtain ⟨record, hrecord, h⟩ := CompileError.bind_eq_ok.mp h
    cases hindirect : response.isIndirect root with
    | true =>
      rw [OrReference.content_of_response hindirect hresponse hrecord] at h
      rw [List.filter_cons_of_neg (by simp [hindirect])]
      exact ih hresponses h
    | false =>
      rw [List.filter_cons_of_pos (by simp [hindirect]), firstJson]
      refine CompileError.bind_eq_ok.mpr ⟨record, hrecord, ?_⟩
      cases hjson : jsonShape? record.content with
      | some shape =>
        rw [hjson] at h
        exact h
      | none =>
        rw [hjson] at h
        exact ih hresponses h

/-- There is no answer exactly if no response has content. -/
theorem firstJson_eq_none_iff {responses : List (OrReference ResponseRecord)}
    {answer : Option Shape} (h : firstJson root responses = .ok answer) :
    answer = none ↔ ∀ response ∈ responses, ∀ record,
      response.resolve ResponseRecord.ofJson? root = .ok record →
        jsonShape? record.content = none := by
  induction responses with
  | nil =>
    obtain rfl := Except.ok.inj h
    exact iff_of_true rfl fun _ hmem => absurd hmem List.not_mem_nil
  | cons response responses ih =>
    rw [firstJson] at h
    obtain ⟨record, hrecord, h⟩ := CompileError.bind_eq_ok.mp h
    have hhead : (∀ other, response.resolve ResponseRecord.ofJson? root = .ok other →
        jsonShape? other.content = none) ↔ jsonShape? record.content = none := by
      simp only [hrecord, Except.ok.injEq, forall_eq']
    rw [List.forall_mem_cons, hhead]
    cases hjson : jsonShape? record.content with
    | some shape =>
      rw [hjson] at h
      obtain rfl := Except.ok.inj h
      exact iff_of_false nofun fun hnone => nomatch hnone.1
    | none =>
      rw [hjson] at h
      exact (ih h).trans (and_iff_right rfl).symm

/-- **What is declared by references to bare links is left out.** -/
theorem ofRecord_withoutLinks (hbare : declared.HasBareLinks root)
    (h : ofRecord root path shared method declared = .ok operation) :
    ofRecord root path shared method (declared.withoutLinks root) = .ok operation := by
  simp only [ofRecord, CompileError.bind_eq_ok] at h ⊢
  obtain ⟨parameters, hparameters, body, hbody, answer, hanswer, h⟩ := h
  refine ⟨parameters, hparameters, body, bodyOf_filter hbare.body hbody, answer, ?_, h⟩
  rw [successShape, OperationRecord.withoutLinks,
    successResponses_filter fun response => !response.isIndirect root]
  exact firstJson_filter hbare.responses hanswer

/-- The answer is lost exactly if the responses that have content are behind links. -/
theorem response_eq_none_iff (hbare : declared.HasBareLinks root)
    (h : ofRecord root path shared method declared = .ok operation) :
    operation.response = none ↔ ∀ response ∈ successResponses declared.responses,
      response.isIndirect root = false → ∀ record,
        response.resolve ResponseRecord.ofJson? root = .ok record →
          jsonShape? record.content = none := by
  simp only [ofRecord, CompileError.bind_eq_ok] at h
  obtain ⟨_, _, _, _, answer, hanswer, h⟩ := h
  obtain rfl := Except.ok.inj h
  refine (firstJson_eq_none_iff hanswer).trans (forall₂_congr fun response hmem => ?_)
  refine ⟨fun h _ => h, fun h record hrecord => ?_⟩
  cases hindirect : response.isIndirect root with
  | false => exact h hindirect record hrecord
  | true =>
    rw [OrReference.content_of_response hindirect (hbare.responses response hmem) hrecord]
    rfl

/-- The body of an operation is the one that a reference leads to, unless there are links on the way
and the body has content that could be lost. -/
theorem bodyOf_inPlace_iff {pointer : String} {links : List Json} {value : Json}
    {record : BodyRecord} (hbare : declared.HasBareLinks root)
    (h : ofRecord root path shared method declared = .ok operation)
    (hdeclared : declared.body = some (.reference pointer))
    (hleads : Pointer.LeadsTo root pointer links value)
    (hrecord : BodyRecord.ofJson? value = some record) :
    bodyOf root (some (.item record)) = .ok operation.body ↔
      links = [] ∨ jsonShape? record.content = none := by
  simp only [ofRecord, CompileError.bind_eq_ok] at h
  obtain ⟨_, _, body, hbody, _, _, h⟩ := h
  obtain rfl := Except.ok.inj h
  rw [hdeclared] at hbody
  have hindirect : (OrReference.reference pointer : OrReference BodyRecord).isIndirect root =
      !links.isEmpty := OrReference.isIndirect_of_leadsTo hleads
  cases links with
  | nil =>
    have hresolve := (OrReference.InPlace.final hleads hrecord).resolve_eq hindirect
    refine iff_of_true ?_ (Or.inl rfl)
    rw [← hbody, bodyOf, bodyOf, hresolve]
  | cons link links =>
    rw [bodyOf_eq_none hindirect (hbare.body _ hdeclared) hbody]
    simp [bodyOf, OrReference.resolve, bind, Except.bind]

/-! ## All operations -/

/-- Each declaration makes one operation. -/
theorem forall₂_of_ofRecords {used : List String}
    {declarations : List (String × List (OrReference ParameterRecord) × HttpMethod ×
      OperationRecord)} {operations : List Operation}
    (h : ofRecords root used declarations = .ok operations) :
    List.Forall₂ (fun declaration operation => ofRecord root declaration.1 declaration.2.1
      declaration.2.2.1 declaration.2.2.2 = .ok operation) declarations operations := by
  induction declarations generalizing used operations with
  | nil =>
    obtain rfl := Except.ok.inj h
    exact List.Forall₂.nil
  | cons declaration declarations ih =>
    obtain ⟨operation, hoperation, h⟩ := CompileError.bind_eq_ok.mp h
    split at h
    · cases h
    · obtain ⟨others, hothers, h⟩ := CompileError.bind_eq_ok.mp h
      obtain rfl := Except.ok.inj h
      exact List.Forall₂.cons hoperation (ih hothers)

/-- How an operation depends on the references in its declaration. -/
structure InPlaceOf (root : Json) (path : String) (shared : List (OrReference ParameterRecord))
    (method : HttpMethod) (declared : OperationRecord) (operation : Operation) : Prop where
  /-- Without links, it is the operation of the declaration with records in place. -/
  direct : declared.IsDirect root → ∀ body response,
    OrReference.WritesInPlace root BodyRecord.ofJson? body →
    OrReference.WritesInPlace root ResponseRecord.ofJson? response →
    ofRecord root path shared method (declared.rewrite body response) = .ok operation
  /-- Bare links count for nothing. -/
  bare : declared.HasBareLinks root →
    ofRecord root path shared method (declared.withoutLinks root) = .ok operation
  /-- The body is the one that a reference leads to unless there are bare links on the way and it
  has content. -/
  body : declared.HasBareLinks root → ∀ pointer links value record,
    declared.body = some (.reference pointer) → Pointer.LeadsTo root pointer links value →
    BodyRecord.ofJson? value = some record →
    (bodyOf root (some (.item record)) = .ok operation.body ↔
      links = [] ∨ jsonShape? record.content = none)
  /-- There is no answer exactly if no response has content that is not behind bare links. -/
  response : declared.HasBareLinks root →
    (operation.response = none ↔ ∀ response ∈ successResponses declared.responses,
      response.isIndirect root = false → ∀ record,
        response.resolve ResponseRecord.ofJson? root = .ok record →
          jsonShape? record.content = none)

/-- **References of operations.**  Every operation of a document is that of its declaration with
records written in place of references, as long as these lead to the records directly.  Bodies and
responses behind bare links are left out, and what they hold is lost exactly then. -/
theorem ofDocument_inPlace {document : Document} {operations : List Operation}
    (h : ofDocument document = .ok operations) :
    List.Forall₂ (fun declaration operation => InPlaceOf document.root declaration.1
      declaration.2.1 declaration.2.2.1 declaration.2.2.2 operation)
      (declarations document.paths) operations := by
  refine (forall₂_of_ofRecords h).imp fun declaration operation hoperation => ?_
  exact {
    direct := fun hdirect body response hbody hresponse =>
      (ofRecord_rewrite hbody hresponse hdirect).trans hoperation
    bare := fun hbare => ofRecord_withoutLinks hbare hoperation
    body := fun hbare _ _ _ _ hdeclared hleads hrecord =>
      bodyOf_inPlace_iff hbare hoperation hdeclared hleads hrecord
    response := fun hbare => response_eq_none_iff hbare hoperation }

/-- A document with two references to one body: the first is direct, and the second leads to a link. -/
def sharedBody : String :=
  String.intercalate "\n"
    ["openapi: 3.0.0",
      "paths:",
      " /pets:",
      "  post:",
      "   requestBody:",
      "    $ref: '#/components/requestBodies/Pet'",
      "  put:",
      "   requestBody:",
      "    $ref: '#/components/requestBodies/Same'",
      "components:",
      " requestBodies:",
      "  Same:",
      "   $ref: '#/components/requestBodies/Pet'",
      "  Pet:",
      "   content:",
      "    application/json: \x7b\x7d"]

/-- What is declared, with the records that references lead to directly in their places. -/
def writeDirect {α : Type} (root : Json) (decode : Json → Option α) :
    OrReference α → OrReference α
  | .item value => .item value
  | .reference pointer =>
    match Pointer.lookup root pointer with
    | .error _ => .reference pointer
    | .ok value =>
      if value.isLink then .reference pointer
      else match decode value with
        | some record => .item record
        | none => .reference pointer

theorem writesInPlace_writeDirect {α : Type} (root : Json) (decode : Json → Option α) :
    OrReference.WritesInPlace root decode (writeDirect root decode) := by
  intro declared
  cases declared with
  | item value => exact OrReference.InPlace.kept _
  | reference pointer =>
    rw [writeDirect]
    split
    · exact OrReference.InPlace.kept _
    next value hlookup =>
      split
      · exact OrReference.InPlace.kept _
      next hlink =>
        split
        next record hdecode =>
          exact OrReference.InPlace.final
            (Pointer.LeadsTo.final hlookup (eq_false_of_ne_true hlink)) hdecode
        · exact OrReference.InPlace.kept _

/-- Does the pointer lead through one link to a body with content? -/
def isBehindLink (root : Json) (pointer : String) : Bool :=
  match Pointer.lookup root pointer with
  | .error _ => false
  | .ok link =>
    match link.member? "$ref" with
    | some (.string next) =>
      match Pointer.lookup root next with
      | .error _ => false
      | .ok value =>
        match BodyRecord.ofJson? value with
        | some record => !value.isLink && (jsonShape? record.content).isSome
        | none => false
    | _ => false

theorem exists_of_isBehindLink {pointer : String} (h : isBehindLink root pointer = true) :
    ∃ link value record, Pointer.LeadsTo root pointer [link] value ∧
      BodyRecord.ofJson? value = some record ∧ (jsonShape? record.content).isSome = true := by
  rw [isBehindLink.eq_def] at h
  split at h
  · cases h
  next link hlink =>
    split at h
    next next hnext =>
      split at h
      · cases h
      next value hvalue =>
        split at h
        next record hrecord =>
          obtain ⟨hfinal, hjson⟩ := Bool.and_eq_true_iff.mp h
          have hfinal : value.isLink = false := by simpa using hfinal
          exact ⟨link, value, record,
            Pointer.LeadsTo.link hlink hnext (Pointer.LeadsTo.final hvalue hfinal), hrecord, hjson⟩
        next => cases h
    next => cases h

/-- Does the declaration refer to its body directly, and to no answers? -/
def hasDirectBody (root : Json) (declared : OperationRecord) : Bool :=
  match declared.body with
  | some body => !body.isIndirect root && (successResponses declared.responses).isEmpty
  | none => false

theorem isDirect_of_hasDirectBody (h : hasDirectBody root declared = true) :
    declared.IsDirect root := by
  rw [hasDirectBody.eq_def] at h
  split at h
  next body hbody =>
    obtain ⟨hdirect, hresponses⟩ := Bool.and_eq_true_iff.mp h
    refine ⟨fun other hother => ?_, fun response hmem => ?_⟩
    · obtain rfl := Option.some.inj (hbody.symm.trans hother)
      simpa using hdirect
    · rw [List.isEmpty_iff.mp hresponses] at hmem
      cases hmem
  next => cases h

/-- Is the body of the declaration behind a link, and lost? -/
def losesBody (root : Json) (path : String) (shared : List (OrReference ParameterRecord))
    (method : HttpMethod) (declared : OperationRecord) : Bool :=
  match declared.body with
  | some (.reference pointer) =>
    match ofRecord root path shared method declared with
    | .ok operation => isBehindLink root pointer && operation.body.isNone
    | .error _ => false
  | _ => false

theorem yields_sharedBody : Output.yields .yaml sharedBody {} (fun document _ =>
    (declarations document.paths).any (fun declaration =>
      hasDirectBody document.root declaration.2.2.2) &&
    (declarations document.paths).any fun declaration =>
      losesBody document.root declaration.1 declaration.2.1 declaration.2.2.1
        declaration.2.2.2) = true := by
  decide +kernel

theorem ofDocument_inPlace_sharedBody :
    ∃ document operations, Document.readAs .yaml sharedBody = .ok document ∧
      ofDocument document = .ok operations ∧
      ∃ declaration ∈ declarations document.paths,
        hasDirectBody document.root declaration.2.2.2 = true ∧
        ∃ operation ∈ operations,
          ofRecord document.root declaration.1 declaration.2.1 declaration.2.2.1
            (declaration.2.2.2.rewrite (writeDirect document.root BodyRecord.ofJson?)
              (writeDirect document.root ResponseRecord.ofJson?)) = .ok operation := by
  obtain ⟨document, output, hread, h, hcheck⟩ := Output.exists_of_yields yields_sharedBody
  obtain ⟨run⟩ := Output.exists_run h
  obtain ⟨declaration, hdeclaration, hbody⟩ :=
    List.any_eq_true.mp (Bool.and_eq_true_iff.mp hcheck).1
  obtain ⟨operation, hoperation, hinPlace⟩ :=
    exists_of_forall₂_left (ofDocument_inPlace run.operations_eq) hdeclaration
  exact ⟨document, run.operations, hread, run.operations_eq, declaration, hdeclaration, hbody,
    operation, hoperation, hinPlace.direct (isDirect_of_hasDirectBody hbody) _ _
      (writesInPlace_writeDirect _ _) (writesInPlace_writeDirect _ _)⟩

/-- **Bodies can be lost.**  The operation at `put` has none, though the reference in its declaration
leads to one with content. -/
theorem exists_lost_body :
    ∃ document operations, Document.readAs .yaml sharedBody = .ok document ∧
      ofDocument document = .ok operations ∧
      ∃ declaration ∈ declarations document.paths, ∃ operation ∈ operations,
        ofRecord document.root declaration.1 declaration.2.1 declaration.2.2.1
          declaration.2.2.2 = .ok operation ∧ operation.body = none ∧
        ∃ pointer links value record, declaration.2.2.2.body = some (.reference pointer) ∧
          Pointer.LeadsTo document.root pointer links value ∧
          BodyRecord.ofJson? value = some record ∧
          ∃ body, bodyOf document.root (some (.item record)) = .ok (some body) := by
  obtain ⟨document, output, hread, h, hcheck⟩ := Output.exists_of_yields yields_sharedBody
  obtain ⟨run⟩ := Output.exists_run h
  obtain ⟨declaration, hdeclaration, hloses⟩ :=
    List.any_eq_true.mp (Bool.and_eq_true_iff.mp hcheck).2
  obtain ⟨operation, hoperation, hrun⟩ :=
    exists_of_forall₂_left (forall₂_of_ofRecords run.operations_eq) hdeclaration
  rw [losesBody.eq_def] at hloses
  split at hloses
  next pointer hpointer =>
    rw [hrun] at hloses
    obtain ⟨hbehind, hnone⟩ := Bool.and_eq_true_iff.mp hloses
    obtain ⟨link, value, record, hleads, hrecord, hjson⟩ := exists_of_isBehindLink hbehind
    obtain ⟨shape, hshape⟩ := Option.isSome_iff_exists.mp hjson
    refine ⟨document, run.operations, hread, run.operations_eq, declaration, hdeclaration,
      operation, hoperation, hrun, Option.isNone_iff_eq_none.mp hnone, pointer, [link], value,
      record, hpointer, hleads, hrecord, { shape, required := record.required }, ?_⟩
    simp [bodyOf, OrReference.resolve, bind, Except.bind, hshape]
  next => cases hloses

end Operation

end ApiScribe
