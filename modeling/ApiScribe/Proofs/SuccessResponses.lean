import ApiScribe.Proofs.CaseMappings
import ApiScribe.Proofs.NaturalNumerals
import ApiScribe.Proofs.RecordReferences
import ApiScribe.Proofs.Trimming

/-!
# The answer to a successful request

The answer of an operation is looked for among the responses with a code from 200 on and below 300.
Smaller codes come first, and of responses with the same code the one in front in the table.  A response
that has no JSON in it is passed over (`Operation.IsPassedOver`), and the search ends at the first one that
has some, or that is not found.  The responses the search comes to are those that are tried
(`Operation.IsTried`); this is said of the table alone, without the order in which the search goes through
it.

The three ways in which the search can end are `Operation.successShape_eq_some_iff`,
`Operation.successShape_eq_none_iff` and `Operation.successShape_eq_error_iff`.  Responses without a code of
success make no difference to it, and neither does the order of a table in which no code occurs twice
(`Operation.successResponses_append_cons`, `Operation.successResponses_perm`).
`Operation.ofRecord_response` says all this of operations.
-/

namespace ApiScribe

open Text

/-! ## Media types -/

/-- White space has no case. -/
theorem Text.asciiLower_of_isBlank {c : Char} (h : isBlank c = true) : asciiLower c = c := by
  rw [asciiLower, if_neg]
  intro hcapital
  rw [between_iff] at hcapital
  simp only [Char.reduceToNat] at hcapital
  simp only [isBlank, Bool.or_eq_true, Bool.and_eq_true, decide_eq_true_eq, beq_iff_eq] at h
  omega

/-- A word that neither begins nor ends in white space is found by trimming, in whatever case it is
written. -/
theorem Text.trim_of_lower {core back word : List Char} (front : List Char)
    (hback : ∀ c ∈ back, isBlank c = true) (hcore : asciiLowerText core = word) (hne : word ≠ [])
    (hfirst : isBlank (word.head hne) = false) (hlast : isBlank (word.getLast hne) = false) :
    trim (front ++ core ++ back) = trimStart front ++ core := by
  subst hcore
  have hvisible : ∀ {c}, isBlank (asciiLower c) = false → isBlank c = false := by
    intro c hlower
    refine eq_false_of_ne_true fun hblank => ?_
    rw [asciiLower_of_isBlank hblank, hblank] at hlower
    cases hlower
  have hcore : core ≠ [] := fun hnil => hne (by rw [hnil]; rfl)
  simp only [asciiLowerText, List.head_map] at hfirst
  simp only [asciiLowerText, List.getLast_map] at hlast
  have hends : core.head hcore :: core.tail = core.dropLast ++ [core.getLast hcore] := by
    rw [List.cons_head_tail, List.dropLast_append_getLast]
  have htrim := trim_append hback (hvisible hfirst) (hvisible hlast) hends front
  rwa [List.cons_head_tail] at htrim

/-- The media type is JSON, or built on it: up to the case of letters it is `application/json`, or ends in
`+json`.  White space around it and parameters behind it do not count. -/
def IsJson (mediaType : String) : Prop :=
  ∃ front essence back parameters, mediaType.toList = front ++ essence ++ back ++ parameters ∧
    (∀ c ∈ front, isBlank c = true) ∧ (∀ c ∈ back, isBlank c = true) ∧
    ';' ∉ front ++ essence ++ back ∧ (∀ c ∈ parameters.head?, c = ';') ∧
    (asciiLowerText essence = "application/json".toList ∨
      "+json".toList <:+ asciiLowerText essence)

theorem isJsonMediaType_iff (mediaType : String) :
    Operation.isJsonMediaType mediaType = true ↔ IsJson mediaType := by
  rw [Operation.isJsonMediaType]
  rw [Bool.or_eq_true, decide_eq_true_iff, List.isSuffixOf_iff_suffix]
  constructor
  · intro h
    obtain ⟨front, back, hcut, hfront, hback⟩ :=
      exists_trim (mediaType.toList.takeWhile fun c => c ≠ ';')
    refine ⟨front, _, back, mediaType.toList.dropWhile fun c => c ≠ ';', ?_, hfront, hback, ?_, ?_, h⟩
    · rw [← hcut, List.takeWhile_append_dropWhile]
    · rw [← hcut]
      intro hmem
      exact absurd (List.mem_takeWhile_imp hmem) (by simp)
    · intro c hc
      have hstop := List.head?_dropWhile_not (fun c => decide (c ≠ ';')) mediaType.toList
      rw [Option.mem_def.mp hc] at hstop
      simpa using hstop
  · rintro ⟨front, essence, back, parameters, hlist, hfront, hback, hfree, hparameters, h⟩
    have htake : mediaType.toList.takeWhile (fun c => c ≠ ';') = front ++ essence ++ back := by
      have hkept : ∀ c ∈ front ++ essence ++ back, decide (c ≠ ';') = true := fun c hc =>
        decide_eq_true fun heq => hfree (heq ▸ hc)
      rw [hlist, List.takeWhile_append_of_pos hkept]
      cases parameters with
      | nil => rw [List.takeWhile_nil, List.append_nil]
      | cons c parameters =>
        obtain rfl := hparameters c rfl
        rw [List.takeWhile_cons_of_neg (by simp), List.append_nil]
    rw [htake]
    rcases h with h | ⟨before, hbefore⟩
    · rw [trim_of_lower front hback h (by decide) (by decide) (by decide), trimStart_eq_nil hfront,
        List.nil_append]
      exact Or.inl h
    · obtain ⟨subtype, core, rfl, -, hcore⟩ := List.map_eq_append_iff.mp hbefore.symm
      rw [← List.append_assoc,
        trim_of_lower (front ++ subtype) hback hcore (by decide) (by decide) (by decide)]
      refine Or.inr ⟨asciiLowerText (trimStart (front ++ subtype)), ?_⟩
      rw [asciiLowerText, asciiLowerText, List.map_append, hcore]

/-- The content is described by the shape: that of the first media type that is JSON, where content without
a schema may be anything. -/
def HasJson (content : Option (Table MediaContent)) (shape : Shape) : Prop :=
  ∃ before mediaType media after, content = some (before ++ (mediaType, media) :: after) ∧
    (∀ entry ∈ before, ¬ IsJson entry.1) ∧ IsJson mediaType ∧
    (∀ schema, media.schema = some schema → shape = Shape.ofSchema schema) ∧
    (media.schema = none → shape = Shape.unknown)

/-- There is no JSON in the content. -/
def HasNoJson (content : Option (Table MediaContent)) : Prop :=
  ∀ table, content = some table → ∀ entry ∈ table, ¬ IsJson entry.1

namespace Operation

theorem jsonShape?_eq_none_iff {content : Option (Table MediaContent)} :
    jsonShape? content = none ↔ HasNoJson content := by
  have hfind : jsonShape? content = none ↔ ∀ entry ∈ content.getD [], ¬ IsJson entry.1 := by
    simp only [← isJsonMediaType_iff, ← List.find?_eq_none, jsonShape?]
    split
    next hfound => simp [hfound]
    next hnone => simp [hnone]
  rw [hfind, HasNoJson]
  cases content with
  | none => simp
  | some table => simp

theorem jsonShape?_eq_some_iff {content : Option (Table MediaContent)} {shape : Shape} :
    jsonShape? content = some shape ↔ HasJson content shape := by
  have hnot : ∀ mediaType, (!isJsonMediaType mediaType) = true ↔ ¬ IsJson mediaType := by
    intro mediaType
    rw [Bool.not_eq_true', ← isJsonMediaType_iff, Bool.not_eq_true]
  constructor
  · intro h
    rw [jsonShape?.eq_def] at h
    split at h
    next mediaType media hfound =>
      obtain ⟨hjson, before, after, htable, hbefore⟩ := List.find?_eq_some_iff_append.mp hfound
      refine ⟨before, mediaType, media, after, ?_, fun entry hmem => (hnot _).mp (hbefore entry hmem),
        (isJsonMediaType_iff mediaType).mp hjson, fun schema hschema => ?_, fun hschema => ?_⟩
      · cases content with
        | none => exact absurd htable (by simp)
        | some table => exact congrArg some htable
      · rw [hschema] at h
        exact (Option.some.inj h).symm
      · rw [hschema] at h
        exact (Option.some.inj h).symm
    next => cases h
  · rintro ⟨before, mediaType, media, after, rfl, hbefore, hjson, hschema, hnone⟩
    have hfound : (before ++ (mediaType, media) :: after).find?
        (fun entry => isJsonMediaType entry.1) = some (mediaType, media) :=
      List.find?_eq_some_iff_append.mpr ⟨(isJsonMediaType_iff mediaType).mpr hjson, before, after,
        rfl, fun entry hmem => (hnot _).mpr (hbefore entry hmem)⟩
    simp only [jsonShape?, Option.getD_some, hfound]
    cases hmedia : media.schema with
    | none => rw [hnone hmedia]
    | some schema => rw [hschema schema hmedia]

/-- There is JSON in the content, or there is none. -/
theorem hasNoJson_or (content : Option (Table MediaContent)) :
    HasNoJson content ∨ ∃ shape, HasJson content shape := by
  cases hjson : jsonShape? content with
  | none => exact Or.inl (jsonShape?_eq_none_iff.mp hjson)
  | some shape => exact Or.inr ⟨shape, jsonShape?_eq_some_iff.mp hjson⟩

/-! ## The search -/

/-- The key of a response is the code of a successful request. -/
def IsSuccess (key : String) (code : Nat) : Prop :=
  Numeral.IsNatural key.toList code ∧ 200 ≤ code ∧ code < 300

variable {root : Json} {responses : Table (OrReference ResponseRecord)} {key : String}
  {response : OrReference ResponseRecord} {shape : Shape} {error : CompileError}

/-- The response is found, and there is no JSON in it. -/
def IsPassedOver (root : Json) (response : OrReference ResponseRecord) : Prop :=
  ∃ record, response.resolve ResponseRecord.ofJson? root = .ok record ∧ HasNoJson record.content

/-- The response is looked at, because all are passed over that have a smaller code, or the same code and
an earlier place. -/
def IsTried (root : Json) (responses : Table (OrReference ResponseRecord)) (key : String)
    (response : OrReference ResponseRecord) : Prop :=
  ∃ before after code, responses = before ++ (key, response) :: after ∧ IsSuccess key code ∧
    (∀ entry ∈ before, ∀ other, IsSuccess entry.1 other → other ≤ code → IsPassedOver root entry.2) ∧
    ∀ entry ∈ after, ∀ other, IsSuccess entry.1 other → other < code → IsPassedOver root entry.2

/-- The responses with a code, in order. -/
def withCode (code : Nat) (responses : Table (OrReference ResponseRecord)) :
    List (OrReference ResponseRecord) :=
  responses.filterMap fun entry =>
    if Numeral.below? statusBound entry.1.toList = some code then some entry.2 else none

theorem successResponses_eq (responses : Table (OrReference ResponseRecord)) :
    successResponses responses =
      (List.range' 200 100).flatMap fun code => withCode code responses := by
  rw [successResponses]
  refine congrArg (fun part => List.flatMap part (List.range' 200 100)) (funext fun code => ?_)
  rw [List.filter_filterMap, List.map_filterMap, withCode]
  refine congrArg (fun part => List.filterMap part responses) (funext fun entry => ?_)
  obtain ⟨key, response⟩ := entry
  dsimp only
  cases Numeral.below? statusBound key.toList with
  | none => rfl
  | some number => by_cases hcode : number = code <;> simp [Option.filter_some, hcode]

theorem below?_eq_some_iff_isSuccess {code : Nat} (hcode : code ∈ List.range' 200 100) :
    Numeral.below? statusBound key.toList = some code ↔ IsSuccess key code := by
  rw [List.mem_range'_1] at hcode
  have hbound : code < statusBound := Nat.lt_trans hcode.2 (by decide)
  rw [Numeral.below?_eq_some_iff, and_iff_left hbound, IsSuccess, and_iff_left hcode]

theorem IsSuccess.below?_eq {code : Nat} (h : IsSuccess key code) :
    Numeral.below? statusBound key.toList = some code :=
  Numeral.below?_eq_some_iff.mpr ⟨h.1, Nat.lt_trans h.2.2 (by decide)⟩

theorem mem_withCode_iff {code : Nat} (hcode : code ∈ List.range' 200 100) :
    response ∈ withCode code responses ↔
      ∃ key, (key, response) ∈ responses ∧ IsSuccess key code := by
  rw [withCode, List.mem_filterMap]
  constructor
  · rintro ⟨⟨key, found⟩, hmem, hfound⟩
    split at hfound
    next hread =>
      cases hfound
      exact ⟨key, hmem, (below?_eq_some_iff_isSuccess hcode).mp hread⟩
    next => cases hfound
  · rintro ⟨key, hmem, hkey⟩
    exact ⟨(key, response), hmem, if_pos ((below?_eq_some_iff_isSuccess hcode).mpr hkey)⟩

/-- Responses that are passed over make no difference to those behind them. -/
theorem firstJson_append {before : List (OrReference ResponseRecord)}
    (h : ∀ response ∈ before, IsPassedOver root response) (rest : List (OrReference ResponseRecord)) :
    firstJson root (before ++ rest) = firstJson root rest := by
  induction before with
  | nil => rfl
  | cons response before ih =>
    obtain ⟨⟨record, hrecord, hnone⟩, hbefore⟩ := List.forall_mem_cons.mp h
    simp only [List.cons_append, firstJson, hrecord, bind, Except.bind,
      jsonShape?_eq_none_iff.mpr hnone]
    exact ih hbefore

/-- **The search comes to a response that is tried.** -/
theorem IsTried.exists_firstJson (h : IsTried root responses key response) :
    ∃ rest, successShape root responses = firstJson root (response :: rest) := by
  obtain ⟨before, after, code, rfl, hkey, hbefore, hafter⟩ := h
  obtain ⟨hlow, hhigh⟩ := hkey.2
  have hcode : code ∈ List.range' 200 100 := List.mem_range'_1.mpr hkey.2
  have hcodes : List.range' 200 100 =
      List.range' 200 (code - 200) ++ code :: List.range' (code + 1) (299 - code) := by
    rw [show 100 = (code - 200) + ((299 - code) + 1) by omega, ← List.range'_append_1,
      show 200 + (code - 200) = code by omega, List.range'_succ]
  have hhere : withCode code (before ++ (key, response) :: after) =
      withCode code before ++ response :: withCode code after := by
    have hread := (below?_eq_some_iff_isSuccess hcode).mpr hkey
    simp only [withCode, List.filterMap_append, List.filterMap_cons, if_pos hread]
  refine ⟨withCode code after ++ (List.range' (code + 1) (299 - code)).flatMap fun code =>
    withCode code (before ++ (key, response) :: after), ?_⟩
  rw [successShape, successResponses_eq, hcodes, List.flatMap_append, List.flatMap_cons, hhere,
    ← List.append_assoc, ← List.append_assoc, List.append_assoc _ (_ :: _), List.cons_append]
  refine firstJson_append (fun earlier hmem => ?_) _
  rcases List.mem_append.mp hmem with hmem | hmem
  · -- a smaller code, at any place
    obtain ⟨other, hother, hmem⟩ := List.mem_flatMap.mp hmem
    have hrange : other ∈ List.range' 200 100 := hcodes ▸ List.mem_append_left _ hother
    obtain ⟨-, hless⟩ := List.mem_range'_1.mp hother
    obtain ⟨name, hentry, hsuccess⟩ := (mem_withCode_iff hrange).mp hmem
    rcases List.mem_append.mp hentry with hentry | hentry
    · exact hbefore _ hentry other hsuccess (by omega)
    · rcases List.mem_cons.mp hentry with heq | hentry
      · obtain ⟨rfl, rfl⟩ := Prod.mk.inj heq
        have hsame := hsuccess.1.unique hkey.1
        omega
      · exact hafter _ hentry other hsuccess (by omega)
  · -- the same code, at an earlier place
    obtain ⟨name, hentry, hsuccess⟩ := (mem_withCode_iff hcode).mp hmem
    exact hbefore _ hentry code hsuccess (Nat.le_refl code)

/-- **Some response is tried that is not passed over**, if there is one that would not be. -/
theorem exists_isTried {entry : String × OrReference ResponseRecord} (hmem : entry ∈ responses)
    {code : Nat} (hkey : IsSuccess entry.1 code) (hentry : ¬ IsPassedOver root entry.2) :
    ∃ key response, IsTried root responses key response ∧ ¬ IsPassedOver root response := by
  classical
  have hcodes : ∃ code, ∃ entry ∈ responses, IsSuccess entry.1 code ∧ ¬ IsPassedOver root entry.2 :=
    ⟨code, entry, hmem, hkey, hentry⟩
  -- the least code of a response that would not be passed over, and the first place that it is at
  obtain ⟨least, hleast⟩ : ∃ least, least = Nat.find hcodes := ⟨_, rfl⟩
  have hsmaller : ∀ entry ∈ responses, ∀ other, IsSuccess entry.1 other → other < least →
      IsPassedOver root entry.2 := by
    intro entry hmem other hother hless
    by_contra hpassed
    exact Nat.find_min hcodes (hleast ▸ hless) ⟨entry, hmem, hother, hpassed⟩
  obtain ⟨found, hfound, hstops⟩ := Nat.find_spec hcodes
  rw [← hleast] at hstops
  obtain ⟨first, hfirst⟩ : ∃ first, responses.find?
      (fun entry => decide (IsSuccess entry.1 least ∧ ¬ IsPassedOver root entry.2)) = some first := by
    rw [← Option.isSome_iff_exists, List.find?_isSome]
    exact ⟨found, hfound, decide_eq_true hstops⟩
  obtain ⟨hstops, before, after, hplace, hearlier⟩ := List.find?_eq_some_iff_append.mp hfirst
  obtain ⟨hsuccess, hpassed⟩ := of_decide_eq_true hstops
  refine ⟨first.1, first.2, ⟨before, after, least, hplace, hsuccess, ?_, ?_⟩, hpassed⟩
  · intro entry hmem other hother hle
    rcases Nat.lt_or_eq_of_le hle with hless | rfl
    · exact hsmaller entry (hplace ▸ List.mem_append_left _ hmem) other hother hless
    · by_contra hpassed
      have hnot := hearlier entry hmem
      rw [decide_eq_true ⟨hother, hpassed⟩] at hnot
      cases hnot
  · intro entry hmem other hother hless
    exact hsmaller entry (hplace ▸ List.mem_append_right _ (List.mem_cons_of_mem _ hmem)) other
      hother hless

theorem IsTried.successShape_of_json (h : IsTried root responses key response)
    {record : ResponseRecord} (hrecord : response.resolve ResponseRecord.ofJson? root = .ok record)
    (hjson : HasJson record.content shape) : successShape root responses = .ok (some shape) := by
  obtain ⟨rest, hsearch⟩ := h.exists_firstJson
  simp only [hsearch, firstJson, hrecord, bind, Except.bind, jsonShape?_eq_some_iff.mpr hjson]

theorem IsTried.successShape_of_error (h : IsTried root responses key response)
    (herror : response.resolve ResponseRecord.ofJson? root = .error error) :
    successShape root responses = .error error := by
  obtain ⟨rest, hsearch⟩ := h.exists_firstJson
  simp only [hsearch, firstJson, herror, bind, Except.bind]

theorem successShape_of_passedOver
    (h : ∀ entry ∈ responses, ∀ code, IsSuccess entry.1 code → IsPassedOver root entry.2) :
    successShape root responses = .ok none := by
  have hall : ∀ response ∈ successResponses responses, IsPassedOver root response := by
    intro response hmem
    rw [successResponses_eq] at hmem
    obtain ⟨code, hcode, hmem⟩ := List.mem_flatMap.mp hmem
    obtain ⟨key, hentry, hkey⟩ := (mem_withCode_iff hcode).mp hmem
    exact h _ hentry code hkey
  rw [successShape, ← List.append_nil (successResponses responses), firstJson_append hall, firstJson]

/-- **How the search ends**: every response is passed over, or one is tried that has JSON, or one is tried
that is not found. -/
theorem successShape_cases (root : Json) (responses : Table (OrReference ResponseRecord)) :
    (∀ entry ∈ responses, ∀ code, IsSuccess entry.1 code → IsPassedOver root entry.2) ∨
    ∃ key response, IsTried root responses key response ∧
      ((∃ record shape, response.resolve ResponseRecord.ofJson? root = .ok record ∧
        HasJson record.content shape) ∨
      ∃ error, response.resolve ResponseRecord.ofJson? root = .error error) := by
  by_cases h : ∃ entry ∈ responses, ∃ code, IsSuccess entry.1 code ∧ ¬ IsPassedOver root entry.2
  · obtain ⟨entry, hmem, code, hkey, hentry⟩ := h
    obtain ⟨key, response, htried, hpassed⟩ := exists_isTried hmem hkey hentry
    refine Or.inr ⟨key, response, htried, ?_⟩
    cases hresolve : response.resolve ResponseRecord.ofJson? root with
    | error error => exact Or.inr ⟨error, rfl⟩
    | ok record =>
      rcases hasNoJson_or record.content with hnone | ⟨shape, hjson⟩
      · exact absurd ⟨record, hresolve, hnone⟩ hpassed
      · exact Or.inl ⟨record, shape, rfl, hjson⟩
  · refine Or.inl fun entry hmem code hkey => ?_
    by_contra hpassed
    exact h ⟨entry, hmem, code, hkey, hpassed⟩

theorem successShape_eq_some_iff : successShape root responses = .ok (some shape) ↔
    ∃ key response record, IsTried root responses key response ∧
      response.resolve ResponseRecord.ofJson? root = .ok record ∧ HasJson record.content shape := by
  constructor
  · intro h
    rcases successShape_cases root responses with hall | ⟨key, response, htried,
      ⟨record, found, hrecord, hjson⟩ | ⟨error, herror⟩⟩
    · cases (successShape_of_passedOver hall).symm.trans h
    · obtain rfl := Option.some.inj
        (Except.ok.inj ((htried.successShape_of_json hrecord hjson).symm.trans h))
      exact ⟨key, response, record, htried, hrecord, hjson⟩
    · cases (htried.successShape_of_error herror).symm.trans h
  · rintro ⟨key, response, record, htried, hrecord, hjson⟩
    exact htried.successShape_of_json hrecord hjson

theorem successShape_eq_none_iff : successShape root responses = .ok none ↔
    ∀ entry ∈ responses, ∀ code, IsSuccess entry.1 code → IsPassedOver root entry.2 := by
  refine ⟨fun h => ?_, successShape_of_passedOver⟩
  rcases successShape_cases root responses with hall | ⟨key, response, htried,
    ⟨record, found, hrecord, hjson⟩ | ⟨error, herror⟩⟩
  · exact hall
  · cases (htried.successShape_of_json hrecord hjson).symm.trans h
  · cases (htried.successShape_of_error herror).symm.trans h

theorem successShape_eq_error_iff : successShape root responses = .error error ↔
    ∃ key response, IsTried root responses key response ∧
      response.resolve ResponseRecord.ofJson? root = .error error := by
  constructor
  · intro h
    rcases successShape_cases root responses with hall | ⟨key, response, htried,
      ⟨record, found, hrecord, hjson⟩ | ⟨other, hother⟩⟩
    · cases (successShape_of_passedOver hall).symm.trans h
    · cases (htried.successShape_of_json hrecord hjson).symm.trans h
    · obtain rfl := Except.error.inj ((htried.successShape_of_error hother).symm.trans h)
      exact ⟨key, response, htried, hother⟩
  · rintro ⟨key, response, htried, herror⟩
    exact htried.successShape_of_error herror

/-! ## Other tables -/

/-- A response with another key than a code of success makes no difference. -/
theorem successResponses_append_cons {before after : Table (OrReference ResponseRecord)}
    (h : ∀ code, ¬ IsSuccess key code) :
    successResponses (before ++ (key, response) :: after) = successResponses (before ++ after) := by
  rw [successResponses_eq, successResponses_eq]
  refine List.flatMap_congr fun code hcode => ?_
  have hread : Numeral.below? statusBound key.toList ≠ some code := fun hread =>
    h code ((below?_eq_some_iff_isSuccess hcode).mp hread)
  simp only [withCode, List.filterMap_append, List.filterMap_cons, if_neg hread]

/-- No two responses have the same code of success. -/
def HasDistinctCodes (responses : Table (OrReference ResponseRecord)) : Prop :=
  responses.Pairwise fun first second =>
    ∀ code, IsSuccess first.1 code → ¬ IsSuccess second.1 code

/-- If there is one response for a code at most, the order of the table makes no difference. -/
theorem successResponses_perm {other : Table (OrReference ResponseRecord)}
    (hperm : responses.Perm other) (hdistinct : HasDistinctCodes responses) :
    successResponses other = successResponses responses := by
  rw [successResponses_eq, successResponses_eq]
  refine List.flatMap_congr fun code hcode => ?_
  have hmoved : (withCode code responses).Perm (withCode code other) := hperm.filterMap _
  have hsuccess : ∀ {entry : String × OrReference ResponseRecord} {response},
      (if Numeral.below? statusBound entry.1.toList = some code then some entry.2 else none) =
        some response → IsSuccess entry.1 code := by
    intro entry response hfound
    split at hfound
    next hread => exact (below?_eq_some_iff_isSuccess hcode).mp hread
    next => cases hfound
  have hone : (withCode code responses).Pairwise fun _ _ => False :=
    hdistinct.filterMap _ fun first second hdiffer _ hfirst _ hsecond =>
      hdiffer code (hsuccess hfirst) (hsuccess hsecond)
  generalize withCode code responses = here at hmoved hone
  match here, hone with
  | [], _ => exact List.nil_perm.mp hmoved
  | [response], _ => exact List.perm_singleton.mp hmoved.symm
  | _ :: _ :: _, hone => exact ((List.pairwise_cons.mp hone).1 _ List.mem_cons_self).elim

/-! ## Operations -/

section Operations

variable {path : String} {shared : List (OrReference ParameterRecord)} {method : HttpMethod}
  {declared : OperationRecord} {operation : Operation}

/-- The answer of an operation is what the search finds among its responses. -/
theorem successShape_of_ofRecord (h : ofRecord root path shared method declared = .ok operation) :
    successShape root declared.responses = .ok operation.response := by
  simp only [ofRecord, CompileError.bind_eq_ok] at h
  obtain ⟨_, -, _, -, answer, hanswer, h⟩ := h
  obtain rfl := Except.ok.inj h
  exact hanswer

/-- Tables in which the search ends alike make the same operation. -/
theorem ofRecord_congr {other : Table (OrReference ResponseRecord)}
    (h : successShape root other = successShape root declared.responses) :
    ofRecord root path shared method { declared with responses := other } =
      ofRecord root path shared method declared := by
  simp only [ofRecord, h]

end Operations

/-- **The answer is that of the least code of success that has JSON.**  It is described by the first JSON
content of a response that is tried, where all responses with smaller codes, and those with the same code in
front of it, have been found to have no JSON.  There is no answer exactly if this is so of all responses
with codes of success.  If the parameters and the body can be read, only a response that is tried and not
found can stop the operation from being made, and what stands behind the response that has JSON does not
matter.  Responses with other keys never matter, and if no code occurs twice the order does not matter
either. -/
theorem ofRecord_response (root : Json) (path : String) (shared : List (OrReference ParameterRecord))
    (method : HttpMethod) (declared : OperationRecord) :
    (∀ operation, ofRecord root path shared method declared = .ok operation →
      (∀ shape, operation.response = some shape ↔
        ∃ key response record, IsTried root declared.responses key response ∧
          response.resolve ResponseRecord.ofJson? root = .ok record ∧
          HasJson record.content shape) ∧
      (operation.response = none ↔
        ∀ entry ∈ declared.responses, ∀ code, IsSuccess entry.1 code → IsPassedOver root entry.2)) ∧
    (∀ parameters body, parametersOf root (shared ++ declared.parameters.getD []) = .ok parameters →
      bodyOf root declared.body = .ok body →
      ∀ error, ofRecord root path shared method declared = .error error ↔
        ∃ key response, IsTried root declared.responses key response ∧
          response.resolve ResponseRecord.ofJson? root = .error error) ∧
    (∀ key response record shape other, IsTried root declared.responses key response →
      response.resolve ResponseRecord.ofJson? root = .ok record → HasJson record.content shape →
      IsTried root other key response →
      ofRecord root path shared method { declared with responses := other } =
        ofRecord root path shared method declared) ∧
    (∀ before key response after, declared.responses = before ++ (key, response) :: after →
      (∀ code, ¬ IsSuccess key code) →
      ofRecord root path shared method { declared with responses := before ++ after } =
        ofRecord root path shared method declared) ∧
    ∀ other, declared.responses.Perm other → HasDistinctCodes declared.responses →
      ofRecord root path shared method { declared with responses := other } =
        ofRecord root path shared method declared := by
  refine ⟨fun operation h => ?_, fun parameters body hparameters hbody error => ?_,
    fun key response record shape other htried hrecord hjson hother => ?_,
    fun before key response after hplace hkey => ?_, fun other hperm hdistinct => ?_⟩
  · have hfound := successShape_of_ofRecord h
    refine ⟨fun shape => ?_, ?_⟩
    · rw [← successShape_eq_some_iff, hfound, Except.ok.injEq]
    · rw [← successShape_eq_none_iff, hfound, Except.ok.injEq]
  · rw [← successShape_eq_error_iff]
    simp only [ofRecord, hparameters, hbody, bind, Except.bind]
    cases successShape root declared.responses with
    | error other => simp
    | ok answer => simp
  · apply ofRecord_congr
    rw [htried.successShape_of_json hrecord hjson, hother.successShape_of_json hrecord hjson]
  · apply ofRecord_congr
    rw [successShape, successShape, hplace, successResponses_append_cons hkey]
  · apply ofRecord_congr
    rw [successShape, successShape, successResponses_perm hperm hdistinct]

/-- A report in another notation, and in JSON under a code with a sign and under no code. -/
def reportRecord : OperationRecord where
  operationId := some "getReport"
  summary := none
  tags := none
  parameters := none
  body := none
  responses :=
    [("202", .reference "#/responses/queued"),
      ("0200", .item ⟨none, some [("text/csv", ⟨none⟩)]⟩),
      ("+201", .item ⟨none, some [("text/csv", ⟨none⟩), (" Problem+JSON ; charset=x", ⟨none⟩)]⟩),
      ("default", .item ⟨none, some [("application/json", ⟨none⟩)]⟩)]

theorem isTried_reportRecord :
    IsTried .null reportRecord.responses "+201"
      (.item ⟨none, some [("text/csv", ⟨none⟩), (" Problem+JSON ; charset=x", ⟨none⟩)]⟩) := by
  have hcode : IsSuccess "+201" 201 :=
    ⟨Numeral.below?_eq_some_iff.mp (by decide : Numeral.below? 202 "+201".toList = some 201) |>.1,
      by decide, by decide⟩
  refine ⟨reportRecord.responses.take 2, reportRecord.responses.drop 3, 201, rfl, hcode, ?_, ?_⟩
  · refine List.forall_mem_cons.mpr ⟨fun other hother hle => ?_, List.forall_mem_singleton.mpr
      fun _ _ _ => ⟨_, rfl, ?_⟩⟩
    · have hread : Numeral.below? statusBound "202".toList = some 202 := by decide
      cases hread.symm.trans hother.below?_eq
      exact absurd hle (by decide)
    · rw [← jsonShape?_eq_none_iff]
      decide
  · refine List.forall_mem_singleton.mpr fun other hother _ => ?_
    have hread : Numeral.below? statusBound "default".toList = none := by decide
    cases hread.symm.trans hother.below?_eq

theorem hasDistinctCodes_reportRecord : HasDistinctCodes reportRecord.responses := by
  have hcodes : (reportRecord.responses.map fun entry =>
      Numeral.below? statusBound entry.1.toList).Pairwise fun first second =>
        first.all fun code => second ≠ some code := by decide
  refine (List.pairwise_map.mp hcodes).imp fun hdiffer code hfirst hsecond => ?_
  rw [hfirst.below?_eq, hsecond.below?_eq] at hdiffer
  simp at hdiffer

theorem ofRecord_response_report :
    ∃ operation, ofRecord .null "/report" [] .get reportRecord = .ok operation ∧
      operation.response = some Shape.unknown ∧
      ofRecord .null "/report" [] .get
        { reportRecord with responses := reportRecord.responses.reverse } = .ok operation := by
  obtain ⟨hanswer, -, -, -, horder⟩ := ofRecord_response .null "/report" [] .get reportRecord
  have hjson : HasJson
      (some [("text/csv", ⟨none⟩), (" Problem+JSON ; charset=x", ⟨none⟩)]) Shape.unknown :=
    jsonShape?_eq_some_iff.mp (by rfl)
  obtain ⟨operation, hoperation⟩ :
      ∃ operation, ofRecord .null "/report" [] .get reportRecord = .ok operation := ⟨_, rfl⟩
  refine ⟨operation, hoperation, ?_, ?_⟩
  · exact ((hanswer operation hoperation).1 _).mpr ⟨_, _, _, isTried_reportRecord, rfl, hjson⟩
  · rw [horder _ (List.reverse_perm _).symm hasDistinctCodes_reportRecord, hoperation]

end Operation

end ApiScribe
