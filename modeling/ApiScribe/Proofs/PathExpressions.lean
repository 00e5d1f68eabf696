import ApiScribe.Proofs.HoistedNames
import ApiScribe.Proofs.Hygiene
import ApiScribe.Proofs.MethodParameters
import ApiScribe.Proofs.PathTemplates
import ApiScribe.Proofs.TextLiterals

/-!
# What the path of a request is

A method writes the path of its request as a quoted text, or as a template with a call for each
placeholder.  `method_path` says when this stands for the path with encoded arguments in place of the
placeholders, and that it stands for nothing else: if it does not, it has no value at all.

A path without placeholders is always right.  With placeholders three things can be in the way.  A
dollar may stand in front of a brace in the text at the end of a path, and there it begins a
substitution that nothing ends.  A placeholder may be named with characters that no identifier has.  And
a parameter may take the name of a function that the template calls.
-/

namespace ApiScribe

open TypeScript

/-! ## Names of parameters -/

namespace Naming

open Text

theorem isMark_of_mem_upper {c d : Char} (hc : isMark c = true) (h : d ∈ upper c) :
    isMark d = true := by
  rw [isMark, Bool.or_eq_true, decide_eq_true_iff, decide_eq_true_iff] at hc
  rcases hc with rfl | rfl
  · rw [List.mem_singleton.mp h]
    rfl
  · rw [List.mem_singleton.mp h]
    rfl

/-- An identifier is made of the words of the name, with or without underscores in front. -/
theorem identifier_cases (name : String) :
    identifier name = "_empty" ∨
      ∃ front, (identifier name).toList = front ++ joinWords (words isSeparator name.toList) ∧
        (∀ c ∈ front, c = '_') ∧ joinWords (words isSeparator name.toList) ≠ [] := by
  rw [identifier]
  cases joinWords (words isSeparator name.toList) with
  | nil => exact Or.inl rfl
  | cons c cs =>
    refine Or.inr ?_
    have hdigit : ∃ front, (if startsWithDigit (c :: cs) then '_' :: c :: cs else c :: cs) =
        front ++ c :: cs ∧ ∀ d ∈ front, d = '_' := by
      split
      · exact ⟨['_'], rfl, fun d hd => List.mem_singleton.mp hd⟩
      · exact ⟨[], rfl, fun d hd => absurd hd List.not_mem_nil⟩
    obtain ⟨front, hfront, hmarks⟩ := hdigit
    dsimp only
    rw [hfront]
    by_cases hreserved : isReserved (String.ofList (front ++ c :: cs)) = true
    · rw [if_pos hreserved, String.toList_append, String.toList_ofList, String.toList_ofList]
      exact ⟨'_' :: front, rfl, List.forall_mem_cons.mpr ⟨rfl, hmarks⟩, List.cons_ne_nil c cs⟩
    · rw [if_neg hreserved, String.toList_ofList]
      exact ⟨front, rfl, hmarks, List.cons_ne_nil c cs⟩

/-- An identifier consists of the characters of words, and of underscores and dollars. -/
theorem of_mem_identifier {name : String} {d : Char} (h : d ∈ (identifier name).toList) :
    IsWordChar d ∨ isMark d = true := by
  have hword : ∀ word ∈ words isSeparator name.toList, ∀ c ∈ word,
      IsWordChar c ∨ isMark c = true := by
    intro word hmem c hc
    have hseparator := (of_mem_words hmem).2 c hc
    rw [isSeparator, Bool.not_eq_false', Bool.or_eq_true] at hseparator
    exact hseparator.imp_left isWordChar_of_isAlphanumeric
  have hcapitalized : ∀ word ∈ words isSeparator name.toList, ∀ c ∈ capitalizeChars word,
      IsWordChar c ∨ isMark c = true := by
    intro word hmem c hc
    cases word with
    | nil => cases hc
    | cons first rest =>
      rcases List.mem_append.mp hc with hc | hc
      · rcases hword _ hmem first List.mem_cons_self with hfirst | hfirst
        · exact Or.inl (hfirst.upper hc)
        · exact Or.inr (isMark_of_mem_upper hfirst hc)
      · exact hword _ hmem c (List.mem_cons_of_mem _ hc)
  rcases identifier_cases name with hempty | ⟨front, heq, hmarks, -⟩
  · rw [hempty] at h
    have hall : "_empty".toList.Forall fun c => IsWordChar c ∨ isMark c = true := by decide
    exact List.forall_iff_forall_mem.mp hall d h
  · rw [heq] at h
    rcases List.mem_append.mp h with h | h
    · rw [hmarks d h]
      exact Or.inr rfl
    · cases hwords : words isSeparator name.toList with
      | nil =>
        rw [hwords] at h
        cases h
      | cons first others =>
        rw [hwords] at h hword hcapitalized
        rcases List.mem_append.mp h with h | h
        · exact hword first List.mem_cons_self d h
        · obtain ⟨other, hother, hd⟩ := List.mem_flatMap.mp h
          exact hcapitalized other (List.mem_cons_of_mem _ hother) d hd

theorem isReserved_identifier (name : String) : isReserved (identifier name) = false := by
  rw [identifier]
  split
  next => decide
  next =>
    dsimp only
    generalize (if startsWithDigit _ then _ else _) = cs
    by_cases hreserved : isReserved (String.ofList cs) = true
    · rw [if_pos hreserved]
      refine isReserved_eq_false ⟨'_', ?_, by decide⟩
      rw [String.toList_append]
      exact List.mem_append_left _ (List.mem_singleton_self _)
    · rw [if_neg hreserved]
      exact eq_false_of_ne_true hreserved

theorem identifier_ne_nil (name : String) : (identifier name).toList ≠ [] := by
  rcases identifier_cases name with hempty | ⟨front, heq, -, hne⟩
  · rw [hempty]
    decide
  · rw [heq]
    exact List.append_ne_nil_of_right_ne_nil front hne

/-- A number behind an identifier changes nothing about its being accepted. -/
theorem accepts_candidate_iff (alphabet : IdentifierAlphabet) (name : String) (number : Nat) :
    alphabet.Accepts (candidate (identifier name) number) ↔ alphabet.Accepts (identifier name) := by
  obtain ⟨digits, heq, hdigits, hnil⟩ := exists_toList_candidate (identifier name) number
  obtain ⟨c, cs, hcs⟩ := List.exists_cons_of_ne_nil (identifier_ne_nil name)
  have hhead : (candidate (identifier name) number).toList.head? =
      (identifier name).toList.head? := by
    rw [heq, hcs]
    rfl
  have hpart : (∀ c ∈ (candidate (identifier name) number).toList, alphabet.isPart c = true) ↔
      ∀ c ∈ (identifier name).toList, alphabet.isPart c = true := by
    rw [heq, List.forall_mem_append]
    exact and_iff_left fun d hd => alphabet.isPart_of_isAsciiDigit (hdigits d hd)
  have hreserved : isReserved (candidate (identifier name) number) = false := by
    cases digits with
    | nil =>
      rw [hnil rfl]
      exact isReserved_identifier name
    | cons d digits =>
      refine isReserved_eq_false ⟨d, ?_, not_isSmall_of_isDigit (hdigits d List.mem_cons_self)⟩
      rw [heq]
      exact List.mem_append_right _ List.mem_cons_self
  constructor
  · exact fun h => ⟨hhead ▸ h.start, hpart.mp h.part, isReserved_identifier name⟩
  · exact fun h => ⟨hhead.symm ▸ h.start, hpart.mpr h.part, hreserved⟩

/-- A character that no identifier has is in no candidate either. -/
theorem notMem_candidate {c : Char} (hascii : c.toNat < 128)
    (h : Text.isAsciiLetter c = false ∧ Text.isAsciiDigit c = false ∧ isMark c = false)
    (name : String) (number : Nat) : c ∉ (candidate (identifier name) number).toList := by
  obtain ⟨digits, heq, hdigits, -⟩ := exists_toList_candidate (identifier name) number
  obtain ⟨hletter, hdigit, hmark⟩ := h
  rw [heq, List.mem_append, not_or]
  constructor
  · intro hmem
    rcases of_mem_identifier hmem with (hword | hword | hword) | hword
    · exact absurd hword (ne_true_of_eq_false hletter)
    · exact absurd hword (ne_true_of_eq_false hdigit)
    · omega
    · exact absurd hword (ne_true_of_eq_false hmark)
  · exact fun hmem => absurd (hdigits c hmem) (ne_true_of_eq_false hdigit)

end Naming

namespace Client

/-! ## Paths with arguments -/

/-- The name that stands with the role of a declared path parameter. -/
def nameOf (played : List (Role × String)) (parameter : String) : String :=
  match played.find? fun entry => entry.1.declaredName? = some parameter with
  | some entry => entry.2
  | none => ""

/-- A path with encoded arguments in place of its placeholders.  A declared placeholder stands for the
argument with its role, and the others for the arguments with the given names, one after another. -/
def fillPath (declared : List OperationParameter) (played : List (Role × String))
    (arguments : String → String) : List String → List PathSegment → List Char
  | _, [] => []
  | names, .text content :: rest =>
    content.toList ++ fillPath declared played arguments names rest
  | names, .placeholder placeholder :: rest =>
    match declaredFor? declared placeholder with
    | some parameter =>
      (Script.percentEncode (arguments (nameOf played parameter.name))).toList ++
        fillPath declared played arguments names rest
    | none =>
      match names with
      | name :: others =>
        (Script.percentEncode (arguments name)).toList ++
          fillPath declared played arguments others rest
      | [] => fillPath declared played arguments [] rest

end Client

namespace Operation

/-- The path of the operation with encoded arguments in place of its placeholders, where the arguments
of the method have these names. -/
def filledPath (operation : Operation) (names : List String) (arguments : String → String) : String :=
  String.ofList (Client.fillPath (operation.parametersAt .path) (operation.roles.zip names) arguments
    (Client.freeNames (operation.roles.zip names)) (PathSegment.ofPath operation.path))

/-- The name that the argument for a placeholder asks for. -/
def slotName (operation : Operation) (settings : Settings) (placeholder : String) : String :=
  Client.pathName settings
    (match Client.declaredFor? (operation.parametersAt .path) placeholder with
    | some parameter => parameter.name
    | none => placeholder)

/-- Nothing is in the way of the template for the path. -/
structure IsLegible (alphabet : IdentifierAlphabet) (settings : Settings) (operation : Operation) :
    Prop where
  text : ∀ content, .text content ∈ PathSegment.ofPath operation.path →
    ¬ ['$', '\x7b'] <:+: content.toList
  names : ∀ placeholder, .placeholder placeholder ∈ PathSegment.ofPath operation.path →
    alphabet.Accepts (operation.slotName settings placeholder)
  library : ∀ role ∈ operation.roles, role.requestedName settings ∉ Client.calledGlobals

end Operation

namespace Client

open Script

variable {alphabet : IdentifierAlphabet} {names : List String} {arguments : String → String}

/-! ## Text in templates -/

/-- A character of a text is read as it is, unless it is a dollar in front of a brace. -/
theorem run_textChar {c : Char} {cs more : List Char} (hreturn : c ≠ '\r')
    (hdollar : ¬ ['$', '\x7b'] <+: c :: cs) (hmore : more.head? ≠ some '\x7b') :
    run alphabet names arguments .template ((c :: cs).flatMap escapeTemplateChar ++ more) =
      (run alphabet names arguments .template (cs.flatMap escapeTemplateChar ++ more)).map
        (c :: ·) := by
  rw [List.flatMap_cons, List.append_assoc]
  refine run_templateChar hreturn ?_
  rintro rfl
  cases cs with
  | nil => exact hmore
  | cons d cs =>
    have hd : d ≠ '\x7b' := by
      rintro rfl
      exact hdollar ⟨cs, rfl⟩
    rw [List.flatMap_cons, escapeTemplateChar]
    split
    · simp
    · split
      · simp
      · exact fun heq => hd (Option.some_inj.mp heq)

/-- Text that has no dollar in front of a brace is read as it is. -/
theorem run_text {content : List Char} (hreturn : '\r' ∉ content)
    (hdollar : ¬ ['$', '\x7b'] <:+: content) {more : List Char} (hmore : more.head? ≠ some '\x7b') :
    run alphabet names arguments .template (content.flatMap escapeTemplateChar ++ more) =
      (run alphabet names arguments .template more).map (content ++ ·) := by
  induction content with
  | nil => exact Option.map_id_apply.symm
  | cons c cs ih =>
    rw [List.mem_cons, not_or] at hreturn
    rw [List.infix_cons_iff, not_or] at hdollar
    rw [run_textChar (Ne.symm hreturn.1) hdollar.1 hmore, ih hreturn.2 hdollar.2, Option.map_map]
    rfl

theorem unclosed_tail {c : Char} {cs : List Char} (h : PathSegment.Unclosed (c :: cs)) :
    PathSegment.Unclosed cs := by
  intro hmem
  rw [PathSegment.Unclosed, List.dropWhile_cons] at h
  split at h
  · exact h hmem
  · exact h (List.mem_cons_of_mem _ ((List.dropWhile_sublist _).subset hmem))

/-- What is written for a text has a brace that closes only if the text has. -/
theorem mem_of_mem_flatMap_escapeTemplateChar {cs : List Char}
    (h : '\x7d' ∈ cs.flatMap escapeTemplateChar) : '\x7d' ∈ cs := by
  obtain ⟨c, hc, hmem⟩ := List.mem_flatMap.mp h
  rw [escapeTemplateChar] at hmem
  split at hmem
  · exact absurd hmem (by decide)
  · split at hmem
    · exact absurd hmem (by decide)
    · rw [List.mem_singleton.mp hmem]
      exact hc

/-- **A dollar in front of a brace that is not closed** leaves the template without a value. -/
theorem run_unclosed_text {content : List Char} (hreturn : '\r' ∉ content)
    (hunclosed : PathSegment.Unclosed content) (hdollar : ['$', '\x7b'] <:+: content) :
    run alphabet names arguments .template (content.flatMap escapeTemplateChar ++ ['\x60']) = none := by
  induction content with
  | nil => exact absurd hdollar (by decide)
  | cons c cs ih =>
    rw [List.mem_cons, not_or] at hreturn
    by_cases hhere : ['$', '\x7b'] <+: c :: cs
    · obtain ⟨rest, hrest⟩ := hhere
      have hclosed : '\x7d' ∉ rest := by
        rw [← hrest] at hunclosed
        exact fun hmem => hunclosed (List.mem_cons_of_mem _ hmem)
      have hread : '\x7d' ∉ rest.flatMap escapeTemplateChar ++ ['\x60'] := by
        rw [List.mem_append, not_or]
        exact ⟨fun hmem => hclosed (mem_of_mem_flatMap_escapeTemplateChar hmem), by decide⟩
      have hlist : (c :: cs).flatMap escapeTemplateChar ++ ['\x60'] =
          '$' :: '\x7b' :: (rest.flatMap escapeTemplateChar ++ ['\x60']) := by
        rw [← hrest]
        rfl
      rw [hlist, run_begun .dollar rfl, run_begun (.substitution []) rfl]
      exact run_unclosed hread []
    · have hlater : ['$', '\x7b'] <:+: cs := (List.infix_cons_iff.mp hdollar).resolve_left hhere
      rw [run_textChar (Ne.symm hreturn.1) hhere (by decide),
        ih hreturn.2 (unclosed_tail hunclosed) hlater]
      rfl

/-! ## Placeholders in templates -/

theorem toList_text_encoded (name : String) :
    (encoded name).text.toList = "encodeURIComponent".toList ++
      '(' :: ("String".toList ++ '(' :: name.toList ++ [')']) ++ [')'] := by
  simp [encoded, Expr.text, Expr.texts, String.toList_append]

theorem accepts_of_mem_calledGlobals (alphabet : IdentifierAlphabet) :
    ∀ name ∈ calledGlobals, alphabet.Accepts name := by
  intro name hname
  have hletters : ∀ name ∈ calledGlobals, name.toList.Forall fun c => Text.isAsciiLetter c = true := by
    decide
  have hfree : ∀ name ∈ calledGlobals, Naming.isReserved name = false := by decide +kernel
  have hne : ∀ name ∈ calledGlobals, name.toList ≠ [] := by decide
  have hall := List.forall_iff_forall_mem.mp (hletters name hname)
  obtain ⟨c, cs, hcs⟩ := List.exists_cons_of_ne_nil (hne name hname)
  refine ⟨⟨c, by rw [hcs]; rfl, ?_⟩, fun c hc => ?_, hfree name hname⟩
  · exact alphabet.isStart_of_isAsciiLetter (hall c (by rw [hcs]; exact List.mem_cons_self))
  · exact alphabet.isPart_of_isAsciiLetter (hall c hc)

/-- The call for a placeholder is read if the name of its argument is accepted. -/
theorem ofChars?_encoded {name : String} (h : '(' ∉ name.toList) {operand : Operand} :
    Operand.ofChars? alphabet (encoded name).text.toList = some operand ↔
      operand = .call "encodeURIComponent" (.call "String" (.ident name)) ∧ alphabet.Accepts name := by
  have haccepts := accepts_of_mem_calledGlobals alphabet
  rw [toList_text_encoded, ofChars?_call (haccepts _ (by decide)),
    ofChars?_call (haccepts _ (by decide)), Option.map_map, Option.map_eq_some_iff]
  constructor
  · rintro ⟨argument, hargument, rfl⟩
    obtain ⟨rfl, hname⟩ := (ofChars?_word h argument).mp hargument
    exact ⟨rfl, hname⟩
  · rintro ⟨rfl, hname⟩
    exact ⟨.ident name, (ofChars?_word h _).mpr ⟨rfl, hname⟩, rfl⟩

/-- The call for a placeholder encodes its argument if no argument hides the functions. -/
theorem chars?_encoded {name : String} (hname : name ∈ names) {cs : List Char} :
    (Piece.value (.call "encodeURIComponent" (.call "String" (.ident name)))).chars? names arguments =
        some cs ↔
      (∀ function ∈ calledGlobals, function ∉ names) ∧
        cs = (percentEncode (arguments name)).toList := by
  by_cases hencode : "encodeURIComponent" ∈ names
  · simp [Piece.chars?, Operand.value?, nameValue?, Value.apply?, calledGlobals, hencode]
  · by_cases hstring : "String" ∈ names
    · simp [Piece.chars?, Operand.value?, nameValue?, Value.apply?, calledGlobals, hencode, hstring,
        hname]
    · simp [Piece.chars?, Operand.value?, nameValue?, Value.apply?, calledGlobals, hencode, hstring,
        hname, eq_comm]

/-- **A placeholder** is read as the encoded argument, and otherwise not at all. -/
theorem run_placeholder {name : String} (hname : name ∈ names) (hopen : '(' ∉ name.toList)
    (hclose : '\x7d' ∉ name.toList) {more value : List Char} :
    run alphabet names arguments .template
        ('$' :: '\x7b' :: ((encoded name).text.toList ++ '\x7d' :: more)) = some value ↔
      (alphabet.Accepts name ∧ ∀ function ∈ calledGlobals, function ∉ names) ∧
        ∃ rest, run alphabet names arguments .template more = some rest ∧
          value = (percentEncode (arguments name)).toList ++ rest := by
  have htext : '\x7d' ∉ (encoded name).text.toList := by
    rw [toList_text_encoded]
    simp [hclose]
  rw [run_begun .dollar rfl, run_begun (.substitution []) rfl,
    run_substitution htext, List.nil_append]
  simp only [Option.bind_eq_some_iff, Option.map_eq_some_iff, ofChars?_encoded hopen]
  constructor
  · rintro ⟨_, ⟨rfl, haccepts⟩, before, hbefore, rest, hrest, rfl⟩
    obtain ⟨hlibrary, rfl⟩ := (chars?_encoded hname).mp hbefore
    exact ⟨⟨haccepts, hlibrary⟩, rest, hrest, rfl⟩
  · rintro ⟨⟨haccepts, hlibrary⟩, rest, hrest, rfl⟩
    exact ⟨_, ⟨rfl, haccepts⟩, _, (chars?_encoded hname).mpr ⟨hlibrary, rfl⟩, rest, hrest, rfl⟩

/-! ## Whole templates -/

/-- Nothing is in the way of reading the part. -/
def IsLegiblePart (alphabet : IdentifierAlphabet) (names : List String) : TemplatePart → Prop
  | .text content => ¬ ['$', '\x7b'] <:+: content.toList
  | .value expression => ∀ name, expression = encoded name →
    alphabet.Accepts name ∧ ∀ function ∈ calledGlobals, function ∉ names

theorem encoded_injective : Function.Injective encoded := by
  intro name other h
  simpa [encoded] using h

theorem isLegiblePart_value_iff {name : String} :
    IsLegiblePart alphabet names (.value (encoded name)) ↔
      alphabet.Accepts name ∧ ∀ function ∈ calledGlobals, function ∉ names := by
  constructor
  · exact fun h => h name rfl
  · intro h other heq
    rw [← encoded_injective heq]
    exact h

variable {declared : List OperationParameter} {played : List (Role × String)} {free : List String}
  {segments : List PathSegment} {parts : List TemplatePart}

/-- The names that stand with the roles are names of arguments, those of declared parameters can be
looked up, and none has the characters that end a call or a substitution. -/
structure ArePlayed (names : List String) (played : List (Role × String)) : Prop where
  mem : ∀ entry ∈ played, entry.2 ∈ names
  nameOf_eq : ∀ parameter name, (.path parameter, name) ∈ played → nameOf played parameter.name = name
  noParenthesis : ∀ role name, (role, name) ∈ played → '(' ∉ name.toList
  noBrace : ∀ role name, (role, name) ∈ played → '\x7d' ∉ name.toList

/-- A placeholder is filled with the argument of some role. -/
theorem Fills.placeholder_cases (arguments : String → String) {placeholder : String}
    (hplayed : ArePlayed names played)
    (h : Fills declared played free (.placeholder placeholder :: segments) parts) :
    ∃ role name free' rest, parts = .value (encoded name) :: rest ∧ (role, name) ∈ played ∧
      Fills declared played free' segments rest ∧
      fillPath declared played arguments free (.placeholder placeholder :: segments) =
        (percentEncode (arguments name)).toList ++
          fillPath declared played arguments free' segments := by
  cases h with
  | declared hdeclared hmem h =>
    refine ⟨_, _, _, _, rfl, hmem, h, ?_⟩
    rw [fillPath.eq_def, ← hplayed.nameOf_eq _ _ hmem]
    simp only [hdeclared]
  | free hdeclared hmem h =>
    refine ⟨_, _, _, _, rfl, hmem, h, ?_⟩
    rw [fillPath.eq_def]
    simp only [hdeclared]

/-- A template for what begins with a placeholder is read if the rest is. -/
theorem run_value {name : String} (hname : name ∈ names) (hopen : '(' ∉ name.toList)
    (hclose : '\x7d' ∉ name.toList) {rest : List TemplatePart} {filled : List Char}
    (hrest : ∀ value, run alphabet names arguments .template
        ((TemplatePart.content rest).toList ++ ['\x60']) = some value ↔
      (∀ part ∈ rest, IsLegiblePart alphabet names part) ∧ value = filled) (value : List Char) :
    run alphabet names arguments .template
        ((TemplatePart.content (.value (encoded name) :: rest)).toList ++ ['\x60']) = some value ↔
      (∀ part ∈ .value (encoded name) :: rest, IsLegiblePart alphabet names part) ∧
        value = (percentEncode (arguments name)).toList ++ filled := by
  have hlist : (TemplatePart.content (.value (encoded name) :: rest)).toList ++ ['\x60'] =
      '$' :: '\x7b' :: ((encoded name).text.toList ++
        '\x7d' :: ((TemplatePart.content rest).toList ++ ['\x60'])) := by
    simp [TemplatePart.content, String.toList_append]
  rw [hlist, run_placeholder hname hopen hclose, List.forall_mem_cons, isLegiblePart_value_iff]
  constructor
  · rintro ⟨hlegible, others, hothers, rfl⟩
    obtain ⟨hall, rfl⟩ := (hrest others).mp hothers
    exact ⟨⟨hlegible, hall⟩, rfl⟩
  · rintro ⟨⟨hlegible, hall⟩, rfl⟩
    exact ⟨hlegible, filled, (hrest filled).mpr ⟨hall, rfl⟩, rfl⟩

/-- A template for text that no placeholder follows is read if no substitution begins in the text. -/
theorem run_lastText {cs : List Char} (hreturn : '\r' ∉ cs) (hunclosed : PathSegment.Unclosed cs)
    (value : List Char) :
    run alphabet names arguments .template
        ((TemplatePart.content [.text (String.ofList cs)]).toList ++ ['\x60']) = some value ↔
      (∀ part ∈ [TemplatePart.text (String.ofList cs)], IsLegiblePart alphabet names part) ∧
        value = cs := by
  have hlist : (TemplatePart.content [.text (String.ofList cs)]).toList =
      cs.flatMap escapeTemplateChar := by
    simp [TemplatePart.content, escapeTemplate]
  have hlegible : (∀ part ∈ [TemplatePart.text (String.ofList cs)],
      IsLegiblePart alphabet names part) ↔ ¬ ['$', '\x7b'] <:+: cs := by
    simp [IsLegiblePart]
  rw [hlist, hlegible]
  by_cases hdollar : ['$', '\x7b'] <:+: cs
  · rw [run_unclosed_text hreturn hunclosed hdollar]
    exact iff_of_false nofun fun h => h.1 hdollar
  · have hend : run alphabet names arguments .template ['\x60'] = some [] := rfl
    rw [run_text hreturn hdollar (by decide), hend, Option.map_some, List.append_nil,
      Option.some_inj, eq_comm]
    exact (and_iff_right hdollar).symm

/-- A template for text in front of a placeholder is read if the rest is: without a brace in the text,
no substitution begins in it. -/
theorem run_textBefore {before : List Char} (hreturn : '\r' ∉ before) (hbefore : '\x7b' ∉ before)
    {name : String} {rest : List TemplatePart} {filled : List Char}
    (hrest : ∀ value, run alphabet names arguments .template
        ((TemplatePart.content (.value (encoded name) :: rest)).toList ++ ['\x60']) = some value ↔
      (∀ part ∈ .value (encoded name) :: rest, IsLegiblePart alphabet names part) ∧ value = filled)
    (value : List Char) :
    run alphabet names arguments .template
        ((TemplatePart.content
          (.text (String.ofList before) :: .value (encoded name) :: rest)).toList ++ ['\x60']) =
        some value ↔
      (∀ part ∈ .text (String.ofList before) :: .value (encoded name) :: rest,
        IsLegiblePart alphabet names part) ∧ value = before ++ filled := by
  have hdollar : ¬ ['$', '\x7b'] <:+: before := fun h => hbefore (h.subset (by decide))
  have hlist : (TemplatePart.content
        (.text (String.ofList before) :: .value (encoded name) :: rest)).toList ++ ['\x60'] =
      before.flatMap escapeTemplateChar ++
        ((TemplatePart.content (.value (encoded name) :: rest)).toList ++ ['\x60']) := by
    rw [TemplatePart.content, escapeTemplate, String.toList_append, String.toList_ofList,
      String.toList_ofList, List.append_assoc]
  have hnext : ((TemplatePart.content (.value (encoded name) :: rest)).toList ++
      ['\x60']).head? ≠ some '\x7b' := by
    simp [TemplatePart.content, String.toList_append]
  have htext : IsLegiblePart alphabet names (.text (String.ofList before)) := by
    rw [IsLegiblePart, String.toList_ofList]
    exact hdollar
  rw [hlist, run_text hreturn hdollar hnext, Option.map_eq_some_iff, List.forall_mem_cons]
  constructor
  · rintro ⟨others, hothers, rfl⟩
    obtain ⟨hall, rfl⟩ := (hrest others).mp hothers
    exact ⟨⟨htext, hall⟩, rfl⟩
  · rintro ⟨⟨-, hall⟩, rfl⟩
    exact ⟨filled, (hrest filled).mpr ⟨hall, rfl⟩, rfl⟩

/-- **What a template stands for**: the filled path if all its parts are legible, and otherwise nothing.
The induction is on the pieces of the path. -/
theorem run_content (alphabet : IdentifierAlphabet) (arguments : String → String) {cs : List Char}
    (hsplit : PathSegment.IsSplit cs segments) (hreturn : '\r' ∉ cs)
    (hplayed : ArePlayed names played) (hfills : Fills declared played free segments parts)
    (value : List Char) :
    run alphabet names arguments .template
        ((TemplatePart.content parts).toList ++ ['\x60']) = some value ↔
      (∀ part ∈ parts, IsLegiblePart alphabet names part) ∧
        value = fillPath declared played arguments free segments := by
  induction hsplit generalizing free parts value with
  | nil =>
    cases hfills with
    | nil =>
      have hrun : run alphabet names arguments .template ['\x60'] = some [] := rfl
      exact ⟨fun heq => ⟨nofun, (Option.some_inj.mp (hrun.symm.trans heq)).symm⟩,
        fun h => hrun.trans (congrArg some h.2.symm)⟩
  | @text cs hne hunclosed =>
    cases hfills with
    | text content h =>
      cases h with
      | nil =>
        have hfilled : fillPath declared played arguments [] [.text (String.ofList cs)] = cs := by
          simp [fillPath]
        rw [hfilled]
        exact run_lastText hreturn hunclosed value
  | @placeholder name cs segments hname _ ih =>
    obtain ⟨role, argument, free', rest, rfl, hmem, hrest, hfilled⟩ :=
      hfills.placeholder_cases arguments hplayed
    have hreturn' : '\r' ∉ cs := fun h => hreturn (by simp [h])
    rw [hfilled]
    exact run_value (hplayed.mem _ hmem) (hplayed.noParenthesis role _ hmem)
      (hplayed.noBrace role _ hmem) (fun value => ih hreturn' hrest value) value
  | @textBefore before name cs segments hne hbefore hname _ ih =>
    cases hfills with
    | text content h =>
      obtain ⟨role, argument, free', rest, rfl, hmem, hrest, hfilled⟩ :=
        h.placeholder_cases arguments hplayed
      have hreturn' : '\r' ∉ cs := fun h => hreturn (by simp [h])
      have hreturnBefore : '\r' ∉ before := fun h => hreturn (by simp [h])
      rw [fillPath, hfilled, String.toList_ofList]
      exact run_textBefore hreturnBefore hbefore
        (run_value (hplayed.mem _ hmem) (hplayed.noParenthesis role _ hmem)
          (hplayed.noBrace role _ hmem) fun value => ih hreturn' hrest value) value

/-! ## Whole methods -/

section Methods

variable {scope : Scope} {before after : Progress} {operation : Operation} {function : Function}

/-- A role with the name of a declared parameter is the first one, and the only one. -/
theorem nameOf_eq_of_nodup {role : Role} {name parameter : String}
    (hnodup : ((played.map Prod.fst).filterMap Role.declaredName?).Nodup)
    (hmem : (role, name) ∈ played) (hrole : role.declaredName? = some parameter) :
    nameOf played parameter = name := by
  induction played with
  | nil => cases hmem
  | cons entry played ih =>
    rw [List.map_cons, List.filterMap_cons] at hnodup
    rw [nameOf, List.find?_cons]
    rcases List.mem_cons.mp hmem with rfl | hmem
    · rw [decide_eq_true hrole]
    · cases hentry : entry.1.declaredName? with
      | none =>
        rw [hentry] at hnodup
        exact ih hnodup hmem
      | some other =>
        rw [hentry] at hnodup
        have hlater : parameter ∈ (played.map Prod.fst).filterMap Role.declaredName? :=
          List.mem_filterMap.mpr ⟨role, List.mem_map_of_mem hmem, hrole⟩
        have hne : ¬ some other = some parameter := by
          rintro heq
          rw [Option.some_inj.mp heq] at hnodup
          exact (List.nodup_cons.mp hnodup).1 hlater
        rw [decide_eq_false hne]
        exact ih (List.nodup_cons.mp hnodup).2 hmem

/-- No two roles of an operation have the name of one declared parameter. -/
theorem nodup_declaredNames (operation : Operation) :
    (operation.roles.filterMap Role.declaredName?).Nodup := by
  have hperm := (operation_roles_perm operation).filterMap Role.declaredName?
  have hquery : (queryRoles (operation.parametersAt .query)).filterMap Role.declaredName? = [] := by
    refine List.filterMap_eq_nil_iff.mpr fun role hrole => ?_
    rw [eq_query_of_mem_queryRoles hrole]
    rfl
  have hnames : ((operation.parametersAt .path).map Role.path ++
      operation.undeclaredPlaceholders.map Role.free ++ operation.body.toList.map Role.body ++
        queryRoles (operation.parametersAt .query)).filterMap Role.declaredName? =
      (operation.parametersAt .path).map OperationParameter.name := by
    rw [List.filterMap_append, hquery]
    simp [List.filterMap_append, List.filterMap_map, Function.comp_def, Role.declaredName?]
  rw [hnames] at hperm
  exact hperm.nodup_iff.mpr (nodup_parametersAt operation .path)

/-- What a role asks for is an identifier. -/
theorem Role.exists_identifier (settings : Settings) (role : Role) :
    ∃ name, role.requestedName settings = Naming.identifier name := by
  cases role with
  | path parameter => exact ⟨_, rfl⟩
  | free placeholder => exact ⟨_, rfl⟩
  | body content => exact ⟨"body", show "body" = _ by decide +kernel⟩
  | query parameters => exact ⟨"params", show "params" = _ by decide +kernel⟩

/-- The name that stands with a role is what the role asked for, with or without a number. -/
theorem Signature.Covers.exists_candidate {signature : Signature}
    (h : signature.Covers scope played) : ∀ entry ∈ played, ∃ number,
      entry.2 = Naming.candidate (entry.1.requestedName scope.settings) number := by
  intro entry hentry
  have hzip : (entry.1, entry.2) ∈ (played.map Prod.fst).zip
      (signature.parameters.map TypeScript.Parameter.name) := by
    rw [← h.names, ← List.zip_of_prod rfl rfl]
    exact hentry
  rw [List.zip_map_right] at hzip
  obtain ⟨⟨role, parameter⟩, hmem, heq⟩ := List.mem_map.mp hzip
  obtain ⟨hrole, hname⟩ := Prod.mk.inj heq
  obtain ⟨⟨number, hnumber⟩, -⟩ := List.forall₂_iff_zip.mp h.roles |>.2 hmem
  exact ⟨number, by rw [← hname, ← hrole]; exact hnumber⟩

namespace MethodRun

variable (run : MethodRun scope operation function)
include run

theorem exists_candidate : ∀ entry ∈ run.played, ∃ name number,
    entry.1.requestedName scope.settings = Naming.identifier name ∧
      entry.2 = Naming.candidate (Naming.identifier name) number := by
  intro entry hentry
  obtain ⟨number, hnumber⟩ := run.covers.exists_candidate entry hentry
  obtain ⟨name, hname⟩ := entry.1.exists_identifier scope.settings
  exact ⟨name, number, hname, hname ▸ hnumber⟩

theorem arePlayed : ArePlayed (function.parameters.map TypeScript.Parameter.name) run.played where
  mem entry hentry := by
    rw [run.names_eq]
    exact List.mem_map_of_mem hentry
  nameOf_eq parameter name hmem := by
    refine nameOf_eq_of_nodup ?_ hmem rfl
    rw [run.roles_eq]
    exact nodup_declaredNames operation
  noParenthesis role name hmem := by
    obtain ⟨base, number, -, heq⟩ := run.exists_candidate (role, name) hmem
    rw [show name = _ from heq]
    exact Naming.notMem_candidate (by decide) (by decide) base number
  noBrace role name hmem := by
    obtain ⟨base, number, -, heq⟩ := run.exists_candidate (role, name) hmem
    rw [show name = _ from heq]
    exact Naming.notMem_candidate (by decide) (by decide) base number

/-- Behind a placeholder stands an argument for its role. -/
theorem exists_slot (alphabet : IdentifierAlphabet) {placeholder : String} {part : TemplatePart}
    (h : IsPartOf (operation.parametersAt .path) run.played (.placeholder placeholder) part) :
    ∃ name, part = .value (encoded name) ∧
      (alphabet.Accepts name ↔ alphabet.Accepts (operation.slotName scope.settings placeholder)) := by
  have haccepts : ∀ role name, (role, name) ∈ run.played →
      role.requestedName scope.settings = operation.slotName scope.settings placeholder →
      (alphabet.Accepts name ↔
        alphabet.Accepts (operation.slotName scope.settings placeholder)) := by
    intro role name hmem hslot
    obtain ⟨base, number, hbase, heq⟩ := run.exists_candidate (role, name) hmem
    rw [show name = _ from heq, ← hslot, show role.requestedName scope.settings = _ from hbase]
    exact Naming.accepts_candidate_iff alphabet base number
  cases h with
  | @declared _ name parameter role hdeclared hrole hmem =>
    refine ⟨name, rfl, haccepts role name hmem ?_⟩
    rw [Operation.slotName, hdeclared]
    cases role with
    | path other => exact congrArg (pathName scope.settings) (Option.some_inj.mp hrole)
    | free | body | query => cases hrole
  | @free _ name hdeclared hmem =>
    refine ⟨name, rfl, haccepts _ name hmem ?_⟩
    rw [Operation.slotName, hdeclared]
    rfl

/-- **The parts of the path are legible** exactly if nothing in the operation is in the way. -/
theorem legible_iff (alphabet : IdentifierAlphabet) (hplaceholder : operation.HasPlaceholder) :
    (∀ part ∈ run.parts,
        IsLegiblePart alphabet (function.parameters.map TypeScript.Parameter.name) part) ↔
      operation.IsLegible alphabet scope.settings := by
  have hparts := run.fills.isPartOf
  have hlibrary : (∀ function' ∈ calledGlobals,
      function' ∉ function.parameters.map TypeScript.Parameter.name) ↔
      ∀ role ∈ operation.roles, role.requestedName scope.settings ∉ calledGlobals := by
    rw [run.names_eq]
    constructor
    · intro hnames role hrole hmem
      rw [← run.roles_eq] at hrole
      exact hnames _ hmem (run.covers.requested role hrole)
    · intro hroles name hmem hname
      obtain ⟨entry, hentry, rfl⟩ := List.mem_map.mp hname
      obtain ⟨number, hnumber⟩ := run.covers.exists_candidate entry hentry
      rw [hnumber] at hmem
      refine hroles entry.1 ?_ (eq_requested_of_mem_calledGlobals hmem)
      rw [← run.roles_eq]
      exact List.mem_map_of_mem hentry
  constructor
  · intro hlegible
    refine ⟨fun content hcontent => ?_, fun placeholder hmem => ?_, ?_⟩
    · obtain ⟨part, hpart, hcorresponds⟩ := exists_of_forall₂_left hparts hcontent
      cases hcorresponds with
      | text => exact hlegible _ hpart
    · obtain ⟨part, hpart, hcorresponds⟩ := exists_of_forall₂_left hparts hmem
      obtain ⟨name, rfl, haccepts⟩ := run.exists_slot alphabet hcorresponds
      exact haccepts.mp (isLegiblePart_value_iff.mp (hlegible _ hpart)).1
    · obtain ⟨placeholder, hmem⟩ := hplaceholder
      obtain ⟨part, hpart, hcorresponds⟩ := exists_of_forall₂_left hparts hmem
      obtain ⟨name, rfl, -⟩ := run.exists_slot alphabet hcorresponds
      exact hlibrary.mp (isLegiblePart_value_iff.mp (hlegible _ hpart)).2
  · intro hlegible part hpart
    obtain ⟨segment, hsegment, hcorresponds⟩ := exists_of_forall₂_right hparts hpart
    cases segment with
    | text content =>
      cases hcorresponds with
      | text => exact hlegible.text content hsegment
    | placeholder placeholder =>
      obtain ⟨name, rfl, haccepts⟩ := run.exists_slot alphabet hcorresponds
      exact isLegiblePart_value_iff.mpr
        ⟨haccepts.mpr (hlegible.names placeholder hsegment), hlibrary.mpr hlegible.library⟩

/-- There is a value among the parts exactly if there is a placeholder in the path. -/
theorem any_isValue_iff : run.parts.any isValue = true ↔ operation.HasPlaceholder := by
  have hparts := run.fills.isPartOf
  rw [List.any_eq_true]
  constructor
  · rintro ⟨part, hpart, hvalue⟩
    obtain ⟨segment, hsegment, hcorresponds⟩ := exists_of_forall₂_right hparts hpart
    cases hcorresponds with
    | text => cases hvalue
    | declared | free => exact ⟨_, hsegment⟩
  · rintro ⟨placeholder, hmem⟩
    obtain ⟨part, hpart, hcorresponds⟩ := exists_of_forall₂_left hparts hmem
    cases hcorresponds with
    | declared | free => exact ⟨_, hpart, rfl⟩

end MethodRun

/-- A path without placeholders has nothing to fill in. -/
theorem filledPath_of_not_hasPlaceholder (h : ¬ operation.HasPlaceholder) (names : List String)
    (arguments : String → String) : operation.filledPath names arguments = operation.path := by
  have hsplit := PathSegment.isSplit_iff.mpr (rfl : PathSegment.ofPath operation.path = _)
  rw [Operation.HasPlaceholder] at h
  rw [Operation.filledPath, ← String.toList_inj, String.toList_ofList]
  generalize PathSegment.ofPath operation.path = segments at h hsplit
  generalize operation.path.toList = cs at hsplit
  cases hsplit with
  | nil => rfl
  | text => simp [fillPath]
  | @placeholder name => exact absurd ⟨String.ofList name, List.mem_cons_self⟩ h
  | @textBefore _ name =>
    exact absurd ⟨String.ofList name, List.mem_cons_of_mem _ List.mem_cons_self⟩ h

/-- What the path expression of a run evaluates to. -/
theorem MethodRun.evaluate_eq_some_iff (run : MethodRun scope operation function)
    (alphabet : IdentifierAlphabet) (hreturn : '\r' ∉ operation.path.toList)
    (arguments : String → String) (value : String) :
    evaluate alphabet (function.parameters.map TypeScript.Parameter.name) arguments
        (pathExpression operation.path run.parts).text = some value ↔
      (operation.HasPlaceholder → operation.IsLegible alphabet scope.settings) ∧
        value = operation.filledPath (function.parameters.map TypeScript.Parameter.name)
          arguments := by
  rw [pathExpression]
  by_cases hplaceholder : operation.HasPlaceholder
  · rw [if_pos (run.any_isValue_iff.mpr hplaceholder), evaluate, Operation.filledPath,
      run.played_eq, ← run.legible_iff alphabet hplaceholder]
    have hlist : (Expr.template run.parts).text.toList =
        '\x60' :: ((TemplatePart.content run.parts).toList ++ ['\x60']) := by
      simp [Expr.text, String.toList_append]
    have hrun := run_content alphabet arguments (PathSegment.isSplit_iff.mpr rfl) hreturn
      run.arePlayed run.fills
    rw [hlist, run_begun .template rfl, Option.map_eq_some_iff]
    constructor
    · rintro ⟨cs, hcs, rfl⟩
      obtain ⟨hlegible, rfl⟩ := (hrun cs).mp hcs
      exact ⟨fun _ => hlegible, rfl⟩
    · rintro ⟨hlegible, rfl⟩
      exact ⟨_, (hrun _).mpr ⟨hlegible hplaceholder, rfl⟩, rfl⟩
  · have hquote : (Expr.literal (.string operation.path)).text = quote operation.path := by
      rw [Expr.text, Literal.text]
    rw [if_neg (mt run.any_isValue_iff.mp hplaceholder),
      filledPath_of_not_hasPlaceholder hplaceholder, hquote, evaluate_quote, Option.some_inj,
      eq_comm]
    exact (and_iff_right fun hsome => absurd hsome hplaceholder).symm

/-- **The path of a request.**  Evaluated with any texts for the arguments of the method, the expression
for the path yields the path with the encoded arguments in place of the placeholders if it has none or
nothing in the operation is in the way, and otherwise it has no value. -/
theorem method_path (alphabet : IdentifierAlphabet)
    (h : method operation scope before = (.ok function, after))
    (hreturn : '\r' ∉ operation.path.toList) :
    (∀ segments, PathSegment.IsSplit operation.path.toList segments ↔
        segments = PathSegment.ofPath operation.path) ∧
      ∃ path options response,
        function.body = [.return (some (requestCall operation.method path options response))] ∧
        ∀ arguments value,
          evaluate alphabet (function.parameters.map TypeScript.Parameter.name) arguments path.text =
              some value ↔
            (operation.HasPlaceholder → operation.IsLegible alphabet scope.settings) ∧
              value = operation.filledPath (function.parameters.map TypeScript.Parameter.name)
                arguments := by
  obtain ⟨run⟩ := exists_methodRun h
  exact ⟨fun segments => PathSegment.isSplit_iff, _, run.options, run.response, run.body_eq,
    run.evaluate_eq_some_iff alphabet hreturn⟩

/-- Get what is at a path. -/
def getAt (path : String) : Operation where
  method := .get
  path
  id := "getPart"
  summary := none
  tags := []
  parameters := []
  body := none
  response := none

/-- A path with everything in it that a template could take for its own, and nothing that is. -/
def quotedPath : String :=
  "/it's\x60\x5c$\x7bpart_id\x7d$/\x7bopen"

theorem isLegible_quotedPath : (getAt quotedPath).IsLegible asciiAlphabet {} := by
  have hsegments : PathSegment.ofPath (getAt quotedPath).path =
      [.text "/it's\x60\x5c$", .placeholder "part_id", .text "$/\x7bopen"] := by decide +kernel
  refine ⟨fun content hmem => ?_, fun placeholder hmem => ?_, ?_⟩
  · rw [hsegments] at hmem
    simp only [List.mem_cons, PathSegment.text.injEq, List.not_mem_nil, or_false, reduceCtorEq,
      false_or] at hmem
    rcases hmem with rfl | rfl <;> decide +kernel
  · rw [hsegments] at hmem
    simp only [List.mem_cons, PathSegment.placeholder.injEq, List.not_mem_nil, or_false,
      reduceCtorEq, false_or] at hmem
    have hname : (getAt quotedPath).slotName {} "part_id" = "part_id" := by decide +kernel
    rw [hmem, hname]
    have hall : "part_id".toList.Forall fun c => asciiAlphabet.isPart c = true := by decide
    exact ⟨⟨'p', rfl, rfl⟩, List.forall_iff_forall_mem.mp hall, by decide +kernel⟩
  · have hnames : (getAt quotedPath).roles.map (Role.requestedName {}) = ["part_id"] := by
      decide +kernel
    intro role hrole hmem
    have hname : role.requestedName {} ∈ ["part_id"] := hnames ▸ List.mem_map_of_mem hrole
    rw [List.mem_singleton.mp hname] at hmem
    exact absurd hmem (by decide)

theorem method_path_quotedPath :
    ∃ scope function after path options response,
      method (getAt quotedPath) scope {} = (.ok function, after) ∧
      '\r' ∉ (getAt quotedPath).path.toList ∧
      function.body = [.return (some (requestCall .get path options response))] ∧
      evaluate asciiAlphabet ["part_id"] (fun _ => "a/b") path.text =
        some "/it's\x60\x5c$a%2Fb$/\x7bopen" := by
  have hyields : yieldsMethod (getAt quotedPath) ⟨.null, {}, [], []⟩ (fun function =>
      function.parameters.map TypeScript.Parameter.name = ["part_id"]) = true := by decide +kernel
  obtain ⟨function, after, h, hcheck⟩ := exists_of_yieldsMethod hyields
  have hnames := of_decide_eq_true hcheck
  have hreturn : '\r' ∉ (getAt quotedPath).path.toList := by decide
  obtain ⟨-, path, options, response, hbody, hvalue⟩ := method_path asciiAlphabet h hreturn
  rw [hnames] at hvalue
  refine ⟨_, function, after, path, options, response, h, hreturn, hbody, ?_⟩
  exact (hvalue _ _).mpr ⟨fun _ => isLegible_quotedPath, by decide +kernel⟩

/-- **A dollar can be in the way**: behind the placeholder, a brace after a dollar is left open. -/
theorem exists_path_without_value :
    ∃ scope function after path options response,
      method (getAt "/a/\x7bid\x7d/$\x7bx") scope {} = (.ok function, after) ∧
      function.body = [.return (some (requestCall .get path options response))] ∧
      ∀ alphabet arguments,
        evaluate alphabet (function.parameters.map TypeScript.Parameter.name) arguments path.text ≠
          some ((getAt "/a/\x7bid\x7d/$\x7bx").filledPath
            (function.parameters.map TypeScript.Parameter.name) arguments) := by
  have hyields : yieldsMethod (getAt "/a/\x7bid\x7d/$\x7bx") ⟨.null, {}, [], []⟩
      (fun _ => true) = true := by decide +kernel
  obtain ⟨function, after, h, -⟩ := exists_of_yieldsMethod hyields
  obtain ⟨run⟩ := exists_methodRun h
  have hsegments : PathSegment.ofPath "/a/\x7bid\x7d/$\x7bx" =
      [.text "/a/", .placeholder "id", .text "/$\x7bx"] := by decide +kernel
  refine ⟨_, function, after, _, run.options, run.response, h, run.body_eq,
    fun alphabet arguments heq => ?_⟩
  have hlegible := ((run.evaluate_eq_some_iff alphabet (by decide) arguments _).mp heq).1
  have hplaceholder : (getAt "/a/\x7bid\x7d/$\x7bx").HasPlaceholder := by
    refine ⟨"id", ?_⟩
    rw [show (getAt "/a/\x7bid\x7d/$\x7bx").path = "/a/\x7bid\x7d/$\x7bx" from rfl, hsegments]
    exact List.mem_cons_of_mem _ List.mem_cons_self
  refine (hlegible hplaceholder).text "/$\x7bx" ?_ (by decide)
  rw [show (getAt "/a/\x7bid\x7d/$\x7bx").path = "/a/\x7bid\x7d/$\x7bx" from rfl, hsegments]
  exact List.mem_cons_of_mem _ (List.mem_cons_of_mem _ List.mem_cons_self)

end Methods

end Client

end ApiScribe
