import ApiScribe.Proofs.FileNames
import ApiScribe.Proofs.LetterClasses
import ApiScribe.Proofs.PathExpressions

/-!
# What the identifiers of a client begin with

The names of classes, methods and parameters are made from texts of the document: tags, operation
ids, and the names of path parameters and placeholders.  A name can be used as an identifier if it
begins with a letter or a mark, not with a number, and is no reserved word (`IsUsable`).

On all three routes the name begins with one character of the text, or with another case of it, and
which one that is depends on the route (`leadingChar`).  Case mappings do not make numbers of
letters, or letters of numbers.  So `usable_iff` on each route comes down to this character, and as
the digits of ASCII get something in front, it is only in the way if it is a number outside ASCII.
The numbers that keep names apart come behind and change nothing (`usable_fresh_iff`).

`names_usable` is the three routes together, with the names of all clients that are generated.
-/

namespace ApiScribe

open Text TypeScript

/-! ## Usable names -/

namespace Text

/-- Digits of other scripts, and all other numbers outside ASCII. -/
def IsForeignNumber (c : Char) : Prop :=
  isNumeric c = true ∧ isAsciiDigit c = false

instance (c : Char) : Decidable (IsForeignNumber c) :=
  inferInstanceAs (Decidable (_ ∧ _))

theorem SameClass.isForeignNumber_iff {c d : Char} (h : SameClass c d) :
    IsForeignNumber d ↔ IsForeignNumber c := by
  rw [IsForeignNumber, IsForeignNumber, h.isNumeric, h.isAsciiDigit]

theorem not_isForeignNumber_of_lt {c : Char} (h : c.toNat < 128) : ¬ IsForeignNumber c := by
  rintro ⟨hnumeric, hdigit⟩
  rw [isNumeric, if_pos h, hdigit] at hnumeric
  cases hnumeric

theorem not_isForeignNumber_of_all {found : Option Char}
    (h : (found.all fun c => decide (c.toNat < 128)) = true) :
    ∀ c ∈ found, ¬ IsForeignNumber c := by
  intro c hc
  exact not_isForeignNumber_of_lt (of_decide_eq_true ((Option.all_eq_true _ _).mp h c hc))

end Text

namespace Naming

/-- An identifier may begin with the character: a mark, or a letter that is no number. -/
def IsOpening (c : Char) : Prop :=
  isMark c = true ∨ isAlphabetic c = true ∧ isNumeric c = false

instance (c : Char) : Decidable (IsOpening c) :=
  inferInstanceAs (Decidable (_ ∨ _))

/-- The name is not empty, begins as an identifier may, and is no reserved word. -/
structure IsUsable (name : String) : Prop where
  start : ∃ c ∈ name.toList.head?, IsOpening c
  notReserved : isReserved name = false

theorem usable_iff_any {name : String} : IsUsable name ↔
    (name.toList.head?.any fun c => decide (IsOpening c)) = true ∧ isReserved name = false := by
  simp only [Option.any_eq_true, decide_eq_true_iff]
  exact ⟨fun h => ⟨h.start, h.notReserved⟩, fun h => ⟨h.1, h.2⟩⟩

instance (name : String) : Decidable (IsUsable name) :=
  decidable_of_iff _ usable_iff_any.symm

theorem usable_iff_of_head {name : String} {c : Char} (hhead : name.toList.head? = some c)
    (hreserved : isReserved name = false) : IsUsable name ↔ IsOpening c := by
  constructor
  · rintro ⟨⟨x, hx, hopening⟩, -⟩
    rw [hhead] at hx
    obtain rfl := Option.some_inj.mp hx
    exact hopening
  · exact fun hopening => ⟨⟨c, hhead, hopening⟩, hreserved⟩

theorem isNumeric_of_isMark {c : Char} (h : isMark c = true) : isNumeric c = false := by
  rw [isMark, Bool.or_eq_true, decide_eq_true_iff, decide_eq_true_iff] at h
  rcases h with rfl | rfl <;> decide

/-- A character of words begins an identifier unless it is a number. -/
theorem isOpening_iff {c : Char} (h : isSeparator c = false) (hdigit : isAsciiDigit c = false) :
    IsOpening c ↔ ¬ IsForeignNumber c := by
  rw [isSeparator, Bool.not_eq_false', Bool.or_eq_true, isAlphanumeric, Bool.or_eq_true] at h
  constructor
  · rintro (hmark | ⟨-, hnumeric⟩) hforeign
    · exact absurd hforeign.1 (ne_true_of_eq_false (isNumeric_of_isMark hmark))
    · exact absurd hforeign.1 (ne_true_of_eq_false hnumeric)
  · intro hforeign
    have hnumeric : isNumeric c = false := by
      rw [← Bool.not_eq_true]
      exact fun hnumeric => hforeign ⟨hnumeric, hdigit⟩
    rcases h with (halphabetic | hnumber) | hmark
    · exact Or.inr ⟨halphabetic, hnumeric⟩
    · exact absurd hnumber (ne_true_of_eq_false hnumeric)
    · exact Or.inl hmark

/-- **A number behind a name** does not matter. -/
theorem usable_candidate_iff {base : String} (hne : base.toList ≠ [])
    (hbase : isReserved base = false) (number : Nat) :
    IsUsable (candidate base number) ↔ IsUsable base := by
  obtain ⟨digits, heq, hdigits, hnil⟩ := exists_toList_candidate base number
  have hreserved : isReserved (candidate base number) = false := by
    cases digits with
    | nil =>
      rw [hnil rfl]
      exact hbase
    | cons d digits =>
      refine isReserved_eq_false ⟨d, ?_, not_isSmall_of_isDigit (hdigits d List.mem_cons_self)⟩
      rw [heq]
      exact List.mem_append_right _ List.mem_cons_self
  have hhead : (candidate base number).toList.head? = base.toList.head? := by
    rw [heq, List.head?_append_of_ne_nil _ hne]
  constructor
  · intro h
    exact ⟨hhead ▸ h.start, hbase⟩
  · intro h
    exact ⟨hhead.symm ▸ h.start, hreserved⟩

theorem usable_fresh_iff {base : String} (hne : base.toList ≠ [])
    (hbase : isReserved base = false) (used : List String) :
    IsUsable (fresh used base) ↔ IsUsable base := by
  obtain ⟨number, -, heq, -⟩ := exists_number_fresh used base
  rw [heq, usable_candidate_iff hne hbase]

/-! ## What names begin with -/

/-- Words that are joined begin with the first character of a word. -/
theorem head?_joinWords (p : Char → Bool) (cs : List Char) :
    (joinWords (words p cs)).head? = cs.find? fun c => !p c := by
  rw [← List.head?_filter, ← flatten_words]
  cases hwords : words p cs with
  | nil => rfl
  | cons word rest =>
    have hne : word ≠ [] := (of_mem_words (hwords ▸ List.mem_cons_self)).1
    rw [joinWords, List.flatten_cons, List.head?_append_of_ne_nil _ hne,
      List.head?_append_of_ne_nil _ hne]

/-- A name in Pascal case begins with a case of the first letter or digit. -/
theorem pascalChars_cases (cs : List Char) :
    cs.find? isAlphanumeric = none ∧ pascalChars cs = [] ∨
      ∃ c d rest, cs.find? isAlphanumeric = some c ∧ pascalChars cs = d :: rest ∧
        SameClass c d := by
  have hfind : cs.find? isAlphanumeric = (words isGap cs).flatten.head? := by
    rw [flatten_words, List.head?_filter]
    simp [isGap]
  rw [hfind, pascalChars]
  cases hwords : words isGap cs with
  | nil => exact Or.inl ⟨rfl, rfl⟩
  | cons word rest =>
    have hne : word ≠ [] := (of_mem_words (hwords ▸ List.mem_cons_self)).1
    obtain ⟨c, cs, rfl⟩ := List.exists_cons_of_ne_nil hne
    obtain ⟨d, others, hupper, hclass⟩ := exists_head_upper c
    rw [List.flatMap_cons, pascalWord, hupper]
    exact Or.inr ⟨c, d, _, rfl, rfl, hclass⟩

/-- The character of a path parameter's name that the name of its argument begins with, or with
another case of it: the first that may stand in an identifier; and in camel case the first letter or
digit, unless there is a mark in front of everything. -/
def leadingChar (style : PropertyNameStyle) (name : String) : Option Char :=
  match style with
  | .unchanged => name.toList.find? fun c => !isSeparator c
  | .camelCase =>
    match name.toList.head? with
    | some c => if isMark c then some c else name.toList.find? isAlphanumeric
    | none => none

/-- **An identifier can be used** unless the first character of the name that it keeps is a number
outside ASCII. -/
theorem usable_identifier_iff (name : String) :
    IsUsable (identifier name) ↔
      ∀ c ∈ name.toList.find? fun c => !isSeparator c, ¬ IsForeignNumber c := by
  have hreserved := isReserved_identifier name
  rw [← head?_joinWords]
  have hhead := head?_joinWords isSeparator name.toList
  rw [identifier] at hreserved ⊢
  cases hjoined : joinWords (words isSeparator name.toList) with
  | nil =>
    exact iff_of_true ⟨⟨'_', rfl, by decide⟩, by decide⟩ fun c hc =>
      absurd hc (Option.not_mem_none c)
  | cons c cs =>
    rw [hjoined] at hhead hreserved
    have hseparator : isSeparator c = false := by simpa using List.find?_some hhead.symm
    have hfirst : (∀ x ∈ (c :: cs).head?, ¬ IsForeignNumber x) ↔ ¬ IsForeignNumber c := by
      rw [List.head?_cons]
      simp
    rw [hfirst]
    dsimp only at hreserved ⊢
    by_cases hdigit : isAsciiDigit c = true
    · -- there is an underscore in front of the digit
      have hstarts : startsWithDigit (c :: cs) = true := hdigit
      rw [if_pos hstarts] at hreserved ⊢
      refine iff_of_true ⟨⟨'_', ?_, by decide⟩, hreserved⟩
        (not_isForeignNumber_of_lt (toNat_lt_of_isAsciiDigit hdigit))
      split
      · rw [String.toList_append]
        rfl
      · rw [String.toList_ofList]
        rfl
    · have hstarts : ¬ startsWithDigit (c :: cs) = true := hdigit
      rw [if_neg hstarts] at hreserved ⊢
      by_cases hword : isReserved (String.ofList (c :: cs)) = true
      · rw [if_pos hword] at hreserved ⊢
        have hsmall : IsSmall c := by
          by_contra hsmall
          have hmem : c ∈ (String.ofList (c :: cs)).toList := by
            rw [String.toList_ofList]
            exact List.mem_cons_self
          exact absurd hword (ne_true_of_eq_false (isReserved_eq_false ⟨c, hmem, hsmall⟩))
        refine iff_of_true ⟨⟨'_', ?_, by decide⟩, hreserved⟩
          (not_isForeignNumber_of_lt (by have := hsmall.2; omega))
        rw [String.toList_append]
        rfl
      · rw [if_neg hword] at hreserved ⊢
        rw [← isOpening_iff hseparator (eq_false_of_ne_true hdigit)]
        refine usable_iff_of_head ?_ hreserved
        rw [String.toList_ofList]
        rfl

theorem isSeparator_of_isAlphanumeric {c : Char} (h : isAlphanumeric c = true) :
    isSeparator c = false := by
  rw [isSeparator, h]
  rfl

theorem isSeparator_of_isMark {c : Char} (h : isMark c = true) : isSeparator c = false := by
  rw [isSeparator, h, Bool.or_true]
  rfl

/-- What the camel case of a name keeps at its beginning is of the class of the leading
character. -/
theorem leading_camelCase_iff (name : String) :
    (∀ c ∈ (camelCase name).toList.find? (fun c => !isSeparator c), ¬ IsForeignNumber c) ↔
      ∀ c ∈ leadingChar .camelCase name, ¬ IsForeignNumber c := by
  rw [camelCase, String.toList_ofList, leadingChar]
  cases name.toList with
  | nil => exact iff_of_true nofun nofun
  | cons first rest =>
    rw [List.head?_cons]
    dsimp only
    by_cases hmark : isMark first = true
    · -- marks stay where they are
      have hfront : ∃ others, camelChars (first :: rest) = first :: others := by
        rw [camelChars, List.takeWhile_cons_of_pos hmark]
        split <;> exact ⟨_, rfl⟩
      obtain ⟨others, heq⟩ := hfront
      rw [if_pos hmark, heq, List.find?_cons_of_pos (by simp [isSeparator_of_isMark hmark])]
    · rw [if_neg hmark, camelChars, List.dropWhile_cons_of_neg hmark,
        List.takeWhile_cons_of_neg hmark]
      rcases pascalChars_cases (first :: rest) with
        ⟨hnone, hnil⟩ | ⟨c, d, others, hsome, heq, hclass⟩
      · -- without words, nothing but marks is left to begin with
        rw [hnone, hnil]
        refine iff_of_true (fun c hc => ?_) nofun
        have hkept := List.find?_some hc
        have hword := List.find?_eq_none.mp hnone c (List.mem_of_find?_eq_some hc)
        rw [isSeparator, Bool.not_not, Bool.or_eq_true] at hkept
        rcases hkept with hkept | hkept
        · exact absurd hkept hword
        · intro hforeign
          exact absurd hforeign.1 (ne_true_of_eq_false (isNumeric_of_isMark hkept))
      · obtain ⟨e, tail, hlower, hsmall⟩ := exists_head_lower d
        have hsame := hclass.trans hsmall
        have hkept := isSeparator_of_isAlphanumeric (hsame.isAlphanumeric (List.find?_some hsome))
        rw [hsome, heq]
        dsimp only
        rw [hlower, List.nil_append, List.cons_append, List.find?_cons_of_pos (by simp [hkept])]
        simp [hsame.isForeignNumber_iff]

/-- The identifier for a path parameter can be used unless the leading character of its name is a
number outside ASCII. -/
theorem usable_pathName_iff (settings : Settings) (name : String) :
    IsUsable (Client.pathName settings name) ↔
      ∀ c ∈ leadingChar settings.propertyNameStyle name, ¬ IsForeignNumber c := by
  rw [Client.pathName, usable_identifier_iff]
  cases settings.propertyNameStyle with
  | unchanged => rfl
  | camelCase => exact leading_camelCase_iff name

end Naming

namespace Client

open Naming

/-- A class name is not reserved, because there is a capital in its suffix. -/
theorem isReserved_requestedName (settings : Settings) (tag : String) :
    isReserved (requestedName settings tag) = false := by
  have hcapital : ∃ c ∈ settings.clientSuffix.text.toList, ¬ IsSmall c := by
    cases settings.clientSuffix
    · exact ⟨'C', by decide, by decide⟩
    · exact ⟨'A', by decide, by decide⟩
  obtain ⟨c, hc, hsmall⟩ := hcapital
  refine isReserved_eq_false ⟨c, ?_, hsmall⟩
  rw [requestedName, String.toList_append]
  exact List.mem_append_right _ hc

/-- **A class name can be used** unless the first letter or digit of the tag is a number outside
ASCII. -/
theorem usable_requestedName_iff (settings : Settings) (tag : String) :
    IsUsable (requestedName settings tag) ↔
      ∀ c ∈ tag.toList.find? isAlphanumeric, ¬ IsForeignNumber c := by
  have hreserved := isReserved_requestedName settings tag
  rcases pascalChars_cases tag.toList with ⟨hnone, hnil⟩ | ⟨c, d, rest, hsome, heq, hclass⟩
  · rw [hnone]
    refine iff_of_true ⟨⟨'D', ?_, by decide⟩, hreserved⟩ nofun
    rw [requestedName, hnil, String.toList_append]
    rfl
  · have hword := List.find?_some hsome
    have hfirst : (∀ x ∈ some c, ¬ IsForeignNumber x) ↔ ¬ IsForeignNumber d := by
      simp [hclass.isForeignNumber_iff]
    rw [hsome, hfirst]
    by_cases hdigit : isAsciiDigit d = true
    · refine iff_of_true ⟨⟨'T', ?_, by decide⟩, hreserved⟩
        (not_isForeignNumber_of_lt (toNat_lt_of_isAsciiDigit hdigit))
      have hstarts : startsWithDigit (d :: rest) = true := hdigit
      rw [requestedName, heq]
      dsimp only
      rw [if_pos hstarts, String.toList_append, String.toList_append]
      rfl
    · have hstarts : ¬ startsWithDigit (d :: rest) = true := hdigit
      have hhead : (requestedName settings tag).toList.head? = some d := by
        rw [requestedName, heq]
        dsimp only
        rw [if_neg hstarts, String.toList_append, String.toList_ofList]
        rfl
      rw [← isOpening_iff (isSeparator_of_isAlphanumeric (hclass.isAlphanumeric hword))
        (eq_false_of_ne_true hdigit)]
      exact usable_iff_of_head hhead hreserved

theorem requestedName_ne_nil (settings : Settings) (tag : String) :
    (requestedName settings tag).toList ≠ [] := by
  rw [requestedName, String.toList_append]
  refine List.append_ne_nil_of_right_ne_nil _ ?_
  cases settings.clientSuffix <;> decide

/-- The name that a role asks for begins with a character that may begin an identifier: there is no
number outside ASCII in its place. -/
def Role.OpensWell (settings : Settings) : Role → Prop
  | .path parameter =>
    ∀ c ∈ leadingChar settings.propertyNameStyle parameter.name, ¬ IsForeignNumber c
  | .free placeholder =>
    ∀ c ∈ leadingChar settings.propertyNameStyle placeholder, ¬ IsForeignNumber c
  | .body _ => True
  | .query _ => True

theorem Role.IsPlayedBy.usable_iff {scope : Scope} {role : Role}
    {parameter : TypeScript.Parameter} (h : role.IsPlayedBy scope parameter) :
    IsUsable parameter.name ↔ role.OpensWell scope.settings := by
  obtain ⟨number, hname⟩ := h.name
  rw [hname]
  have hwritten : ∀ name : String, IsUsable (candidate (pathName scope.settings name) number) ↔
      ∀ c ∈ leadingChar scope.settings.propertyNameStyle name, ¬ IsForeignNumber c := by
    intro name
    rw [← usable_pathName_iff]
    exact usable_candidate_iff (identifier_ne_nil _) (isReserved_identifier _) number
  cases role with
  | path parameter => exact hwritten parameter.name
  | free placeholder => exact hwritten placeholder
  | body content =>
    have hbody : IsUsable "body" := ⟨⟨'b', rfl, by decide⟩, by decide⟩
    have husable := (usable_candidate_iff (by decide) hbody.notReserved number).mpr hbody
    exact iff_of_true husable trivial
  | query parameters =>
    have hparams : IsUsable "params" := ⟨⟨'p', rfl, by decide⟩, by decide⟩
    exact iff_of_true ((usable_candidate_iff (by decide) hparams.notReserved number).mpr hparams)
      trivial

/-- The class name, the method names and the parameter names of a client can be used as identifiers
where the texts that they are made from do not have a number outside ASCII in the wrong place. -/
structure HasUsableNames (settings : Settings) (client : Client) (functions : List Function) :
    Prop where
  className : IsUsable client.className ↔
    ∀ c ∈ client.tag.toList.find? isAlphanumeric, ¬ IsForeignNumber c
  functions : List.Forall₂ (fun operation function =>
    (IsUsable function.name ↔
      ∀ c ∈ operation.id.toList.find? (fun c => !isSeparator c), ¬ IsForeignNumber c) ∧
    List.Forall₂ (fun role parameter => IsUsable parameter.name ↔ role.OpensWell settings)
      operation.roles function.parameters) client.operations functions

theorem IsRun.hasUsableNames {scope : Scope} {final : Progress} {client : Client}
    {functions : List Function} (h : client.IsRun scope final functions) :
    client.HasUsableNames scope.settings functions where
  className := by
    obtain ⟨number, hname⟩ := h.className
    rw [hname, usable_candidate_iff (requestedName_ne_nil _ _) (isReserved_requestedName _ _),
      usable_requestedName_iff]
  functions := by
    refine h.assembles.imp fun operation function hassembles => ⟨?_, ?_⟩
    · rw [hassembles.name, Operation.methodName, usable_identifier_iff]
    · exact hassembles.parameters.imp fun role parameter hplayed => hplayed.usable_iff

end Client

namespace Output

open Naming

/-- **Which names of clients can be used as identifiers.**  On every route from a text to a name,
and whatever names were taken before, the name can be used exactly if the character of the text that
it begins with is no number outside ASCII; and these are the names of all clients that are
generated. -/
theorem names_usable (settings : Settings) :
    (∀ (text : String) (used : List String),
      (IsUsable (fresh used (Client.requestedName settings text)) ↔
        ∀ c ∈ text.toList.find? isAlphanumeric, ¬ IsForeignNumber c) ∧
      (IsUsable (identifier text) ↔
        ∀ c ∈ text.toList.find? (fun c => !isSeparator c), ¬ IsForeignNumber c) ∧
      (IsUsable (fresh used (Client.pathName settings text)) ↔
        ∀ c ∈ leadingChar settings.propertyNameStyle text, ¬ IsForeignNumber c)) ∧
    ∀ document output, generate document settings = .ok output →
      ∃ run : Run document settings output, ∀ client ∈ output.clients,
        ∃ functions, client.IsRun run.scope run.finished functions ∧
          client.HasUsableNames settings functions := by
  refine ⟨fun text used => ⟨?_, usable_identifier_iff text, ?_⟩, fun document output h => ?_⟩
  · rw [usable_fresh_iff (Client.requestedName_ne_nil settings text)
      (Client.isReserved_requestedName settings text), Client.usable_requestedName_iff]
  · rw [← usable_pathName_iff]
    exact usable_fresh_iff (identifier_ne_nil _) (isReserved_identifier _) used
  · obtain ⟨run⟩ := exists_run h
    refine ⟨run, fun client hclient => ?_⟩
    obtain ⟨functions, hrun⟩ := run.isRun_client client hclient
    refine ⟨functions, hrun, ?_⟩
    rw [← run.settings_eq]
    exact hrun.hasUsableNames

/-- A document with one operation, on a path that is a placeholder. -/
def taggedItems (tag id placeholder : String) : String :=
  String.intercalate "\n"
    ["openapi: 3.0.0",
      "paths:",
      " '/\x7b" ++ placeholder ++ "\x7d':",
      "  get:",
      "   operationId: " ++ id,
      "   tags: [" ++ tag ++ "]",
      "   responses: \x7b\x7d"]

/-- The names of a client: its class and, for every operation, the method and the names that its
parameters ask for. -/
def namesOf (settings : Settings) (client : Client) : String × List (String × List String) :=
  (client.className, client.operations.map fun operation =>
    (operation.methodName, operation.roles.map fun role => role.requestedName settings))

theorem names_usable_digits :
    ∃ document output, Document.readAs .yaml (taggedItems "3d" "2items" "1id") = .ok document ∧
      generate document {} = .ok output ∧
      output.clients.map (namesOf {}) = [("Tag3dClient", [("_2items", ["_1id"])])] ∧
      ∀ client ∈ output.clients, IsUsable client.className ∧
        ∀ used, IsUsable (fresh used (Client.pathName {} "1id")) := by
  have hyields : yields .yaml (taggedItems "3d" "2items" "1id") {} (fun _ output =>
      output.clients.map (fun client => (client.tag, namesOf {} client)) =
        [("3d", "Tag3dClient", [("_2items", ["_1id"])])]) = true := by
    decide +kernel
  obtain ⟨document, output, hread, h, hcheck⟩ := exists_of_yields hyields
  have hnames := of_decide_eq_true hcheck
  obtain ⟨htexts, hclients⟩ := names_usable {}
  obtain ⟨run, hrun⟩ := hclients document output h
  have hmap : output.clients.map (namesOf {}) =
      (output.clients.map fun client => (client.tag, namesOf {} client)).map Prod.snd := by
    rw [List.map_map]
    rfl
  refine ⟨document, output, hread, h, ?_, fun client hclient => ⟨?_, fun used => ?_⟩⟩
  · rw [hmap, hnames]
    rfl
  · obtain ⟨functions, -, husable⟩ := hrun client hclient
    have hmem : (client.tag, namesOf {} client) ∈
        output.clients.map fun client => (client.tag, namesOf {} client) :=
      List.mem_map_of_mem hclient
    rw [hnames] at hmem
    rw [husable.className, (Prod.mk.inj (List.mem_singleton.mp hmem)).1]
    exact not_isForeignNumber_of_all (by decide +kernel)
  · rw [(htexts "1id" used).2.2]
    exact not_isForeignNumber_of_all (by decide +kernel)

/-- **A digit of another script is kept at the beginning of a name**, on each of the three routes:
only the digits of ASCII get something in front. -/
theorem exists_unusable_names :
    ∃ document output,
      Document.readAs .yaml (taggedItems "\u0663d" "\u0662items" "\u0661id") = .ok document ∧
      generate document {} = .ok output ∧
      output.clients.map (namesOf {}) = [("\u0663dClient", [("\u0662items", ["\u0661id"])])] ∧
      ¬ IsUsable "\u0663dClient" ∧ ¬ IsUsable "\u0662items" ∧ ¬ IsUsable "\u0661id" := by
  have hyields : yields .yaml (taggedItems "\u0663d" "\u0662items" "\u0661id") {} (fun _ output =>
      output.clients.map (namesOf {}) =
        [("\u0663dClient", [("\u0662items", ["\u0661id"])])]) = true := by
    decide +kernel
  obtain ⟨document, output, hread, h, hcheck⟩ := exists_of_yields hyields
  exact ⟨document, output, hread, h, of_decide_eq_true hcheck, by decide +kernel, by decide +kernel,
    by decide +kernel⟩

end Output

end ApiScribe
