import ApiScribe.Proofs.DeclarationOfShape
import ApiScribe.Proofs.FileNames
import ApiScribe.Proofs.HoistedNames

/-!
# Names of the members of an object

The properties of an object come out in the order of the document, each under the spelling of its name,
and the discriminating property of a variant stands in front of them.  So two of them have one name
exactly if the style spells two names of the document alike (`members_distinct`).

A style that leaves names unchanged never does.  Camel case does it to any two names with the same words
(`camelCase_eq_of_sameWords`), whatever stands between the words, but not to names in snake case: there
the name can be recovered (`snakeCase_camelCase`).
-/

namespace ApiScribe

open TypeScript

/-! ## Camel case -/

namespace Naming

open Text

/-- The names have the same words behind the same marks. -/
def HaveSameWords (first second : String) : Prop :=
  first.toList.takeWhile isMark = second.toList.takeWhile isMark ∧
    words isGap (first.toList.dropWhile isMark) = words isGap (second.toList.dropWhile isMark) ∧
    words isGap (first.toList.dropWhile isMark) ≠ []

theorem pascalWord_ne_nil {word : List Char} (h : word ≠ []) : pascalWord word ≠ [] := by
  cases word with
  | nil => exact absurd rfl h
  | cons c cs => exact List.append_ne_nil_of_left_ne_nil (upper_ne_nil c) _

/-- **Camel case sees only the words.** -/
theorem camelCase_eq_of_sameWords {first second : String} (h : HaveSameWords first second) :
    camelCase first = camelCase second := by
  obtain ⟨hmarks, hwords, hne⟩ := h
  have hpascal : pascalChars (first.toList.dropWhile isMark) =
      pascalChars (second.toList.dropWhile isMark) := by
    unfold pascalChars
    rw [hwords]
  have hsome : pascalChars (first.toList.dropWhile isMark) ≠ [] := by
    obtain ⟨word, hword⟩ := List.exists_mem_of_ne_nil _ hne
    intro hnil
    exact pascalWord_ne_nil (of_mem_words hword).1 (List.flatMap_eq_nil_iff.mp hnil word hword)
  unfold camelCase camelChars
  rw [← hpascal, ← hmarks]
  cases hcs : pascalChars (first.toList.dropWhile isMark) with
  | nil => exact absurd hcs hsome
  | cons c rest => rfl

/-- The small letters of ASCII. -/
def smallLetters : List Char :=
  "abcdefghijklmnopqrstuvwxyz".toList

/-- The small letters and the digits of ASCII. -/
def smallCharacters : List Char :=
  smallLetters ++ "0123456789".toList

/-- A word of small letters and digits. -/
structure IsSmallWord (word : List Char) : Prop where
  ne_nil : word ≠ []
  characters : ∀ c ∈ word, c ∈ smallCharacters

/-- Words of small letters and digits with one underscore between them.  There can be marks in front of
the first one, and the others begin with letters. -/
inductive IsSnakeCase : List Char → Prop
  | words {marks first : List Char} {rest : List (List Char)}
    (hmarks : ∀ c ∈ marks, isMark c = true) (hfirst : IsSmallWord first)
    (hrest : ∀ word ∈ rest, IsSmallWord word ∧ ∃ c cs, word = c :: cs ∧ c ∈ smallLetters) :
    IsSnakeCase (marks ++ (first ++ rest.flatMap fun word => '_' :: word))

/-- Words can be checked character by character. -/
theorem isSmallWord_of_all {word : List Char} (hne : word.isEmpty = false)
    (hall : word.all smallCharacters.contains = true) : IsSmallWord word := by
  refine ⟨fun hnil => ?_, fun c hc => ?_⟩
  · rw [hnil] at hne
    cases hne
  · exact List.contains_iff_mem.mp (List.all_eq_true.mp hall c hc)

/-- What becomes of a small letter or a digit. -/
theorem of_mem_smallCharacters {c : Char} (h : c ∈ smallCharacters) :
    isGap c = false ∧ isMark c = false ∧ isAsciiUpper c = false ∧ snakeChar c = [c] ∧
      upper c = [asciiUpper c] ∧ lower (asciiUpper c) = [c] ∧ isAlphabetic c = isLowercase c := by
  have hall : smallCharacters.Forall fun c =>
      isGap c = false ∧ isMark c = false ∧ isAsciiUpper c = false ∧ snakeChar c = [c] ∧
        upper c = [asciiUpper c] ∧ lower (asciiUpper c) = [c] ∧ isAlphabetic c = isLowercase c := by
    decide +kernel
  exact List.forall_iff_forall_mem.mp hall c h

/-- The capital of a letter is a letter with an underscore in front. -/
theorem snakeChar_asciiUpper {c : Char} (h : c ∈ smallLetters) :
    snakeChar (asciiUpper c) = ['_', c] := by
  have hall : smallLetters.Forall fun c => snakeChar (asciiUpper c) = ['_', c] := by decide +kernel
  exact List.forall_iff_forall_mem.mp hall c h

theorem words_eq_singleton {word : List Char} (h : IsSmallWord word) : words isGap word = [word] := by
  have hgap : ∀ c ∈ word, isGap c = false := fun c hc => (of_mem_smallCharacters (h.characters c hc)).1
  rw [words, pieces_eq_splitOnP, List.splitOnP_eq_singleton hgap]
  simp [h.ne_nil]

/-- The words are those with underscores between them. -/
theorem words_joined {rest : List (List Char)} (hrest : ∀ word ∈ rest, IsSmallWord word)
    {first : List Char} (hfirst : IsSmallWord first) :
    words isGap (first ++ rest.flatMap fun word => '_' :: word) = first :: rest := by
  induction rest generalizing first with
  | nil => rw [List.flatMap_nil, List.append_nil, words_eq_singleton hfirst]
  | cons word rest ih =>
    obtain ⟨hword, hrest⟩ := List.forall_mem_cons.mp hrest
    have hgap : isGap '_' = true := by decide +kernel
    rw [List.flatMap_cons, List.cons_append, words_append_cons isGap _ _ hgap,
      words_eq_singleton hfirst, ih hrest hword]
    rfl

/-- A small word is no acronym. -/
theorem pascalWord_of_isSmallWord {word : List Char} (h : IsSmallWord word) :
    pascalWord word = capitalizeChars word := by
  have hsame : word.any isAlphabetic = word.any isLowercase := by
    rw [Bool.eq_iff_iff, List.any_eq_true, List.any_eq_true]
    refine exists_congr fun c => and_congr_right fun hc => ?_
    rw [(of_mem_smallCharacters (h.characters c hc)).2.2.2.2.2.2]
  cases word with
  | nil => rfl
  | cons c cs =>
    rw [pascalWord, capitalizeChars, hsame, Bool.and_not_self, if_neg Bool.false_ne_true]

/-- Camel case of a name in snake case capitalizes all words but the first. -/
theorem camelChars_joined {marks first : List Char} {rest : List (List Char)}
    (hmarks : ∀ c ∈ marks, isMark c = true) (hfirst : IsSmallWord first)
    (hrest : ∀ word ∈ rest, IsSmallWord word) :
    camelChars (marks ++ (first ++ rest.flatMap fun word => '_' :: word)) =
      marks ++ (first ++ rest.flatMap capitalizeChars) := by
  obtain ⟨c, cs, rfl⟩ := List.exists_cons_of_ne_nil hfirst.ne_nil
  obtain ⟨-, hmark, -, -, hupper, hlower, -⟩ :=
    of_mem_smallCharacters (hfirst.characters c List.mem_cons_self)
  have hnotMark : ¬ isMark c = true := ne_true_of_eq_false hmark
  have hdrop : (marks ++ (c :: cs ++ rest.flatMap fun word => '_' :: word)).dropWhile isMark =
      c :: cs ++ rest.flatMap fun word => '_' :: word := by
    rw [List.dropWhile_append_of_pos hmarks, List.cons_append, List.dropWhile_cons_of_neg hnotMark]
  have htake : (marks ++ (c :: cs ++ rest.flatMap fun word => '_' :: word)).takeWhile isMark =
      marks := by
    rw [List.takeWhile_append_of_pos hmarks, List.cons_append, List.takeWhile_cons_of_neg hnotMark,
      List.append_nil]
  have hcapitals : rest.flatMap pascalWord = rest.flatMap capitalizeChars :=
    List.flatMap_congr fun word hword => pascalWord_of_isSmallWord (hrest word hword)
  have hpascal : pascalChars (c :: cs ++ rest.flatMap fun word => '_' :: word) =
      asciiUpper c :: (cs ++ rest.flatMap capitalizeChars) := by
    rw [pascalChars, words_joined hrest hfirst, List.flatMap_cons, hcapitals,
      pascalWord_of_isSmallWord hfirst, capitalizeChars, hupper]
    rfl
  unfold camelChars
  rw [hdrop, htake, hpascal]
  dsimp only
  rw [hlower]
  rfl

theorem snakeChars_eq_flatMap {c : Char} (h : isAsciiUpper c = false) (cs : List Char) :
    snakeChars (c :: cs) = (c :: cs).flatMap snakeChar := by
  rw [snakeChars, if_neg (ne_true_of_eq_false h), List.flatMap_cons]

/-- **A name in snake case can be recovered from camel case.** -/
theorem snakeChars_camelChars {name : List Char} (h : IsSnakeCase name) :
    snakeChars (camelChars name) = name := by
  obtain @⟨marks, first, rest, hmarks, hfirst, hrest⟩ := h
  have hmark : ∀ c ∈ marks, isAsciiUpper c = false ∧ snakeChar c = [c] := by
    intro c hc
    have hc := hmarks c hc
    rw [isMark, Bool.or_eq_true, decide_eq_true_iff, decide_eq_true_iff] at hc
    rcases hc with rfl | rfl <;> decide
  have hsmall : ∀ word, IsSmallWord word → ∀ c ∈ word, isAsciiUpper c = false ∧ snakeChar c = [c] := by
    intro word hword c hc
    obtain ⟨-, -, hupper, hsnake, -⟩ := of_mem_smallCharacters (hword.characters c hc)
    exact ⟨hupper, hsnake⟩
  have hkept : ∀ cs : List Char, (∀ c ∈ cs, isAsciiUpper c = false ∧ snakeChar c = [c]) →
      cs.flatMap snakeChar = cs := by
    intro cs hcs
    rw [List.flatMap_congr fun c hc => (hcs c hc).2, List.flatMap_singleton']
  -- no capital is in front, so the first character is treated like the others
  have hfront : snakeChars (marks ++ (first ++ rest.flatMap capitalizeChars)) =
      (marks ++ (first ++ rest.flatMap capitalizeChars)).flatMap snakeChar := by
    cases marks with
    | nil =>
      obtain ⟨c, cs, rfl⟩ := List.exists_cons_of_ne_nil hfirst.ne_nil
      exact snakeChars_eq_flatMap (hsmall _ hfirst c List.mem_cons_self).1 _
    | cons c cs => exact snakeChars_eq_flatMap (hmark c List.mem_cons_self).1 _
  have hword : ∀ word ∈ rest, (capitalizeChars word).flatMap snakeChar = '_' :: word := by
    intro word hmem
    obtain ⟨hsmallWord, c, cs, rfl, hc⟩ := hrest word hmem
    have hcs := hkept cs fun d hd => hsmall _ hsmallWord d (List.mem_cons_of_mem c hd)
    obtain ⟨-, -, -, -, hupper, -⟩ :=
      of_mem_smallCharacters (hsmallWord.characters c List.mem_cons_self)
    rw [capitalizeChars, hupper, List.singleton_append, List.flatMap_cons, snakeChar_asciiUpper hc,
      hcs]
    rfl
  rw [camelChars_joined hmarks hfirst fun word hmem => (hrest word hmem).1, hfront,
    List.flatMap_append, List.flatMap_append, hkept marks hmark, hkept first (hsmall first hfirst),
    List.flatMap_assoc, List.flatMap_congr hword]

/-- Names in snake case are kept apart by camel case. -/
theorem camelCase_injective_of_isSnakeCase {first second : String} (hfirst : IsSnakeCase first.toList)
    (hsecond : IsSnakeCase second.toList) (h : camelCase first = camelCase second) :
    first = second := by
  have hchars : camelChars first.toList = camelChars second.toList := String.ofList_injective h
  rw [← String.toList_inj, ← snakeChars_camelChars hfirst, hchars, snakeChars_camelChars hsecond]

end Naming

namespace Shape

variable {scope : Scope} {before after final : Progress} {properties : List Property}

/-! ## Members -/

/-- The names of the properties are the spellings of the names in the document. -/
theorem names_of_writtenAs {binding : Option Binding} {required : List String}
    {entries : List (String × Shape)}
    (h : List.Forall₂ (PropertyWrittenAs scope final binding required) entries properties) :
    properties.map Property.name =
      (entries.map Prod.fst).map scope.settings.propertyNameStyle.spell := by
  induction h with
  | nil => rfl
  | @cons entry property entries properties hproperty _ ih =>
    have hname : property.name = scope.settings.propertyNameStyle.spell entry.1 := by
      cases hproperty with
      | bound _ hname => rw [boundProperty, hname]
      | free => rfl
    rw [List.map_cons, List.map_cons, List.map_cons, hname, ih]

/-- The names of the properties that an object declares. -/
def declaredNames : Option Shape → List String
  | some ⟨.object entries _ _, _, _⟩ => entries.map Prod.fst
  | _ => []

/-- The names with that of the discriminating property in front, unless it is among them. -/
def memberNames (binding : Option Binding) (declared : List String) : List String :=
  match binding with
  | some binding =>
    if declared.contains binding.property then declared else binding.property :: declared
  | none => declared

theorem nodup_memberNames {binding : Option Binding} {declared : List String}
    (h : declared.Nodup) : (memberNames binding declared).Nodup := by
  unfold memberNames
  split
  next binding =>
    by_cases hmem : declared.contains binding.property = true
    · rw [if_pos hmem]
      exact h
    · rw [if_neg hmem]
      rw [List.contains_iff_mem] at hmem
      exact List.nodup_cons.mpr ⟨hmem, h⟩
  next => exact h

/-- An interface that extends another one has the properties of its body, and the discriminating one. -/
theorem names_of_bodyWrittenAs {name : String} {extra : Option Shape} {body : InterfaceBody}
    (h : BodyWrittenAs scope final name extra body) :
    (withBoundProperty scope.settings.propertyNameStyle (scope.bindingOf? name) body).map
        Property.name =
      (memberNames (scope.bindingOf? name) (declaredNames extra)).map
        scope.settings.propertyNameStyle.spell := by
  have hdeclared : body.declared = declaredNames extra := by
    cases h <;> rfl
  have hnames : body.properties.map Property.name =
      (declaredNames extra).map scope.settings.propertyNameStyle.spell := by
    cases h with
    | none => rfl
    | unknown => rfl
    | object _ hproperties => exact names_of_writtenAs hproperties
  unfold withBoundProperty memberNames
  rw [hdeclared]
  cases scope.bindingOf? name with
  | none => exact hnames
  | some binding =>
    dsimp only
    by_cases hmem : (declaredNames extra).contains binding.property = true
    · rw [if_pos hmem, if_pos hmem]
      exact hnames
    · rw [if_neg hmem, if_neg hmem, List.map_cons, List.map_cons, hnames]
      rfl

/-- The properties are written for these names of the document.  They have different names exactly if
the names are spelled differently. -/
structure HasMembers (style : PropertyNameStyle) (names : List String) (properties : List Property) :
    Prop where
  names_eq : properties.map Property.name = names.map style.spell
  nodup_iff : (properties.map Property.name).Nodup ↔
    ∀ first ∈ names, ∀ second ∈ names, style.spell first = style.spell second → first = second
  unchanged : style = .unchanged → (properties.map Property.name).Nodup
  snakeCase : (∀ name ∈ names, Naming.IsSnakeCase name.toList) →
    (properties.map Property.name).Nodup
  sameWords : style = .camelCase → ∀ first ∈ names, ∀ second ∈ names, first ≠ second →
    Naming.HaveSameWords first second → ¬ (properties.map Property.name).Nodup

theorem hasMembers_of_names_eq {style : PropertyNameStyle} {names : List String}
    (hnodup : names.Nodup) (h : properties.map Property.name = names.map style.spell) :
    HasMembers style names properties := by
  have hiff : (properties.map Property.name).Nodup ↔
      ∀ first ∈ names, ∀ second ∈ names, style.spell first = style.spell second → first = second := by
    rw [h, List.nodup_map_iff_inj_on hnodup]
  refine ⟨h, hiff, ?_, fun hsnake => ?_, ?_⟩
  · rintro rfl
    exact hiff.mpr fun _ _ _ _ heq => heq
  · cases style with
    | unchanged => exact hiff.mpr fun _ _ _ _ heq => heq
    | camelCase =>
      refine hiff.mpr fun first hfirst second hsecond heq => ?_
      exact Naming.camelCase_injective_of_isSnakeCase (hsnake first hfirst) (hsnake second hsecond) heq
  · rintro rfl first hfirst second hsecond hne hwords hnames
    exact hne (hiff.mp hnames first hfirst second hsecond (Naming.camelCase_eq_of_sameWords hwords))

/-- **The members of an object**: for an object whose properties have different names in the document,
and for an interface that extends another one.  Their names are different exactly if the style spells no
two of the names alike. -/
theorem members_distinct (scope : Scope) :
    (∀ parent owner required declared before properties after, (declared.map Prod.fst).Nodup →
      Shape.properties parent owner required declared scope before = (.ok properties, after) →
      HasMembers scope.settings.propertyNameStyle (declared.map Prod.fst) properties) ∧
    ∀ name pointer extra before kind after, (declaredNames extra).Nodup →
      extendingInterface name pointer extra scope before = (.ok (some kind), after) →
      ∃ base properties index, kind = .interface [base] properties index ∧
        HasMembers scope.settings.propertyNameStyle
          (memberNames (scope.bindingOf? name) (declaredNames extra)) properties := by
  constructor
  · intro parent owner required declared before properties after hnodup h
    rw [Shape.properties, Session.bind_eq_ok] at h
    obtain ⟨binding, _, -, h⟩ := h
    exact hasMembers_of_names_eq hnodup
      (names_of_writtenAs (writtenAs_of_propertyTypes (le_refl after) h))
  · intro name pointer extra before kind after hnodup h
    rcases extendingInterface_cases h with ⟨base, body, _, -, -, -, -, hbody, hkind⟩ | ⟨hnone, -⟩
    · refine ⟨base, _, _, Option.some.inj hkind, ?_⟩
      exact hasMembers_of_names_eq (nodup_memberNames hnodup)
        (names_of_bodyWrittenAs (bodyWrittenAs_of_interfaceBody (le_refl after) hbody))
    · cases hnone

/-- A document with a pet, where properties are spelled in camel case and the shape of a dog is bound. -/
def dogScope : Scope where
  root := .object [("components", .object [("schemas", .object [("Pet", .object [])])])]
  settings := { propertyNameStyle := .camelCase }
  bindings := [("Dog", { property := "pet_type", literal := "dog" })]
  shapeNames := ["Pet", "Dog"]

/-- The properties of a dog. -/
def dogProperties : List (String × Shape) :=
  [("owner_id", .string), ("nick_name", .string)]

theorem isSnakeCase_dogProperties :
    ∀ name ∈ dogProperties.map Prod.fst, Naming.IsSnakeCase name.toList := by
  have howner : Naming.IsSnakeCase
      ([] ++ ("owner".toList ++ ["id".toList].flatMap fun word => '_' :: word)) :=
    .words nofun (Naming.isSmallWord_of_all (by decide) (by decide)) (by
      intro word hword
      rw [List.mem_singleton.mp hword]
      exact ⟨Naming.isSmallWord_of_all (by decide) (by decide), 'i', ['d'], rfl, by decide⟩)
  have hnick : Naming.IsSnakeCase
      ([] ++ ("nick".toList ++ ["name".toList].flatMap fun word => '_' :: word)) :=
    .words nofun (Naming.isSmallWord_of_all (by decide) (by decide)) (by
      intro word hword
      rw [List.mem_singleton.mp hword]
      exact ⟨Naming.isSmallWord_of_all (by decide) (by decide), 'n', ['a', 'm', 'e'], rfl,
        by decide⟩)
  exact List.forall_mem_cons.mpr ⟨howner, List.forall_mem_singleton.mpr hnick⟩

theorem members_distinct_dog :
    (∃ properties after,
      Shape.properties (some "Dog") none [] dogProperties dogScope {} = (.ok properties, after) ∧
        (properties.map Property.name).Nodup) ∧
      ∃ kind after,
        extendingInterface "Dog" "#/components/schemas/Pet"
            (some ⟨.object dogProperties [] .unspecified, false, none⟩) dogScope {} =
          (.ok (some kind), after) ∧
        ∃ base properties index, kind = .interface [base] properties index ∧
          properties.map Property.name = ["petType", "ownerId", "nickName"] := by
  constructor
  · have hrun : (Shape.properties (some "Dog") none [] dogProperties dogScope {}).1.isOk = true := by
      decide +kernel
    rcases h : Shape.properties (some "Dog") none [] dogProperties dogScope {} with
      ⟨_ | properties, after⟩
    · rw [h] at hrun
      cases hrun
    have hmembers := (members_distinct dogScope).1 _ _ _ _ _ _ _ (by decide) h
    exact ⟨properties, after, rfl, hmembers.snakeCase isSnakeCase_dogProperties⟩
  · have hrun : (extendingInterface "Dog" "#/components/schemas/Pet"
        (some ⟨.object dogProperties [] .unspecified, false, none⟩) dogScope {}).1.toOption.join.isSome =
          true := by
      decide +kernel
    rcases h : extendingInterface "Dog" "#/components/schemas/Pet"
        (some ⟨.object dogProperties [] .unspecified, false, none⟩) dogScope {} with
      ⟨_ | _ | kind, after⟩
    · rw [h] at hrun
      cases hrun
    · rw [h] at hrun
      cases hrun
    obtain ⟨base, properties, index, hkind, hmembers⟩ :=
      (members_distinct dogScope).2 _ _ _ _ _ _ (by decide) h
    have hnames := hmembers.names_eq
    rw [show (memberNames (dogScope.bindingOf? "Dog")
        (declaredNames (some ⟨.object dogProperties [] .unspecified, false, none⟩))).map
          dogScope.settings.propertyNameStyle.spell = ["petType", "ownerId", "nickName"] by
      decide +kernel] at hnames
    exact ⟨kind, after, rfl, base, properties, index, hkind, hnames⟩

/-- **Two properties can become one**: camel case spells their names alike. -/
theorem exists_repeated_property :
    ∃ declared properties after, (declared.map Prod.fst).Nodup ∧
      Shape.properties (some "User") (some "User") [] declared dogScope {} =
        (.ok properties, after) ∧
      ¬ (properties.map Property.name).Nodup := by
  have hrun : (Shape.properties (some "User") (some "User") []
      [("user_id", .string), ("userId", .string)] dogScope {}).1.map (List.map Property.name) =
        .ok ["userId", "userId"] := by decide +kernel
  rcases h : Shape.properties (some "User") (some "User") []
      [("user_id", .string), ("userId", .string)] dogScope {} with ⟨_ | properties, after⟩
  · rw [h] at hrun
    cases hrun
  · rw [h] at hrun
    refine ⟨_, properties, after, by decide, h, ?_⟩
    rw [show properties.map Property.name = ["userId", "userId"] from Except.ok.inj hrun]
    decide

end Shape

end ApiScribe
