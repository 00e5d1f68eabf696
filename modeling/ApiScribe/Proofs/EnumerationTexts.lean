import ApiScribe.Proofs.EnumerationReading
import ApiScribe.Proofs.NullableDeclarations

/-!
# The texts of enumerations

A declared enumeration is written in one of three ways, and each of its texts is read as the values of the
members in their order, with the bottom behind them if there is one (`read?_enumerationText`).  For the
texts with keys this needs the keys to be different.

The tokens are found part by part.  An object stands between two equals signs.  A native enumeration has one
in every member, so there the text is taken apart from one member to the next (`ofText?_nativeMembers`).
-/

namespace ApiScribe

open TypeScript

/-- The literal of a value is printed as a number only if it is one. -/
theorem EnumValue.IsProper.isFinite {value : EnumValue} (h : value.IsProper) :
    value.literal.IsFinite := by
  cases value with
  | float x => exact Binary64.IsProper.isFinite_eq h
  | _ => trivial

namespace TypeScript

variable {alphabet : IdentifierAlphabet}

/-! ## Parts of the texts -/

/-- Words with a blank behind each of them. -/
theorem delimits_words (text : String) (words : List String)
    (htext : text = String.join (words.map (· ++ " ")))
    (h : words.Forall fun word => word ≠ "" ∧ word.toList.Forall fun c => Text.isAsciiLetter c = true) :
    Delimits alphabet text (words.map .word) := by
  have hblank : Delimits alphabet " " [] := delimits_marks _ (by decide) rfl
  subst htext
  rw [List.forall_iff_forall_mem] at h
  induction words with
  | nil =>
    rw [List.map_nil, String.join_nil]
    exact delimits_marks "" (by decide) rfl
  | cons word words ih =>
    obtain ⟨⟨hne, hletters⟩, hwords⟩ := List.forall_mem_cons.mp h
    have hword : Delimits alphabet (word ++ " ") ([.word word] ++ []) :=
      (spells_letters hne hletters).before hblank (by decide) (by decide)
    rw [List.map_cons, String.join_cons]
    exact hword.append (ih hwords)

/-- The member for a key and a value. -/
def EnumMember.ofEntry (entry : String × EnumValue) : EnumMember :=
  { key := entry.1, value := entry.2.literal }

/-- The tokens of an entry of an object, up to the comma. -/
def entryTokens (entry : String × EnumValue) : List Token :=
  keyToken entry.1 :: .mark .colon :: (entry.2.literal.tokens ++ [.mark .comma])

theorem map_token_flatMap_entryTokens (entries : List (String × EnumValue)) :
    (entries.flatMap entryTokens).map Lexeme.token =
      entries.flatMap fun entry =>
        Enumeration.entryLexemes (.mark .colon) entry ++ [Lexeme.mark .comma] := by
  rw [List.map_flatMap]
  refine List.flatMap_congr fun entry _ => ?_
  rw [entryTokens, Enumeration.entryLexemes, List.map_cons, List.map_cons, List.map_append]
  rfl

theorem delimits_entryKey (key : String) : Delimits alphabet ("  " ++ keyText key ++ " ") [keyToken key] :=
  ((delimits_marks "  " (by decide) rfl).before (spells_keyText key)).before
    (delimits_marks " " (by decide) rfl) (by decide) (by decide)

theorem delimits_entry {entry : String × EnumValue} (h : entry.2.IsProper) :
    Delimits alphabet ((EnumMember.ofEntry entry).line ": ") (entryTokens entry) := by
  have hindent : Delimits alphabet "  " [] := delimits_marks _ (by decide) rfl
  have hcolon : Delimits alphabet ": " [.mark .colon] := delimits_marks _ (by decide) rfl
  have hcomma : Delimits alphabet ",\n" [.mark .comma] := delimits_marks _ (by decide) rfl
  have hkey := (hindent.before (spells_keyText entry.1)).before hcolon (by decide) (by decide)
  have hvalue := (hkey.before (Literal.spells_text h.isFinite)).before hcomma (by decide) (by decide)
  rw [EnumMember.line, EnumMember.ofEntry, entryTokens]
  simpa only [List.nil_append, List.cons_append, List.append_assoc] using hvalue

variable {entries : List (String × EnumValue)}

theorem delimits_entries (h : ∀ entry ∈ entries, entry.2.IsProper) :
    Delimits alphabet (String.join ((entries.map EnumMember.ofEntry).map (EnumMember.line ": ")))
      (entries.flatMap entryTokens) := by
  induction entries with
  | nil =>
    rw [List.map_nil, List.map_nil, String.join_nil]
    exact delimits_marks "" (by decide) rfl
  | cons entry entries ih =>
    obtain ⟨hentry, hentries⟩ := List.forall_mem_cons.mp h
    rw [List.map_cons, List.map_cons, String.join_cons, List.flatMap_cons]
    exact (delimits_entry hentry).append (ih hentries)

/-- **The members of a native enumeration** are read one by one: what stands between two of the equals
signs is the value of one member and the key of the next. -/
theorem ofText?_nativeMembers {front : String} {tokens : List Token}
    (hfront : Delimits alphabet front tokens) (h : ∀ entry ∈ entries, entry.2.IsProper) :
    Lexeme.ofText? alphabet
        (front ++ String.join ((entries.map EnumMember.ofEntry).map (EnumMember.line " = ")) ++
          "\x7d\n") =
      some (tokens.map .token ++
        entries.flatMap (fun entry =>
          Enumeration.entryLexemes .equals entry ++ [Lexeme.mark .comma]) ++
        [.mark .closeBrace]) := by
  induction entries generalizing front tokens with
  | nil =>
    have hclose : Delimits alphabet "\x7d\n" [.mark .closeBrace] := delimits_marks _ (by decide) rfl
    rw [List.map_nil, List.map_nil, String.join_nil, String.append_empty,
      Lexeme.ofText?_of_tokens (ofText?_of_spells (hfront.append hclose).spells), List.map_append,
      List.flatMap_nil, List.append_nil]
    rfl
  | cons entry entries ih =>
    obtain ⟨hentry, hentries⟩ := List.forall_mem_cons.mp h
    have hblank : Delimits alphabet " " [] := delimits_marks _ (by decide) rfl
    have hcomma : Delimits alphabet ",\n" [.mark .comma] := delimits_marks _ (by decide) rfl
    have hkey := hfront.append (delimits_entryKey entry.1)
    have hvalue := (hblank.before (Literal.spells_text hentry.isFinite)).before hcomma (by decide)
      (by decide)
    have hequals : " = " = " " ++ "=" ++ " " := by decide
    have htext : front ++ String.join (((entry :: entries).map EnumMember.ofEntry).map
        (EnumMember.line " = ")) ++ "\x7d\n" =
          (front ++ ("  " ++ keyText entry.1 ++ " ")) ++ "=" ++
            (" " ++ entry.2.literal.text ++ ",\n" ++
              String.join ((entries.map EnumMember.ofEntry).map (EnumMember.line " = ")) ++ "\x7d\n") := by
      rw [List.map_cons, List.map_cons, String.join_cons]
      conv_lhs => enter [1, 2, 1]; rw [EnumMember.line, hequals, EnumMember.ofEntry]
      simp only [String.append_assoc]
    rw [htext, Lexeme.ofText?_equals (ofText?_of_spells hkey.spells), ih hvalue hentries,
      Option.map_some, List.flatMap_cons, Enumeration.entryLexemes]
    simp only [List.map_append, List.map_cons, List.map_nil, List.nil_append, List.append_assoc,
      List.cons_append]
    rfl

/-! ## Unions -/

/-- The tokens of a union of alternatives. -/
def unionTokens (lists : List (List Token)) : List Token :=
  separated .bar (if lists.isEmpty then [[.word "never"]] else lists)

theorem spells_unionText {texts : List String} {lists : List (List Token)}
    (h : List.Forall₂ (Spells alphabet) texts lists) :
    Spells alphabet (unionText texts) (unionTokens lists) := by
  cases h with
  | nil =>
    change Spells alphabet "never" [.word "never"]
    exact spells_letters (by decide) (by decide)
  | cons htext hrest =>
    have hbar : Delimits alphabet " | " [.mark .bar] := delimits_marks _ (by decide) rfl
    rw [unionText, List.isEmpty_cons, if_neg Bool.false_ne_true, unionTokens, List.isEmpty_cons,
      if_neg Bool.false_ne_true]
    exact spells_intercalate hbar (by decide) (by decide) (.cons htext hrest)

theorem union?_unionTokens {object : Option (String × Table Scalar)} {lists : List (List Token)}
    {values : List (List Scalar)} (hbar : ∀ tokens ∈ lists, Token.mark .bar ∉ tokens)
    (hvalues : List.Forall₂ (fun tokens values =>
      Enumeration.alternative? object (tokens.map .token) = some values) lists values) :
    Enumeration.union? object ((unionTokens lists ++ [Token.mark .semicolon]).map .token) =
      some values.flatten := by
  cases hvalues with
  | nil =>
    have hnever : List.Forall₂ (fun tokens values =>
        Enumeration.alternative? object (tokens.map .token) = some values)
        [[Token.word "never"]] [[]] := .cons rfl .nil
    rw [unionTokens, List.isEmpty_nil, if_pos rfl]
    have hunion := Enumeration.union?_separated (List.cons_ne_nil _ _) (by decide) hnever
    exact hunion
  | cons hfirst hrest =>
    exact Enumeration.union?_separated (List.cons_ne_nil _ _) hbar (.cons hfirst hrest)

variable {name : String} (hname : alphabet.Accepts name)
include hname

theorem spells_valuesType :
    Spells alphabet ("(typeof " ++ name ++ ")[keyof typeof " ++ name ++ "]")
      (Enumeration.valuesTokens name) := by
  have hspells : Spells alphabet name [.word name] := spells_word hname.start hname.part
  have hopen : Delimits alphabet "(" [.mark .openParen] := delimits_marks _ (by decide) rfl
  have htypeof : Delimits alphabet "typeof " [.word "typeof"] :=
    delimits_words _ ["typeof"] (by decide) (by decide)
  have hbracket : Delimits alphabet ")[" [.mark .closeParen, .mark .openBracket] :=
    delimits_marks _ (by decide) rfl
  have hkeyof : Delimits alphabet "keyof typeof " [.word "keyof", .word "typeof"] :=
    delimits_words _ ["keyof", "typeof"] (by decide) (by decide)
  have hclose : Delimits alphabet "]" [.mark .closeBracket] := delimits_marks _ (by decide) rfl
  have hobject := ((hopen.append htypeof).before hspells).before hbracket (by decide) (by decide)
  have hvalues := ((hobject.append hkeyof).before hspells).before hclose (by decide) (by decide)
  have htext : "(typeof " ++ name ++ ")[keyof typeof " ++ name ++ "]" =
      "(" ++ "typeof " ++ name ++ ")[" ++ "keyof typeof " ++ name ++ "]" := by
    have hleft : "(typeof " = "(" ++ "typeof " := by decide
    have hright : ")[keyof typeof " = ")[" ++ "keyof typeof " := by decide
    rw [hleft, hright]
    simp only [String.append_assoc]
  rw [htext]
  exact hvalues.spells

/-- The text of a type declaration, behind anything that is read in front of it. -/
theorem ofText?_type {front : String} {tokens : List Token} (hfront : Delimits alphabet front tokens)
    {texts : List String} {lists : List (List Token)}
    (h : List.Forall₂ (Spells alphabet) texts lists) :
    Lexeme.ofText? alphabet
        (front ++ "export type " ++ name ++ " = " ++ unionText texts ++ ";\n") =
      some (tokens.map .token ++ .word "export" :: .word "type" :: .word name :: .equals ::
        (unionTokens lists ++ [Token.mark .semicolon]).map .token) := by
  have hexport : Delimits alphabet "export type " [.word "export", .word "type"] :=
    delimits_words _ ["export", "type"] (by decide) (by decide)
  have hblank : Delimits alphabet " " [] := delimits_marks _ (by decide) rfl
  have hsemicolon : Delimits alphabet ";\n" [.mark .semicolon] := delimits_marks _ (by decide) rfl
  have hspells : Spells alphabet name [.word name] := spells_word hname.start hname.part
  have hhead := ((hfront.append hexport).before hspells).before hblank (by decide) (by decide)
  have htype := (hblank.before (spells_unionText h)).before hsemicolon (by decide) (by decide)
  have hequals : " = " = " " ++ "=" ++ " " := by decide
  have htext : front ++ "export type " ++ name ++ " = " ++ unionText texts ++ ";\n" =
      (front ++ "export type " ++ name ++ " ") ++ "=" ++ (" " ++ unionText texts ++ ";\n") := by
    rw [hequals]
    simp only [String.append_assoc]
  rw [htext, Lexeme.ofText?_equals (ofText?_of_spells hhead.spells),
    Lexeme.ofText?_of_tokens (ofText?_of_spells htype.spells), Option.map_some]
  simp only [List.map_append, List.map_cons, List.map_nil, List.nil_append, List.append_nil,
    List.append_assoc, List.cons_append]
  rfl

omit hname in
/-- An object and the type of its values are read as the object first, and then the type. -/
theorem ofLexemes?_object {body type : List Lexeme} {table : Table Scalar} {values : List Scalar}
    (hclose : Lexeme.mark .closeBrace ∉ body)
    (htable : Enumeration.table? (.mark .colon) body = some table)
    (hvalues : Enumeration.union? (some (name, table)) type = some values) :
    Enumeration.ofLexemes? (.word "export" :: .word "const" :: .word name :: .equals ::
      .mark .openBrace :: (body ++ .mark .closeBrace :: .word "as" :: .word "const" ::
        .mark .semicolon :: .word "export" :: .word "type" :: .word name :: .equals :: type)) =
      some (name, values) := by
  refine (Enumeration.ofLexemes?.eq_1 name _).trans ?_
  rw [span_ne hclose]
  change (if name = name then _ else none) = _
  rw [if_pos rfl, htable, Option.bind_eq_bind, Option.bind_some, hvalues]
  rfl

/-! ## The three styles -/

omit hname in
theorem forall₂_spells_bottom (bottom : Option Primitive) :
    List.Forall₂ (Spells alphabet) (bottom.map Primitive.text).toList
      (bottom.toList.map fun primitive => [Token.word primitive.text]) := by
  cases bottom with
  | none => exact .nil
  | some primitive => exact .cons (spells_primitive primitive) .nil

omit hname in
/-- The bottom is one value more. -/
theorem union?_withBottom {object : Option (String × Table Scalar)} {lists : List (List Token)}
    {values : List (List Scalar)} (hbar : ∀ tokens ∈ lists, Token.mark .bar ∉ tokens)
    (hvalues : List.Forall₂ (fun tokens values =>
      Enumeration.alternative? object (tokens.map .token) = some values) lists values)
    (bottom : Option NullableType) :
    Enumeration.union? object
        ((unionTokens (lists ++ (bottom.map NullableType.bottom).toList.map fun primitive =>
          [Token.word primitive.text]) ++ [Token.mark .semicolon]).map .token) =
      some (values.flatten ++ (bottom.map NullableType.scalar).toList) := by
  cases bottom with
  | none =>
    rw [Option.map_none, Option.toList_none, List.map_nil, List.append_nil, Option.map_none,
      Option.toList_none, List.append_nil]
    exact union?_unionTokens hbar hvalues
  | some style =>
    have hread : Scalar.ofLexemes? ([Token.word style.bottom.text].map Lexeme.token) =
        some style.scalar := by cases style <;> rfl
    have hbottom : List.Forall₂ (fun tokens values =>
        Enumeration.alternative? object (tokens.map .token) = some values)
        [[Token.word style.bottom.text]] [[style.scalar]] :=
      .cons (Enumeration.alternative?_of_ofLexemes? object hread) .nil
    have hunion := union?_unionTokens (List.forall_mem_append.mpr ⟨hbar, fun tokens htokens => by
      rw [List.mem_singleton.mp htokens]
      exact fun hmem => nomatch List.mem_singleton.mp hmem⟩) (List.rel_append hvalues hbottom)
    rw [List.flatten_append, List.flatten_singleton] at hunion
    exact hunion

variable (h : ∀ entry ∈ entries, entry.2.IsProper)
include h

/-- A union has its values one by one. -/
theorem read?_union (bottom : Option NullableType) :
    Enumeration.read? alphabet
        (enumerationText name .union (entries.map EnumMember.ofEntry)
          (bottom.map NullableType.bottom)) =
      some (name, entries.map (fun entry => entry.2.scalar) ++
        (bottom.map NullableType.scalar).toList) := by
  have hempty : Delimits alphabet "" [] := delimits_marks _ (by decide) rfl
  -- the alternatives as texts, as tokens and as values
  have hspells : List.Forall₂ (Spells alphabet)
      (entries.map fun entry => entry.2.literal.text) (entries.map fun entry => entry.2.literal.tokens) :=
    List.forall₂_map_left_iff.mpr (List.forall₂_map_right_iff.mpr
      (List.forall₂_same.mpr fun entry hentry => Literal.spells_text (h entry hentry).isFinite))
  have hvalues : List.Forall₂ (fun tokens values =>
      Enumeration.alternative? none (tokens.map .token) = some values)
      (entries.map fun entry => entry.2.literal.tokens) (entries.map fun entry => [entry.2.scalar]) :=
    List.forall₂_map_left_iff.mpr (List.forall₂_map_right_iff.mpr
      (List.forall₂_same.mpr fun entry hentry =>
        Enumeration.alternative?_of_ofLexemes? none (Scalar.ofLexemes?_literal (h entry hentry))))
  have hbar : ∀ tokens ∈ entries.map fun entry => entry.2.literal.tokens,
      Token.mark .bar ∉ tokens := by
    intro tokens htokens
    obtain ⟨entry, -, rfl⟩ := List.mem_map.mp htokens
    exact entry.2.literal.mark_notMem_tokens (by decide)
  have halternatives : writtenAlternatives name (entries.map EnumMember.ofEntry) .union =
      entries.map fun entry => entry.2.literal.text := by
    rw [writtenAlternatives, List.map_map]
    rfl
  have hflatten : (entries.map fun entry => [entry.2.scalar]).flatten =
      entries.map fun entry => entry.2.scalar := by
    rw [← List.flatMap_def, ← List.map_eq_flatMap]
  have hobject : writtenObject name (entries.map EnumMember.ofEntry) .union = "" := rfl
  rw [enumerationText_eq (by decide), halternatives, hobject, Enumeration.read?,
    ofText?_type hname hempty
      (List.rel_append hspells (forall₂_spells_bottom (bottom.map NullableType.bottom)))]
  refine (Enumeration.ofLexemes?.eq_2 name _).trans ?_
  rw [union?_withBottom hbar hvalues, hflatten, Option.map_some]

/-- The tokens of an object and of the type of its values. -/
theorem ofText?_constObject (bottom : Option Primitive) :
    Lexeme.ofText? alphabet
        (enumerationText name .constObject (entries.map EnumMember.ofEntry) bottom) =
      some (.word "export" :: .word "const" :: .word name :: .equals :: .mark .openBrace ::
        ((entries.flatMap entryTokens).map .token ++ .mark .closeBrace :: .word "as" ::
          .word "const" :: .mark .semicolon :: .word "export" :: .word "type" :: .word name ::
          .equals :: (unionTokens ([Enumeration.valuesTokens name] ++ bottom.toList.map fun primitive =>
            [Token.word primitive.text]) ++ [Token.mark .semicolon]).map .token)) := by
  have hexport : Delimits alphabet "export const " [.word "export", .word "const"] :=
    delimits_words _ ["export", "const"] (by decide) (by decide)
  have hblank : Delimits alphabet " " [] := delimits_marks _ (by decide) rfl
  have hspells : Spells alphabet name [.word name] := spells_word hname.start hname.part
  have hhead := (hexport.before hspells).before hblank (by decide) (by decide)
  -- the object, with what is behind it up to the type
  have hopen : Delimits alphabet " \x7b\n" [.mark .openBrace] := delimits_marks _ (by decide) rfl
  have hclose : Delimits alphabet "\x7d " [.mark .closeBrace] := delimits_marks _ (by decide) rfl
  have has : Delimits alphabet "as " [.word "as"] :=
    delimits_words _ ["as"] (by decide) (by decide)
  have hconst : Spells alphabet "const" [.word "const"] := spells_letters (by decide) (by decide)
  have hend : Delimits alphabet ";\n\n" [.mark .semicolon] := delimits_marks _ (by decide) rfl
  have hobject := (hopen.append (delimits_entries h)).append
    ((hclose.append has).append (hconst.before hend (by decide) (by decide)))
  have hvalues : List.Forall₂ (Spells alphabet)
      (writtenAlternatives name (entries.map EnumMember.ofEntry) .constObject)
      [Enumeration.valuesTokens name] := .cons (spells_valuesType hname) .nil
  have htype := ofText?_type hname hobject (List.rel_append hvalues (forall₂_spells_bottom bottom))
  have hequals : " = \x7b\n" = " " ++ "=" ++ " \x7b\n" := by decide
  have hbraces : "\x7d as const;\n\n" = "\x7d " ++ "as " ++ ("const" ++ ";\n\n") := by decide
  have htext : enumerationText name .constObject (entries.map EnumMember.ofEntry) bottom =
      ("export const " ++ name ++ " ") ++ "=" ++
        (" \x7b\n" ++ String.join ((entries.map EnumMember.ofEntry).map (EnumMember.line ": ")) ++
          ("\x7d " ++ "as " ++ ("const" ++ ";\n\n")) ++ "export type " ++ name ++ " = " ++
          unionText (writtenAlternatives name (entries.map EnumMember.ofEntry) .constObject ++
            (bottom.map Primitive.text).toList) ++ ";\n") := by
    have hwritten : writtenObject name (entries.map EnumMember.ofEntry) .constObject =
        "export const " ++ name ++ " = \x7b\n" ++
          String.join ((entries.map EnumMember.ofEntry).map (EnumMember.line ": ")) ++
          "\x7d as const;\n\n" := rfl
    rw [enumerationText_eq (by decide), hwritten, hequals, hbraces]
    simp only [String.append_assoc]
  rw [htext, Lexeme.ofText?_equals (ofText?_of_spells hhead.spells), htype, Option.map_some]
  simp only [List.map_append, List.map_cons, List.map_nil, List.append_nil, List.append_assoc,
    List.cons_append, List.nil_append]
  rfl

variable (hkeys : (entries.map Prod.fst).Nodup)
include hkeys

/-- An object has the values of its keys, and the type of its name has them all. -/
theorem read?_constObject (bottom : Option NullableType) :
    Enumeration.read? alphabet
        (enumerationText name .constObject (entries.map EnumMember.ofEntry)
          (bottom.map NullableType.bottom)) =
      some (name, entries.map (fun entry => entry.2.scalar) ++
        (bottom.map NullableType.scalar).toList) := by
  have hbrace : Lexeme.mark .closeBrace ∉ (entries.flatMap entryTokens).map Lexeme.token := by
    rw [map_token_flatMap_entryTokens]
    intro hmem
    obtain ⟨entry, -, hmem⟩ := List.mem_flatMap.mp hmem
    rcases List.mem_append.mp hmem with hmem | hmem
    · exact Enumeration.mark_notMem_entryLexemes (by decide) (by decide) entry hmem
    · cases List.mem_singleton.mp hmem
  have htable : Enumeration.table? (.mark .colon) ((entries.flatMap entryTokens).map Lexeme.token) =
      some (entries.map fun entry => (entry.1, entry.2.scalar)) := by
    rw [map_token_flatMap_entryTokens]
    exact Enumeration.table?_flatMap (by decide) h hkeys
  have hbar : ∀ tokens ∈ [Enumeration.valuesTokens name], Token.mark .bar ∉ tokens := by
    intro tokens htokens
    rw [List.mem_singleton.mp htokens, Enumeration.valuesTokens]
    simp
  have hvalues : List.Forall₂ (fun tokens values =>
      Enumeration.alternative? (some (name, entries.map fun entry => (entry.1, entry.2.scalar)))
        (tokens.map .token) = some values)
      [Enumeration.valuesTokens name] [entries.map fun entry => entry.2.scalar] := by
    refine .cons ?_ .nil
    rw [Enumeration.alternative?_valuesTokens, List.map_map]
    rfl
  have hread := ofLexemes?_object hbrace htable (union?_withBottom hbar hvalues bottom)
  rw [List.flatten_singleton] at hread
  rw [Enumeration.read?, ofText?_constObject hname h, Option.bind_some]
  exact hread

/-- A native enumeration is a table of its keys. -/
theorem read?_native :
    Enumeration.read? alphabet
        (enumerationText name .native (entries.map EnumMember.ofEntry) none) =
      some (name, entries.map fun entry => entry.2.scalar) := by
  have hexport : Delimits alphabet "export enum " [.word "export", .word "enum"] :=
    delimits_words _ ["export", "enum"] (by decide) (by decide)
  have hopen : Delimits alphabet " \x7b\n" [.mark .openBrace] := delimits_marks _ (by decide) rfl
  have hspells : Spells alphabet name [.word name] := spells_word hname.start hname.part
  have hfront := (hexport.before hspells).before hopen (by decide) (by decide)
  unfold enumerationText
  dsimp only
  have hread := Enumeration.ofLexemes?.eq_3 name (entries.flatMap (fun entry =>
    Enumeration.entryLexemes .equals entry ++ [Lexeme.mark .comma]) ++ [.mark .closeBrace])
  rw [List.getLast?_concat, if_pos rfl, List.dropLast_concat,
    Enumeration.table?_flatMap (by decide) h hkeys, Option.map_some, List.map_map] at hread
  rw [Enumeration.read?, ofText?_nativeMembers hfront h, Option.bind_some, List.append_assoc]
  exact hread

/-- **The text of an enumeration** is read as the values of its members in their order, and the bottom
behind them; a native one has none. -/
theorem read?_enumerationText {style : EnumStyle} {bottom : Option NullableType}
    (hstyle : style = .native → bottom = none) :
    Enumeration.read? alphabet
        (enumerationText name style (entries.map EnumMember.ofEntry)
          (bottom.map NullableType.bottom)) =
      some (name, entries.map (fun entry => entry.2.scalar) ++
        (bottom.map NullableType.scalar).toList) := by
  cases style with
  | constObject => exact read?_constObject hname h hkeys bottom
  | union => exact read?_union hname h bottom
  | native =>
    rw [hstyle rfl, Option.map_none, Option.map_none, Option.toList_none, List.append_nil]
    exact read?_native hname h hkeys

end TypeScript

end ApiScribe
