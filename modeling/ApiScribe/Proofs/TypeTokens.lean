import ApiScribe.Proofs.Tokens

/-!
# The tokens of a type

`Ty.tokens` are the tokens that a type is meant to be written with.  The printer puts marks between
all the parts of a type, and each of them begins with a delimiter, so where one part ends and the next
begins is seen from the text: `Ty.spells_text` says that the text of a type is read as these tokens.

This depends on the names that the type mentions, which have to be identifiers, and on its numbers,
which have to be finite; then they are written in digits (`isNumeral_positional`).
-/

namespace ApiScribe.TypeScript

open Text

variable {alphabet : IdentifierAlphabet}

/-! ## Numbers -/

theorem isAsciiDigit_of_mem_toDigits {n : Nat} {c : Char} (h : c ∈ Nat.toDigits 10 n) :
    isAsciiDigit c = true := by
  have hdigit : c.isDigit = true := Nat.isDigit_of_mem_toDigits (by decide) (by decide) h
  rw [Char.isDigit, Bool.and_eq_true, decide_eq_true_iff, decide_eq_true_iff] at hdigit
  rw [isAsciiDigit, Bool.and_eq_true, decide_eq_true_iff, decide_eq_true_iff]
  exact hdigit

/-- The first digit of a positive number is not zero. -/
theorem exists_toDigits_eq_cons {n : Nat} (h : 0 < n) :
    ∃ c cs, Nat.toDigits 10 n = c :: cs ∧ c ≠ '0' := by
  induction n using Nat.strongRecOn with
  | ind n ih =>
    by_cases hlt : n < 10
    · have hdigits : ∀ m < 10, 0 < m → m.digitChar ≠ '0' := by decide
      exact ⟨n.digitChar, [], Nat.toDigits_of_lt_base hlt, hdigits n hlt h⟩
    · obtain ⟨c, cs, hcs, hc⟩ := ih (n / 10) (by omega) (by omega)
      refine ⟨c, cs ++ [(n % 10).digitChar], ?_, hc⟩
      rw [Nat.toDigits_of_base_le (by decide) (by omega), hcs]
      rfl

theorem isWhole_toDigits (n : Nat) : IsWhole (Nat.toDigits 10 n) := by
  refine ⟨fun c hc => isAsciiDigit_of_mem_toDigits hc, ?_⟩
  rcases Nat.eq_zero_or_pos n with rfl | hpos
  · exact Or.inl (Nat.toDigits_zero 10)
  · exact Or.inr (exists_toDigits_eq_cons hpos)

theorem isSignedNumeral_integer (n : Int) : IsSignedNumeral (toString n).toList := by
  rw [Int.toString_eq_repr, Int.repr_eq_if]
  by_cases h : 0 ≤ n
  · rw [if_pos h, Nat.repr_eq_ofList_toDigits, String.toList_ofList]
    exact Or.inl (.whole (isWhole_toDigits _))
  · have hlist : ("-" ++ (-n).toNat.repr).toList = '-' :: Nat.toDigits 10 (-n).toNat := by
      rw [Nat.repr_eq_ofList_toDigits]
      simp
    rw [if_neg h, hlist]
    exact Or.inr ⟨_, rfl, .whole (isWhole_toDigits _)⟩

theorem isWhole_zero : IsWhole ['0'] :=
  ⟨List.forall_mem_singleton.mpr rfl, Or.inl rfl⟩

/-- Positional notation is a numeral: in each of the layouts the digits before the point are those of
a natural number. -/
theorem isNumeral_positional (d : Decimal) : IsNumeral d.positional := by
  have hzeros : ∀ n : Nat, ∀ c ∈ List.replicate n '0', isAsciiDigit c = true := by
    intro n c hc
    rw [List.eq_of_mem_replicate hc]
    rfl
  have hdigits : ∀ c ∈ d.digitChars, isAsciiDigit c = true :=
    fun c hc => isAsciiDigit_of_mem_toDigits hc
  rw [Decimal.positional]
  by_cases hplaces : (-d.exponent).toNat = 0
  · rw [if_pos hplaces]
    by_cases hzero : d.digits = 0
    · rw [if_pos hzero]
      exact .whole isWhole_zero
    · rw [if_neg hzero]
      obtain ⟨c, cs, hcs, hc⟩ := exists_toDigits_eq_cons (Nat.pos_of_ne_zero hzero)
      have hfirst : d.digitChars ++ List.replicate d.exponent.toNat '0' =
          c :: (cs ++ List.replicate d.exponent.toNat '0') := by
        rw [Decimal.digitChars, hcs, List.cons_append]
      exact .whole ⟨List.forall_mem_append.mpr ⟨hdigits, hzeros _⟩, Or.inr ⟨c, _, hfirst, hc⟩⟩
  · rw [if_neg hplaces]
    by_cases hlt : (-d.exponent).toNat < d.digitChars.length
    · -- two digits at least, so the number is not zero
      rw [if_pos hlt]
      have hpos : 0 < d.digits := by
        rcases Nat.eq_zero_or_pos d.digits with hzero | hpos
        · rw [Decimal.digitChars, hzero, Nat.toDigits_zero, List.length_singleton] at hlt
          omega
        · exact hpos
      obtain ⟨c, cs, hcs, hc⟩ := exists_toDigits_eq_cons hpos
      refine .fraction ⟨fun c hc => hdigits c (List.mem_of_mem_take hc), Or.inr ?_⟩
        fun c hc => hdigits c (List.mem_of_mem_drop hc)
      obtain ⟨k, hk⟩ : ∃ k, d.digitChars.length - (-d.exponent).toNat = k + 1 :=
        ⟨d.digitChars.length - (-d.exponent).toNat - 1, by omega⟩
      refine ⟨c, cs.take k, ?_, hc⟩
      rw [hk, Decimal.digitChars, hcs]
      rfl
    · rw [if_neg hlt]
      exact .fraction isWhole_zero (List.forall_mem_append.mpr ⟨hzeros _, hdigits⟩)

theorem isSignedNumeral_number {value : Binary64} (h : value.isFinite = true) :
    IsSignedNumeral value.text.toList := by
  cases value with
  | finite negative significand exponent =>
    have hnumeral := isNumeral_positional (Decimal.shortest significand exponent)
    rw [Binary64.text, String.toList_ofList]
    cases negative with
    | false => exact Or.inl hnumeral
    | true => exact Or.inr ⟨_, rfl, hnumeral⟩
  | infinite => cases h
  | notANumber => cases h

/-! ## Literals and keys -/

/-- The tokens of a literal. -/
def Literal.tokens : Literal → List Token
  | .string value => [.text value]
  | .number value => numeralTokens value.text.toList
  | .integer value => numeralTokens (toString value).toList
  | .boolean true => [.word "true"]
  | .boolean false => [.word "false"]
  | .null => [.word "null"]

/-- The literal is no number, or a finite one. -/
def Literal.IsFinite : Literal → Prop
  | .number value => value.isFinite = true
  | _ => True

theorem Literal.spells_text {literal : Literal} (h : literal.IsFinite) :
    Spells alphabet literal.text literal.tokens := by
  cases literal with
  | string value => exact (delimits_quote value).spells
  | number value =>
    have hspells : Spells alphabet _ _ := spells_signed (isSignedNumeral_number h)
    rwa [String.ofList_toList] at hspells
  | integer value =>
    have hspells : Spells alphabet _ _ := spells_signed (isSignedNumeral_integer value)
    rwa [String.ofList_toList] at hspells
  | boolean value => cases value <;> exact spells_letters (by decide) (by decide)
  | null => exact spells_letters (by decide) (by decide)

/-- The token of a key. -/
def keyToken (name : String) : Token :=
  if needsQuoting name then .text name else .word name

theorem isPart_of_isKeyChar {c : Char} (h : isKeyChar c = true) : alphabet.isPart c = true := by
  rw [isKeyChar, isKeyStart, Bool.or_eq_true, Bool.or_eq_true, Bool.or_eq_true,
    decide_eq_true_iff, decide_eq_true_iff] at h
  rcases h with ((hletter | rfl) | rfl) | hdigit
  · exact alphabet.isPart_of_isAsciiLetter hletter
  · exact alphabet.isPart_ascii '_' (by decide)
  · exact alphabet.isPart_ascii '$' (by decide)
  · exact alphabet.isPart_of_isAsciiDigit hdigit

theorem isStart_of_isKeyStart {c : Char} (h : isKeyStart c = true) : alphabet.isStart c = true := by
  rw [isKeyStart, Bool.or_eq_true, Bool.or_eq_true, decide_eq_true_iff, decide_eq_true_iff] at h
  rcases h with (hletter | rfl) | rfl
  · exact alphabet.isStart_of_isAsciiLetter hletter
  · exact alphabet.isStart_ascii '_' (by decide)
  · exact alphabet.isStart_ascii '$' (by decide)

theorem spells_keyText (name : String) : Spells alphabet (keyText name) [keyToken name] := by
  rw [keyText, keyToken]
  by_cases hquoted : needsQuoting name
  · rw [if_pos hquoted, if_pos hquoted]
    exact (delimits_quote name).spells
  · rw [if_neg hquoted, if_neg hquoted]
    rw [needsQuoting] at hquoted
    split at hquoted
    next => exact absurd rfl hquoted
    next c cs hcs =>
      rw [Bool.not_eq_true, Bool.not_eq_false', Bool.and_eq_true, List.all_eq_true] at hquoted
      obtain ⟨hstart, hall⟩ := hquoted
      refine spells_word ⟨c, by rw [hcs]; rfl, isStart_of_isKeyStart hstart⟩ ?_
      rw [hcs]
      exact fun d hd => isPart_of_isKeyChar (hall d hd)

/-! ## Types -/

/-- Lists of tokens with a mark between them. -/
def separated (mark : Mark) : List (List Token) → List Token
  | [] => []
  | [tokens] => tokens
  | tokens :: rest => tokens ++ .mark mark :: separated mark rest

/-- The tokens in parentheses if they are needed. -/
def grouped (needed : Bool) (tokens : List Token) : List Token :=
  if needed then .mark .openParen :: tokens ++ [.mark .closeParen] else tokens

/-- The tokens of an index signature. -/
def indexTokens (type : List Token) : List Token :=
  [.mark .openBracket, .word "key", .mark .colon, .word "string", .mark .closeBracket,
    .mark .colon] ++ type

mutual

/-- The tokens of a type. -/
def Ty.tokens : Ty → List Token
  | .primitive primitive => [.word primitive.text]
  | .array item =>
    grouped item.isCompound item.tokens ++ [.mark .openBracket, .mark .closeBracket]
  | .union members => separated .bar (Ty.tokenLists members)
  | .intersection members => separated .ampersand (Ty.operandTokens members)
  | .object properties index =>
    .mark .openBrace :: separated .semicolon (Property.tokenLists properties ++ match index with
      | some type => [indexTokens type.tokens]
      | none => []) ++ [.mark .closeBrace]
  | .record key value =>
    .word "Record" :: .mark .openAngle :: (key.tokens ++ .mark .comma :: value.tokens) ++
      [.mark .closeAngle]
  | .literal literal => literal.tokens
  | .named name => [.word name]
  | .generic name arguments =>
    .word name :: .mark .openAngle :: separated .comma (Ty.tokenLists arguments) ++
      [.mark .closeAngle]

/-- The tokens of types. -/
def Ty.tokenLists : List Ty → List (List Token)
  | [] => []
  | type :: rest => type.tokens :: Ty.tokenLists rest

/-- The tokens of the members of an intersection. -/
def Ty.operandTokens : List Ty → List (List Token)
  | [] => []
  | type :: rest => grouped type.isUnion type.tokens :: Ty.operandTokens rest

/-- The tokens of a property. -/
def Property.tokens : Property → List Token
  | ⟨name, type, optional, _⟩ =>
    keyToken name :: (if optional then [.mark .question] else []) ++ .mark .colon :: type.tokens

/-- The tokens of properties. -/
def Property.tokenLists : List Property → List (List Token)
  | [] => []
  | property :: rest => property.tokens :: Property.tokenLists rest

end

theorem Ty.tokenLists_eq (types : List Ty) : Ty.tokenLists types = types.map Ty.tokens := by
  induction types with
  | nil => rfl
  | cons type types ih => rw [Ty.tokenLists, List.map_cons, ih]

theorem Ty.operandTokens_eq (types : List Ty) :
    Ty.operandTokens types = types.map fun type => grouped type.isUnion type.tokens := by
  induction types with
  | nil => rfl
  | cons type types ih => rw [Ty.operandTokens, List.map_cons, ih]

theorem Property.tokenLists_eq (properties : List Property) :
    Property.tokenLists properties = properties.map Property.tokens := by
  induction properties with
  | nil => rfl
  | cons property properties ih => rw [Property.tokenLists, List.map_cons, ih]

/-- The property holds of the type and of all types inside it. -/
inductive Ty.Everywhere (P : Ty → Prop) : Ty → Prop
  | primitive {primitive : Primitive} (here : P (.primitive primitive)) :
    Everywhere P (.primitive primitive)
  | array {item : Ty} (here : P (.array item)) (hitem : Everywhere P item) :
    Everywhere P (.array item)
  | union {members : List Ty} (here : P (.union members))
    (hmembers : ∀ member ∈ members, Everywhere P member) : Everywhere P (.union members)
  | intersection {members : List Ty} (here : P (.intersection members))
    (hmembers : ∀ member ∈ members, Everywhere P member) : Everywhere P (.intersection members)
  | object {properties : List Property} {index : Option Ty} (here : P (.object properties index))
    (hproperties : ∀ property ∈ properties, Everywhere P property.type)
    (hindex : ∀ type, index = some type → Everywhere P type) :
    Everywhere P (.object properties index)
  | record {key value : Ty} (here : P (.record key value)) (hkey : Everywhere P key)
    (hvalue : Everywhere P value) : Everywhere P (.record key value)
  | literal {literal : Literal} (here : P (.literal literal)) : Everywhere P (.literal literal)
  | named {name : String} (here : P (.named name)) : Everywhere P (.named name)
  | generic {name : String} {arguments : List Ty} (here : P (.generic name arguments))
    (harguments : ∀ argument ∈ arguments, Everywhere P argument) :
    Everywhere P (.generic name arguments)

/-- What holds of all types holds everywhere in a type. -/
theorem Ty.everywhere {P : Ty → Prop} (h : ∀ type, P type) (type : Ty) : type.Everywhere P := by
  refine Ty.rec (motive_1 := fun type => type.Everywhere P)
    (motive_2 := fun property => property.type.Everywhere P)
    (motive_3 := fun types => ∀ type ∈ types, type.Everywhere P)
    (motive_4 := fun properties => ∀ property ∈ properties, property.type.Everywhere P)
    (motive_5 := fun index => ∀ type, index = some type → type.Everywhere P)
    ?_ ?_ ?_ ?_ ?_ ?_ ?_ ?_ ?_ ?_ ?_ ?_ ?_ ?_ ?_ ?_ type
  -- types
  · exact fun _ => .primitive (h _)
  · exact fun _ ih => .array (h _) ih
  · exact fun _ ih => .union (h _) ih
  · exact fun _ ih => .intersection (h _) ih
  · exact fun _ _ ihproperties ihindex => .object (h _) ihproperties ihindex
  · exact fun _ _ ihkey ihvalue => .record (h _) ihkey ihvalue
  · exact fun _ => .literal (h _)
  · exact fun _ => .named (h _)
  · exact fun _ _ ih => .generic (h _) ih
  -- properties
  · exact fun _ _ _ _ ih => ih
  -- lists and options
  · exact fun _ hmem => absurd hmem List.not_mem_nil
  · exact fun _ _ ihhead ihtail => List.forall_mem_cons.mpr ⟨ihhead, ihtail⟩
  · exact fun _ hmem => absurd hmem List.not_mem_nil
  · exact fun _ _ ihhead ihtail => List.forall_mem_cons.mpr ⟨ihhead, ihtail⟩
  · exact fun _ hsome => nomatch hsome
  · exact fun _ ih _ hsome => Option.some.inj hsome ▸ ih

theorem Ty.Everywhere.mono {P Q : Ty → Prop} {type : Ty} (h : type.Everywhere P)
    (himp : ∀ type, P type → Q type) : type.Everywhere Q := by
  induction h with
  | primitive here => exact .primitive (himp _ here)
  | array here _ ih => exact .array (himp _ here) ih
  | union here _ ih => exact .union (himp _ here) ih
  | intersection here _ ih => exact .intersection (himp _ here) ih
  | object here _ _ ihproperties ihindex => exact .object (himp _ here) ihproperties ihindex
  | record here _ _ ihkey ihvalue => exact .record (himp _ here) ihkey ihvalue
  | literal here => exact .literal (himp _ here)
  | named here => exact .named (himp _ here)
  | generic here _ ih => exact .generic (himp _ here) ih

/-- The name of the type is an identifier, and its number is finite. -/
def Ty.IsSpelled (alphabet : IdentifierAlphabet) : Ty → Prop
  | .named name => alphabet.Accepts name
  | .generic name _ => alphabet.Accepts name
  | .literal value => value.IsFinite
  | _ => True

theorem spells_primitive (primitive : Primitive) :
    Spells alphabet primitive.text [.word primitive.text] := by
  cases primitive <;> exact spells_letters (by decide) (by decide)

/-- Parts with marks between them are read one after the other. -/
theorem spells_intercalate {separator : String} {mark : Mark}
    (hseparator : Delimits alphabet separator [.mark mark])
    (hbegins : BeginsWithDelimiter separator) (hne : separator ≠ "") {texts : List String}
    {lists : List (List Token)} (h : List.Forall₂ (Spells alphabet) texts lists) :
    Spells alphabet (String.intercalate separator texts) (separated mark lists) := by
  induction h with
  | nil => exact fun rest _ => by simp [separated]
  | @cons text tokens texts lists htext hrest ih =>
    cases hrest with
    | nil => rwa [String.intercalate_singleton]
    | @cons second others texts lists hsecond hrest =>
      rw [String.intercalate_cons_cons, separated]
      · have hfirst := htext.before hseparator hbegins hne
        have hall := hfirst.before ih
        rwa [List.append_assoc] at hall
      · exact nofun

theorem spells_parenthesize {text : String} {tokens : List Token} (needed : Bool)
    (h : Spells alphabet text tokens) :
    Spells alphabet (parenthesize needed text) (grouped needed tokens) := by
  cases needed with
  | false => exact h
  | true =>
    have hopen : Delimits alphabet "(" [.mark .openParen] := delimits_marks _ (by decide) rfl
    have hclose : Delimits alphabet ")" [.mark .closeParen] := delimits_marks _ (by decide) rfl
    exact ((hopen.before h).before hclose (by decide) (by decide)).spells

/-- Parts in braces. -/
theorem delimits_braces {parts : List String} {lists : List (List Token)}
    (h : List.Forall₂ (Spells alphabet) parts lists) :
    Delimits alphabet (braces "; " parts)
      (.mark .openBrace :: separated .semicolon lists ++ [.mark .closeBrace]) := by
  cases h with
  | nil => exact delimits_marks "\x7b\x7d" (by decide) rfl
  | @cons text tokens texts lists htext hrest =>
    have hopen : Delimits alphabet "\x7b " [.mark .openBrace] := delimits_marks _ (by decide) rfl
    have hclose : Delimits alphabet " \x7d" [.mark .closeBrace] := delimits_marks _ (by decide) rfl
    have hseparator : Delimits alphabet "; " [.mark .semicolon] := delimits_marks _ (by decide) rfl
    have hparts := spells_intercalate hseparator (by decide) (by decide) (.cons htext hrest)
    exact (hopen.before hparts).before hclose (by decide) (by decide)

theorem spells_property {property : Property}
    (h : Spells alphabet property.type.text property.type.tokens) :
    Spells alphabet property.text property.tokens := by
  obtain ⟨name, type, optional, description⟩ := property
  have hcolon : Delimits alphabet ": " [.mark .colon] := delimits_marks _ (by decide) rfl
  have hquestion : Delimits alphabet "?" [.mark .question] := delimits_marks _ (by decide) rfl
  rw [Property.text, Property.tokens, annotated]
  cases optional with
  | false =>
    have hkey := (spells_keyText name).before hcolon (by decide) (by decide)
    simpa using hkey.before h
  | true =>
    have hkey := (spells_keyText name).before hquestion (by decide) (by decide)
    simpa using (hkey.append hcolon).before h

theorem spells_indexSignature {text : String} {tokens : List Token}
    (h : Spells alphabet text tokens) :
    Spells alphabet (indexSignature text) (indexTokens tokens) := by
  have hopen : Delimits alphabet "[" [.mark .openBracket] := delimits_marks _ (by decide) rfl
  have hcolon : Delimits alphabet ": " [.mark .colon] := delimits_marks _ (by decide) rfl
  have hclose : Delimits alphabet "]: " [.mark .closeBracket, .mark .colon] :=
    delimits_marks _ (by decide) rfl
  have hkey : Spells alphabet "key" [.word "key"] := spells_letters (by decide) (by decide)
  have hstring : Spells alphabet "string" [.word "string"] :=
    spells_letters (by decide) (by decide)
  have hname := (hopen.before hkey).before hcolon (by decide) (by decide)
  have hsignature := (hname.before hstring).before hclose (by decide) (by decide)
  exact hsignature.before h

/-- A name with arguments. -/
theorem spells_application {name : String} (hname : Spells alphabet name [.word name])
    {texts : List String} {lists : List (List Token)}
    (h : List.Forall₂ (Spells alphabet) texts lists) :
    Spells alphabet (name ++ "<" ++ String.intercalate ", " texts ++ ">")
      (.word name :: .mark .openAngle :: separated .comma lists ++ [.mark .closeAngle]) := by
  have hopen : Delimits alphabet "<" [.mark .openAngle] := delimits_marks _ (by decide) rfl
  have hclose : Delimits alphabet ">" [.mark .closeAngle] := delimits_marks _ (by decide) rfl
  have hseparator : Delimits alphabet ", " [.mark .comma] := delimits_marks _ (by decide) rfl
  have harguments := spells_intercalate hseparator (by decide) (by decide) h
  have hfront := (hname.before hopen (by decide) (by decide)).before harguments
  exact (hfront.before hclose (by decide) (by decide)).spells

theorem forall₂_tokenLists {types : List Ty}
    (h : ∀ type ∈ types, Spells alphabet type.text type.tokens) :
    List.Forall₂ (Spells alphabet) (Ty.texts types) (Ty.tokenLists types) := by
  induction types with
  | nil => exact .nil
  | cons type types ih =>
    obtain ⟨htype, htypes⟩ := List.forall_mem_cons.mp h
    exact .cons htype (ih htypes)

theorem forall₂_operandTokens {types : List Ty}
    (h : ∀ type ∈ types, Spells alphabet type.text type.tokens) :
    List.Forall₂ (Spells alphabet) (Ty.operands types) (Ty.operandTokens types) := by
  induction types with
  | nil => exact .nil
  | cons type types ih =>
    obtain ⟨htype, htypes⟩ := List.forall_mem_cons.mp h
    exact .cons (spells_parenthesize _ htype) (ih htypes)

theorem forall₂_propertyTokens {properties : List Property}
    (h : ∀ property ∈ properties, Spells alphabet property.type.text property.type.tokens) :
    List.Forall₂ (Spells alphabet) (Property.texts properties)
      (Property.tokenLists properties) := by
  induction properties with
  | nil => exact .nil
  | cons property properties ih =>
    obtain ⟨hproperty, hproperties⟩ := List.forall_mem_cons.mp h
    exact .cons (spells_property hproperty) (ih hproperties)

/-- **The text of a type is read as its tokens.** -/
theorem Ty.spells_text {type : Ty} (h : type.Everywhere (IsSpelled alphabet)) :
    Spells alphabet type.text type.tokens := by
  induction h with
  | primitive _ => exact spells_primitive _
  | array _ _ ih =>
    have hbrackets : Delimits alphabet "[]" [.mark .openBracket, .mark .closeBracket] :=
      delimits_marks _ (by decide) rfl
    exact ((spells_parenthesize _ ih).before hbrackets (by decide) (by decide)).spells
  | union _ _ ih =>
    have hseparator : Delimits alphabet " | " [.mark .bar] := delimits_marks _ (by decide) rfl
    exact spells_intercalate hseparator (by decide) (by decide) (forall₂_tokenLists ih)
  | intersection _ _ ih =>
    have hseparator : Delimits alphabet " & " [.mark .ampersand] := delimits_marks _ (by decide) rfl
    exact spells_intercalate hseparator (by decide) (by decide) (forall₂_operandTokens ih)
  | @object properties index _ _ _ ihproperties ihindex =>
    have hproperties := forall₂_propertyTokens ihproperties
    cases index with
    | none =>
      simp only [Ty.text, Ty.tokens]
      exact (delimits_braces (List.rel_append hproperties .nil)).spells
    | some type =>
      have hindex := spells_indexSignature (ihindex type rfl)
      simp only [Ty.text, Ty.tokens]
      exact (delimits_braces (List.rel_append hproperties (.cons hindex .nil))).spells
  | record _ _ _ ihkey ihvalue =>
    have hrecord : Spells alphabet "Record" [.word "Record"] :=
      spells_letters (by decide) (by decide)
    have hspells := spells_application hrecord (.cons ihkey (.cons ihvalue .nil))
    rw [Ty.text, Ty.tokens]
    simpa [String.intercalate_cons_cons, separated, String.append_assoc] using hspells
  | literal here => exact Literal.spells_text here
  | named here => exact spells_word here.start here.part
  | generic here _ ih =>
    exact spells_application (spells_word here.start here.part) (forall₂_tokenLists ih)

/-- The tokens of a type are found in its text. -/
theorem Ty.ofText?_text {type : Ty} (h : type.Everywhere (IsSpelled alphabet)) :
    Token.ofText? alphabet type.text = some type.tokens :=
  ofText?_of_spells (spells_text h)

end ApiScribe.TypeScript
