import ApiScribe.Number.Numeral
import ApiScribe.Proofs.TextLiterals
import ApiScribe.Proofs.TypeTokens

/-!
# String literals and keys

Texts of a program are sequences of 16-bit code units; characters above the first plane are two of them.
No two texts have the same units (`Script.units_injective`).

The reader of string literals (`Script.readString?`) has all of the language's escapes: those of one
character, `\0`, two or four hexadecimal digits, code points in braces, and line breaks that a backslash
takes out.  A line feed or a carriage return may not stand in a literal by itself; the separators U+2028
and U+2029 may.  It stops behind the quote that the literal began with, and gives what is behind it back.

A key is a name or a string literal (`Script.readKey?`).  What is written for a text is read as the text,
whatever is behind it (`Script.readString?_quote`), and what is written for a key as the key, up to the
next character that belongs to no name (`Script.readKey?_keyText`).  `Script.readString?_and_readKey?` puts
the two together, and adds that no text and no key is written like another one.
-/

namespace ApiScribe.Script

open Text TypeScript

/-! ## Code units -/

/-- The code units of a code point: itself, or two surrogates if it is above the first plane. -/
def codePointUnits (n : Nat) : List UInt16 :=
  if n < 0x10000 then [UInt16.ofNat n]
  else
    [UInt16.ofNat (0xD800 + (n - 0x10000) / 0x400), UInt16.ofNat (0xDC00 + (n - 0x10000) % 0x400)]

/-- The code units of a text. -/
def units (cs : List Char) : List UInt16 :=
  cs.flatMap fun c => codePointUnits c.toNat

theorem toNat_lt_or_le (c : Char) : c.toNat < 0xD800 ∨ 0xE000 ≤ c.toNat ∧ c.toNat < 0x110000 := by
  have hvalid : c.toNat < 0xD800 ∨ 0xDFFF < c.toNat ∧ c.toNat < 0x110000 := c.valid
  omega

/-- The unit of a character of the first plane is no surrogate, so the first unit of a character tells
how many there are. -/
theorem codePointUnits_append_inj {c d : Char} {more others : List UInt16}
    (h : codePointUnits c.toNat ++ more = codePointUnits d.toNat ++ others) :
    c = d ∧ more = others := by
  have hc := toNat_lt_or_le c
  have hd := toNat_lt_or_le d
  have htoNat : ∀ {m n : Nat}, UInt16.ofNat m = UInt16.ofNat n → m % 0x10000 = n % 0x10000 := by
    intro m n heq
    rw [← UInt16.toNat_ofNat', ← UInt16.toNat_ofNat', heq]
  rw [codePointUnits, codePointUnits] at h
  split at h <;> split at h
  next hcsmall hdsmall =>
    obtain ⟨hunit, hrest⟩ := List.cons.inj h
    have hunit := htoNat hunit
    exact ⟨Char.toNat_inj.mp (by omega), hrest⟩
  next hcsmall hdlarge =>
    have hunit := htoNat (List.cons.inj h).1
    omega
  next hclarge hdsmall =>
    have hunit := htoNat (List.cons.inj h).1
    omega
  next hclarge hdlarge =>
    obtain ⟨hhigh, hrest⟩ := List.cons.inj h
    obtain ⟨hlow, hrest⟩ := List.cons.inj hrest
    have hhigh := htoNat hhigh
    have hlow := htoNat hlow
    exact ⟨Char.toNat_inj.mp (by omega), hrest⟩

theorem units_cons (c : Char) (cs : List Char) : units (c :: cs) = codePointUnits c.toNat ++ units cs :=
  rfl

theorem codePointUnits_ne_nil (n : Nat) : codePointUnits n ≠ [] := by
  rw [codePointUnits]
  split <;> exact List.cons_ne_nil _ _

/-- **Texts with the same code units are the same.** -/
theorem units_injective : Function.Injective units := by
  intro cs
  induction cs with
  | nil =>
    intro ds h
    cases ds with
    | nil => rfl
    | cons d ds => exact absurd (List.append_eq_nil_iff.mp h.symm).1 (codePointUnits_ne_nil d.toNat)
  | cons c cs ih =>
    intro ds h
    cases ds with
    | nil => exact absurd (List.append_eq_nil_iff.mp h).1 (codePointUnits_ne_nil c.toNat)
    | cons d ds =>
      obtain ⟨rfl, hrest⟩ := codePointUnits_append_inj h
      rw [ih hrest]

/-! ## The reader of literals -/

/-- Where the reader of a string literal is. -/
inductive StringState where
  | plain
  | escape
  | zero
  | lineEnd
  | hex (missing value : Nat)
  | unicode
  | braced (value : Option Nat)
  | closed
deriving DecidableEq

namespace StringState

/-- The units that a character without a backslash makes, and what it begins. -/
def plainStep (quote c : Char) : Option (List UInt16 × StringState) :=
  if c = quote then some ([], .closed)
  else if c = '\x5c' then some ([], .escape)
  else if c = '\n' || c = '\r' then none
  else some (codePointUnits c.toNat, .plain)

/-- The same for a character behind a backslash.  A line break is taken out. -/
def escapeStep (c : Char) : Option (List UInt16 × StringState) :=
  if c = '0' then some ([], .zero)
  else if c = 'x' then some ([], .hex 2 0)
  else if c = 'u' then some ([], .unicode)
  else if c = '\r' then some ([], .lineEnd)
  else if c = '\n' || c = '\u2028' || c = '\u2029' then some ([], .plain)
  else (cooked? c).map fun c => (codePointUnits c.toNat, .plain)

/-- The same for one of the missing digits of a code unit. -/
def hexStep (missing value : Nat) (c : Char) : Option (List UInt16 × StringState) :=
  (Numeral.digitIn? 16 c).map fun digit =>
    if missing ≤ 1 then ([UInt16.ofNat (value * 16 + digit)], .plain)
    else ([], .hex (missing - 1) (value * 16 + digit))

/-- The same for a character between braces: a digit, or the brace behind one digit at least. -/
def bracedStep (value : Option Nat) (c : Char) : Option (List UInt16 × StringState) :=
  if c = '\x7d' then value.map fun value => (codePointUnits value, .plain)
  else do
    let digit ← Numeral.digitIn? 16 c
    let value := value.getD 0 * 16 + digit
    if value < 0x110000 then some ([], .braced (some value)) else none

/-- The units that the next character makes, and where the reader is then.  No digit is behind `\0`, and a
line feed behind `\` and a carriage return belongs to the line break. -/
def step (quote : Char) : StringState → Char → Option (List UInt16 × StringState)
  | .plain, c => plainStep quote c
  | .escape, c => escapeStep c
  | .zero, c =>
    if isAsciiDigit c then none else (plainStep quote c).map fun (made, next) => (0 :: made, next)
  | .lineEnd, c => if c = '\n' then some ([], .plain) else plainStep quote c
  | .hex missing value, c => hexStep missing value c
  | .unicode, c => if c = '\x7b' then some ([], .braced none) else hexStep 4 0 c
  | .braced value, c => bracedStep value c
  | .closed, _ => none

/-- The units of the rest of a literal, and what is behind it. -/
def read? (quote : Char) : StringState → List Char → Option (List UInt16 × List Char)
  | .closed, cs => some ([], cs)
  | _, [] => none
  | state, c :: cs =>
    (step quote state c).bind fun (made, next) =>
      (read? quote next cs).map fun (more, rest) => (made ++ more, rest)

end StringState

/-- The code units of the string literal that a text begins with, and what is behind it. -/
def readString? : List Char → Option (List UInt16 × List Char)
  | [] => none
  | c :: cs => if c = '\x27' || c = '\x22' then StringState.plain.read? c cs else none

/-- The code units of the key that a text begins with, and what is behind it: a name, which is as long as
it can be, or a string literal.  Names with escapes in them have no reading here. -/
def readKey? (alphabet : IdentifierAlphabet) : List Char → Option (List UInt16 × List Char)
  | [] => none
  | c :: cs =>
    if alphabet.isStart c then
      some (units (c :: cs.takeWhile alphabet.isPart), cs.dropWhile alphabet.isPart)
    else readString? (c :: cs)

/-! ## What is written is read as itself -/

variable {quoteMark : Char} {state next : StringState}

theorem StringState.read?_cons {made : List UInt16} {c : Char}
    (h : state.step quoteMark c = some (made, next)) (cs : List Char) :
    state.read? quoteMark (c :: cs) =
      (next.read? quoteMark cs).map fun (more, rest) => (made ++ more, rest) := by
  rw [StringState.read?, h]
  · rfl
  · rintro rfl
    cases h

/-- A character that only begins something makes no units. -/
theorem StringState.read?_begun {c : Char} (h : state.step quoteMark c = some ([], next))
    (cs : List Char) : state.read? quoteMark (c :: cs) = next.read? quoteMark cs := by
  rw [StringState.read?_cons h]
  exact Option.map_id_apply

theorem StringState.escapeStep_escapes : ∀ pair ∈ escapes,
    escapeStep pair.1 = some (codePointUnits pair.2.toNat, .plain) := by
  decide

/-- **What is written for a character** between single quotes is read as the character. -/
theorem StringState.read?_escapeChar (c : Char) (cs : List Char) :
    plain.read? '\x27' (escapeChar c ++ cs) =
      (plain.read? '\x27' cs).map fun (more, rest) => (codePointUnits c.toNat ++ more, rest) := by
  obtain ⟨escaped, hwritten, hescaped⟩ | ⟨hwritten, hbackslash, hquote, hline, hreturn⟩ :=
    escapeChar_cases c
  · have hbegun : plain.step '\x27' '\x5c' = some ([], escape) := rfl
    have hstep : escape.step '\x27' escaped = some (codePointUnits c.toNat, plain) :=
      escapeStep_escapes _ hescaped
    rw [hwritten, List.cons_append, List.singleton_append, read?_begun hbegun, read?_cons hstep]
  · have hstep : plain.step '\x27' c = some (codePointUnits c.toNat, plain) := by
      simp [step, plainStep, hbackslash, hquote, hline, hreturn]
    rw [hwritten, List.singleton_append, read?_cons hstep]

theorem StringState.read?_escaped (cs rest : List Char) :
    plain.read? '\x27' (cs.flatMap escapeChar ++ '\x27' :: rest) = some (units cs, rest) := by
  induction cs with
  | nil =>
    have hclosed : plain.step '\x27' '\x27' = some ([], closed) := rfl
    rw [List.flatMap_nil, List.nil_append, read?_begun hclosed, read?]
    rfl
  | cons c cs ih =>
    rw [List.flatMap_cons, List.append_assoc, read?_escapeChar, ih, units_cons]
    rfl

/-- **The literal for a text is read as the text**, whatever is behind it. -/
theorem readString?_quote (value : String) (rest : List Char) :
    readString? ((quote value).toList ++ rest) = some (units value.toList, rest) := by
  have hlist : (quote value).toList ++ rest =
      '\x27' :: (value.toList.flatMap escapeChar ++ '\x27' :: rest) := by
    rw [quote, escape]
    simp
  rw [hlist]
  exact StringState.read?_escaped value.toList rest

/-! ## Keys -/

/-- The name is an identifier in ASCII, or a reserved word. -/
structure IsAsciiName (name : String) : Prop where
  start : ∃ c ∈ name.toList.head?, asciiAlphabet.isStart c = true
  part : ∀ c ∈ name.toList, asciiAlphabet.isPart c = true

theorem isKeyStart_eq (c : Char) : isKeyStart c = asciiAlphabet.isStart c :=
  Bool.or_assoc _ _ _

theorem isKeyChar_eq (c : Char) : isKeyChar c = asciiAlphabet.isPart c := by
  rw [isKeyChar, isKeyStart_eq]
  exact Bool.or_right_comm _ _ _

/-- Exactly the names in ASCII stay bare. -/
theorem needsQuoting_eq_false_iff {name : String} : needsQuoting name = false ↔ IsAsciiName name := by
  have hchars : isKeyChar = asciiAlphabet.isPart := funext isKeyChar_eq
  rw [needsQuoting]
  split
  next hnil =>
    refine iff_of_false Bool.noConfusion fun h => ?_
    obtain ⟨c, hc, -⟩ := h.start
    rw [hnil] at hc
    cases hc
  next c cs hcs =>
    rw [Bool.not_eq_false', Bool.and_eq_true, List.all_eq_true, isKeyStart_eq, hchars, ← hcs]
    refine ⟨fun h => ⟨⟨c, by rw [hcs]; rfl, h.1⟩, h.2⟩, fun h => ⟨?_, h.part⟩⟩
    obtain ⟨d, hd, hstart⟩ := h.start
    rw [hcs] at hd
    exact Option.some_inj.mp hd ▸ hstart

variable {alphabet : IdentifierAlphabet}

theorem readKey?_quote (name : String) (rest : List Char) :
    readKey? alphabet ((quote name).toList ++ rest) = some (units name.toList, rest) := by
  have hstart : ¬ alphabet.isStart '\x27' = true := by
    rw [alphabet.isStart_ascii '\x27' (by decide)]
    exact Bool.false_ne_true
  have hread := readString?_quote name rest
  have hlist : (quote name).toList ++ rest = '\x27' :: ((escape name).toList ++ '\x27' :: rest) := by
    rw [quote]
    simp
  rw [hlist] at hread ⊢
  rw [readKey?, if_neg hstart, hread]

/-- A name ends in front of a character that belongs to no name. -/
theorem readKey?_name {name : String} (h : IsAsciiName name) {c : Char}
    (hc : alphabet.isPart c = false) (rest : List Char) :
    readKey? alphabet (name.toList ++ c :: rest) = some (units name.toList, c :: rest) := by
  obtain ⟨first, hfirst, hstart⟩ := h.start
  obtain ⟨more, hmore⟩ : ∃ more, name.toList = first :: more := List.head?_eq_some_iff.mp hfirst
  have hpart : ∀ d ∈ more, alphabet.isPart d = true := by
    intro d hd
    have hascii := h.part d (hmore ▸ List.mem_cons_of_mem first hd)
    exact isPart_of_isKeyChar ((isKeyChar_eq d).trans hascii)
  have hstop : ¬ alphabet.isPart c = true := ne_true_of_eq_false hc
  rw [hmore, List.cons_append, readKey?,
    if_pos (isStart_of_isKeyStart ((isKeyStart_eq first).trans hstart)),
    List.takeWhile_append_of_pos hpart, List.takeWhile_cons_of_neg hstop, List.append_nil,
    List.dropWhile_append_of_pos hpart, List.dropWhile_cons_of_neg hstop]

/-- **A key is read as itself** up to the next character that belongs to no name. -/
theorem readKey?_keyText (name : String) {c : Char} (hc : alphabet.isPart c = false)
    (rest : List Char) :
    readKey? alphabet ((keyText name).toList ++ c :: rest) = some (units name.toList, c :: rest) := by
  rw [keyText]
  cases hquoted : needsQuoting name with
  | false => exact readKey?_name (needsQuoting_eq_false_iff.mp hquoted) hc rest
  | true => exact readKey?_quote name (c :: rest)

/-- Question marks, colons and blanks belong to no name, so a key ends in front of them. -/
theorem readKey?_keyText_append (name : String) {following : List Char}
    (h : ∃ c ∈ following.head?, c ∈ ['?', ':', ' ']) :
    readKey? alphabet ((keyText name).toList ++ following) = some (units name.toList, following) := by
  obtain ⟨c, hc, hmem⟩ := h
  obtain ⟨rest, rfl⟩ := List.head?_eq_some_iff.mp hc
  refine readKey?_keyText name ?_ rest
  simp only [List.mem_cons, List.not_mem_nil, or_false] at hmem
  rcases hmem with rfl | rfl | rfl <;> exact alphabet.isPart_ascii _ (by decide)

/-- The key of a property is read as the property's name, up to the mark behind it. -/
theorem readKey?_property (property : Property) :
    readKey? alphabet property.text.toList =
      some (units property.name.toList,
        ((if property.optional then "?" else "") ++ (": " ++ property.type.text)).toList) := by
  obtain ⟨name, type, optional, description⟩ := property
  rw [Property.text, annotated, String.append_assoc, String.append_assoc, String.toList_append]
  refine readKey?_keyText_append name ?_
  cases optional with
  | false => exact ⟨':', by simp, by decide⟩
  | true => exact ⟨'?', by simp, by decide⟩

/-- The key of a member of an enumeration is read as itself, behind the indentation. -/
theorem readKey?_line (member : EnumMember) {separator : String} (h : separator ∈ [": ", " = "]) :
    readKey? alphabet ((member.line separator).toList.drop 2) =
      some (units member.key.toList, (separator ++ (member.value.text ++ ",\n")).toList) := by
  have hlist : (member.line separator).toList.drop 2 =
      (keyText member.key).toList ++ (separator ++ (member.value.text ++ ",\n")).toList := by
    rw [EnumMember.line]
    simp
  rw [hlist]
  refine readKey?_keyText_append member.key ?_
  simp only [List.mem_cons, List.not_mem_nil, or_false] at h
  rcases h with rfl | rfl
  · exact ⟨':', by simp, by decide⟩
  · exact ⟨' ', by simp, by decide⟩

/-! ## No confusion -/

/-- **String literals and keys are read as what they were written for.** A string literal is read as its
text whatever is behind it, and a key as its name if a question mark, a colon or a blank is behind it, as
there is in properties and in members of enumerations.  A key is bare if it is a name in ASCII, and
otherwise a string literal that is read as the key.  The readings are code units, which no two texts share;
so two literals, or two keys, are written alike only if they are the same, whatever was written behind
them. -/
theorem readString?_and_readKey? (alphabet : IdentifierAlphabet) :
    (∀ (value : String) (following : List Char),
      readString? ((Literal.string value).text.toList ++ following) =
        some (units value.toList, following)) ∧
    (∀ (name : String) (following : List Char), (∃ c ∈ following.head?, c ∈ ['?', ':', ' ']) →
      readKey? alphabet ((keyText name).toList ++ following) =
        some (units name.toList, following)) ∧
    (∀ name : String, IsAsciiName name ∧ keyText name = name ∨
      ¬ IsAsciiName name ∧ ∀ following : List Char,
        readString? ((keyText name).toList ++ following) = some (units name.toList, following)) ∧
    (∀ property : Property,
      readKey? alphabet property.text.toList =
        some (units property.name.toList,
          ((if property.optional then "?" else "") ++ (": " ++ property.type.text)).toList)) ∧
    (∀ (member : EnumMember) (separator : String), separator ∈ [": ", " = "] →
      readKey? alphabet ((member.line separator).toList.drop 2) =
        some (units member.key.toList, (separator ++ (member.value.text ++ ",\n")).toList)) ∧
    Function.Injective units ∧
    (∀ (value other : String) (following others : List Char),
      (Literal.string value).text.toList ++ following = (Literal.string other).text.toList ++ others →
        value = other ∧ following = others) ∧
    (∀ (name other : String) (following others : List Char),
      (∃ c ∈ following.head?, c ∈ ['?', ':', ' ']) → (∃ c ∈ others.head?, c ∈ ['?', ':', ' ']) →
      (keyText name).toList ++ following = (keyText other).toList ++ others →
        name = other ∧ following = others) := by
  have hinjective : ∀ {value other : String} {following others : List Char},
      some (units value.toList, following) = some (units other.toList, others) →
        value = other ∧ following = others := by
    intro value other following others h
    obtain ⟨hunits, hfollowing⟩ := Prod.mk.inj (Option.some.inj h)
    exact ⟨String.toList_injective (units_injective hunits), hfollowing⟩
  refine ⟨readString?_quote, fun name _ h => readKey?_keyText_append name h, fun name => ?_,
    readKey?_property, fun member _ h => readKey?_line member h, units_injective, ?_, ?_⟩
  · rw [keyText]
    cases hquoted : needsQuoting name with
    | false => exact Or.inl ⟨needsQuoting_eq_false_iff.mp hquoted, rfl⟩
    | true =>
      refine Or.inr ⟨fun h => ?_, readString?_quote name⟩
      rw [needsQuoting_eq_false_iff.mpr h] at hquoted
      exact Bool.noConfusion hquoted
  · intro value other following others h
    refine hinjective ?_
    rw [← readString?_quote value following, ← readString?_quote other others]
    exact congrArg readString? h
  · intro name other following others hfollowing hothers h
    refine hinjective ?_
    rw [← @readKey?_keyText_append alphabet name following hfollowing,
      ← @readKey?_keyText_append alphabet other others hothers, h]

/-- A value that tries to end its literal, a member with a blank in its key, and two keys that look alike
with the marks behind them. -/
theorem readString?_and_readKey?_hostile :
    readString? "'\x5c'; alert(1)//\x5cn', 1".toList =
      some (units "'; alert(1)//\n".toList, ", 1".toList) ∧
    readKey? asciiAlphabet (((EnumMember.mk "in stock" (.string "'")).line " = ").toList.drop 2) =
      some (units "in stock".toList, " = '\x5c'',\n".toList) ∧
    readKey? asciiAlphabet "'id?': string".toList = some (units "id?".toList, ": string".toList) ∧
    readKey? asciiAlphabet "id?: string".toList = some (units "id".toList, "?: string".toList) ∧
    (keyText "id?").toList ++ ": string".toList ≠ (keyText "id").toList ++ "?: string".toList := by
  obtain ⟨hstring, hkey, -, -, hline, -, -, hkeys⟩ := readString?_and_readKey? asciiAlphabet
  refine ⟨hstring "'; alert(1)//\n" ", 1".toList, ?_, ?_, ?_, fun h => ?_⟩
  · exact hline (EnumMember.mk "in stock" (.string "'")) " = " (by decide)
  · exact hkey "id?" ": string".toList ⟨':', rfl, by decide⟩
  · exact hkey "id" "?: string".toList ⟨'?', rfl, by decide⟩
  · have hsame := hkeys "id?" "id" ": string".toList "?: string".toList ⟨':', rfl, by decide⟩
      ⟨'?', rfl, by decide⟩ h
    exact absurd hsame.1 (by decide)

end ApiScribe.Script
