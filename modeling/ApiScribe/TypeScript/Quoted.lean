import ApiScribe.Text.Letters

/-!
# Quoted text

Text inside single quotes: backslashes and quotes get a backslash in front, and line feeds,
carriage returns and tabs are written as escapes.  A key of an object stays bare when it is a plain
ASCII identifier and is quoted otherwise.
-/

namespace ApiScribe.TypeScript

/-- A character as it is written inside single quotes. -/
def escapeChar (c : Char) : List Char :=
  if c = '\x5c' then ['\x5c', '\x5c']
  else if c = '\x27' then ['\x5c', '\x27']
  else if c = '\n' then ['\x5c', 'n']
  else if c = '\r' then ['\x5c', 'r']
  else if c = '\t' then ['\x5c', 't']
  else [c]

/-- What may stand behind a backslash, and the characters that are written so. -/
def escapes : List (Char × Char) :=
  [('\x5c', '\x5c'), ('\x27', '\x27'), ('n', '\n'), ('r', '\r'), ('t', '\t')]

/-- A character is written as an escape or as itself.  No line break and no character that means something
else inside quotes is written as itself. -/
theorem escapeChar_cases (c : Char) :
    (∃ escaped, escapeChar c = ['\x5c', escaped] ∧ (escaped, c) ∈ escapes) ∨
      escapeChar c = [c] ∧ c ≠ '\x5c' ∧ c ≠ '\x27' ∧ c ≠ '\n' ∧ c ≠ '\r' := by
  rw [escapeChar]
  by_cases hbackslash : c = '\x5c'
  · exact Or.inl ⟨'\x5c', by rw [if_pos hbackslash], by simp [escapes, hbackslash]⟩
  rw [if_neg hbackslash]
  by_cases hquote : c = '\x27'
  · exact Or.inl ⟨'\x27', by rw [if_pos hquote], by simp [escapes, hquote]⟩
  rw [if_neg hquote]
  by_cases hline : c = '\n'
  · exact Or.inl ⟨'n', by rw [if_pos hline], by simp [escapes, hline]⟩
  rw [if_neg hline]
  by_cases hreturn : c = '\r'
  · exact Or.inl ⟨'r', by rw [if_pos hreturn], by simp [escapes, hreturn]⟩
  rw [if_neg hreturn]
  by_cases htab : c = '\t'
  · exact Or.inl ⟨'t', by rw [if_pos htab], by simp [escapes, htab]⟩
  · exact Or.inr ⟨if_neg htab, hbackslash, hquote, hline, hreturn⟩

/-- A text as it is written inside single quotes. -/
def escape (text : String) : String :=
  String.ofList (text.toList.flatMap escapeChar)

/-- A text in single quotes. -/
def quote (text : String) : String :=
  "'" ++ escape text ++ "'"

/-- May a bare key begin with the character? -/
def isKeyStart (c : Char) : Bool :=
  Text.isAsciiLetter c || c = '_' || c = '$'

/-- May a bare key contain the character? -/
def isKeyChar (c : Char) : Bool :=
  isKeyStart c || Text.isAsciiDigit c

/-- Is the name no plain identifier? -/
def needsQuoting (name : String) : Bool :=
  match name.toList with
  | [] => true
  | c :: cs => !(isKeyStart c && (c :: cs).all isKeyChar)

/-- A key of an object. -/
def keyText (name : String) : String :=
  if needsQuoting name then quote name else name

end ApiScribe.TypeScript
