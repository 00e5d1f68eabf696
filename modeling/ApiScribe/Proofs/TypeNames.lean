import ApiScribe.Proofs.HoistedNames
import ApiScribe.Proofs.Identifiers
import ApiScribe.Proofs.References
import ApiScribe.Proofs.WrittenNames

/-!
# Names of declared types

A declared type has one name, which stands in its declaration and wherever it is referred to.  That
the text is the same in all these places is a matter of writing (`ApiScribe.Proofs.WrittenNames`)
and of what is declared (`ApiScribe.Proofs.References`).  That it is a name at all is not: a
component keeps the name that it has in the document, and a document allows dots and hyphens there,
digits at the beginning, and the words that are reserved in a program.

`generate_typeNames` says what this depends on.  For the names of shapes it is their form in the
document (`IsComponentName.accepts_iff`).  The name of a hoisted enumeration begins like one of them,
so nothing can be wrong with it but what the properties have brought in: a character outside ASCII
that counts as a letter or digit, but not as a part of identifiers (`accepts_iff_of_hoisted`).
-/

namespace ApiScribe

open Text TypeScript

/-! ## Names of components -/

/-- The names that a component can have in a document. -/
structure IsComponentName (name : String) : Prop where
  ne_empty : name ≠ ""
  characters : ∀ c ∈ name.toList,
    isAsciiLetter c = true ∨ isAsciiDigit c = true ∨ c ∈ ['.', '-', '_']

/-- The name of a component that a program can use as well. -/
structure IsPlainName (name : String) : Prop where
  noDot : '.' ∉ name.toList
  noHyphen : '-' ∉ name.toList
  noDigit : Naming.startsWithDigit name.toList = false
  notReserved : Naming.isReserved name = false

instance (name : String) : Decidable (IsComponentName name) :=
  decidable_of_iff (name ≠ "" ∧ name.toList.Forall fun c =>
      isAsciiLetter c = true ∨ isAsciiDigit c = true ∨ c ∈ ['.', '-', '_'])
    ⟨fun h => ⟨h.1, List.forall_iff_forall_mem.mp h.2⟩,
      fun h => ⟨h.ne_empty, List.forall_iff_forall_mem.mpr h.characters⟩⟩

instance (name : String) : Decidable (IsPlainName name) :=
  decidable_of_iff ('.' ∉ name.toList ∧ '-' ∉ name.toList ∧
      Naming.startsWithDigit name.toList = false ∧ Naming.isReserved name = false)
    ⟨fun h => ⟨h.1, h.2.1, h.2.2.1, h.2.2.2⟩,
      fun h => ⟨h.noDot, h.noHyphen, h.noDigit, h.notReserved⟩⟩

variable {alphabet : IdentifierAlphabet} {name : String} {c : Char}

/-- **When the name of a component is accepted**: if it is plain, whatever the alphabet. -/
theorem IsComponentName.accepts_iff (h : IsComponentName name) :
    alphabet.Accepts name ↔ IsPlainName name := by
  constructor
  · intro haccepts
    refine ⟨fun hdot => ?_, fun hhyphen => ?_, ?_, haccepts.notReserved⟩
    · have hpart := haccepts.part '.' hdot
      rw [alphabet.isPart_ascii _ (by decide)] at hpart
      exact absurd hpart (by decide)
    · have hpart := haccepts.part '-' hhyphen
      rw [alphabet.isPart_ascii _ (by decide)] at hpart
      exact absurd hpart (by decide)
    · obtain ⟨c, hc, hstart⟩ := haccepts.start
      obtain ⟨cs, hcs⟩ := List.head?_eq_some_iff.mp hc
      rw [hcs, Naming.startsWithDigit, ← Bool.not_eq_true]
      intro hdigit
      exact absurd hstart (ne_true_of_eq_false (alphabet.isStart_eq_false_of_isAsciiDigit hdigit))
  · intro hplain
    have hcharacter : ∀ c ∈ name.toList,
        isAsciiLetter c = true ∨ isAsciiDigit c = true ∨ c = '_' := by
      intro c hc
      rcases h.characters c hc with hletter | hdigit | hother
      · exact Or.inl hletter
      · exact Or.inr (Or.inl hdigit)
      · simp only [List.mem_cons, List.not_mem_nil, or_false] at hother
        rcases hother with rfl | rfl | hunderscore
        · exact absurd hc hplain.noDot
        · exact absurd hc hplain.noHyphen
        · exact Or.inr (Or.inr hunderscore)
    refine ⟨?_, fun c hc => ?_, hplain.notReserved⟩
    · have hne : name.toList ≠ [] := fun hnil => h.ne_empty (String.toList_eq_nil_iff.mp hnil)
      obtain ⟨c, cs, hcs⟩ := List.exists_cons_of_ne_nil hne
      have hdigit := hplain.noDigit
      rw [hcs, Naming.startsWithDigit] at hdigit
      refine ⟨c, by rw [hcs]; rfl, ?_⟩
      rcases hcharacter c (by rw [hcs]; exact List.mem_cons_self) with hletter | hdigit' | rfl
      · exact alphabet.isStart_of_isAsciiLetter hletter
      · exact absurd hdigit' (ne_true_of_eq_false hdigit)
      · exact alphabet.isStart_ascii '_' (by decide)
    · rcases hcharacter c hc with hletter | hdigit | rfl
      · exact alphabet.isPart_of_isAsciiLetter hletter
      · exact alphabet.isPart_of_isAsciiDigit hdigit
      · exact alphabet.isPart_ascii '_' (by decide)

/-- **When the name of a hoisted enumeration is accepted**: if the name that it begins like is, only
characters outside ASCII can be in the way. -/
theorem accepts_iff_of_hoisted {before : String} {rest : List Char} (hbefore : alphabet.Accepts before)
    (heq : name.toList = before.toList ++ rest) (hword : ∀ c ∈ rest, IsWordChar c)
    (hsmall : ∃ c ∈ rest, ¬ IsSmall c) :
    alphabet.Accepts name ↔ ∀ c ∈ name.toList, 128 ≤ c.toNat → alphabet.isPart c = true := by
  constructor
  · exact fun haccepts c hc _ => haccepts.part c hc
  · intro hother
    refine ⟨?_, fun c hc => ?_, ?_⟩
    · obtain ⟨c, hc, hstart⟩ := hbefore.start
      refine ⟨c, ?_, hstart⟩
      rw [heq, List.head?_append, hc, Option.some_or]
      rfl
    · rw [heq] at hc
      rcases List.mem_append.mp hc with hc | hc
      · exact hbefore.part c hc
      · rcases hword c hc with hletter | hdigit | houtside
        · exact alphabet.isPart_of_isAsciiLetter hletter
        · exact alphabet.isPart_of_isAsciiDigit hdigit
        · exact hother c (by rw [heq]; exact List.mem_append_right _ hc) houtside
    · obtain ⟨c, hc, hno⟩ := hsmall
      refine Naming.isReserved_eq_false ⟨c, ?_, hno⟩
      rw [heq]
      exact List.mem_append_right _ hc

/-! ## A whole generation -/

namespace Output

variable {format : Notation} {text : String} {document : Document} {settings : Settings}
  {output : Output}

/-- The names of declarations are accepted exactly if those of shapes are plain, and the alphabet has
whatever is outside ASCII in those of hoisted enumerations. -/
theorem Run.accepts_iff (run : Run document settings output)
    (hlegal : ∀ named ∈ document.namedShapes, IsComponentName named.name) :
    (∀ name ∈ run.declarations.map Declaration.name, alphabet.Accepts name) ↔
      (∀ named ∈ document.namedShapes, IsPlainName named.name) ∧
        ∀ inline ∈ run.declared.inlineEnums, ∀ c ∈ inline.name.toList, 128 ≤ c.toNat →
          alphabet.isPart c = true := by
  obtain ⟨blocks, hblocks⟩ := run.exists_laidOut
  have hnames : ∀ name, name ∈ run.declarations.map Declaration.name ↔
      name ∈ run.declared.inlineEnums.map InlineEnum.name ∨
        name ∈ document.namedShapes.map NamedShape.name := by
    intro name
    rw [hblocks.names_perm.mem_iff, run.inlineEnums_eq, List.mem_append]
  have hshape : ∀ named ∈ document.namedShapes,
      (alphabet.Accepts named.name ↔ IsPlainName named.name) :=
    fun named hnamed => (hlegal named hnamed).accepts_iff
  constructor
  · intro haccepts
    constructor
    · intro named hnamed
      refine (hshape named hnamed).mp (haccepts _ ((hnames _).mpr (Or.inr ?_)))
      exact List.mem_map_of_mem hnamed
    · intro inline hinline c hc _
      refine (haccepts inline.name ((hnames _).mpr (Or.inl ?_))).part c hc
      exact List.mem_map_of_mem hinline
  · rintro ⟨hplain, hinlines⟩ name hname
    rcases (hnames name).mp hname with hname | hname
    · obtain ⟨inline, hinline, rfl⟩ := List.mem_map.mp hname
      obtain ⟨named, hnamed, rest, heq, hword, hsmall⟩ := run.exists_shapeName hinline
      have hbefore := (hshape named hnamed).mpr (hplain named hnamed)
      exact (accepts_iff_of_hoisted hbefore heq hword hsmall).mpr (hinlines inline hinline)
    · obtain ⟨named, hnamed, rfl⟩ := List.mem_map.mp hname
      exact (hshape named hnamed).mpr (hplain named hnamed)

/-- **The names of declared types.**  A declaration announces its name, and where it mentions one the
text of that name stands, which is the name of a declaration.  All names are identifiers and none is a
reserved word exactly if that is so of the names of shapes, which the document gives, and if the
characters outside ASCII in the names of hoisted enumerations are parts of identifiers. -/
theorem generate_typeNames (alphabet : IdentifierAlphabet)
    (hread : Document.readAs format text = .ok document)
    (h : generate document settings = .ok output)
    (hlegal : ∀ named ∈ document.namedShapes, IsComponentName named.name) :
    ∃ run : Run document settings output,
      output.files.get? typesFile = some { types := run.declarations : Module }.text ∧
      (∀ declaration ∈ run.declarations, IsAnnouncedIn declaration.name declaration.text ∧
        ∀ name, declaration.kind.Mentions name → IsDelimitedIn name declaration.text ∧
          name ∈ run.declarations.map Declaration.name) ∧
      ((∀ declaration ∈ run.declarations, alphabet.Accepts declaration.name ∧
          ∀ name, declaration.kind.Mentions name → alphabet.Accepts name) ↔
        (∀ named ∈ document.namedShapes, IsPlainName named.name) ∧
          ∀ inline ∈ run.declared.inlineEnums, ∀ c ∈ inline.name.toList, 128 ≤ c.toNat →
            alphabet.isPart c = true) := by
  obtain ⟨run⟩ := exists_run h
  have hdeclared : ∀ declaration ∈ run.declarations, ∀ name, declaration.kind.Mentions name →
      name ∈ run.declarations.map Declaration.name :=
    fun declaration hmem name hmentions =>
      run.mem_names_of_mentions (Document.wasRead_of_readAs hread) hmem hmentions
  refine ⟨run, run.get?_typesFile, fun declaration hmem => ⟨declaration.isAnnouncedIn_text,
    fun name hmentions => ⟨Declaration.isDelimitedIn_text hmentions,
      hdeclared declaration hmem name hmentions⟩⟩, ?_⟩
  rw [← run.accepts_iff hlegal]
  constructor
  · intro haccepts name hname
    obtain ⟨declaration, hmem, rfl⟩ := List.mem_map.mp hname
    exact (haccepts declaration hmem).1
  · intro haccepts declaration hmem
    exact ⟨haccepts _ (List.mem_map_of_mem hmem), fun name hmentions =>
      haccepts name (hdeclared declaration hmem name hmentions)⟩

/-- A document with a shape of the given name, in which there is an enumeration, and a shape that
extends it. -/
def statusOf (name : String) : String :=
  String.intercalate "\n"
    ["openapi: 3.0.0",
      "paths: \x7b\x7d",
      "components:",
      " schemas:",
      "  Admin:",
      "   allOf:",
      "   - $ref: '#/components/schemas/" ++ name ++ "'",
      "  " ++ name ++ ":",
      "   properties:",
      "    status:",
      "     enum:",
      "     - busy"]

theorem forall_namedShapes {names : List String} {P : String → Prop}
    (hnames : document.namedShapes.map NamedShape.name = names) (h : ∀ name ∈ names, P name) :
    ∀ named ∈ document.namedShapes, P named.name := by
  intro named hnamed
  refine h named.name ?_
  rw [← hnames]
  exact List.mem_map_of_mem hnamed

theorem generate_typeNames_user :
    ∃ document output, Document.readAs .yaml (statusOf "User") = .ok document ∧
      generate document {} = .ok output ∧
      ∃ run : Run document {} output,
        run.declarations.map Declaration.name = ["Admin", "UserStatus", "User"] ∧
        ∀ declaration ∈ run.declarations, asciiAlphabet.Accepts declaration.name ∧
          ∀ name, declaration.kind.Mentions name → asciiAlphabet.Accepts name := by
  have hyields : yields .yaml (statusOf "User") {} (fun document _ =>
      document.namedShapes.map NamedShape.name = ["Admin", "User"] ∧
        declares document {} fun declarations =>
          declarations.map Declaration.name = ["Admin", "UserStatus", "User"]) = true := by
    decide +kernel
  obtain ⟨document, output, hread, h, hcheck⟩ := exists_of_yields hyields
  obtain ⟨hshapes, hdeclares⟩ := of_decide_eq_true hcheck
  have hlegal : ∀ named ∈ document.namedShapes, IsComponentName named.name :=
    forall_namedShapes hshapes (by decide)
  have hplain : ∀ named ∈ document.namedShapes, IsPlainName named.name :=
    forall_namedShapes hshapes (by decide)
  obtain ⟨run, -, -, haccepts⟩ := generate_typeNames asciiAlphabet hread h hlegal
  have hnames := of_decide_eq_true (run.of_declares hdeclares)
  refine ⟨document, output, hread, h, run, hnames, haccepts.mpr ⟨hplain, ?_⟩⟩
  have hascii : ∀ name ∈ ["Admin", "UserStatus", "User"],
      name.toList.Forall fun c => c.toNat < 128 := by decide
  intro inline hinline c hc houtside
  rw [← run.inlineEnums_eq] at hinline
  have hmem : inline.name ∈ ["Admin", "UserStatus", "User"] := by
    rw [← hnames]
    exact List.mem_map.mpr ⟨_, run.declared_mem_declarations hinline, rfl⟩
  exact absurd houtside
    (Nat.not_le_of_lt (List.forall_iff_forall_mem.mp (hascii _ hmem) c hc))

/-- **A component may have a name that is none in a program**, and is declared under it. -/
theorem exists_unusable_name :
    ∃ document output, Document.readAs .yaml (statusOf "api.v1.Pet") = .ok document ∧
      generate document {} = .ok output ∧
      (∀ named ∈ document.namedShapes, IsComponentName named.name) ∧
      ∃ run : Run document {} output, ∃ declaration ∈ run.declarations,
        IsAnnouncedIn "api.v1.Pet" declaration.text ∧
        ∀ alphabet : IdentifierAlphabet, ¬ alphabet.Accepts declaration.name := by
  have hyields : yields .yaml (statusOf "api.v1.Pet") {} (fun document _ =>
      document.namedShapes.map NamedShape.name = ["Admin", "api.v1.Pet"]) = true := by
    decide +kernel
  obtain ⟨document, output, hread, h, hcheck⟩ := exists_of_yields hyields
  have hshapes := of_decide_eq_true hcheck
  have hlegal : ∀ named ∈ document.namedShapes, IsComponentName named.name :=
    forall_namedShapes hshapes (by decide)
  obtain ⟨run⟩ := exists_run h
  have hmem : "api.v1.Pet" ∈ document.namedShapes.map NamedShape.name := by
    rw [hshapes]
    decide
  obtain ⟨named, hnamed, hname⟩ := List.mem_map.mp hmem
  obtain ⟨declaration, hdeclaration, heq, -⟩ := run.exists_declaration hnamed
  have hpet : declaration.name = "api.v1.Pet" := heq.trans hname
  refine ⟨document, output, hread, h, hlegal, run, declaration, hdeclaration, ?_,
    fun alphabet haccepts => ?_⟩
  · rw [← hpet]
    exact declaration.isAnnouncedIn_text
  · rw [hpet, ← hname, (hlegal named hnamed).accepts_iff] at haccepts
    exact absurd haccepts.noDot (by rw [hname]; decide)

end Output

end ApiScribe
