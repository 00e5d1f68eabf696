import ApiScribe.Proofs.Mentions
import ApiScribe.TypeScript.Printer

/-!
# Names in the text of a declaration

A declaration is read back from its text, so it matters that names are written as they are and that
nothing around them could be taken for a part of them.  `StandsIn` says this of a name and a text, and
survives whatever is put around the text, as long as delimiters come between (`StandsIn.within`).
With a delimiter on either side, anything at all may be put around it (`IsDelimitedIn`).

* `Ty.standsIn_text` is an induction over the places of a name in a type.  There is one case for each
  way to put types together, and in each the printer sets delimiters.
* `Declaration.isDelimitedIn_text` adds the places in a declaration, and
  `Declaration.isAnnouncedIn_text` is about the name that it declares.
-/

namespace ApiScribe.TypeScript

/-! ## Names between delimiters -/

/-- No name goes on with the character. -/
def IsDelimiter (c : Char) : Prop :=
  c ∈ " \n:;,|&?<>()[]\x7b\x7d=".toList

instance (c : Char) : Decidable (IsDelimiter c) :=
  inferInstanceAs (Decidable (_ ∈ _))

/-- Nothing that is behind the text is a continuation of it. -/
def EndsInDelimiter (text : String) : Prop :=
  ∀ c ∈ text.toList.getLast?, IsDelimiter c

/-- The text is no continuation of anything that is before it. -/
def BeginsWithDelimiter (text : String) : Prop :=
  ∀ c ∈ text.toList.head?, IsDelimiter c

instance (text : String) : Decidable (EndsInDelimiter text) :=
  decidable_of_iff (text.toList.getLast?.all fun c => decide (IsDelimiter c)) (by
    simp only [EndsInDelimiter, Option.all_eq_true, decide_eq_true_iff, Option.mem_def])

instance (text : String) : Decidable (BeginsWithDelimiter text) :=
  decidable_of_iff (text.toList.head?.all fun c => decide (IsDelimiter c)) (by
    simp only [BeginsWithDelimiter, Option.all_eq_true, decide_eq_true_iff, Option.mem_def])

/-- The name stands in the text, and neither what is before it nor what is behind it continues it. -/
def StandsIn (name text : String) : Prop :=
  ∃ front back, text = front ++ name ++ back ∧ EndsInDelimiter front ∧ BeginsWithDelimiter back

/-- The name stands in the text between two delimiters. -/
def IsDelimitedIn (name text : String) : Prop :=
  ∃ front back, text = front ++ name ++ back ∧ (front ≠ "" ∧ EndsInDelimiter front) ∧
    back ≠ "" ∧ BeginsWithDelimiter back

variable {name text : String}

theorem EndsInDelimiter.append {front : String} (h : EndsInDelimiter text)
    (hfront : EndsInDelimiter front) : EndsInDelimiter (front ++ text) := by
  intro c hc
  rw [String.toList_append, List.getLast?_append, Option.mem_def, Option.or_eq_some_iff] at hc
  rcases hc with hc | ⟨-, hc⟩
  · exact h c hc
  · exact hfront c hc

theorem BeginsWithDelimiter.append {back : String} (h : BeginsWithDelimiter text)
    (hback : BeginsWithDelimiter back) : BeginsWithDelimiter (text ++ back) := by
  intro c hc
  rw [String.toList_append, List.head?_append, Option.mem_def, Option.or_eq_some_iff] at hc
  rcases hc with hc | ⟨-, hc⟩
  · exact h c hc
  · exact hback c hc

/-- A text that is not empty ends like any text that it is the end of. -/
theorem EndsInDelimiter.append_of_ne_empty (h : EndsInDelimiter text) (hne : text ≠ "")
    (front : String) : EndsInDelimiter (front ++ text) := by
  intro c hc
  have hlist : text.toList ≠ [] := fun hnil => hne (String.toList_eq_nil_iff.mp hnil)
  rw [String.toList_append, List.getLast?_append_of_ne_nil _ hlist] at hc
  exact h c hc

theorem BeginsWithDelimiter.append_of_ne_empty (h : BeginsWithDelimiter text) (hne : text ≠ "")
    (back : String) : BeginsWithDelimiter (text ++ back) := by
  intro c hc
  have hlist : text.toList ≠ [] := fun hnil => hne (String.toList_eq_nil_iff.mp hnil)
  rw [String.toList_append, List.head?_append_of_ne_nil _ hlist] at hc
  exact h c hc

theorem append_ne_empty_of_left {front : String} (h : front ≠ "") (text : String) :
    front ++ text ≠ "" :=
  fun heq => h (String.append_eq_empty_iff.mp heq).1

theorem append_ne_empty_of_right {back : String} (h : back ≠ "") (text : String) :
    text ++ back ≠ "" :=
  fun heq => h (String.append_eq_empty_iff.mp heq).2

namespace StandsIn

theorem self (name : String) : StandsIn name name :=
  ⟨"", "", by rw [String.empty_append, String.append_empty], by decide, by decide⟩

/-- **With delimiters around the text, the name still stands in it.** -/
theorem within (h : StandsIn name text) {front back : String} (hfront : EndsInDelimiter front)
    (hback : BeginsWithDelimiter back) : StandsIn name (front ++ text ++ back) := by
  obtain ⟨before, behind, rfl, hbefore, hbehind⟩ := h
  refine ⟨front ++ before, behind ++ back, ?_, hbefore.append hfront, hbehind.append hback⟩
  simp only [String.append_assoc]

theorem before (h : StandsIn name text) {back : String} (hback : BeginsWithDelimiter back) :
    StandsIn name (text ++ back) := by
  have hwithin := h.within (by decide : EndsInDelimiter "") hback
  rwa [String.empty_append] at hwithin

theorem behind (h : StandsIn name text) {front : String} (hfront : EndsInDelimiter front) :
    StandsIn name (front ++ text) := by
  have hwithin := h.within hfront (by decide : BeginsWithDelimiter "")
  rwa [String.append_empty] at hwithin

theorem parenthesize (h : StandsIn name text) (needed : Bool) :
    StandsIn name (parenthesize needed text) := by
  rw [TypeScript.parenthesize]
  split
  · exact h.within (by decide) (by decide)
  · exact h

/-- A name that stands in one of several texts stands in all of them together. -/
theorem intercalate {texts : List String} (hmem : text ∈ texts) (h : StandsIn name text)
    {separator : String} (hne : separator ≠ "") (hends : EndsInDelimiter separator)
    (hbegins : BeginsWithDelimiter separator) :
    StandsIn name (String.intercalate separator texts) := by
  induction texts with
  | nil => cases hmem
  | cons first texts ih =>
    cases texts with
    | nil =>
      rw [List.mem_singleton.mp hmem] at h
      rwa [String.intercalate_singleton]
    | cons second texts =>
      rw [String.intercalate_cons_cons]
      rcases List.mem_cons.mp hmem with rfl | hmem
      · rw [String.append_assoc]
        exact h.before (hbegins.append_of_ne_empty hne _)
      · exact (ih hmem).behind (hends.append_of_ne_empty hne _)

theorem braces {parts : List String} (hmem : text ∈ parts) (h : StandsIn name text) :
    StandsIn name (braces "; " parts) := by
  have hne : parts.isEmpty = false := List.isEmpty_eq_false_iff.mpr (List.ne_nil_of_mem hmem)
  rw [TypeScript.braces, hne]
  exact (h.intercalate hmem (by decide) (by decide) (by decide)).within (by decide) (by decide)

/-- The name is delimited if something is put on either side. -/
theorem isDelimitedIn (h : StandsIn name text) {front back : String} (hfront : front ≠ "")
    (hends : EndsInDelimiter front) (hback : back ≠ "") (hbegins : BeginsWithDelimiter back) :
    IsDelimitedIn name (front ++ text ++ back) := by
  obtain ⟨before, behind, rfl, hbefore, hbehind⟩ := h
  refine ⟨front ++ before, behind ++ back, ?_, ⟨append_ne_empty_of_left hfront _,
    hbefore.append hends⟩, append_ne_empty_of_right hback _, hbehind.append hbegins⟩
  simp only [String.append_assoc]

end StandsIn

namespace IsDelimitedIn

/-- **A delimited name stays one**, whatever comes before it. -/
theorem behind (h : IsDelimitedIn name text) (front : String) :
    IsDelimitedIn name (front ++ text) := by
  obtain ⟨before, behind, rfl, ⟨hne, hbefore⟩, hbehind⟩ := h
  refine ⟨front ++ before, behind, ?_, ⟨append_ne_empty_of_right hne _,
    hbefore.append_of_ne_empty hne _⟩, hbehind⟩
  simp only [String.append_assoc]

/-- So it does whatever comes after it. -/
theorem before (h : IsDelimitedIn name text) (back : String) :
    IsDelimitedIn name (text ++ back) := by
  obtain ⟨before, behind, rfl, hbefore, hne, hbehind⟩ := h
  refine ⟨before, behind ++ back, ?_, hbefore, append_ne_empty_of_left hne _,
    hbehind.append_of_ne_empty hne _⟩
  simp only [String.append_assoc]

theorem join {texts : List String} (hmem : text ∈ texts) (h : IsDelimitedIn name text) :
    IsDelimitedIn name (String.join texts) := by
  induction texts with
  | nil => cases hmem
  | cons first texts ih =>
    rw [String.join_cons]
    rcases List.mem_cons.mp hmem with rfl | hmem
    · exact h.before _
    · exact (ih hmem).behind _

end IsDelimitedIn

/-! ## Names in types -/

theorem Ty.texts_eq (types : List Ty) : Ty.texts types = types.map Ty.text := by
  induction types with
  | nil => rfl
  | cons type types ih => rw [Ty.texts, ih, List.map_cons]

theorem Ty.operands_eq (types : List Ty) :
    Ty.operands types = types.map fun type => parenthesize type.isUnion type.text := by
  induction types with
  | nil => rfl
  | cons type types ih => rw [Ty.operands, ih, List.map_cons]

theorem Property.texts_eq (properties : List Property) :
    Property.texts properties = properties.map Property.text := by
  induction properties with
  | nil => rfl
  | cons property properties ih => rw [Property.texts, ih, List.map_cons]

theorem Property.standsIn_text {property : Property} (h : StandsIn name property.type.text) :
    StandsIn name property.text := by
  obtain ⟨key, type, optional, description⟩ := property
  rw [Property.text, annotated]
  have hcolon : EndsInDelimiter ": " := by decide
  exact h.behind (hcolon.append_of_ne_empty (by decide) _)

/-- **Where a type mentions a name, the name stands in the text.** -/
theorem Ty.standsIn_text {type : Ty} (h : type.Mentions name) : StandsIn name type.text := by
  have hcomma : EndsInDelimiter ", " := by decide
  induction h with
  | named =>
    rw [Ty.text]
    exact StandsIn.self name
  | array _ ih =>
    rw [Ty.text]
    exact (ih.parenthesize _).before (by decide)
  | union hmem _ ih =>
    rw [Ty.text, Ty.texts_eq]
    exact ih.intercalate (List.mem_map_of_mem hmem) (by decide) (by decide) (by decide)
  | @intersection _ type hmem _ ih =>
    rw [Ty.text, Ty.operands_eq]
    exact (ih.parenthesize type.isUnion).intercalate (List.mem_map.mpr ⟨type, hmem, rfl⟩)
      (by decide) (by decide) (by decide)
  | property hmem _ ih =>
    rw [Ty.text.eq_def]
    simp only [Property.texts_eq]
    exact (Property.standsIn_text ih).braces (List.mem_append_left _ (List.mem_map_of_mem hmem))
  | index _ ih =>
    rw [Ty.text]
    exact (ih.behind (by decide)).braces (List.mem_append_right _ (List.mem_singleton_self _))
  | @key _ value _ ih =>
    rw [Ty.text, String.append_assoc, String.append_assoc]
    have hbehind : BeginsWithDelimiter (", " ++ (value.text ++ ">")) :=
      BeginsWithDelimiter.append_of_ne_empty (by decide) (by decide) _
    exact ih.within (by decide) hbehind
  | value _ ih =>
    rw [Ty.text]
    exact ih.within (hcomma.append_of_ne_empty (by decide) _) (by decide)
  | argument hmem _ ih =>
    rw [Ty.text, Ty.texts_eq]
    have hbracket : EndsInDelimiter "<" := by decide
    exact (ih.intercalate (List.mem_map_of_mem hmem) (by decide) hcomma (by decide)).within
      (hbracket.append_of_ne_empty (by decide) _) (by decide)

/-! ## Names in declarations -/

theorem isDelimitedIn_bodyLine (h : StandsIn name text) : IsDelimitedIn name (bodyLine text) :=
  h.isDelimitedIn (by decide) (by decide) (by decide) (by decide)

/-- An interface is written as its head and a body, and they are kept apart. -/
theorem exists_interfaceBody (own : String) (bases : List String) (properties : List Property)
    (index : Option Ty) : ∃ body, interfaceText own bases properties index =
        "export interface " ++ own ++
          (if bases.isEmpty then "" else " extends " ++ String.intercalate ", " bases) ++ body ∧
      body ≠ "" ∧ BeginsWithDelimiter body := by
  unfold interfaceText
  refine ⟨_, rfl, ?_⟩
  split
  · exact ⟨by decide, by decide⟩
  · rw [String.append_assoc, String.append_assoc]
    exact ⟨append_ne_empty_of_left (by decide) _,
      BeginsWithDelimiter.append_of_ne_empty (by decide) (by decide) _⟩

/-- A base stands between the keyword and the body. -/
theorem isDelimitedIn_interfaceText_of_base {own : String} {bases : List String}
    {properties : List Property} {index : Option Ty} (hmem : name ∈ bases) :
    IsDelimitedIn name (interfaceText own bases properties index) := by
  have hbases : StandsIn name (String.intercalate ", " bases) :=
    (StandsIn.self name).intercalate hmem (by decide) (by decide) (by decide)
  have hne : ¬ bases.isEmpty = true := fun hnil =>
    List.ne_nil_of_mem hmem (List.isEmpty_iff.mp hnil)
  obtain ⟨body, heq, hbody, hbegins⟩ := exists_interfaceBody own bases properties index
  rw [heq, if_neg hne, ← String.append_assoc]
  exact hbases.isDelimitedIn (append_ne_empty_of_right (by decide) _)
    (EndsInDelimiter.append_of_ne_empty (by decide) (by decide) _) hbody hbegins

/-- What stands in the type of a property or of the index stands in the body. -/
theorem isDelimitedIn_interfaceText_of_property {own : String} {bases : List String}
    {properties : List Property} {index : Option Ty} {property : Property}
    (hmem : property ∈ properties) (h : property.type.Mentions name) :
    IsDelimitedIn name (interfaceText own bases properties index) := by
  have hline : IsDelimitedIn name property.line :=
    (isDelimitedIn_bodyLine (Property.standsIn_text (Ty.standsIn_text h))).behind _
  have hlines := hline.join (List.mem_map_of_mem hmem)
  have hne : ¬ (properties.isEmpty && index.isNone) = true := by
    intro hnone
    exact List.ne_nil_of_mem hmem (List.isEmpty_iff.mp (Bool.and_eq_true_iff.mp hnone).1)
  unfold interfaceText
  rw [if_neg hne]
  exact (((hlines.behind _).before _).before _).behind _

theorem isDelimitedIn_interfaceText_of_index {own : String} {bases : List String}
    {properties : List Property} {type : Ty} (h : type.Mentions name) :
    IsDelimitedIn name (interfaceText own bases properties (some type)) := by
  have hline : IsDelimitedIn name (bodyLine (indexSignature type.text)) :=
    isDelimitedIn_bodyLine ((Ty.standsIn_text h).behind (by decide))
  have hne : ¬ (properties.isEmpty && (some type).isNone) = true := by
    rw [Option.isNone_some, Bool.and_false]
    exact Bool.false_ne_true
  unfold interfaceText
  rw [if_neg hne]
  exact ((hline.behind _).before _).behind _

/-- **Where a declaration mentions a name, the name stands in the text**, with a delimiter on either
side. -/
theorem Declaration.isDelimitedIn_text {declaration : Declaration}
    (h : declaration.kind.Mentions name) : IsDelimitedIn name declaration.text := by
  obtain ⟨own, description, kind⟩ := declaration
  rw [Declaration.text]
  refine IsDelimitedIn.behind ?_ _
  cases h with
  | base hmem => exact isDelimitedIn_interfaceText_of_base hmem
  | property hmem hmentions => exact isDelimitedIn_interfaceText_of_property hmem hmentions
  | index hindex hmentions =>
    rw [hindex]
    exact isDelimitedIn_interfaceText_of_index hmentions
  | aliased hmentions =>
    have hequals : EndsInDelimiter " = " := by decide
    exact (Ty.standsIn_text hmentions).isDelimitedIn (append_ne_empty_of_right (by decide) _)
      (hequals.append_of_ne_empty (by decide) _) (by decide) (by decide)

/-! ## The names of declarations -/

/-- The text begins with the other one, and goes on with a delimiter. -/
def OpensWith (opening text : String) : Prop :=
  ∃ rest, text = opening ++ rest ∧ rest ≠ "" ∧ BeginsWithDelimiter rest

theorem OpensWith.before {opening : String} (h : OpensWith opening text) (back : String) :
    OpensWith opening (text ++ back) := by
  obtain ⟨rest, rfl, hne, hrest⟩ := h
  exact ⟨rest ++ back, String.append_assoc, append_ne_empty_of_left hne _,
    hrest.append_of_ne_empty hne _⟩

/-- The beginning of the declaration of a name. -/
def announcement (keyword name : String) : String :=
  "export " ++ keyword ++ " " ++ name

theorem announcement_eq (keyword : String) {opening : String}
    (h : opening = "export " ++ keyword ++ " ") (own : String) :
    announcement keyword own = opening ++ own := by
  rw [h, announcement]

theorem opensWith_interfaceText (own : String) (bases : List String) (properties : List Property)
    (index : Option Ty) :
    OpensWith (announcement "interface" own) (interfaceText own bases properties index) := by
  have hopening : "export interface " = "export " ++ "interface" ++ " " := by decide
  obtain ⟨body, heq, hbody, hbegins⟩ := exists_interfaceBody own bases properties index
  rw [heq, announcement_eq _ hopening]
  split
  · rw [String.append_empty]
    exact ⟨body, rfl, hbody, hbegins⟩
  · have hextends : BeginsWithDelimiter (" extends " ++ String.intercalate ", " bases) :=
      BeginsWithDelimiter.append_of_ne_empty (by decide) (by decide) _
    exact OpensWith.before ⟨_, rfl, append_ne_empty_of_left (by decide) _, hextends⟩ body

theorem opensWith_enumerationText (own : String) (style : EnumStyle) (members : List EnumMember)
    (bottom : Option Primitive) : ∃ keyword ∈ ["type", "const", "enum"],
      OpensWith (announcement keyword own) (enumerationText own style members bottom) := by
  unfold enumerationText
  -- whatever the style, the first delimiter behind the name settles it
  cases style with
  | constObject =>
    have hopening : "export const " = "export " ++ "const" ++ " " := by decide
    refine ⟨"const", by decide, ?_⟩
    rw [announcement_eq _ hopening]
    iterate 11 apply OpensWith.before
    exact ⟨_, rfl, by decide, by decide⟩
  | union =>
    have hopening : "export type " = "export " ++ "type" ++ " " := by decide
    refine ⟨"type", by decide, ?_⟩
    rw [announcement_eq _ hopening]
    iterate 2 apply OpensWith.before
    exact ⟨_, rfl, by decide, by decide⟩
  | native =>
    have hopening : "export enum " = "export " ++ "enum" ++ " " := by decide
    refine ⟨"enum", by decide, ?_⟩
    rw [announcement_eq _ hopening]
    iterate 2 apply OpensWith.before
    exact ⟨_, rfl, by decide, by decide⟩

/-- The text announces the declaration of the name, behind a keyword for the way in which it is
declared. -/
def IsAnnouncedIn (name text : String) : Prop :=
  ∃ keyword ∈ ["interface", "type", "const", "enum"], ∃ front back,
    text = front ++ announcement keyword name ++ back ∧ back ≠ "" ∧ BeginsWithDelimiter back

theorem OpensWith.isAnnouncedIn {keyword : String}
    (hkeyword : keyword ∈ ["interface", "type", "const", "enum"])
    (h : OpensWith (announcement keyword name) text) (front : String) :
    IsAnnouncedIn name (front ++ text) := by
  obtain ⟨rest, rfl, hne, hbegins⟩ := h
  exact ⟨keyword, hkeyword, front, rest, String.append_assoc.symm, hne, hbegins⟩

/-- **A declaration announces its name.** -/
theorem Declaration.isAnnouncedIn_text (declaration : Declaration) :
    IsAnnouncedIn declaration.name declaration.text := by
  obtain ⟨own, description, kind⟩ := declaration
  rw [Declaration.text]
  cases kind with
  | interface bases properties index =>
    exact (opensWith_interfaceText own bases properties index).isAnnouncedIn (by decide) _
  | «alias» type =>
    have hopening : "export type " = "export " ++ "type" ++ " " := by decide
    have hopens : OpensWith (announcement "type" own) ("export type " ++ own ++ " = ") := by
      rw [announcement_eq _ hopening]
      exact ⟨_, rfl, by decide, by decide⟩
    exact ((hopens.before _).before _).isAnnouncedIn (by decide) _
  | enumeration style members bottom =>
    obtain ⟨keyword, hkeyword, hopens⟩ := opensWith_enumerationText own style members bottom
    exact hopens.isAnnouncedIn (List.mem_cons_of_mem _ hkeyword) _

end ApiScribe.TypeScript
