import ApiScribe.Naming.Case
import ApiScribe.Proofs.TypeTree

/-!
# The grammar of types

A union consists of intersections with bars between them, an intersection of operands with
ampersands between them, and an operand is a primary type with any number of brackets behind it.  The
readers follow this grammar, each giving what it has read and the tokens that are left.  They call
each other for the types inside types, and say `none` where the grammar has no way to go on.  A reader
leaves fewer tokens than there were (`length_of_readType`); `fewer?` asks for it, so that the readers
come to an end, and always gets it.

What a reader does with the tokens of a type depends on what is behind them, so `Ty.IsRead` says for
each level of the grammar, and for all tokens that may follow on that level, that the tree of the
type is read.  There is a lemma for each kind of type, and `Ty.isRead_of_isLegible` puts them together.
With the scanner in front this is `Ty.treeOfText?_text`: the text of a legible type is read as its
tree.
-/

namespace ApiScribe.TypeScript

namespace TypeTree

/-! ## Readers -/

/-- The words that are types by themselves, literals among them. -/
def builtInTypes : List String :=
  ["any", "bigint", "boolean", "Date", "false", "intrinsic", "never", "null", "number", "object",
    "string", "symbol", "true", "undefined", "unknown", "void"]

/-- The words that begin types of other forms. -/
def typeOperators : List String :=
  ["infer", "keyof", "readonly", "unique"]

/-- May the word be the name of a declared type? -/
def isTypeName (word : String) : Bool :=
  !builtInTypes.contains word && !typeOperators.contains word && !Naming.isReserved word

theorem builtInTypes_contains_eq_false {word : String} (h : isTypeName word = true) :
    builtInTypes.contains word = false := by
  rw [isTypeName, Bool.and_eq_true, Bool.and_eq_true, Bool.not_eq_true'] at h
  exact h.1.1

/-- The name of a property. -/
def key? : Token → Option String
  | .word name => some name
  | .text value => some value
  | _ => none

/-- Is the property optional?  The tokens behind the colon are left. -/
def annotation? : List Token → Option (Bool × List Token)
  | .mark .question :: .mark .colon :: rest => some (true, rest)
  | .mark .colon :: rest => some (false, rest)
  | _ => none

/-- A name with arguments.  The name of records is a word of the language. -/
def applied? (name : String) (arguments : List TypeTree) : Option TypeTree :=
  if name = "Record" then
    match arguments with
    | [key, value] => some (.record key value)
    | _ => none
  else some (.applied name arguments)

/-- A type with the brackets behind it. -/
def suffixed (item : TypeTree) : List Token → TypeTree × List Token
  | .mark .openBracket :: .mark .closeBracket :: rest => suffixed (.array item) rest
  | rest => (item, rest)

/-- The tokens that are left, if they are fewer.  They always are (`length_of_readType`). -/
def fewer? (tokens rest : List Token) : Option { rest : List Token // rest.length < tokens.length } :=
  if h : rest.length < tokens.length then some ⟨rest, h⟩ else none

/-- How many levels of the grammar are below the operands. -/
def depth : Joint → Nat
  | .intersection => 1
  | .union => 3

mutual

/-- The members of a union or an intersection. -/
def readParts (joint : Joint) (tokens : List Token) : Option (List TypeTree × List Token) := do
  let (operand, rest) ← readOperand joint tokens
  match rest with
  | .mark mark :: more =>
    if mark = joint.mark then do
      let more ← fewer? tokens more
      let (others, rest) ← readParts joint more.1
      pure (parts joint operand ++ others, rest)
    else pure (parts joint operand, rest)
  | rest => pure (parts joint operand, rest)
termination_by (tokens.length, depth joint + 1)
decreasing_by
  · exact Prod.Lex.right _ (Nat.lt_succ_self _)
  · exact Prod.Lex.left _ _ more.2

/-- A member: of a union an intersection, and of an intersection a type with brackets. -/
def readOperand (joint : Joint) (tokens : List Token) : Option (TypeTree × List Token) :=
  match joint with
  | .union => do
    let (members, rest) ← readParts .intersection tokens
    pure (joined .intersection members, rest)
  | .intersection => do
    let (item, rest) ← readPrimary tokens
    pure (suffixed item rest)
termination_by (tokens.length, depth joint)
decreasing_by
  all_goals exact Prod.Lex.right _ (by decide)

/-- A type. -/
def readType (tokens : List Token) : Option (TypeTree × List Token) := do
  let (members, rest) ← readParts .union tokens
  pure (joined .union members, rest)
termination_by (tokens.length, 5)
decreasing_by exact Prod.Lex.right _ (by decide)

/-- A type that nothing binds tighter than. -/
def readPrimary : List Token → Option (TypeTree × List Token)
  | .word word :: rest =>
    if builtInTypes.contains word then pure (.keyword word, rest)
    else if isTypeName word then
      match rest with
      | .mark .openAngle :: rest => do
        let (arguments, rest) ← readArguments rest
        let tree ← applied? word arguments
        pure (tree, rest)
      | rest => pure (.named word, rest)
    else none
  | .numeral spelling :: rest => pure (.numeral spelling, rest)
  | .mark .minus :: .numeral spelling :: rest => pure (.numeral ("-" ++ spelling), rest)
  | .text value :: rest => pure (.quoted value, rest)
  | .mark .openParen :: rest => do
    let (type, rest) ← readType rest
    match rest with
    | .mark .closeParen :: rest => pure (type, rest)
    | _ => none
  | .mark .openBrace :: rest => do
    let (properties, index, rest) ← readMembers rest
    pure (.object properties index, rest)
  | _ => none
termination_by tokens => (tokens.length, 0)

/-- Arguments up to the end of their list. -/
def readArguments : List Token → Option (List TypeTree × List Token)
  | .mark .closeAngle :: rest => pure ([], rest)
  | tokens => do
    let (first, rest) ← readType tokens
    match rest with
    | .mark .comma :: rest => do
      let rest ← fewer? tokens rest
      let (others, rest) ← readArguments rest.1
      pure (first :: others, rest)
    | .mark .closeAngle :: rest => pure ([first], rest)
    | _ => none
termination_by tokens => (tokens.length, 6)

/-- The members of an object type up to its end.  An index signature is the last of them. -/
def readMembers :
    List Token → Option (List (String × Bool × TypeTree) × Option TypeTree × List Token)
  | .mark .closeBrace :: rest => pure ([], none, rest)
  | .mark .openBracket :: .word _ :: .mark .colon :: .word "string" :: .mark .closeBracket ::
      .mark .colon :: rest => do
    let (type, rest) ← readType rest
    match rest with
    | .mark .closeBrace :: rest => pure ([], some type, rest)
    | _ => none
  | key :: rest => do
    let name ← key? key
    let (optional, typed) ← annotation? rest
    let typed ← fewer? (key :: rest) typed
    let (type, rest) ← readType typed.1
    match rest with
    | .mark .semicolon :: rest => do
      let rest ← fewer? typed.1 rest
      let (properties, index, rest) ← readMembers rest.1
      pure ((name, optional, type) :: properties, index, rest)
    | .mark .closeBrace :: rest => pure ([(name, optional, type)], none, rest)
    | _ => none
  | [] => none
termination_by tokens => (tokens.length, 0)
decreasing_by
  · exact Prod.Lex.left _ _ (by simp only [List.length_cons]; omega)
  · exact Prod.Lex.left _ _ typed.2
  · exact Prod.Lex.left _ _ (rest.2.trans typed.2)

end

/-- The tree of a text that is a type. -/
def ofText? (alphabet : IdentifierAlphabet) (text : String) : Option TypeTree := do
  let tokens ← Token.ofText? alphabet text
  match ← readType tokens with
  | (tree, []) => pure tree
  | _ => none

end TypeTree

/-! ## What is left -/

namespace TypeTree

theorem fewer?_eq {tokens rest : List Token} (h : rest.length < tokens.length) :
    fewer? tokens rest = some ⟨rest, h⟩ :=
  dif_pos h

theorem length_suffixed_le (item : TypeTree) (tokens : List Token) :
    (suffixed item tokens).2.length ≤ tokens.length := by
  fun_induction suffixed item tokens with
  | case1 item rest ih =>
    simp only [List.length_cons]
    omega
  | case2 => exact le_refl _

mutual

theorem length_of_readParts {joint : Joint} {tokens rest : List Token} {trees : List TypeTree}
    (h : readParts joint tokens = some (trees, rest)) : rest.length < tokens.length := by
  rw [readParts] at h
  simp only [Option.bind_eq_bind, Option.bind_eq_some_iff] at h
  obtain ⟨⟨operand, left⟩, hoperand, h⟩ := h
  have hleft := length_of_readOperand hoperand
  dsimp only at h
  split at h
  · split at h
    · simp only [Option.bind_eq_some_iff] at h
      obtain ⟨more, -, ⟨others, last⟩, hothers, h⟩ := h
      cases h
      exact (length_of_readParts hothers).trans more.2
    · cases h
      exact hleft
  · cases h
    exact hleft
termination_by (tokens.length, depth joint + 1)
decreasing_by
  · exact Prod.Lex.right _ (Nat.lt_succ_self _)
  · exact Prod.Lex.left _ _ more.2

theorem length_of_readOperand : ∀ {joint : Joint} {tokens rest : List Token} {tree : TypeTree},
    readOperand joint tokens = some (tree, rest) → rest.length < tokens.length
  | .union, tokens, rest, tree, h => by
    simp only [readOperand, Option.bind_eq_bind, Option.bind_eq_some_iff] at h
    obtain ⟨⟨members, left⟩, hmembers, h⟩ := h
    cases h
    exact length_of_readParts hmembers
  | .intersection, tokens, rest, tree, h => by
    simp only [readOperand, Option.bind_eq_bind, Option.bind_eq_some_iff] at h
    obtain ⟨⟨item, left⟩, hitem, h⟩ := h
    have hsuffixed := length_suffixed_le item left
    rw [Option.some.inj h] at hsuffixed
    exact hsuffixed.trans_lt (length_of_readPrimary hitem)
termination_by joint tokens => (tokens.length, depth joint)
decreasing_by
  all_goals exact Prod.Lex.right _ (by decide)

/-- **A reader leaves fewer tokens than there were.** -/
theorem length_of_readType {tokens rest : List Token} {tree : TypeTree}
    (h : readType tokens = some (tree, rest)) : rest.length < tokens.length := by
  simp only [readType, Option.bind_eq_bind, Option.bind_eq_some_iff] at h
  obtain ⟨⟨members, left⟩, hmembers, h⟩ := h
  cases h
  exact length_of_readParts hmembers
termination_by (tokens.length, 5)
decreasing_by exact Prod.Lex.right _ (by decide)

theorem length_of_readPrimary {tokens rest : List Token} {tree : TypeTree}
    (h : readPrimary tokens = some (tree, rest)) : rest.length < tokens.length := by
  rw [readPrimary.eq_def] at h
  split at h
  · rename_i word more
    split at h
    · cases h
      exact Nat.lt_succ_self _
    · split at h
      · split at h
        · simp only [Option.bind_eq_bind, Option.bind_eq_some_iff] at h
          obtain ⟨⟨arguments, left⟩, harguments, applied, -, h⟩ := h
          cases h
          have hleft := length_of_readArguments harguments
          simp only [List.length_cons]
          omega
        · cases h
          exact Nat.lt_succ_self _
      · cases h
  · cases h
    exact Nat.lt_succ_self _
  · cases h
    simp only [List.length_cons]
    omega
  · cases h
    exact Nat.lt_succ_self _
  · simp only [Option.bind_eq_bind, Option.bind_eq_some_iff] at h
    obtain ⟨⟨type, left⟩, htype, h⟩ := h
    have hleft := length_of_readType htype
    dsimp only at h
    split at h
    · cases h
      simp only [List.length_cons] at hleft ⊢
      omega
    · cases h
  · simp only [Option.bind_eq_bind, Option.bind_eq_some_iff] at h
    obtain ⟨⟨properties, index, left⟩, hmembers, h⟩ := h
    cases h
    exact (length_of_readMembers hmembers).trans (Nat.lt_succ_self _)
  · cases h
termination_by (tokens.length, 0)

theorem length_of_readArguments {tokens rest : List Token} {trees : List TypeTree}
    (h : readArguments tokens = some (trees, rest)) : rest.length < tokens.length := by
  rw [readArguments.eq_def] at h
  split at h
  · cases h
    exact Nat.lt_succ_self _
  · simp only [Option.bind_eq_bind, Option.bind_eq_some_iff] at h
    obtain ⟨⟨first, left⟩, hfirst, h⟩ := h
    have hleft := length_of_readType hfirst
    dsimp only at h
    split at h
    · simp only [Option.bind_eq_some_iff] at h
      obtain ⟨more, -, ⟨others, last⟩, hothers, h⟩ := h
      cases h
      exact (length_of_readArguments hothers).trans more.2
    · cases h
      exact (Nat.lt_succ_self _).trans hleft
    · cases h
termination_by (tokens.length, 6)

theorem length_of_readMembers {tokens rest : List Token}
    {properties : List (String × Bool × TypeTree)} {index : Option TypeTree}
    (h : readMembers tokens = some (properties, index, rest)) : rest.length < tokens.length := by
  rw [readMembers.eq_def] at h
  split at h
  · cases h
    exact Nat.lt_succ_self _
  · simp only [Option.bind_eq_bind, Option.bind_eq_some_iff] at h
    obtain ⟨⟨type, left⟩, htype, h⟩ := h
    have hleft := length_of_readType htype
    dsimp only at h
    split at h
    · cases h
      simp only [List.length_cons] at hleft ⊢
      omega
    · cases h
  · simp only [Option.bind_eq_bind, Option.bind_eq_some_iff] at h
    obtain ⟨name, -, ⟨optional, _⟩, -, typed, -, ⟨type, left⟩, htype, h⟩ := h
    have hleft := length_of_readType htype
    dsimp only at h
    split at h
    · simp only [Option.bind_eq_some_iff] at h
      obtain ⟨more, -, ⟨others, last, ending⟩, hothers, h⟩ := h
      cases h
      exact (length_of_readMembers hothers).trans (more.2.trans typed.2)
    · cases h
      exact (Nat.lt_succ_self _).trans (hleft.trans typed.2)
    · cases h
  · cases h
termination_by (tokens.length, 0)

end

end TypeTree

/-! ## What may follow -/

/-- None of the marks is the next token. -/
def Stops (marks : List Mark) (rest : List Token) : Prop :=
  ∀ mark ∈ marks, rest.head? ≠ some (.mark mark)

/-- The marks that a type can go on with. -/
def continuations : List Mark :=
  [.openAngle, .openBracket, .ampersand, .bar]

theorem Stops.mono {marks fewer : List Mark} {rest : List Token} (h : Stops marks rest)
    (hsubset : fewer ⊆ marks) : Stops fewer rest :=
  fun mark hmark => h mark (hsubset hmark)

theorem stops_cons {marks : List Mark} {mark : Mark} (h : mark ∉ marks) (rest : List Token) :
    Stops marks (.mark mark :: rest) := by
  intro other hother heq
  cases heq
  exact h hother

theorem Stops.ne_cons {marks : List Mark} {rest : List Token} (h : Stops marks rest) {mark : Mark}
    (hmark : mark ∈ marks) (more : List Token) : rest ≠ .mark mark :: more := by
  rintro rfl
  exact h mark hmark rfl

namespace TypeTree

theorem suffixed_of_stops {tree : TypeTree} {rest : List Token} (h : Stops [.openBracket] rest) :
    suffixed tree rest = (tree, rest) := by
  rw [suffixed]
  exact fun more => h.ne_cons List.mem_cons_self _

/-- What is done behind the first members. -/
def afterParts (joint : Joint) (before : List TypeTree) (rest : List Token) :
    Option (List TypeTree × List Token) :=
  match rest with
  | .mark mark :: more =>
    if mark = joint.mark then
      (readParts joint more).map fun (others, rest) => (before ++ others, rest)
    else some (before, rest)
  | rest => some (before, rest)

theorem readParts_eq (joint : Joint) (tokens : List Token) :
    readParts joint tokens = (readOperand joint tokens).bind fun (operand, rest) =>
      afterParts joint (parts joint operand) rest := by
  rw [readParts]
  cases hoperand : readOperand joint tokens with
  | none => rfl
  | some operand =>
    obtain ⟨operand, rest⟩ := operand
    have hrest := length_of_readOperand hoperand
    simp only [Option.bind_eq_bind, Option.bind_some, afterParts]
    split
    · rename_i mark more
      by_cases hmark : mark = joint.mark
      · rw [if_pos hmark, if_pos hmark, fewer?_eq ((Nat.lt_succ_self _).trans hrest)]
        simp only [Option.bind_some]
        cases readParts joint more <;> rfl
      · rw [if_neg hmark, if_neg hmark]
        rfl
    · rfl

theorem afterParts_of_stops {joint : Joint} {before : List TypeTree} {rest : List Token}
    (h : Stops [joint.mark] rest) : afterParts joint before rest = some (before, rest) := by
  rw [afterParts.eq_def]
  split
  · rename_i mark more
    have hmark : mark ≠ joint.mark := by
      rintro rfl
      exact h _ List.mem_cons_self rfl
    rw [if_neg hmark]
  · rfl

theorem afterParts_mark (joint : Joint) (before : List TypeTree) (more : List Token) :
    afterParts joint before (.mark joint.mark :: more) =
      (readParts joint more).map fun (others, rest) => (before ++ others, rest) :=
  if_pos rfl

theorem map_afterParts (joint : Joint) (before others : List TypeTree) (rest : List Token) :
    (afterParts joint others rest).map (fun (others, rest) => (before ++ others, rest)) =
      afterParts joint (before ++ others) rest := by
  rw [afterParts.eq_def, afterParts.eq_def]
  split
  · rename_i mark more
    by_cases hmark : mark = joint.mark
    · rw [if_pos hmark, if_pos hmark, Option.map_map]
      simp only [Function.comp_def, List.append_assoc]
    · rw [if_neg hmark, if_neg hmark]
      rfl
  · rfl

end TypeTree

/-! ## Reading the tokens of a type -/

/-- The tokens of the type are read as its tree, on each level of the grammar that it can stand on. -/
structure Ty.IsRead (type : Ty) : Prop where
  unary : type.isCompound = false → ∀ rest, Stops [.openAngle] rest →
    TypeTree.readOperand .intersection (type.tokens ++ rest) = some (type.tree.suffixed rest)
  factors : type.isUnion = false → ∀ rest, Stops [.openAngle, .openBracket] rest →
    TypeTree.readParts .intersection (type.tokens ++ rest) =
      TypeTree.afterParts .intersection (type.tree.parts .intersection) rest
  alternatives : ∀ rest, Stops [.openAngle, .openBracket, .ampersand] rest →
    TypeTree.readParts .union (type.tokens ++ rest) =
      TypeTree.afterParts .union (type.tree.parts .union) rest

namespace Ty

variable {type : Ty} {rest : List Token}

/-- **A type is read up to what cannot belong to it.** -/
theorem IsRead.readType (h : type.IsRead) (hrest : Stops continuations rest) :
    TypeTree.readType (type.tokens ++ rest) = some (type.tree, rest) := by
  have hunion : Stops [Joint.union.mark] rest := hrest.mono (by decide)
  rw [TypeTree.readType, h.alternatives rest (hrest.mono (by decide)),
    TypeTree.afterParts_of_stops hunion]
  exact congrArg (fun tree => some (tree, rest)) (type.isFlat_tree.joined_parts .union)

/-- In parentheses every type is an operand. -/
theorem IsRead.readOperand_grouped (h : type.IsRead) (rest : List Token) :
    TypeTree.readOperand .intersection (grouped true type.tokens ++ rest) =
      some (type.tree.suffixed rest) := by
  have hclose : Stops continuations (.mark .closeParen :: rest) := stops_cons (by decide) rest
  have htokens : grouped true type.tokens ++ rest =
      .mark .openParen :: (type.tokens ++ .mark .closeParen :: rest) := by
    simp [grouped]
  rw [htokens, TypeTree.readOperand, TypeTree.readPrimary, h.readType hclose]
  rfl

/-- An operand that no bracket is behind. -/
theorem readParts_of_readOperand {tokens : List Token}
    (h : TypeTree.readOperand .intersection tokens = some (type.tree.suffixed rest))
    (hrest : Stops [.openBracket] rest) :
    TypeTree.readParts .intersection tokens =
      TypeTree.afterParts .intersection (type.tree.parts .intersection) rest := by
  rw [TypeTree.readParts_eq, h, TypeTree.suffixed_of_stops hrest]
  rfl

/-- An intersection is a member of a union. -/
theorem alternatives_of_factors
    (h : ∀ rest, Stops [.openAngle, .openBracket] rest →
      TypeTree.readParts .intersection (type.tokens ++ rest) =
        TypeTree.afterParts .intersection (type.tree.parts .intersection) rest)
    (hrest : Stops [.openAngle, .openBracket, .ampersand] rest) :
    TypeTree.readParts .union (type.tokens ++ rest) =
      TypeTree.afterParts .union (type.tree.parts .union) rest := by
  have hintersection : Stops [Joint.intersection.mark] rest := hrest.mono (by decide)
  have hoperand : TypeTree.readOperand .union (type.tokens ++ rest) = some (type.tree, rest) := by
    rw [TypeTree.readOperand, h rest (hrest.mono (by decide)),
      TypeTree.afterParts_of_stops hintersection]
    exact congrArg (fun tree => some (tree, rest)) (type.isFlat_tree.joined_parts .intersection)
  rw [TypeTree.readParts_eq, hoperand]
  rfl

/-- What is read on the level of operands is read on the levels above. -/
theorem isRead_of_unary
    (h : ∀ rest, Stops [.openAngle] rest →
      TypeTree.readOperand .intersection (type.tokens ++ rest) = some (type.tree.suffixed rest)) :
    type.IsRead := by
  have hfactors : ∀ rest, Stops [.openAngle, .openBracket] rest →
      TypeTree.readParts .intersection (type.tokens ++ rest) =
        TypeTree.afterParts .intersection (type.tree.parts .intersection) rest :=
    fun rest hrest =>
      readParts_of_readOperand (h rest (hrest.mono (by decide))) (hrest.mono (by decide))
  exact ⟨fun _ => h, fun _ => hfactors, fun _ hrest => alternatives_of_factors hfactors hrest⟩

theorem isRead_of_primary
    (h : ∀ rest, Stops [.openAngle] rest →
      TypeTree.readPrimary (type.tokens ++ rest) = some (type.tree, rest)) :
    type.IsRead := by
  refine isRead_of_unary fun rest hrest => ?_
  rw [TypeTree.readOperand, h rest hrest]
  rfl

/-! ### Unions, intersections and arrays -/

/-- The members of a union or an intersection are read one after the other. -/
theorem readParts_separated (joint : Joint) {marks : List Mark} (hmark : joint.mark ∉ marks)
    {tokens : Ty → List Token} {members : List Ty}
    (h : ∀ member ∈ members, ∀ rest, Stops marks rest →
      TypeTree.readParts joint (tokens member ++ rest) =
        TypeTree.afterParts joint (member.tree.parts joint) rest)
    (hne : members ≠ []) (hrest : Stops marks rest) :
    TypeTree.readParts joint (separated joint.mark (members.map tokens) ++ rest) =
      TypeTree.afterParts joint ((TypeTree.join joint (trees members)).parts joint) rest := by
  rw [trees_eq, TypeTree.parts_join (forall_isFlat members)]
  induction members with
  | nil => exact absurd rfl hne
  | cons first members ih =>
    obtain ⟨hfirst, hmembers⟩ := List.forall_mem_cons.mp h
    cases members with
    | nil =>
      rw [List.map_singleton, separated, List.map_singleton, List.flatMap_singleton]
      exact hfirst rest hrest
    | cons second members =>
      have htokens : separated joint.mark ((first :: second :: members).map tokens) ++ rest =
          tokens first ++ .mark joint.mark ::
            (separated joint.mark ((second :: members).map tokens) ++ rest) := by
        simp [separated]
      rw [htokens, hfirst _ (stops_cons hmark _), TypeTree.afterParts_mark,
        ih hmembers (List.cons_ne_nil _ _), TypeTree.map_afterParts]
      rfl

theorem isRead_union {members : List Ty} (hne : members ≠ [])
    (h : ∀ member ∈ members, member.IsRead) : (union members).IsRead := by
  refine ⟨nofun, nofun, fun rest hrest => ?_⟩
  rw [tokens, tokenLists_eq]
  exact readParts_separated .union (by decide)
    (fun member hmember => (h member hmember).alternatives) hne hrest

theorem isRead_intersection {members : List Ty} (hne : members ≠ [])
    (h : ∀ member ∈ members, member.IsRead) : (intersection members).IsRead := by
  -- unions among the members stand in parentheses
  have hmember : ∀ member ∈ members, ∀ rest, Stops [.openAngle, .openBracket] rest →
      TypeTree.readParts .intersection (grouped member.isUnion member.tokens ++ rest) =
        TypeTree.afterParts .intersection (member.tree.parts .intersection) rest := by
    intro member hmember rest hrest
    cases hunion : member.isUnion with
    | false => exact (h member hmember).factors hunion rest hrest
    | true =>
      exact readParts_of_readOperand ((h member hmember).readOperand_grouped rest)
        (hrest.mono (by decide))
  have hfactors : ∀ rest, Stops [.openAngle, .openBracket] rest →
      TypeTree.readParts .intersection ((intersection members).tokens ++ rest) =
        TypeTree.afterParts .intersection ((intersection members).tree.parts .intersection)
          rest := by
    intro rest hrest
    rw [tokens, operandTokens_eq]
    exact readParts_separated .intersection (by decide) hmember hne hrest
  have hcompound : (intersection members).isCompound = true := rfl
  exact ⟨fun h => absurd (hcompound.symm.trans h) (by decide), fun _ => hfactors,
    fun rest hrest => alternatives_of_factors hfactors hrest⟩

/-- An array is read, with its item in parentheses if that is compound. -/
theorem isRead_array {item : Ty} (h : item.IsRead) : (array item).IsRead := by
  refine isRead_of_unary fun rest hrest => ?_
  have htokens : (array item).tokens ++ rest = grouped item.isCompound item.tokens ++
      .mark .openBracket :: .mark .closeBracket :: rest := by
    simp [tokens]
  rw [htokens]
  cases hcompound : item.isCompound with
  | false => exact h.unary hcompound _ (stops_cons (by decide) _)
  | true => exact h.readOperand_grouped _

/-! ### Arguments -/

/-- No type begins with the end of a list of arguments. -/
theorem IsRead.tokens_ne (h : type.IsRead) (hrest : Stops continuations rest) (more : List Token) :
    type.tokens ++ rest ≠ .mark .closeAngle :: more := by
  intro heq
  have hprimary : TypeTree.readPrimary (.mark .closeAngle :: more) = none := by
    rw [TypeTree.readPrimary] <;> exact nofun
  have hread := h.readType hrest
  rw [heq, TypeTree.readType, TypeTree.readParts_eq, TypeTree.readOperand, TypeTree.readParts_eq,
    TypeTree.readOperand, hprimary] at hread
  cases hread

theorem readArguments_comma (h : type.IsRead) (more : List Token) :
    TypeTree.readArguments (type.tokens ++ .mark .comma :: more) =
      (TypeTree.readArguments more).map fun (others, rest) => (type.tree :: others, rest) := by
  have hstops : Stops continuations (.mark .comma :: more) := stops_cons (by decide) more
  have hread := h.readType hstops
  have hmore := (Nat.lt_succ_self _).trans (TypeTree.length_of_readType hread)
  rw [TypeTree.readArguments, hread]
  · simp only [Option.bind_eq_bind, Option.bind_some, TypeTree.fewer?_eq hmore]
    cases TypeTree.readArguments more <;> rfl
  · exact h.tokens_ne hstops

theorem readArguments_last (h : type.IsRead) (rest : List Token) :
    TypeTree.readArguments (type.tokens ++ .mark .closeAngle :: rest) =
      some ([type.tree], rest) := by
  have hstops : Stops continuations (.mark .closeAngle :: rest) := stops_cons (by decide) rest
  rw [TypeTree.readArguments, h.readType hstops]
  · rfl
  · exact h.tokens_ne hstops

/-- Arguments are read one after the other. -/
theorem readArguments_separated {arguments : List Ty}
    (h : ∀ argument ∈ arguments, argument.IsRead) (rest : List Token) :
    TypeTree.readArguments (separated .comma (arguments.map tokens) ++ .mark .closeAngle :: rest) =
      some (arguments.map tree, rest) := by
  induction arguments with
  | nil =>
    rw [List.map_nil, separated, List.nil_append, TypeTree.readArguments]
    rfl
  | cons first arguments ih =>
    obtain ⟨hfirst, harguments⟩ := List.forall_mem_cons.mp h
    cases arguments with
    | nil => exact readArguments_last hfirst rest
    | cons second arguments =>
      have htokens : separated .comma ((first :: second :: arguments).map tokens) ++
          .mark .closeAngle :: rest = first.tokens ++ .mark .comma ::
            (separated .comma ((second :: arguments).map tokens) ++ .mark .closeAngle :: rest) := by
        simp [separated]
      rw [htokens, readArguments_comma hfirst, ih harguments]
      rfl

/-- A name with arguments is read, if the name may be that of a type. -/
theorem readPrimary_application {name : String} (hname : TypeTree.isTypeName name = true)
    {arguments : List Ty} (h : ∀ argument ∈ arguments, argument.IsRead) (rest : List Token) :
    TypeTree.readPrimary (.word name :: .mark .openAngle ::
        (separated .comma (arguments.map tokens) ++ .mark .closeAngle :: rest)) =
      (TypeTree.applied? name (arguments.map tree)).map fun found => (found, rest) := by
  have hkeyword := TypeTree.builtInTypes_contains_eq_false hname
  rw [TypeTree.readPrimary, hkeyword, if_neg Bool.false_ne_true, if_pos hname,
    readArguments_separated h]
  show (TypeTree.applied? name (arguments.map tree)).bind _ = _
  cases TypeTree.applied? name (arguments.map tree) <;> rfl

theorem isRead_record {key value : Ty} (hkey : key.IsRead) (hvalue : value.IsRead) :
    (record key value).IsRead := by
  refine isRead_of_primary fun rest _ => ?_
  have harguments : ∀ argument ∈ [key, value], argument.IsRead :=
    List.forall_mem_cons.mpr ⟨hkey, List.forall_mem_cons.mpr ⟨hvalue, nofun⟩⟩
  have hrecord : TypeTree.isTypeName "Record" = true := by decide
  have happlied : TypeTree.applied? "Record" ([key, value].map tree) =
      some (.record key.tree value.tree) := rfl
  have hread := readPrimary_application hrecord harguments rest
  rw [happlied] at hread
  simpa [Ty.tokens, separated, Ty.tree] using hread

theorem isRead_generic {name : String} (hname : TypeTree.isTypeName name = true)
    (hrecord : name ≠ "Record") {arguments : List Ty}
    (h : ∀ argument ∈ arguments, argument.IsRead) : (generic name arguments).IsRead := by
  refine isRead_of_primary fun rest _ => ?_
  have happlied : TypeTree.applied? name (arguments.map tree) =
      some (.applied name (arguments.map tree)) := if_neg hrecord
  have hread := readPrimary_application hname h rest
  rw [happlied] at hread
  simpa [tokens, tokenLists_eq, tree, trees_eq] using hread

/-! ### Objects -/

/-- What is read of a property before its type. -/
theorem readMembers_keyToken (name : String) (optional : Bool) (tokens : List Token) :
    TypeTree.readMembers (keyToken name :: ((if optional then [.mark .question] else []) ++
        .mark .colon :: tokens)) = (do
      let (type, rest) ← TypeTree.readType tokens
      match rest with
      | .mark .semicolon :: rest => do
        let (properties, index, rest) ← TypeTree.readMembers rest
        pure ((name, optional, type) :: properties, index, rest)
      | .mark .closeBrace :: rest => pure ([(name, optional, type)], none, rest)
      | _ => none) := by
  have hkey : TypeTree.key? (keyToken name) = some name := by
    rw [keyToken]
    split <;> rfl
  have hmark : ∀ mark, keyToken name ≠ .mark mark := by
    intro mark
    rw [keyToken]
    split <;> simp
  have hannotation : TypeTree.annotation? ((if optional then [.mark .question] else []) ++
      .mark .colon :: tokens) = some (optional, tokens) := by
    cases optional <;> rfl
  have htokens : tokens.length < (keyToken name :: ((if optional then [.mark .question] else []) ++
      .mark .colon :: tokens)).length := by
    simp only [List.length_cons, List.length_append]
    omega
  rw [TypeTree.readMembers, hkey, hannotation]
  · simp only [Option.bind_eq_bind, Option.bind_some, TypeTree.fewer?_eq htokens]
    cases hread : TypeTree.readType tokens with
    | none => rfl
    | some found =>
      obtain ⟨type, rest⟩ := found
      have hrest := TypeTree.length_of_readType hread
      simp only [Option.bind_some]
      split
      · rw [TypeTree.fewer?_eq ((Nat.lt_succ_self _).trans hrest)]
        rfl
      · rfl
      · rfl
  · exact hmark .closeBrace
  · exact fun _ _ heq => absurd heq (hmark .openBracket)

theorem tokens_append (name : String) (type : Ty) (optional : Bool) (description : Option String)
    (more : List Token) :
    Property.tokens ⟨name, type, optional, description⟩ ++ more =
      keyToken name :: ((if optional then [.mark .question] else []) ++
        .mark .colon :: (type.tokens ++ more)) := by
  simp [Property.tokens]

theorem readMembers_semicolon {property : Property} (h : property.type.IsRead) (more : List Token) :
    TypeTree.readMembers (property.tokens ++ .mark .semicolon :: more) =
      (TypeTree.readMembers more).map fun (properties, index, rest) =>
        (property.tree :: properties, index, rest) := by
  obtain ⟨name, type, optional, description⟩ := property
  have hstops : Stops continuations (.mark .semicolon :: more) := stops_cons (by decide) more
  rw [tokens_append, readMembers_keyToken, IsRead.readType h hstops]
  show (TypeTree.readMembers more).bind _ = _
  cases TypeTree.readMembers more <;> rfl

theorem readMembers_last {property : Property} (h : property.type.IsRead) (rest : List Token) :
    TypeTree.readMembers (property.tokens ++ .mark .closeBrace :: rest) =
      some ([property.tree], none, rest) := by
  obtain ⟨name, type, optional, description⟩ := property
  have hstops : Stops continuations (.mark .closeBrace :: rest) := stops_cons (by decide) rest
  rw [tokens_append, readMembers_keyToken, IsRead.readType h hstops]
  rfl

theorem readMembers_index (h : type.IsRead) (rest : List Token) :
    TypeTree.readMembers (indexTokens type.tokens ++ .mark .closeBrace :: rest) =
      some ([], some type.tree, rest) := by
  have hstops : Stops continuations (.mark .closeBrace :: rest) := stops_cons (by decide) rest
  simp only [indexTokens, List.cons_append, List.nil_append]
  rw [TypeTree.readMembers, h.readType hstops]
  rfl

/-- The lists of tokens inside the braces of an object. -/
def memberTokens (properties : List Property) (index : Option Ty) : List (List Token) :=
  properties.map Property.tokens ++ (index.map fun type => indexTokens type.tokens).toList

/-- The members of an object are read one after the other. -/
theorem readMembers_separated {properties : List Property} {index : Option Ty}
    (hproperties : ∀ property ∈ properties, property.type.IsRead)
    (hindex : ∀ type, index = some type → type.IsRead) (rest : List Token) :
    TypeTree.readMembers
        (separated .semicolon (memberTokens properties index) ++ .mark .closeBrace :: rest) =
      some (properties.map Property.tree, index.map tree, rest) := by
  induction properties with
  | nil =>
    cases index with
    | none =>
      show TypeTree.readMembers (.mark .closeBrace :: rest) = _
      rw [TypeTree.readMembers]
      rfl
    | some type => exact readMembers_index (hindex type rfl) rest
  | cons first properties ih =>
    obtain ⟨hfirst, hproperties⟩ := List.forall_mem_cons.mp hproperties
    -- a semicolon stands behind the first property unless it is the last member
    cases hlists : memberTokens properties index with
    | nil =>
      obtain ⟨hnil, hnone⟩ := List.append_eq_nil_iff.mp hlists
      have hproperties : properties = [] := List.map_eq_nil_iff.mp hnil
      have hindex : index = none := by
        cases index with
        | none => rfl
        | some type => cases hnone
      subst hproperties hindex
      exact readMembers_last hfirst rest
    | cons second lists =>
      have hmembers : memberTokens (first :: properties) index =
          first.tokens :: second :: lists := by
        rw [← hlists]
        rfl
      have htokens : separated .semicolon (memberTokens (first :: properties) index) ++
          .mark .closeBrace :: rest = first.tokens ++ .mark .semicolon :: (separated .semicolon
            (memberTokens properties index) ++ .mark .closeBrace :: rest) := by
        rw [hmembers, hlists]
        simp [separated]
      rw [htokens, readMembers_semicolon hfirst, ih hproperties]
      rfl

theorem tokens_object (properties : List Property) (index : Option Ty) :
    (object properties index).tokens =
      .mark .openBrace :: separated .semicolon (memberTokens properties index) ++
        [.mark .closeBrace] := by
  rw [memberTokens, ← Property.tokenLists_eq]
  cases index <;> rw [tokens] <;> rfl

theorem isRead_object {properties : List Property} {index : Option Ty}
    (hproperties : ∀ property ∈ properties, property.type.IsRead)
    (hindex : ∀ type, index = some type → type.IsRead) : (object properties index).IsRead := by
  refine isRead_of_primary fun rest _ => ?_
  rw [tokens_object, List.append_assoc, List.cons_append, List.singleton_append,
    TypeTree.readPrimary, readMembers_separated hproperties hindex, tree, Property.trees_eq,
    tree?_eq]
  rfl

/-! ### Words and literals -/

theorem isRead_keyword {word : String} (hword : TypeTree.builtInTypes.contains word = true)
    (htokens : type.tokens = [.word word]) (htree : type.tree = .keyword word) : type.IsRead := by
  refine isRead_of_primary fun rest hrest => ?_
  rw [htokens, htree, List.singleton_append, TypeTree.readPrimary, if_pos hword]
  · rfl
  · exact hrest.ne_cons List.mem_cons_self

theorem isRead_primitive (primitive : Primitive) : (Ty.primitive primitive).IsRead :=
  isRead_keyword (by cases primitive <;> decide) rfl rfl

theorem readPrimary_numeralTokens (cs : List Char) (rest : List Token) :
    TypeTree.readPrimary (numeralTokens cs ++ rest) = some (.numeral (String.ofList cs), rest) := by
  rw [numeralTokens.eq_def]
  split
  · rename_i digits
    rw [ofList_minus]
    simp only [List.cons_append, List.nil_append]
    rw [TypeTree.readPrimary]
    rfl
  · rw [List.singleton_append, TypeTree.readPrimary]
    rfl

theorem isRead_numeral {spelling : String} (htokens : type.tokens = numeralTokens spelling.toList)
    (htree : type.tree = .numeral spelling) : type.IsRead := by
  refine isRead_of_primary fun rest _ => ?_
  rw [htokens, htree, readPrimary_numeralTokens, String.ofList_toList]

theorem isRead_literal (literal : Literal) : (Ty.literal literal).IsRead := by
  cases literal with
  | string value =>
    refine isRead_of_primary fun rest _ => ?_
    show TypeTree.readPrimary (.text value :: rest) = _
    rw [TypeTree.readPrimary]
    rfl
  | number value => exact isRead_numeral rfl rfl
  | integer value => exact isRead_numeral rfl rfl
  | boolean value => cases value <;> exact isRead_keyword (by decide) rfl rfl
  | null => exact isRead_keyword (by decide) rfl rfl

theorem isRead_named {name : String} (hname : TypeTree.isTypeName name = true) :
    (Ty.named name).IsRead := by
  refine isRead_of_primary fun rest hrest => ?_
  have hkeyword := TypeTree.builtInTypes_contains_eq_false hname
  rw [tokens, List.singleton_append, TypeTree.readPrimary, hkeyword, if_neg Bool.false_ne_true,
    if_pos hname]
  · rfl
  · exact hrest.ne_cons List.mem_cons_self

/-! ### Legible types -/

/-- A union or an intersection has members. -/
def HasMembers : Ty → Prop
  | .union members => members ≠ []
  | .intersection members => members ≠ []
  | _ => True

/-- The name may be that of a declared type, and is not the name of records if it has arguments. -/
def HasTypeName : Ty → Prop
  | .named name => TypeTree.isTypeName name = true
  | .generic name _ => TypeTree.isTypeName name = true ∧ name ≠ "Record"
  | _ => True

/-- What a type has to be like to be read from its text, apart from the types inside it. -/
structure IsLegible (alphabet : IdentifierAlphabet) (type : Ty) : Prop where
  members : type.HasMembers
  name : type.HasTypeName
  spelled : type.IsSpelled alphabet

variable {alphabet : IdentifierAlphabet}

/-- **The tokens of every legible type are read as its tree.** -/
theorem isRead_of_isLegible (h : type.Everywhere (IsLegible alphabet)) : type.IsRead := by
  induction h with
  | primitive _ => exact isRead_primitive _
  | array _ _ ih => exact isRead_array ih
  | union here _ ih => exact isRead_union here.members ih
  | intersection here _ ih => exact isRead_intersection here.members ih
  | object _ _ _ ihproperties ihindex => exact isRead_object ihproperties ihindex
  | record _ _ _ ihkey ihvalue => exact isRead_record ihkey ihvalue
  | literal _ => exact isRead_literal _
  | named here => exact isRead_named here.name
  | generic here _ ih => exact isRead_generic here.name.1 here.name.2 ih

/-- **The text of a legible type is read as its tree.** -/
theorem treeOfText?_text (h : type.Everywhere (IsLegible alphabet)) :
    TypeTree.ofText? alphabet type.text = some type.tree := by
  have hend : Stops continuations [] := fun _ _ => nofun
  have hread := (isRead_of_isLegible h).readType hend
  rw [List.append_nil] at hread
  have htokens := ofText?_text (h.mono fun _ => IsLegible.spelled)
  rw [TypeTree.ofText?, htokens]
  simp only [Option.bind_eq_bind, Option.bind_some, hread]
  rfl

end Ty

end ApiScribe.TypeScript
