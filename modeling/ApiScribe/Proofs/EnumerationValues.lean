import ApiScribe.Proofs.EnumerationTexts

/-!
# The values of enumerations in the three styles

The keys of the members are found from left to right, each among the candidates for the name of its value,
and the settings have no part in it.  A key is the first candidate that no member in front of it has
(`exists_number_assign`), so the keys are different (`nodup_assign`), and a table with them has a place for
each value.

`enumerationKind_values` puts this together with the texts: whatever the settings ask for, the text of an
enumeration stands for the values that are listed, in their order, and the bottom behind them if it is
nullable.
-/

namespace ApiScribe

open TypeScript

/-! ## Keys -/

namespace EnumKey

/-- The keys of the values that come later avoid those that came before. -/
theorem assignFrom_append (used : List String) (index : Nat) (front back : List EnumValue) :
    assignFrom used index (front ++ back) =
      assignFrom used index front ++
        assignFrom (((assignFrom used index front).map Prod.fst).reverse ++ used)
          (index + front.length) back := by
  induction front generalizing used index with
  | nil => rfl
  | cons value front ih =>
    have hindex : index + 1 + front.length = index + (value :: front).length := by
      rw [List.length_cons]
      omega
    rw [List.cons_append, assignFrom, assignFrom]
    rw [ih, hindex, List.map_cons, List.reverse_cons, List.append_assoc, List.singleton_append,
      List.cons_append]

/-- No key is in use before, and none is given twice. -/
theorem keys_assignFrom (used : List String) (index : Nat) (values : List EnumValue) :
    (∀ key ∈ (assignFrom used index values).map Prod.fst, key ∉ used) ∧
      ((assignFrom used index values).map Prod.fst).Nodup := by
  induction values generalizing used index with
  | nil => exact ⟨nofun, List.nodup_nil⟩
  | cons value values ih =>
    obtain ⟨hfree, hnodup⟩ := ih (Naming.fresh used (ofValue value index) :: used) (index + 1)
    rw [assignFrom, List.map_cons]
    refine ⟨List.forall_mem_cons.mpr ⟨Naming.fresh_notMem used _, fun key hkey hused => ?_⟩,
      List.nodup_cons.mpr ⟨fun hmem => ?_, hnodup⟩⟩
    · exact hfree key hkey (List.mem_cons_of_mem _ hused)
    · exact hfree _ hmem List.mem_cons_self

theorem nodup_assign (values : List EnumValue) : ((assign values).map Prod.fst).Nodup :=
  (keys_assignFrom [] 0 values).2

/-- **The key of a value** is the first candidate for its name that no value in front of it has; as many
of the values in front have the candidates that are passed over. -/
theorem exists_number_assign (front : List EnumValue) (value : EnumValue) (back : List EnumValue) :
    ∃ number ≤ front.length, ∃ others,
      (assign (front ++ value :: back)).map Prod.fst =
          (assign front).map Prod.fst ++ Naming.candidate (ofValue value front.length) number :: others ∧
        Naming.candidate (ofValue value front.length) number ∉ (assign front).map Prod.fst ∧
        ∀ i < number,
          Naming.candidate (ofValue value front.length) i ∈ (assign front).map Prod.fst := by
  have hlength : ((assign front).map Prod.fst).length = front.length := by
    rw [List.length_map, ← List.length_map Prod.snd, assign, map_snd_assignFrom]
  obtain ⟨number, hle, hfresh, hfree, hblocked⟩ :=
    Naming.exists_number_fresh ((assign front).map Prod.fst).reverse (ofValue value front.length)
  rw [List.length_reverse, hlength] at hle
  simp only [List.mem_reverse] at hfree hblocked
  have hassign := assignFrom_append [] 0 front (value :: back)
  rw [← assign, ← assign, List.append_nil, Nat.zero_add, assignFrom] at hassign
  rw [hfresh] at hassign
  have hkeys := congrArg (List.map Prod.fst) hassign
  rw [List.map_append, List.map_cons] at hkeys
  exact ⟨number, hle, _, hkeys, hfree, hblocked⟩

end EnumKey

/-! ## Members -/

theorem EnumValue.map_key_members (values : List EnumValue) :
    (members values).map EnumMember.key = (EnumKey.assign values).map Prod.fst := by
  rw [members, List.map_map]
  rfl

/-- The values with their keys, and the members that they make. -/
theorem EnumValue.members_eq (values : List EnumValue) :
    members values = (EnumKey.assign values).map EnumMember.ofEntry :=
  rfl

namespace Shape

variable {alphabet : IdentifierAlphabet} {name : String} {values : List EnumValue}

/-- The style in which an enumeration is declared is the one that the settings ask for, or a union where
they ask for a native enumeration and it has no place for all the values. -/
def IsStyleFor (settings : Settings) (values : List EnumValue) (nullable : Bool) (style : EnumStyle) :
    Prop :=
  style = settings.enumStyle ∧
      (style = .native → nullable = false ∧ ∀ value ∈ values, value.isNative = true) ∨
    style = .union ∧ settings.enumStyle = .native ∧
      (nullable = true ∨ ∃ value ∈ values, value.isNative = false)

theorem isStyleFor_enumerationDeclaration (settings : Settings) (values : List EnumValue)
    (nullable : Bool) :
    IsStyleFor settings values nullable
      (if settings.enumStyle = .native && (nullable || !values.all EnumValue.isNative) then .union
        else settings.enumStyle) := by
  split
  next hfallback =>
    rw [Bool.and_eq_true, decide_eq_true_iff, Bool.or_eq_true, Bool.not_eq_true', List.all_eq_false]
      at hfallback
    simp only [Bool.not_eq_true] at hfallback
    exact Or.inr ⟨rfl, hfallback⟩
  next hstyle =>
    refine Or.inl ⟨rfl, fun hnative => ?_⟩
    rw [hnative, decide_eq_true rfl, Bool.true_and, Bool.not_eq_true, Bool.or_eq_false_iff,
      Bool.not_eq_false', List.all_eq_true] at hstyle
    exact hstyle

/-- The text of an enumeration stands for the values that it lists, in each of its styles. -/
theorem read?_members (hname : alphabet.Accepts name) (hproper : ∀ value ∈ values, value.IsProper)
    {settings : Settings} {nullable : Bool} {style : EnumStyle}
    (hstyle : IsStyleFor settings values nullable style) :
    Enumeration.read? alphabet
        (enumerationText name style (EnumValue.members values)
          (if nullable then some settings.nullableType.bottom else none)) =
      some (name, values.map EnumValue.scalar ++
        if nullable then [settings.nullableType.scalar] else []) := by
  have hentries : ∀ entry ∈ EnumKey.assign values, entry.2.IsProper := by
    intro entry hentry
    have hvalue : entry.2 ∈ (EnumKey.assign values).map Prod.snd := List.mem_map_of_mem hentry
    rw [EnumKey.assign, EnumKey.map_snd_assignFrom] at hvalue
    exact hproper _ hvalue
  have hscalars : (EnumKey.assign values).map (fun entry => entry.2.scalar) =
      values.map EnumValue.scalar := by
    conv_rhs => rw [← EnumKey.map_snd_assignFrom [] 0 values, List.map_map]
    rfl
  have hnative : style = .native → nullable = false := by
    rintro rfl
    rcases hstyle with ⟨-, hheld⟩ | ⟨hunion, -⟩
    · exact (hheld rfl).1
    · cases hunion
  rw [EnumValue.members_eq]
  cases nullable with
  | false =>
    have hread := read?_enumerationText hname hentries (EnumKey.nodup_assign values)
      (fun _ => rfl : style = .native → (none : Option NullableType) = none)
    rw [hscalars] at hread
    exact hread
  | true =>
    have hread := read?_enumerationText hname hentries (EnumKey.nodup_assign values)
      (fun h => absurd (hnative h) (by decide) : style = .native → some settings.nullableType = none)
    rw [hscalars] at hread
    exact hread

/-- An enumeration can always be declared. -/
theorem exists_enumerationKind_eq (values : List EnumValue) (nullable : Bool) (scope : Scope)
    (before : Progress) :
    ∃ after, enumerationKind values nullable scope before =
      (.ok (enumerationDeclaration scope.settings values nullable), after) := by
  rw [enumerationDeclaration]
  split
  next hfallback =>
    refine ⟨before.report .enumStyleFallback, Session.bind_eq_ok.mpr ⟨_, _, rfl, ?_⟩⟩
    rw [if_pos hfallback]
    rfl
  next hstyle =>
    refine ⟨before, Session.bind_eq_ok.mpr ⟨_, _, rfl, ?_⟩⟩
    rw [if_neg hstyle]
    rfl

/-- **All styles have the same values.**  An enumeration is declared in any scope, and the text of the
declaration stands for the values that are listed, in their order, and the bottom behind them if it is
nullable.  The members are the same in every scope.  They have the values one by one, under keys that are all
different: each is the first candidate for its value that the members in front do not have, and is found
after as many candidates as there are members in front. -/
theorem enumerationKind_values (values : List EnumValue) (nullable : Bool) (scope : Scope)
    (before : Progress) :
    (∃ style bottom after,
      enumerationKind values nullable scope before =
          (.ok (.enumeration style (EnumValue.members values) bottom), after) ∧
        IsStyleFor scope.settings values nullable style ∧
        ((∀ value ∈ values, value.IsProper) →
          ∀ (alphabet : IdentifierAlphabet) (name : String), alphabet.Accepts name →
            Enumeration.read? alphabet
                (enumerationText name style (EnumValue.members values) bottom) =
              some (name, values.map EnumValue.scalar ++
                if nullable then [scope.settings.nullableType.scalar] else []))) ∧
      (EnumValue.members values).map EnumMember.value = values.map EnumValue.literal ∧
      ((EnumValue.members values).map EnumMember.key).Nodup ∧
      ∀ front value back, values = front ++ value :: back →
        ∃ number ≤ front.length, ∃ others,
          (EnumValue.members values).map EnumMember.key =
              (EnumValue.members front).map EnumMember.key ++
                Naming.candidate (EnumKey.ofValue value front.length) number :: others ∧
            Naming.candidate (EnumKey.ofValue value front.length) number ∉
              (EnumValue.members front).map EnumMember.key ∧
            ∀ i < number, Naming.candidate (EnumKey.ofValue value front.length) i ∈
              (EnumValue.members front).map EnumMember.key := by
  refine ⟨?_, EnumValue.map_value_members values, ?_, ?_⟩
  · obtain ⟨after, hkind⟩ := exists_enumerationKind_eq values nullable scope before
    have hstyle := isStyleFor_enumerationDeclaration scope.settings values nullable
    exact ⟨_, _, after, hkind, hstyle, fun hproper alphabet name hname =>
      read?_members hname hproper hstyle⟩
  · rw [EnumValue.map_key_members]
    exact EnumKey.nodup_assign values
  · rintro front value back rfl
    simp only [EnumValue.map_key_members]
    exact EnumKey.exists_number_assign front value back

/-- Values whose keys are alike. -/
def levels : List EnumValue :=
  [.string "low", .string "Low", .integer 1, .string "1", .float (.finite true 6755399441055744 (-52))]

theorem enumerationKind_values_levels :
    ∃ style bottom after,
      enumerationKind levels true emptyScope {} =
          (.ok (.enumeration style (EnumValue.members levels) bottom), after) ∧
        Enumeration.read? asciiAlphabet
            (enumerationText "Level" style (EnumValue.members levels) bottom) =
          some ("Level", levels.map EnumValue.scalar ++ [emptyScope.settings.nullableType.scalar]) ∧
        ∃ number ≤ 3, ∃ others,
          (EnumValue.members levels).map EnumMember.key =
            (EnumValue.members (levels.take 3)).map EnumMember.key ++
              Naming.candidate "Value1" number :: others := by
  have haccepts : asciiAlphabet.Accepts "Level" :=
    ⟨⟨'L', rfl, rfl⟩, List.forall_iff_forall_mem.mp (by decide), by decide⟩
  have hproper : ∀ value ∈ levels, value.IsProper := by
    intro value hvalue
    simp only [levels, List.mem_cons, List.not_mem_nil, or_false] at hvalue
    rcases hvalue with rfl | rfl | rfl | rfl | rfl
    · trivial
    · trivial
    · trivial
    · trivial
    · exact ⟨by decide, by decide, by decide, Or.inl (by decide)⟩
  obtain ⟨⟨style, bottom, after, hkind, -, hread⟩, -, -, hkeys⟩ :=
    enumerationKind_values levels true emptyScope {}
  obtain ⟨number, hle, others, hothers, -⟩ := hkeys (levels.take 3) (.string "1") _ rfl
  have hbase : EnumKey.ofValue (.string "1") 3 = "Value1" := by decide
  exact ⟨style, bottom, after, hkind, hread hproper asciiAlphabet "Level" haccepts, number, hle, others,
    hbase ▸ hothers⟩

end Shape

end ApiScribe
