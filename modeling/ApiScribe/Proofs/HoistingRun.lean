import ApiScribe.Proofs.Hoisting

/-!
# Hoisting as a service

Declarations ask for names of enumerations again and again, and the answer to one request must not
depend on what is asked later.  This module looks at a whole run of requests (`Progress.hoistAll`)
on a progress without hoisted enumerations.

What one request does is `Serves`: the search ends, the name leads to an enumeration with the values,
and the table is either left alone or gets one entry at its end, reported if its name is not the
requested one.

That an answer stays is `hoist_again`.  A candidate that was passed over stays blocked: an enumeration
under it keeps its values, and if it is the name of a shape then no enumeration will ever have it
(`blocks_of_le`).  And the candidate that was handed out is found with the same values from then on.
Here "the same" is the equality of enumeration values, for which zero is equal to its negative, and
which is reflexive only without values that are not numbers (`EnumValue.sameList_self`).
-/

namespace ApiScribe

/-! ## Equality of enumeration values -/

namespace Binary64

theorem sameNumber_self {x : Binary64} (h : x ≠ .notANumber) : x.sameNumber x = true := by
  cases x with
  | notANumber => exact absurd rfl h
  | finite => simp [sameNumber]
  | infinite => simp [sameNumber]

/-- Numbers that are the same cannot be told apart by a comparison. -/
theorem sameNumber_congr {y z : Binary64} (h : y.sameNumber z = true) (x : Binary64) :
    x.sameNumber y = x.sameNumber z := by
  have hcases : y = z ∨ (y.isZero = true ∧ z.isZero = true) := by
    cases y <;> simp_all [sameNumber]
  rcases hcases with rfl | ⟨hy, hz⟩
  · rfl
  · -- both are zeros, and `x` is the same as a zero exactly if it is a zero of any sign
    have hzero : ∀ w : Binary64, w.isZero = true → x.sameNumber w = x.isZero := by
      intro w hw
      by_cases hx : x = w
      · subst hx
        have hne : x ≠ .notANumber := by
          rintro rfl
          cases hw
        rw [sameNumber_self hne, hw]
      · have hcompare : x.sameNumber w = (x == w || (x.isZero && w.isZero)) := by
          cases x with
          | notANumber => cases w <;> simp_all [sameNumber, isZero]
          | _ => rfl
        rw [hcompare, beq_false_of_ne hx, hw, Bool.and_true, Bool.false_or]
    rw [hzero y hy, hzero z hz]

end Binary64

namespace EnumValue

theorem same_self {x : EnumValue} (h : x ≠ .float .notANumber) : x.same x = true := by
  cases x with
  | float x => exact Binary64.sameNumber_self fun hx => h (congrArg _ hx)
  | _ => simp [same]

theorem same_congr {y z : EnumValue} (h : y.same z = true) (x : EnumValue) :
    x.same y = x.same z := by
  by_cases hfloat : ∃ b c, y = .float b ∧ z = .float c
  · obtain ⟨b, c, rfl, rfl⟩ := hfloat
    cases x with
    | float a => exact Binary64.sameNumber_congr h a
    | _ => simp [same]
  · have heq : y = z := by
      cases y <;> cases z <;> simp_all [same]
    rw [heq]

/-- Values that are numbers, where they are of that kind, are the same as themselves. -/
theorem sameList_self {xs : List EnumValue} (h : EnumValue.float .notANumber ∉ xs) :
    sameList xs xs = true := by
  induction xs with
  | nil => rfl
  | cons x xs ih =>
    obtain ⟨hhead, htail⟩ := not_or.mp (mt List.mem_cons.mpr h)
    rw [sameList, same_self (Ne.symm hhead), ih htail]
    rfl

theorem sameList_congr {ys zs : List EnumValue} (h : sameList ys zs = true) (xs : List EnumValue) :
    sameList xs ys = sameList xs zs := by
  induction ys generalizing xs zs with
  | nil =>
    cases zs with
    | nil => rfl
    | cons => cases h
  | cons y ys ih =>
    cases zs with
    | nil => cases h
    | cons z zs =>
      obtain ⟨hhead, htail⟩ := (Bool.and_eq_true _ _).mp h
      cases xs with
      | nil => rfl
      | cons x xs => rw [sameList, sameList, same_congr hhead x, ih htail xs]

end EnumValue

/-- A request to hoist an enumeration. -/
structure HoistRequest where
  name : String
  values : List EnumValue

namespace Progress

variable {progress before after : Progress} {shapeNames : List String} {values : List EnumValue}
  {requested name : String}

/-! ## What stays -/

theorem inlineEnum?_of_le {inline : InlineEnum} (hle : before ≤ after)
    (h : before.inlineEnum? name = some inline) : after.inlineEnum? name = some inline := by
  obtain ⟨new, hnew⟩ := inlineEnums_prefix hle
  rw [inlineEnum?] at h ⊢
  rw [← hnew, List.find?_append, h, Option.some_or]

/-- A hoisted enumeration is found under its name. -/
theorem WellNamed.inlineEnum?_eq_some (hwell : progress.WellNamed shapeNames) {inline : InlineEnum}
    (hmem : inline ∈ progress.inlineEnums) : progress.inlineEnum? inline.name = some inline := by
  cases hfound : progress.inlineEnum? inline.name with
  | none => exact absurd (List.mem_map_of_mem hmem) (notMem_of_inlineEnum?_eq_none hfound)
  | some other =>
    obtain ⟨hother, hname⟩ := mem_of_inlineEnum? hfound
    rw [List.inj_on_of_nodup_map hwell.nodup hother hmem hname]

theorem WellNamed.inlineEnum?_eq_none (hwell : progress.WellNamed shapeNames)
    (hshape : name ∈ shapeNames) : progress.inlineEnum? name = none := by
  rw [inlineEnum?, List.find?_eq_none]
  intro inline hmem hname
  rw [decide_eq_true_eq] at hname
  exact hwell.notMem inline hmem (hname ▸ hshape)

/-- **A name that is blocked stays blocked.**  Either an enumeration holds it, and goes on holding
it, or a shape does, and then no enumeration can get it. -/
theorem blocks_of_le (hle : before ≤ after) (hwell : after.WellNamed shapeNames)
    (h : before.blocks shapeNames values name = true) :
    after.blocks shapeNames values name = true := by
  rw [blocks] at h ⊢
  cases hfound : before.inlineEnum? name with
  | some inline =>
    rw [hfound] at h
    rw [inlineEnum?_of_le hle hfound]
    exact h
  | none =>
    rw [hfound] at h
    rw [hwell.inlineEnum?_eq_none (List.contains_iff_mem.mp h)]
    exact h

/-- Values that are the same are blocked from the same names. -/
theorem blocks_congr {again : List EnumValue} (h : EnumValue.sameList values again = true)
    (progress : Progress) (shapeNames : List String) :
    progress.blocks shapeNames values = progress.blocks shapeNames again := by
  funext name
  rw [blocks, blocks]
  cases progress.inlineEnum? name with
  | some inline => exact congrArg not (EnumValue.sameList_congr h inline.values)
  | none => rfl

/-- **An answer stays.**  Once an enumeration has a name, the same request gets the same name and
leaves everything as it is. -/
theorem hoist_again {again : List EnumValue} {final : Progress}
    (h : progress.hoist shapeNames requested values = (name, after))
    (hsame : EnumValue.sameList values again = true) (hle : after ≤ final)
    (hwell : final.WellNamed shapeNames) :
    final.hoist shapeNames requested again = (name, final) := by
  have hgrown : progress ≤ after := by
    have hstep := progress.le_hoist shapeNames requested values
    rw [h] at hstep
    exact hstep
  obtain ⟨number, -, hnumber, hfree, hblocked⟩ :=
    progress.exists_number shapeNames requested values
  have hname : name = Naming.candidate requested number := by
    rw [hoist_eq, Prod.mk.injEq] at h
    exact h.1.symm.trans hnumber
  obtain ⟨inline, hmem, hinline, hvalues⟩ := exists_mem_hoist h
  have hfound : final.inlineEnum? name = some inline := by
    rw [← hinline]
    exact hwell.inlineEnum?_eq_some (mem_inlineEnums hle hmem)
  have hagain : EnumValue.sameList inline.values again = true := by
    rw [← EnumValue.sameList_congr hsame]
    rcases hvalues with heq | hvalues
    · rw [heq, EnumValue.sameList_congr hsame]
      exact hsame
    · exact hvalues
  have hassigned : final.hoistedName shapeNames requested again = name := by
    rw [hname] at hfound ⊢
    refine hoistedName_eq ?_ fun i hi => ?_
    · rw [blocks, hfound]
      simp [hagain]
    · rw [← blocks_congr hsame]
      exact blocks_of_le (le_trans hgrown hle) hwell (hblocked i hi)
  rw [hoist_eq, hassigned, hfound]

/-! ## Runs of requests -/

/-- The progress after enumerations were hoisted one after the other. -/
def hoistAll (shapeNames : List String) : List HoistRequest → Progress → Progress
  | [], progress => progress
  | request :: rest, progress =>
    hoistAll shapeNames rest (progress.hoist shapeNames request.name request.values).2

theorem le_hoistAll (shapeNames : List String) (requests : List HoistRequest)
    (progress : Progress) : progress ≤ hoistAll shapeNames requests progress := by
  induction requests generalizing progress with
  | nil => exact le_refl progress
  | cons request requests ih =>
    exact le_trans (progress.le_hoist shapeNames request.name request.values) (ih _)

theorem WellNamed.hoistAll (hwell : progress.WellNamed shapeNames)
    (requests : List HoistRequest) :
    (Progress.hoistAll shapeNames requests progress).WellNamed shapeNames := by
  induction requests generalizing progress with
  | nil => exact hwell
  | cons request requests ih => exact ih (hwell.hoist request.name request.values)

/-- What a request does that is answered with a name. -/
structure Serves (shapeNames : List String) (before : Progress) (request : HoistRequest)
    (name : String) (after : Progress) : Prop where
  /-- The search ends: the name is a candidate that is free, the ones before it are not, and there
  are no more of these than shapes and hoisted enumerations. -/
  ends : ∃ number ≤ before.inlineEnums.length + shapeNames.length,
    name = Naming.candidate request.name number ∧
    before.blocks shapeNames request.values name = false ∧
    ∀ i < number, before.blocks shapeNames request.values (Naming.candidate request.name i) = true
  /-- The name is that of an enumeration with the values. -/
  found : ∃ inline ∈ after.inlineEnums, inline.name = name ∧
    EnumValue.sameList inline.values request.values = true
  /-- Nothing changes, or one enumeration is added and reported exactly if its name is another than
  the requested one. -/
  effect : after = before ∨
    after.inlineEnums = before.inlineEnums ++ [⟨name, request.values⟩] ∧
      after.diagnostics = before.diagnostics ++
        if name = request.name then []
        else [⟨before.subject, .hoistedNameCollision request.name name⟩]
  /-- The enumerations have names of their own, which no shape has. -/
  wellNamed : after.WellNamed shapeNames

theorem withInlineEnum_diagnostics (progress : Progress) (requested name : String)
    (values : List EnumValue) :
    (progress.withInlineEnum requested name values).diagnostics = progress.diagnostics ++
      if name = requested then []
      else [⟨progress.subject, .hoistedNameCollision requested name⟩] := by
  rw [withInlineEnum]
  split
  · exact (List.append_nil _).symm
  · rfl

/-- **What one request does**, wherever the names are apart. -/
theorem serves_hoist {request : HoistRequest} (hwell : progress.WellNamed shapeNames)
    (hnumbers : EnumValue.float .notANumber ∉ request.values)
    (h : progress.hoist shapeNames request.name request.values = (name, after)) :
    Serves shapeNames progress request name after where
  ends := by
    obtain ⟨number, hle, hnumber, hfree, hblocked⟩ :=
      progress.exists_number shapeNames request.name request.values
    rw [hoist_eq, Prod.mk.injEq] at h
    rw [← h.1, hnumber]
    exact ⟨number, hle, rfl, hfree, hblocked⟩
  found := by
    obtain ⟨inline, hmem, hname, heq | hsame⟩ := exists_mem_hoist h
    · refine ⟨inline, hmem, hname, ?_⟩
      rw [heq]
      exact EnumValue.sameList_self hnumbers
    · exact ⟨inline, hmem, hname, hsame⟩
  effect := by
    rcases hoist_cases h with ⟨_, _, _, _, heq⟩ | ⟨_, _, heq⟩
    · exact Or.inl heq
    · rw [heq]
      exact Or.inr ⟨withInlineEnum_inlineEnums _ _ _ _, withInlineEnum_diagnostics _ _ _ _⟩
  wellNamed := by
    have hstep := hwell.hoist request.name request.values
    rw [h] at hstep
    exact hstep

/-- **Hoisting is a stable service.**  After any requests on a progress without hoisted enumerations,
a request is answered as `Serves` says, and after any further requests it gets the same answer again,
also for other spellings of the same values, without adding or reporting anything. -/
theorem hoistAll_serves (shapeNames : List String) (subject : String)
    (earlier : List HoistRequest) (request : HoistRequest)
    (hnumbers : EnumValue.float .notANumber ∉ request.values) :
    ∃ name after,
      (hoistAll shapeNames earlier { subject }).hoist shapeNames request.name request.values =
        (name, after) ∧
      Serves shapeNames (hoistAll shapeNames earlier { subject }) request name after ∧
      ∀ later again, again = request.values ∨ EnumValue.sameList request.values again = true →
        (hoistAll shapeNames later after).hoist shapeNames request.name again =
          (name, hoistAll shapeNames later after) := by
  have hfresh : WellNamed shapeNames { subject := subject } := ⟨List.nodup_nil, nofun⟩
  rcases hanswer : (hoistAll shapeNames earlier { subject }).hoist shapeNames request.name
    request.values with ⟨name, after⟩
  have hserves := serves_hoist (hfresh.hoistAll earlier) hnumbers hanswer
  refine ⟨name, after, rfl, hserves, fun later again hagain => ?_⟩
  have hsame : EnumValue.sameList request.values again = true := by
    rcases hagain with rfl | hsame
    · exact EnumValue.sameList_self hnumbers
    · exact hsame
  exact hoist_again hanswer hsame (le_hoistAll shapeNames later after)
    (hserves.wellNamed.hoistAll later)

/-- A request whose name belongs to a shape, and whose second candidate another request has taken
before. -/
theorem hoistAll_serves_userStatus :
    EnumValue.float .notANumber ∉ [EnumValue.string "banned"] ∧
    ∃ after, (hoistAll ["UserStatus"] [⟨"UserStatus2", [.string "open"]⟩] {}).hoist ["UserStatus"]
        "UserStatus" [.string "banned"] = ("UserStatus3", after) ∧
      ∀ later, (hoistAll ["UserStatus"] later after).hoist ["UserStatus"] "UserStatus"
        [.string "banned"] = ("UserStatus3", hoistAll ["UserStatus"] later after) := by
  have hnumbers : EnumValue.float .notANumber ∉ [EnumValue.string "banned"] := by decide
  obtain ⟨name, after, hanswer, -, hagain⟩ := hoistAll_serves ["UserStatus"] ""
    [⟨"UserStatus2", [.string "open"]⟩] ⟨"UserStatus", [.string "banned"]⟩ hnumbers
  have hname : name = "UserStatus3" := by
    refine (congrArg Prod.fst hanswer).symm.trans ?_
    decide +kernel
  subst hname
  exact ⟨hnumbers, after, hanswer, fun later => hagain later _ (Or.inl rfl)⟩

end Progress

end ApiScribe
