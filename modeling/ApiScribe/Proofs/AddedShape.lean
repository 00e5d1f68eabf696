import ApiScribe.Proofs.DocumentGrowth
import ApiScribe.Proofs.GenerationRun

/-!
# Adding a shape

A shape that is added at the end of a document leaves the declarations of the others as they were.
Two generations are compared here, and they know different things: the larger document has one more
target for pointers and one more name that a hoisted enumeration cannot have.

`Scope.GainsShape` is what the two scopes have in common, and `Session.CarriesOver` says of a step that
the session of the larger document repeats it, with the same outcome and the same progress.  This
holds of every step with which shapes are declared (`Session.carriesOver_closed`).  Only hoisting looks
at the names of shapes; it goes on as before as long as it does not hand out the name of the added
shape (`Session.carriesOver_hoist`).  So the larger generation begins with the whole of the smaller
one, and its texts and reports stand behind (`generate_gains`).
-/

namespace ApiScribe

/-! ## Sessions that know one shape more -/

/-- The second scope is that of a document with one shape more, as far as declarations can tell. -/
structure Scope.GainsShape (name : String) (scope grown : Scope) : Prop where
  settings : grown.settings = scope.settings
  bindings : grown.bindings = scope.bindings
  shapeNames : grown.shapeNames = scope.shapeNames ++ [name]
  shapeName : ∀ {pointer target}, Pointer.shapeName scope.root pointer = .ok target →
    Pointer.shapeName grown.root pointer = .ok target
  resolve : ∀ {pointer target}, Pointer.shapeName scope.root pointer = .ok target →
    Pointer.resolve grown.root pointer = Pointer.resolve scope.root pointer

namespace Progress

variable {progress after : Progress} {shapeNames : List String} {values : List EnumValue}
  {requested name added : String}

/-- One shape more blocks at most its own name. -/
theorem blocks_append_of_ne (h : name ≠ added) :
    progress.blocks (shapeNames ++ [added]) values name =
      progress.blocks shapeNames values name := by
  rw [blocks, blocks]
  cases progress.inlineEnum? name with
  | some inline => rfl
  | none => simp [h]

theorem blocks_append (h : progress.blocks shapeNames values name = true) :
    progress.blocks (shapeNames ++ [added]) values name = true := by
  by_cases hname : name = added
  · rw [blocks] at h ⊢
    cases hfound : progress.inlineEnum? name with
    | some inline =>
      rw [hfound] at h
      exact h
    | none => simp [hname]
  · rw [blocks_append_of_ne hname]
    exact h

/-- **Hoisting does not notice another shape** whose name it does not hand out. -/
theorem hoist_append (h : progress.hoist shapeNames requested values = (name, after))
    (hadded : name ≠ added) :
    progress.hoist (shapeNames ++ [added]) requested values = (name, after) := by
  obtain ⟨number, -, hnumber, hfree, hblocked⟩ :=
    progress.exists_number shapeNames requested values
  rw [hoist_eq] at h ⊢
  have hname : progress.hoistedName shapeNames requested values = name := (Prod.mk.inj h).1
  have hassigned : progress.hoistedName (shapeNames ++ [added]) requested values =
      progress.hoistedName shapeNames requested values := by
    rw [hnumber]
    refine hoistedName_eq ?_ fun i hi => blocks_append (hblocked i hi)
    rw [blocks_append_of_ne]
    · exact hfree
    · rw [← hnumber, hname]
      exact hadded
  rw [hassigned]
  exact h

end Progress

namespace Session

variable {α β : Type} {scope grown : Scope} {name : String}

/-- The session of the larger document repeats every successful run of the step, unless an enumeration
is then hoisted under the name of the added shape. -/
structure CarriesOver (scope grown : Scope) (name : String) (step : Session α) : Prop where
  keeps : Keeps (fun before after => before ≤ after) scope step
  repeats : ∀ {before value after}, step scope before = (.ok value, after) →
    name ∉ after.inlineEnums.map InlineEnum.name → step grown before = (.ok value, after)

theorem CarriesOver.bind {step : Session α} {next : α → Session β}
    (hstep : CarriesOver scope grown name step)
    (hnext : ∀ value, CarriesOver scope grown name (next value)) :
    CarriesOver scope grown name (step >>= next) where
  keeps := Progress.stable_le.bind hstep.keeps fun value => (hnext value).keeps
  repeats := by
    intro before result after hrun hname
    obtain ⟨value, between, hfirst, hrest⟩ := bind_eq_ok.mp hrun
    -- what is hoisted in between is still there in the end
    have hbetween : name ∉ between.inlineEnums.map InlineEnum.name := by
      have hle : between ≤ after := (hnext value).keeps.of_eq_ok hrest
      exact fun hmem => hname ((Progress.inlineEnums_prefix hle).map InlineEnum.name |>.subset hmem)
    exact bind_eq_ok.mpr ⟨value, between, hstep.repeats hfirst hbetween,
      (hnext value).repeats hrest hname⟩

/-- What is read from the document is read again, if the larger document gives the same answer. -/
theorem carriesOver_onRoot_bind {compute : Json → Except CompileError α} {next : α → Session β}
    (hnext : ∀ value, compute scope.root = .ok value →
      compute grown.root = .ok value ∧ CarriesOver scope grown name (next value)) :
    CarriesOver scope grown name (onRoot compute >>= next) where
  keeps := by
    intro before
    rw [bind_apply]
    simp only [onRoot]
    cases hvalue : compute scope.root with
    | error error => exact le_refl before
    | ok value => exact (hnext value hvalue).2.keeps before
  repeats := by
    intro before result after hrun hname
    obtain ⟨value, between, hfirst, hrest⟩ := bind_eq_ok.mp hrun
    obtain ⟨hvalue, rfl⟩ := onRoot_eq_ok.mp hfirst
    obtain ⟨hagain, hcarries⟩ := hnext value hvalue
    exact bind_eq_ok.mpr ⟨value, before, onRoot_eq_ok.mpr ⟨hagain, rfl⟩,
      hcarries.repeats hrest hname⟩

/-- **Every step of declaring shapes carries over.** -/
theorem carriesOver_closed (h : scope.GainsShape name grown) :
    ClosedWithLookups fun step => CarriesOver scope grown name step where
  pure value := ⟨Progress.stable_le.pure value, fun hrun _ => hrun⟩
  bind := CarriesOver.bind
  settings := by
    refine ⟨Progress.stable_le.settings, fun hrun _ => ?_⟩
    rw [settings_eq_ok, h.settings]
    exact settings_eq_ok.mp hrun
  shapeName pointer := by
    refine ⟨Progress.stable_le.onRoot _, fun hrun _ => ?_⟩
    obtain ⟨hname, hafter⟩ := onRoot_eq_ok.mp hrun
    exact onRoot_eq_ok.mpr ⟨h.shapeName hname, hafter⟩
  reported kind := ⟨Progress.stable_le.reported kind, fun hrun _ => hrun⟩
  setSubject subject := ⟨Progress.stable_le.setSubject subject, fun hrun _ => hrun⟩
  bindingOf? shape := by
    refine ⟨Progress.stable_le.bindingOf? shape, fun hrun _ => ?_⟩
    rw [bindingOf?_eq_ok, Scope.bindingOf?, h.bindings]
    exact bindingOf?_eq_ok.mp hrun
  inlineEnums := ⟨Progress.stable_le.inlineEnums, fun hrun _ => hrun⟩
  base pointer _ hnext := by
    refine carriesOver_onRoot_bind fun base hbase => ⟨h.shapeName hbase, ?_⟩
    refine carriesOver_onRoot_bind fun target htarget => ⟨?_, hnext base target⟩
    rw [h.resolve hbase]
    exact htarget

theorem carriesOver_hoist (h : scope.GainsShape name grown) (requested : String)
    (values : List EnumValue) : CarriesOver scope grown name (hoist requested values) where
  keeps before := before.le_hoist scope.shapeNames requested values
  repeats := by
    intro before result after hrun hname
    rw [hoist_eq_ok] at hrun ⊢
    rw [h.shapeNames]
    refine Progress.hoist_append hrun fun heq => ?_
    obtain ⟨inline, hmem, hinline, -⟩ := Progress.exists_mem_hoist hrun
    exact hname (List.mem_map.mpr ⟨inline, hmem, hinline.trans heq⟩)

end Session

namespace Output

open TypeScript

/-- Declarations of all shapes carry over. -/
theorem carriesOver_declarationsOf {scope grown : Scope} {name : String}
    (h : scope.GainsShape name grown) (shapes : List NamedShape) :
    Session.CarriesOver scope grown name (declarationsOf shapes) :=
  declarationsOf_holds (Session.carriesOver_closed h) fun _ _ _ _ place _ values =>
    Session.carriesOver_hoist h place values

theorem declarationsOf_append (shapes others : List NamedShape) :
    declarationsOf (shapes ++ others) = (do
      let declared ← declarationsOf shapes
      let rest ← declarationsOf others
      pure (declared ++ rest)) := by
  induction shapes with
  | nil => simp [declarationsOf]
  | cons named shapes ih =>
    rw [List.cons_append, declarationsOf, ih, declarationsOf]
    simp only [bind_assoc, pure_bind, List.append_assoc]

/-! ## Two generations -/

/-- The text of more declarations begins with the text of the first ones. -/
theorem exists_text_append (declarations more : List Declaration) :
    ∃ rest, ({ types := declarations ++ more : Module }).text =
      ({ types := declarations : Module }).text ++ rest := by
  have htext : ∀ types : List Declaration, ({ types := types : Module }).text =
      String.intercalate "\n" (types.map Declaration.text) := by
    intro types
    simp [Module.text]
  rw [htext, htext, List.map_append]
  by_cases hfirst : declarations = []
  · exact ⟨_, by rw [hfirst, List.map_nil, String.intercalate_nil, String.empty_append]⟩
  · by_cases hmore : more = []
    · exact ⟨"", by rw [hmore, List.map_nil, List.append_nil, String.append_empty]⟩
    · have hmap : ∀ {types : List Declaration}, types ≠ [] → types.map Declaration.text ≠ [] :=
        fun hne => mt List.map_eq_nil_iff.mp hne
      refine ⟨"\n" ++ String.intercalate "\n" (more.map Declaration.text), ?_⟩
      rw [String.intercalate_append_of_ne_nil (hmap hfirst) (hmap hmore), String.append_assoc]

variable {entry : String × Json} {root grown : Json} {smaller larger : Document}
  {settings : Settings} {output output' : Output}

/-- The scopes of the two generations. -/
theorem Run.gainsShape (h : Json.Gains entry ["components", "schemas"] root grown)
    (hsmaller : Document.ofJson root = .ok smaller) (hlarger : Document.ofJson grown = .ok larger)
    (hplain : ∀ shape, Shape.ofJson? entry.2 = some shape → shape.isDiscriminated = false)
    (run : Run smaller settings output) (run' : Run larger settings output') :
    run.scope.GainsShape entry.1 run'.scope := by
  have hroot : run.scope.root = root :=
    run.root_eq.trans (Document.schemas?_of_ofJson hsmaller).1
  have hgrown : run'.scope.root = grown :=
    run'.root_eq.trans (Document.schemas?_of_ofJson hlarger).1
  obtain ⟨shape, hshape, hshapes⟩ := Document.namedShapes_of_gains h hsmaller hlarger
  constructor
  · rw [run.settings_eq, run'.settings_eq]
  · have hcollect := run.bindings_eq
    have hcollect' := run'.bindings_eq
    rw [← run.root_eq, hroot] at hcollect
    rw [← run'.root_eq, hgrown, hshapes, Binding.collect_gains h (hplain shape hshape) hcollect]
      at hcollect'
    exact (Except.ok.inj hcollect').symm
  · rw [run.shapeNames_eq, run'.shapeNames_eq, hshapes, List.map_append, List.map_singleton]
  · rw [hroot, hgrown]
    exact Pointer.shapeName_gains h
  · rw [hroot, hgrown]
    exact Pointer.resolve_gains h

/-- The larger generation declares what the smaller one does, and then goes on. -/
theorem Run.exists_more (h : Json.Gains entry ["components", "schemas"] root grown)
    (hsmaller : Document.ofJson root = .ok smaller) (hlarger : Document.ofJson grown = .ok larger)
    (hplain : ∀ shape, Shape.ofJson? entry.2 = some shape → shape.isDiscriminated = false)
    (run : Run smaller settings output) (run' : Run larger settings output')
    (hfree : entry.1 ∉ run.declared.inlineEnums.map InlineEnum.name) :
    (∃ more, run'.declarations = run.declarations ++ more) ∧ run.declared ≤ run'.declared := by
  obtain ⟨shape, -, hshapes⟩ := Document.namedShapes_of_gains h hsmaller hlarger
  have hfirst := (carriesOver_declarationsOf (run.gainsShape h hsmaller hlarger hplain run')
    smaller.namedShapes).repeats run.declarations_eq hfree
  have hall := run'.declarations_eq
  rw [hshapes, declarationsOf_append] at hall
  simp only [Session.bind_eq_ok, Session.pure_eq_ok] at hall
  obtain ⟨declared, between, hagain, more, after, hmore, hwritten, rfl⟩ := hall
  rw [hfirst, Prod.mk.injEq, Except.ok.injEq] at hagain
  obtain ⟨rfl, rfl⟩ := hagain
  exact ⟨⟨more, hwritten.symm⟩, (declarationsOf_keeps_le _ _).of_eq_ok hmore⟩

/-- The progress of a generation when all shapes are declared. -/
def afterDeclarations (document : Document) (settings : Settings) : Progress :=
  match Scope.of document settings document.namedShapes with
  | .error _ => {}
  | .ok scope => (declarationsOf document.namedShapes scope {}).2

theorem Run.declared_eq {document : Document} (run : Run document settings output) :
    run.declared = afterDeclarations document settings := by
  rw [afterDeclarations, run.scope_eq]
  simp only [run.declarations_eq]

/-- **Adding a shape does not disturb the others.**  A document gets one more schema at the end that is
no discriminated union and has not the name of an enumeration that is hoisted without it.  Then the
file of declarations begins with what it was, and so do the reports about declarations, which are the
first of all reports. -/
theorem generate_gains (h : Json.Gains entry ["components", "schemas"] root grown)
    (hsmaller : Document.ofJson root = .ok smaller) (hlarger : Document.ofJson grown = .ok larger)
    (hplain : ∀ shape, Shape.ofJson? entry.2 = some shape → shape.isDiscriminated = false)
    (hgenerate : generate smaller settings = .ok output)
    (hgenerate' : generate larger settings = .ok output')
    (hfree : entry.1 ∉ (afterDeclarations smaller settings).inlineEnums.map InlineEnum.name) :
    (∃ text rest, output.files.get? typesFile = some text ∧
      output'.files.get? typesFile = some (text ++ rest)) ∧
    (afterDeclarations smaller settings).diagnostics <+:
      (afterDeclarations larger settings).diagnostics ∧
    (afterDeclarations larger settings).diagnostics <+: output'.diagnostics := by
  obtain ⟨run⟩ := exists_run hgenerate
  obtain ⟨run'⟩ := exists_run hgenerate'
  rw [← run.declared_eq] at hfree ⊢
  rw [← run'.declared_eq]
  obtain ⟨⟨more, hmore⟩, hle⟩ := run.exists_more h hsmaller hlarger hplain run' hfree
  obtain ⟨rest, hrest⟩ := exists_text_append run.declarations more
  refine ⟨⟨_, rest, run.get?_typesFile, ?_⟩, hle.2.2, ?_⟩
  · rw [run'.get?_typesFile, hmore, hrest]
  · rw [run'.diagnostics_eq]
    exact run'.declared_le_finished.2.2

/-- A document without operations that has the given schemas. -/
def rootOf (schemas : Table Json) : Json :=
  .object [("openapi", .string "3.0.0"), ("paths", .object []),
    ("components", .object [("schemas", .object schemas)])]

theorem gains_rootOf (schemas : Table Json) (entry : String × Json) :
    Json.Gains entry ["components", "schemas"] (rootOf schemas) (rootOf (schemas ++ [entry])) := by
  have hschemas : Json.Gains entry ["schemas"] (.object [("schemas", .object schemas)])
      (.object [("schemas", .object (schemas ++ [entry]))]) :=
    @Json.Gains.member entry "schemas" [] [] [] _ _ List.not_mem_nil (.here schemas)
  exact @Json.Gains.member entry "components" ["schemas"] [_, _] [] _ _ (by decide) hschemas

/-- Does a value give files, and a progress after the declarations that passes a check? -/
def compiles (root : Json) (settings : Settings) (check : Progress → Bool) : Bool :=
  match Document.ofJson root with
  | .error _ => false
  | .ok document =>
    (generate document settings).isOk && check (afterDeclarations document settings)

theorem exists_of_compiles {check : Progress → Bool}
    (h : compiles root settings check = true) :
    ∃ document output, Document.ofJson root = .ok document ∧
      generate document settings = .ok output ∧
      check (afterDeclarations document settings) = true := by
  rw [compiles] at h
  split at h
  · cases h
  next document hdocument =>
    obtain ⟨hok, hcheck⟩ := (Bool.and_eq_true _ _).mp h
    cases hgenerate : generate document settings with
    | error error =>
      rw [hgenerate] at hok
      cases hok
    | ok output => exact ⟨document, output, hdocument, hgenerate, hcheck⟩

/-- A shape with a status that is hoisted, a shape that extends it, and one that cannot extend its
base. -/
def catSchemas : Table Json :=
  [("Pet", .object [("properties", .object
      [("status", .object [("enum", .array [.string "new", .string "old"])])])]),
    ("Cat", .object [("allOf", .array
      [.object [("$ref", .string "#/components/schemas/Pet")]])]),
    ("Name", .object [("type", .string "string")]),
    ("Nickname", .object [("allOf", .array
      [.object [("$ref", .string "#/components/schemas/Name")]])])]

/-- A shape that is called like the hoisted enumeration but for a digit, with properties of two
kinds. -/
def ownerEntry : String × Json :=
  ("PetStatus2", .object
    [("properties", .object [("pet", .object [("$ref", .string "#/components/schemas/Cat")])]),
      ("additionalProperties", .object [("type", .string "string")])])

theorem generate_gains_petStatus2 :
    ∃ smaller larger output output',
      Document.ofJson (rootOf catSchemas) = .ok smaller ∧
      Document.ofJson (rootOf (catSchemas ++ [ownerEntry])) = .ok larger ∧
      generate smaller {} = .ok output ∧ generate larger {} = .ok output' ∧
      (∃ text rest, output.files.get? typesFile = some text ∧
        output'.files.get? typesFile = some (text ++ rest)) ∧
      (afterDeclarations smaller {}).diagnostics = [⟨"Nickname", .nonObjectBase "Name"⟩] ∧
      (afterDeclarations larger {}).diagnostics =
        [⟨"Nickname", .nonObjectBase "Name"⟩, ⟨"PetStatus2", .typedAdditionalProperties⟩] ∧
      (afterDeclarations smaller {}).diagnostics <+: (afterDeclarations larger {}).diagnostics ∧
      (afterDeclarations larger {}).diagnostics <+: output'.diagnostics := by
  have hsmall : compiles (rootOf catSchemas) {} (fun progress =>
      !(progress.inlineEnums.map InlineEnum.name).contains ownerEntry.1 &&
        progress.diagnostics = [⟨"Nickname", .nonObjectBase "Name"⟩]) = true := by
    decide +kernel
  have hlarge : compiles (rootOf (catSchemas ++ [ownerEntry])) {} (fun progress =>
      progress.diagnostics =
        [⟨"Nickname", .nonObjectBase "Name"⟩, ⟨"PetStatus2", .typedAdditionalProperties⟩]) = true := by
    decide +kernel
  have hplain : (Shape.ofJson? ownerEntry.2).all (fun shape => !shape.isDiscriminated) = true := by
    decide +kernel
  obtain ⟨smaller, output, hsmaller, hgenerate, hcheck⟩ := exists_of_compiles hsmall
  obtain ⟨larger, output', hlarger, hgenerate', hreports'⟩ := exists_of_compiles hlarge
  obtain ⟨hfree, hreports⟩ := Bool.and_eq_true_iff.mp hcheck
  have hgains := generate_gains (gains_rootOf catSchemas ownerEntry) hsmaller hlarger
    (fun shape hshape => by
      rw [hshape] at hplain
      simpa using hplain)
    hgenerate hgenerate' (by simpa using hfree)
  exact ⟨smaller, larger, output, output', hsmaller, hlarger, hgenerate, hgenerate', hgains.1,
    of_decide_eq_true hreports, of_decide_eq_true hreports', hgains.2⟩

end Output

end ApiScribe
