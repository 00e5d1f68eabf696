import ApiScribe.Proofs.GenerationRun

/-!
# Where declarations stand

The declarations of a generation come in blocks, one for each named shape and in their order.  A
block is what declaring the shape gives: the enumerations that this hoisted, and then the shape
itself.

* `exists_blocks` is the statement about one run over any list of shapes: each block starts from
  the table that the blocks before it left, and adds its own enumerations to it.
* `names_perm_of_blocks` says what the blocks declare together: the shapes and the hoisted
  enumerations.  By `Progress.WellNamed` all of these have different names.
* `generate_layout` is both of them for a document that was read.
-/

namespace ApiScribe

open TypeScript

namespace Output

/-- What declaring one named shape contributes. -/
structure Block where
  /-- The shape. -/
  shape : NamedShape
  /-- The enumerations that were hoisted before. -/
  known : List InlineEnum
  /-- The enumerations that are hoisted while the shape is declared. -/
  hoisted : List InlineEnum
  /-- The declaration of the shape. -/
  own : Declaration

namespace Block

/-- The declarations of a block. -/
def declarations (settings : Settings) (block : Block) : List Declaration :=
  block.hoisted.map (InlineEnum.declared settings) ++ [block.own]

/-- The block comes from a session that ends in `final`: the shape is declared where the known
enumerations are hoisted, and that adds the hoisted ones at the end. -/
def IsRun (scope : Scope) (final : Progress) (block : Block) : Prop :=
  ∃ before after, Shape.declaration block.shape.name block.shape.shape scope before =
      (.ok block.own, after) ∧
    before.inlineEnums = block.known ∧ after.inlineEnums = block.known ++ block.hoisted ∧
    after ≤ final

variable {scope : Scope} {final : Progress} {block : Block}

theorem IsRun.name_eq (h : block.IsRun scope final) : block.own.name = block.shape.name := by
  obtain ⟨_, _, hrun, -, -, hle⟩ := h
  exact (Shape.declaredAs_of_declaration hle hrun).1

theorem IsRun.declaredAs (h : block.IsRun scope final) :
    Shape.DeclaredAs scope final block.shape.name block.shape.shape block.own.kind := by
  obtain ⟨_, _, hrun, -, -, hle⟩ := h
  exact (Shape.declaredAs_of_declaration hle hrun).2.2

/-- The names that a block declares. -/
theorem names_declarations (h : block.IsRun scope final) (settings : Settings) :
    (block.declarations settings).map Declaration.name =
      block.hoisted.map InlineEnum.name ++ [block.shape.name] := by
  rw [declarations, List.map_append, List.map_map, List.map_singleton, h.name_eq]
  rfl

end Block

variable {scope : Scope} {final before after : Progress}

/-! ## One block after the other -/

theorem inlineDeclarations_eq_ok {inlines : List InlineEnum} {written : List Declaration}
    (h : inlineDeclarations inlines scope before = (.ok written, after)) :
    written = inlines.map (InlineEnum.declared scope.settings) ∧
      after.inlineEnums = before.inlineEnums := by
  induction inlines generalizing written before with
  | nil =>
    obtain ⟨rfl, rfl⟩ := Session.pure_eq_ok.mp h
    exact ⟨rfl, rfl⟩
  | cons inline inlines ih =>
    simp only [inlineDeclarations, Session.bind_eq_ok, Session.pure_eq_ok] at h
    obtain ⟨declared, between, hdeclared, others, _, hothers, rfl, rfl⟩ := h
    obtain ⟨rfl, hbetween⟩ := InlineEnum.declaration_eq_ok hdeclared
    obtain ⟨rfl, hafter⟩ := ih hothers
    exact ⟨rfl, hafter.trans hbetween⟩

/-- One named shape contributes one block. -/
theorem exists_block {named : NamedShape} {written : List Declaration} (hle : after ≤ final)
    (h : shapeDeclarations named scope before = (.ok written, after)) :
    ∃ block : Block, block.shape = named ∧ block.known = before.inlineEnums ∧
      block.IsRun scope final ∧ written = block.declarations scope.settings ∧
      after.inlineEnums = block.known ++ block.hoisted := by
  simp only [shapeDeclarations, Session.bind_eq_ok, Session.pure_eq_ok,
    Session.inlineEnums_eq_ok] at h
  obtain ⟨_, _, ⟨rfl, rfl⟩, own, between, hown, _, _, ⟨rfl, rfl⟩, inline, last, hinline, rfl,
    rfl⟩ := h
  have hkept := Session.Keeps.of_eq_ok
    (inlineDeclarations_holds (Progress.stable_le.closed scope).toClosed _) hinline
  -- declaring the shape only ever appends, so dropping what was known leaves what is new
  obtain ⟨hoisted, hhoisted⟩ := Progress.inlineEnums_prefix
    ((Shape.declaration_keeps_le scope named.name named.shape).of_eq_ok hown)
  rw [← hhoisted, List.drop_left] at hinline
  obtain ⟨rfl, hlast⟩ := inlineDeclarations_eq_ok hinline
  exact ⟨⟨named, before.inlineEnums, hoisted, own⟩, rfl, rfl, ⟨before, between, hown, rfl,
    hhoisted.symm, le_trans hkept hle⟩, rfl, hlast.trans hhoisted.symm⟩

/-- **The declarations of shapes come in blocks**, each of which starts where the blocks before it
end. -/
theorem exists_blocks {shapes : List NamedShape} {written : List Declaration} (hle : after ≤ final)
    (h : declarationsOf shapes scope before = (.ok written, after)) :
    ∃ blocks : List Block, blocks.map Block.shape = shapes ∧
      (∀ block ∈ blocks, block.IsRun scope final) ∧
      written = blocks.flatMap (Block.declarations scope.settings) ∧
      after.inlineEnums = before.inlineEnums ++ blocks.flatMap Block.hoisted ∧
      ∀ earlier block later, blocks = earlier ++ block :: later →
        block.known = before.inlineEnums ++ earlier.flatMap Block.hoisted := by
  induction shapes generalizing written before with
  | nil =>
    obtain ⟨rfl, rfl⟩ := Session.pure_eq_ok.mp h
    refine ⟨[], rfl, fun _ hmem => absurd hmem List.not_mem_nil, rfl, ?_, ?_⟩
    · rw [List.flatMap_nil, List.append_nil]
    · intro earlier block later hsplit
      exact absurd hsplit.symm (List.append_ne_nil_of_right_ne_nil _ (List.cons_ne_nil _ _))
  | cons named shapes ih =>
    simp only [declarationsOf, Session.bind_eq_ok, Session.pure_eq_ok] at h
    obtain ⟨first, between, hfirst, others, _, hothers, rfl, rfl⟩ := h
    obtain ⟨block, rfl, hknown, hrun, rfl, hbetween⟩ := exists_block
      (le_trans ((declarationsOf_keeps_le scope shapes).of_eq_ok hothers) hle) hfirst
    obtain ⟨blocks, rfl, hruns, rfl, hafter, hstart⟩ := ih hothers
    rw [hknown] at hbetween
    refine ⟨block :: blocks, rfl, List.forall_mem_cons.mpr ⟨hrun, hruns⟩, rfl, ?_, ?_⟩
    · rw [hafter, hbetween, List.append_assoc, List.flatMap_cons]
    · intro earlier other later hsplit
      cases earlier with
      | nil =>
        obtain ⟨rfl, rfl⟩ := List.cons.inj hsplit
        rw [hknown, List.flatMap_nil, List.append_nil]
      | cons head earlier =>
        obtain ⟨rfl, rfl⟩ := List.cons.inj hsplit
        rw [hstart earlier other later rfl, hbetween, List.append_assoc, List.flatMap_cons]

/-! ## The names of declarations -/

/-- The names that blocks declare are those of the hoisted enumerations and of the shapes. -/
theorem names_perm_of_blocks {blocks : List Block}
    (hruns : ∀ block ∈ blocks, block.IsRun scope final) :
    ((blocks.flatMap (Block.declarations scope.settings)).map Declaration.name).Perm
      ((blocks.flatMap Block.hoisted).map InlineEnum.name ++
        (blocks.map Block.shape).map NamedShape.name) := by
  induction blocks with
  | nil => exact List.Perm.refl _
  | cons block blocks ih =>
    obtain ⟨hrun, hruns⟩ := List.forall_mem_cons.mp hruns
    rw [List.flatMap_cons, List.map_append, Block.names_declarations hrun, List.flatMap_cons,
      List.map_append, List.map_cons, List.map_cons, List.append_assoc, List.append_assoc]
    refine List.Perm.append_left _ ?_
    exact ((ih hruns).cons _).trans List.perm_middle.symm

/-! ## A whole generation -/

/-- The declarations of a run stand in these blocks: one for each named shape, in the order of the
shapes, and in each the enumerations that no earlier block holds. -/
structure Run.LaidOut {document : Document} {settings : Settings} {output : Output}
    (run : Run document settings output) (blocks : List Block) : Prop where
  declarations : run.declarations = blocks.flatMap (Block.declarations settings)
  shapes : blocks.map Block.shape = document.namedShapes
  isRun : ∀ block ∈ blocks, block.IsRun run.scope run.finished
  known : ∀ earlier block later, blocks = earlier ++ block :: later →
    block.known = earlier.flatMap Block.hoisted
  hoisted : run.finished.inlineEnums = blocks.flatMap Block.hoisted

variable {format : Notation} {text : String} {document : Document} {settings : Settings}
  {output : Output}

theorem Run.exists_laidOut (run : Run document settings output) : ∃ blocks, run.LaidOut blocks := by
  obtain ⟨blocks, hshapes, hruns, hwritten, hhoisted, hknown⟩ :=
    exists_blocks run.declared_le_finished run.declarations_eq
  rw [run.settings_eq] at hwritten
  exact ⟨blocks, hwritten, hshapes, hruns, hknown, run.inlineEnums_eq.trans hhoisted⟩

theorem Run.LaidOut.names_perm {run : Run document settings output} {blocks : List Block}
    (h : run.LaidOut blocks) :
    (run.declarations.map Declaration.name).Perm
      (run.finished.inlineEnums.map InlineEnum.name ++
        document.namedShapes.map NamedShape.name) := by
  have hperm := names_perm_of_blocks h.isRun
  rw [h.shapes, ← h.hoisted, run.settings_eq, ← h.declarations] at hperm
  exact hperm

/-- A named shape has its declaration in every run, which comes from declaring it. -/
theorem Run.exists_ownDeclaration (run : Run document settings output) {named : NamedShape}
    (hnamed : named ∈ document.namedShapes) :
    ∃ declaration ∈ run.declarations, ∃ before after,
      Shape.declaration named.name named.shape run.scope before = (.ok declaration, after) ∧
        after ≤ run.finished := by
  obtain ⟨blocks, hblocks⟩ := run.exists_laidOut
  rw [← hblocks.shapes] at hnamed
  obtain ⟨block, hblock, rfl⟩ := List.mem_map.mp hnamed
  obtain ⟨before, after, hrun, -, -, hle⟩ := hblocks.isRun block hblock
  refine ⟨block.own, ?_, before, after, hrun, hle⟩
  rw [hblocks.declarations]
  exact List.mem_flatMap.mpr
    ⟨block, hblock, List.mem_append_right _ (List.mem_singleton_self _)⟩

theorem Run.exists_declaration (run : Run document settings output) {named : NamedShape}
    (hnamed : named ∈ document.namedShapes) :
    ∃ declaration ∈ run.declarations, declaration.name = named.name ∧
      Shape.DeclaredAs run.scope run.finished named.name named.shape declaration.kind := by
  obtain ⟨declaration, hmem, before, after, hrun, hle⟩ := run.exists_ownDeclaration hnamed
  obtain ⟨hname, -, hdeclared⟩ := Shape.declaredAs_of_declaration hle hrun
  exact ⟨declaration, hmem, hname, hdeclared⟩

/-- So has a hoisted enumeration. -/
theorem Run.declared_mem_declarations (run : Run document settings output) {inline : InlineEnum}
    (hinline : inline ∈ run.finished.inlineEnums) :
    inline.declared settings ∈ run.declarations := by
  obtain ⟨blocks, hblocks⟩ := run.exists_laidOut
  rw [hblocks.hoisted] at hinline
  obtain ⟨block, hblock, hmem⟩ := List.mem_flatMap.mp hinline
  rw [hblocks.declarations]
  exact List.mem_flatMap.mpr
    ⟨block, hblock, List.mem_append_left _ (List.mem_map_of_mem hmem)⟩

/-- No two declarations of a document that was read have the same name. -/
theorem Run.nodup_names (run : Run document settings output) (hdocument : document.WasRead) :
    (run.declarations.map Declaration.name).Nodup := by
  obtain ⟨blocks, hblocks⟩ := run.exists_laidOut
  have hwell := run.wellNamed
  rw [run.shapeNames_eq] at hwell
  rw [hblocks.names_perm.nodup_iff, run.inlineEnums_eq, List.nodup_append']
  refine ⟨hwell.nodup, hdocument.namedShapes_nodup, ?_⟩
  intro name hinline hshape
  obtain ⟨inline, hmem, rfl⟩ := List.mem_map.mp hinline
  exact hwell.notMem inline hmem hshape

/-- So a declaration is known by its name. -/
theorem Run.eq_of_name_eq (run : Run document settings output) (hdocument : document.WasRead)
    {declaration other : Declaration} (hmem : declaration ∈ run.declarations)
    (hother : other ∈ run.declarations) (hname : declaration.name = other.name) :
    declaration = other :=
  List.inj_on_of_nodup_map (run.nodup_names hdocument) hmem hother hname

/-- **The layout of the declarations.**  The file of declarations is the concatenation, over the
named shapes in their order, of the enumerations that were hoisted while the shape was declared
and the declaration of the shape.  All names are different, and every shape and every hoisted
enumeration is declared once. -/
theorem generate_layout (hread : Document.readAs format text = .ok document)
    (h : generate document settings = .ok output) :
    ∃ (run : Run document settings output) (blocks : List Block),
      output.files.get? typesFile = some { types := run.declarations : Module }.text ∧
      run.LaidOut blocks ∧
      (run.declarations.map Declaration.name).Nodup ∧
      (∀ named ∈ document.namedShapes,
        (run.declarations.map Declaration.name).count named.name = 1) ∧
      ∀ inline ∈ run.finished.inlineEnums, inline.declared settings ∈ run.declarations ∧
        (run.declarations.map Declaration.name).count inline.name = 1 := by
  obtain ⟨run⟩ := exists_run h
  obtain ⟨blocks, hblocks⟩ := run.exists_laidOut
  have hnodup := run.nodup_names (Document.wasRead_of_readAs hread)
  have hnames := hblocks.names_perm
  refine ⟨run, blocks, run.get?_typesFile, hblocks, hnodup, ?_, ?_⟩
  · intro named hnamed
    have hmem : named.name ∈ run.declarations.map Declaration.name :=
      hnames.mem_iff.mpr (List.mem_append_right _ (List.mem_map_of_mem hnamed))
    exact List.count_eq_one_of_mem hnodup hmem
  · intro inline hinline
    have hmem : inline.name ∈ run.declarations.map Declaration.name :=
      hnames.mem_iff.mpr (List.mem_append_left _ (List.mem_map_of_mem hinline))
    exact ⟨run.declared_mem_declarations hinline, List.count_eq_one_of_mem hnodup hmem⟩

/-- A document in which a hoisted enumeration asks for the name of a later shape. -/
def takenName : String :=
  String.intercalate "\n"
    ["openapi: 3.0.0",
      "paths:",
      " /users:",
      "  parameters: []",
      "components:",
      " schemas:",
      "  User:",
      "   properties:",
      "    status:",
      "     enum: [active, banned]",
      "  UserStatus:",
      "   type: string"]

theorem generate_layout_takenName :
    ∃ document output, Document.readAs .yaml takenName = .ok document ∧
      generate document {} = .ok output ∧
      ∃ (run : Run document {} output) (blocks : List Block), run.LaidOut blocks ∧
        (run.declarations.map Declaration.name).Nodup := by
  have hyields : yields .yaml takenName {} (fun _ _ => true) = true := by decide +kernel
  obtain ⟨document, output, hread, h, -⟩ := exists_of_yields hyields
  obtain ⟨run, blocks, -, hblocks, hnodup, -⟩ := generate_layout hread h
  exact ⟨document, output, hread, h, run, blocks, hblocks, hnodup⟩

end Output

end ApiScribe
