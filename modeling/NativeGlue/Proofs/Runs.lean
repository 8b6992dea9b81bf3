import NativeGlue.Command.Run
import NativeGlue.Proofs.Disk
import NativeGlue.Proofs.Listing
import NativeGlue.Proofs.Raw.Depth

/-!
# A run does all of its work or none

A run reads, parses and converts a schema, flattens its modules and translates
every method before it prints or writes anything.  If a step fails, wherever the
failing method stands, the run ends with status 1 and leaves standard output and
the files as they were.  If all steps succeed, the run prints exactly one text,
or writes exactly one file.
-/

namespace NativeGlue.Command

open Bridge Disk

/-! ## The steps of a run -/

/-- What a command does with modules of one name. -/
def Invocation.policy : Invocation → DuplicatePolicy
  | generate params => (GenerateArgs.ofParams params).duplicates
  | signatures _ => .overwrite

/-- A run reads a text, parses it and converts the result to a schema. -/
structure Loads
    (w : World) (i : Invocation) (text : String) (raw : Raw.Schema)
    (schema : Schema) : Prop where
  read : w.readText i.schemaPath = .ok text
  parsed : Raw.Schema.parse text = .ok raw
  converted : Schema.ofRaw raw = .ok schema

/-- A step of a run fails: reading, parsing, converting or flattening the
schema, or translating a method of a flattened module. -/
inductive Fails (w : World) (i : Invocation) : Prop where
  | reading {e : LoadError} :
      w.readText i.schemaPath = .error e → Fails w i
  | parsing {text : String} {e : Json.Fault} :
      w.readText i.schemaPath = .ok text → Raw.Schema.parse text = .error e →
      Fails w i
  | converting {text : String} {raw : Raw.Schema} {e : SchemaError} :
      w.readText i.schemaPath = .ok text → Raw.Schema.parse text = .ok raw →
      Schema.ofRaw raw = .error e → Fails w i
  | flattening {text : String} {raw : Raw.Schema} {schema : Schema}
      {e : Bridge.Error} :
      Loads w i text raw schema → flatten i.policy schema = .error e → Fails w i
  | translating {text : String} {raw : Raw.Schema} {schema : Schema}
      {flat : Table NativeModule} {m : NativeModule} {method : Method}
      {e : Bridge.Error} :
      Loads w i text raw schema → flatten i.policy schema = .ok flat →
      m ∈ flat.values → method ∈ m.methods →
      emitMethod m.name m.aliases method = .error e → Fails w i

/-- All steps of a run succeed, and the schema is the given one. -/
structure Succeeds (w : World) (i : Invocation) (schema : Schema) : Prop where
  loads : ∃ text raw, Loads w i text raw schema
  translates : ∃ flat, flatten i.policy schema = .ok flat ∧
    ∀ m ∈ flat.values, ∀ method ∈ m.methods, Emits m method

/-! ## Loading -/

theorem World.eval_readText (w : World) (path : String) :
    w.tree.eval (w.system.readText path) =
      (if path = inputPath then (textOf w.input).mapError .unreadableInput
       else (w.tree.read path >>= textOf).mapError (.unreadableFile path),
        w.tree) := by
  unfold System.readText
  split
  · rfl
  · have hfile :
        w.tree.eval (w.system.read path) = (w.tree.read path, w.tree) := rfl
    rw [Tree.eval_adapt, Tree.eval_bind_of_reads hfile
      fun bytes => Tree.eval_liftM w.tree (textOf bytes)]

theorem World.readText_eq (w : World) (path : String) :
    w.readText path =
      if path = inputPath then (textOf w.input).mapError .unreadableInput
      else (w.tree.read path >>= textOf).mapError (.unreadableFile path) :=
  congrArg Prod.fst (w.eval_readText path)

theorem World.eval_loadSchema (w : World) (path : String) :
    w.tree.eval (w.system.loadSchema path) =
      (w.readText path >>= fun text => (Schema.parse text).mapError .invalid,
        w.tree) := by
  have hread :
      w.tree.eval (w.system.readText path) = (w.readText path, w.tree) := by
    rw [w.readText_eq, w.eval_readText]
  exact Tree.eval_bind_of_reads hread fun _ => rfl

theorem World.loadSchema_eq (w : World) (path : String) :
    w.loadSchema path =
      w.readText path >>= fun text => (Schema.parse text).mapError .invalid :=
  congrArg Prod.fst (w.eval_loadSchema path)

theorem loadSchema_eq_ok_iff {w : World} {i : Invocation} {schema : Schema} :
    w.loadSchema i.schemaPath = .ok schema ↔
      ∃ text raw, Loads w i text raw schema := by
  rw [w.loadSchema_eq]
  constructor
  · intro h
    obtain ⟨text, htext, h⟩ := bind_eq_ok_iff.mp h
    obtain ⟨raw, hraw, hschema⟩ := bind_eq_ok_iff.mp (mapError_eq_ok_iff.mp h)
    exact ⟨text, raw, htext, mapError_eq_ok_iff.mp hraw, hschema⟩
  · rintro ⟨text, raw, htext, hraw, hschema⟩
    refine bind_eq_ok_iff.mpr ⟨text, htext, mapError_eq_ok_iff.mpr ?_⟩
    exact bind_eq_ok_iff.mpr ⟨raw, mapError_eq_ok_iff.mpr hraw, hschema⟩

/-- Either a step fails or all succeed. -/
theorem fails_or_succeeds (w : World) (i : Invocation) :
    Fails w i ∨ ∃ schema, Succeeds w i schema := by
  cases htext : w.readText i.schemaPath with
  | error e => exact Or.inl (.reading htext)
  | ok text =>
  cases hraw : Raw.Schema.parse text with
  | error e => exact Or.inl (.parsing htext hraw)
  | ok raw =>
  cases hschema : Schema.ofRaw raw with
  | error e => exact Or.inl (.converting htext hraw hschema)
  | ok schema =>
  have hloads : Loads w i text raw schema := ⟨htext, hraw, hschema⟩
  cases hflat : flatten i.policy schema with
  | error e => exact Or.inl (.flattening hloads hflat)
  | ok flat =>
  by_cases hemits : ∀ m ∈ flat.values, ∀ method ∈ m.methods, Emits m method
  · exact Or.inr ⟨schema, ⟨text, raw, hloads⟩, flat, hflat, hemits⟩
  · push Not at hemits
    obtain ⟨m, hm, method, hmethod, hnot⟩ := hemits
    cases hemit : emitMethod m.name m.aliases method with
    | error e => exact Or.inl (.translating hloads hflat hm hmethod hemit)
    | ok emitted => exact absurd ⟨emitted, hemit⟩ hnot

theorem Loads.unique
    {w : World} {i : Invocation} {text text' : String} {raw raw' : Raw.Schema}
    {schema schema' : Schema} (h : Loads w i text raw schema)
    (h' : Loads w i text' raw' schema') :
    schema = schema' := by
  obtain rfl := Except.ok.inj (h.read.symm.trans h'.read)
  obtain rfl := Except.ok.inj (h.parsed.symm.trans h'.parsed)
  exact Except.ok.inj (h.converted.symm.trans h'.converted)

theorem Succeeds.not_fails
    {w : World} {i : Invocation} {schema : Schema} (h : Succeeds w i schema) :
    ¬Fails w i := by
  obtain ⟨⟨text, raw, hloads⟩, flat, hflat, hemits⟩ := h
  intro hfails
  cases hfails with
  | reading he => cases hloads.read.symm.trans he
  | parsing htext he =>
      obtain rfl := Except.ok.inj (hloads.read.symm.trans htext)
      cases hloads.parsed.symm.trans he
  | converting htext hraw he =>
      obtain rfl := Except.ok.inj (hloads.read.symm.trans htext)
      obtain rfl := Except.ok.inj (hloads.parsed.symm.trans hraw)
      cases hloads.converted.symm.trans he
  | flattening hloads' he =>
      obtain rfl := hloads.unique hloads'
      cases hflat.symm.trans he
  | translating hloads' hflat' hm hmethod he =>
      obtain rfl := hloads.unique hloads'
      obtain rfl := Except.ok.inj (hflat.symm.trans hflat')
      obtain ⟨emitted, hemitted⟩ := hemits _ hm _ hmethod
      cases hemitted.symm.trans he

/-! ## What a run makes of a schema -/

theorem exists_artifact_iff {params : GenerateParams} {schema : Schema} :
    (∃ artifact,
        (GenerateArgs.ofParams params).artifact schema = .ok artifact) ↔
      ∃ flat, flatten (Invocation.generate params).policy schema = .ok flat ∧
        ∀ m ∈ flat.values, ∀ method ∈ m.methods, Emits m method := by
  constructor
  · rintro ⟨artifact, h⟩
    obtain ⟨flat, doc, hflat, hdoc, -⟩ := generate_eq_ok_iff.mp h
    exact ⟨flat, hflat, (exists_assemble_eq_ok_iff _ _ _).mp ⟨doc, hdoc⟩⟩
  · rintro ⟨flat, hflat, hemits⟩
    obtain ⟨doc, hdoc⟩ := (exists_assemble_eq_ok_iff _ _ _).mpr hemits
    exact ⟨_, generate_eq_ok_iff.mpr ⟨flat, doc, hflat, hdoc, rfl⟩⟩

theorem exists_signatures_iff {schema : Schema} :
    (∃ text, Bridge.signatures schema = .ok text) ↔
      ∃ flat, flatten .overwrite schema = .ok flat ∧
        ∀ m ∈ flat.values, ∀ method ∈ m.methods, Emits m method := by
  rw [flatten_overwrite]
  constructor
  · rintro ⟨text, h⟩
    rw [Bridge.signatures, flatten_overwrite] at h
    obtain ⟨flat, hflat, h⟩ := bind_eq_ok_iff.mp h
    obtain ⟨lines, hlines, -⟩ := bind_eq_ok_iff.mp h
    have hemits := (exists_mapM_walk_eq_ok_iff moduleSignatures_eq_error_iff).mp
      ⟨lines, hlines⟩
    exact ⟨flat, hflat, hemits⟩
  · rintro ⟨flat, hflat, hemits⟩
    obtain rfl := Except.ok.inj hflat
    exact ⟨_, signatures_of_emits hemits⟩

section Products

variable {schema : Schema}

theorem product_signatures
    (params : SignaturesParams) {text : String}
    (h : Bridge.signatures schema = .ok text) :
    (Invocation.signatures params).product schema = .ok (.printed text) :=
  bind_eq_ok_iff.mpr ⟨text, h, rfl⟩

variable {params : GenerateParams} {artifact : Artifact}
  (h : (GenerateArgs.ofParams params).artifact schema = .ok artifact)

include h

theorem product_generate_of_no_directory (hnone : params.outputDir = none) :
    (Invocation.generate params).product schema =
      .ok (.printed artifact.contents) := by
  refine bind_eq_ok_iff.mpr ⟨artifact, h, ?_⟩
  dsimp only [GenerateArgs.ofParams]
  rw [hnone]
  rfl

theorem product_generate_of_directory
    {directory : String} (hsome : params.outputDir = some directory) :
    (Invocation.generate params).product schema =
      .ok (.saved directory artifact) := by
  refine bind_eq_ok_iff.mpr ⟨artifact, h, ?_⟩
  dsimp only [GenerateArgs.ofParams]
  rw [hsome]
  rfl

end Products

theorem exists_product_iff {i : Invocation} {schema : Schema} :
    (∃ product, i.product schema = .ok product) ↔
      ∃ flat, flatten i.policy schema = .ok flat ∧
        ∀ m ∈ flat.values, ∀ method ∈ m.methods, Emits m method := by
  cases i with
  | signatures params =>
      refine Iff.trans ?_ exists_signatures_iff
      constructor
      · rintro ⟨product, h⟩
        obtain ⟨text, htext, -⟩ := bind_eq_ok_iff.mp h
        exact ⟨text, htext⟩
      · rintro ⟨text, htext⟩
        exact ⟨_, product_signatures params htext⟩
  | generate params =>
      refine Iff.trans ?_ exists_artifact_iff
      constructor
      · rintro ⟨product, h⟩
        obtain ⟨artifact, hartifact, -⟩ := bind_eq_ok_iff.mp h
        exact ⟨artifact, hartifact⟩
      · rintro ⟨artifact, hartifact⟩
        cases hdirectory : params.outputDir with
        | none =>
            exact ⟨_, product_generate_of_no_directory hartifact hdirectory⟩
        | some directory =>
            exact ⟨_, product_generate_of_directory hartifact hdirectory⟩

/-- What a command makes is decided by reading alone. -/
theorem World.eval_prepare (w : World) (i : Invocation) :
    w.tree.eval (w.system.prepare i) =
      ((w.loadSchema i.schemaPath).mapError .load >>= fun schema =>
          (i.product schema).mapError .bridge,
        w.tree) := by
  have hload :
      w.tree.eval (ExceptT.adapt .load (w.system.loadSchema i.schemaPath)) =
        ((w.loadSchema i.schemaPath).mapError Failure.load, w.tree) := by
    rw [Tree.eval_adapt, w.eval_loadSchema, w.loadSchema_eq]
  exact Tree.eval_bind_of_reads hload fun _ => rfl

theorem World.eval_prepare_of_loads
    {w : World} {i : Invocation} {schema : Schema}
    (h : w.loadSchema i.schemaPath = .ok schema) :
    w.tree.eval (w.system.prepare i) =
      ((i.product schema).mapError .bridge, w.tree) := by
  rw [w.eval_prepare, h]
  rfl

/-- A step that fails is noticed before anything is delivered. -/
theorem perform_of_fails {w : World} {i : Invocation} (h : Fails w i) :
    ∃ failure, w.tree.eval (w.system.perform i) = (.error failure, w.tree) := by
  cases hload : w.loadSchema i.schemaPath with
  | error e =>
      have hprepare := w.eval_prepare i
      rw [hload] at hprepare
      exact ⟨.load e, Tree.eval_bind_of_error hprepare⟩
  | ok schema =>
  cases hproduct : i.product schema with
  | error e =>
      have hprepare := World.eval_prepare_of_loads hload
      rw [hproduct] at hprepare
      exact ⟨.bridge e, Tree.eval_bind_of_error hprepare⟩
  | ok product =>
      have hsucceeds : Succeeds w i schema :=
        ⟨loadSchema_eq_ok_iff.mp hload,
          exists_product_iff.mp ⟨product, hproduct⟩⟩
      exact absurd h hsucceeds.not_fails

theorem perform_of_loads
    {w : World} {i : Invocation} {text : String} {raw : Raw.Schema}
    {schema : Schema} {product : Product} (h : Loads w i text raw schema)
    (hproduct : i.product schema = .ok product) :
    w.tree.eval (w.system.perform i) =
      w.tree.eval (w.system.deliver product) := by
  have hprepare :=
    World.eval_prepare_of_loads (loadSchema_eq_ok_iff.mpr ⟨text, raw, h⟩)
  rw [hproduct] at hprepare
  exact Tree.eval_bind_of_ok hprepare

/-! ## Delivery -/

/-- The directory can be made, and a file can be written at the path then. -/
def CanSave (t : Tree) (directory path : String) (contents : ByteArray) :
    Prop :=
  (t.makeDirectories directory).failure = none ∧
    ∃ t', (t.makeDirectories directory).tree.write path contents = .ok t'

theorem artifactName_eq (spec : String) :
    artifactName spec = spec ++ "-generated.cpp" := by
  unfold artifactName sourceExtension
  rw [String.append_assoc]
  rfl

theorem artifactPath_of_artifact
    {params : GenerateParams} {schema : Schema} {artifact : Artifact}
    (h : (GenerateArgs.ofParams params).artifact schema = .ok artifact)
    (directory : String) :
    artifactPath directory artifact =
      join directory
        ((GenerateArgs.ofParams params).specName ++ "-generated.cpp") := by
  obtain ⟨flat, doc, -, -, rfl⟩ := generate_eq_ok_iff.mp h
  rw [← artifactName_eq]
  rfl

/-- An artifact is written after the directory is made. -/
theorem writeArtifact_eq (t : Tree) (directory : String) (a : Artifact) :
    writeArtifact t directory a =
      (t.makeDirectories directory).andThen fun made =>
        .ofExcept made
          (made.write (artifactPath directory a) a.contents.toUTF8) := by
  have hmake : t.eval (Tree.access.makeDirectories directory) =
      ((t.makeDirectories directory).outcome,
        (t.makeDirectories directory).tree) :=
    rfl
  unfold writeArtifact Tree.Edit.ofProgram saveArtifact Tree.Edit.andThen
  generalize t.makeDirectories directory = edit at hmake ⊢
  obtain ⟨made, failure⟩ := edit
  cases failure with
  | some e => rw [Tree.eval_bind_of_error hmake]
  | none =>
      rw [Tree.eval_bind_of_ok hmake, Tree.access, Tree.eval_change]
      dsimp only
      cases made.write (artifactPath directory a) a.contents.toUTF8 with
      | error e => rfl
      | ok changed => rfl

theorem writeArtifact_of_canSave
    {t : Tree} {directory : String} {a : Artifact}
    (h : CanSave t directory (artifactPath directory a) a.contents.toUTF8) :
    (writeArtifact t directory a).failure = none ∧
      t.WritesOnly (writeArtifact t directory a).tree (artifactPath directory a)
        a.contents.toUTF8 := by
  obtain ⟨hmade, t', hwrite⟩ := h
  rw [writeArtifact_eq, Tree.Edit.andThen, hmade]
  dsimp only
  rw [hwrite]
  refine ⟨rfl, ?_⟩
  exact (t.makeDirectories_extends directory).writesOnly
    (Tree.write_writesOnly hwrite)

theorem writeArtifact_of_not_canSave
    {t : Tree} {directory : String} {a : Artifact}
    (h : ¬CanSave t directory (artifactPath directory a) a.contents.toUTF8) :
    ∃ e, (writeArtifact t directory a).failure = some e := by
  rw [writeArtifact_eq, Tree.Edit.andThen]
  cases hmade : (t.makeDirectories directory).failure with
  | some e => exact ⟨e, hmade⟩
  | none =>
      dsimp only
      cases hwrite : (t.makeDirectories directory).tree.write
          (artifactPath directory a) a.contents.toUTF8 with
      | error e => exact ⟨e, rfl⟩
      | ok t' => exact absurd ⟨hmade, t', hwrite⟩ h

section Saving

variable (w : World) (directory : String) (a : Artifact)

theorem World.eval_saveArtifact :
    w.tree.eval (ExceptT.adapt (.write directory)
        (saveArtifact w.system.toAccess directory a)) =
      ((writeArtifact w.tree directory a).outcome.mapError
        (Failure.write directory),
        (writeArtifact w.tree directory a).tree) := by
  rw [Tree.eval_adapt, Tree.eval_eq_ofProgram]
  rfl

theorem World.eval_deliver_of_saved
    (hsaved : (writeArtifact w.tree directory a).failure = none) :
    w.tree.eval (w.system.deliver (.saved directory a)) =
      (.ok "", (writeArtifact w.tree directory a).tree) := by
  have hsave := w.eval_saveArtifact directory a
  rw [Tree.Edit.outcome, hsaved] at hsave
  exact Tree.eval_bind_of_ok hsave

theorem World.eval_deliver_of_not_saved
    {e : OsError}
    (hfailed : (writeArtifact w.tree directory a).failure = some e) :
    w.tree.eval (w.system.deliver (.saved directory a)) =
      (.error (.write directory e),
        (writeArtifact w.tree directory a).tree) := by
  have hsave := w.eval_saveArtifact directory a
  rw [Tree.Edit.outcome, hfailed] at hsave
  exact Tree.eval_bind_of_error hsave

end Saving

/-! ## Whole runs -/

/-- A run whose arguments are refused, or answered with help, changes no
file. -/
theorem run_of_usage
    (w : World) {args : List String} {e : UsageError}
    (hargs : Invocation.ofArguments args = .error e) :
    run w args = .ofUsage w.tree e := by
  unfold run System.run
  rw [hargs]
  rfl

theorem run_of_arguments
    (w : World) {args : List String} {i : Invocation}
    (hargs : Invocation.ofArguments args = .ok i) :
    run w args =
      ⟨.ofResult (w.tree.eval (w.system.perform i)).1,
        (w.tree.eval (w.system.perform i)).2⟩ := by
  unfold run System.run
  rw [hargs]
  rfl

/-- A run does all or nothing.  If a step fails, its status is 1, nothing is
printed and no file or directory changes.  If all steps succeed, the listing
prints exactly the listing; generation prints exactly the contents of the
artifact, or writes them to one file in the output directory and prints
nothing. -/
theorem run_all_or_nothing
    (w : World) {args : List String} {i : Invocation}
    (hargs : Invocation.ofArguments args = .ok i) :
    (Fails w i ∨ ∃ schema, Succeeds w i schema) ∧
    (Fails w i →
      (run w args).exit = 1 ∧ (run w args).stdout = "" ∧
        (run w args).tree = w.tree) ∧
    ∀ schema, Succeeds w i schema →
      (∀ params, i = .signatures params →
        ∃ text, Bridge.signatures schema = .ok text ∧
          (run w args).exit = 0 ∧ (run w args).stdout = text ∧
          (run w args).tree = w.tree) ∧
      ∀ params, i = .generate params →
        ∃ artifact,
          (GenerateArgs.ofParams params).artifact schema = .ok artifact ∧
          (params.outputDir = none →
            (run w args).exit = 0 ∧ (run w args).stdout = artifact.contents ∧
              (run w args).tree = w.tree) ∧
          ∀ directory path, params.outputDir = some directory →
            path = join directory
              ((GenerateArgs.ofParams params).specName ++ "-generated.cpp") →
            (run w args).stdout = "" ∧
            (CanSave w.tree directory path artifact.contents.toUTF8 →
              (run w args).exit = 0 ∧
                w.tree.WritesOnly (run w args).tree path
                  artifact.contents.toUTF8) ∧
            (¬CanSave w.tree directory path artifact.contents.toUTF8 →
              (run w args).exit = 1) := by
  rw [run_of_arguments w hargs]
  refine ⟨fails_or_succeeds w i, ?_, ?_⟩
  · intro hfails
    obtain ⟨failure, hfailed⟩ := perform_of_fails hfails
    rw [hfailed]
    exact ⟨rfl, rfl, rfl⟩
  · rintro schema ⟨⟨text, raw, hloads⟩, htranslates⟩
    constructor
    · rintro params rfl
      obtain ⟨listing, hlisting⟩ := exists_signatures_iff.mpr htranslates
      rw [perform_of_loads hloads (product_signatures params hlisting)]
      exact ⟨listing, hlisting, rfl, rfl, rfl⟩
    · rintro params rfl
      obtain ⟨artifact, hartifact⟩ := exists_artifact_iff.mpr htranslates
      refine ⟨artifact, hartifact, ?_, ?_⟩
      · intro hnone
        have hproduct := product_generate_of_no_directory hartifact hnone
        rw [perform_of_loads hloads hproduct]
        exact ⟨rfl, rfl, rfl⟩
      · rintro directory path hsome rfl
        have hproduct := product_generate_of_directory hartifact hsome
        rw [perform_of_loads hloads hproduct,
          ← artifactPath_of_artifact hartifact directory]
        by_cases hsave : CanSave w.tree directory
            (artifactPath directory artifact) artifact.contents.toUTF8
        · obtain ⟨hsaved, hwrites⟩ := writeArtifact_of_canSave hsave
          rw [w.eval_deliver_of_saved directory artifact hsaved]
          exact ⟨rfl, fun _ => ⟨rfl, hwrites⟩, fun hnot => absurd hsave hnot⟩
        · obtain ⟨e, hfailed⟩ := writeArtifact_of_not_canSave hsave
          rw [w.eval_deliver_of_not_saved directory artifact hfailed]
          exact ⟨rfl, fun hcan => absurd hcan hsave, fun _ => rfl⟩

/-- Standard input holds a schema, and there are no files. -/
def inputWorld (raw : Raw.Schema) : World := ⟨Tree.empty, raw.print.toUTF8⟩

theorem loads_inputWorld
    {raw : Raw.Schema} {schema : Schema} {i : Invocation}
    (hpath : i.schemaPath = inputPath) (hkeys : raw.KeysDistinct)
    (hdepth : raw.tree.depth ≤ Raw.maxLevels)
    (hschema : Schema.ofRaw raw = .ok schema) :
    Loads (inputWorld raw) i raw.print raw schema where
  read := by
    rw [World.readText_eq, if_pos hpath, inputWorld, textOf_toUTF8]
    rfl
  parsed := Raw.Schema.parse_print_eq_ok hkeys hdepth
  converted := hschema

/-- A method as written, with a result type that is only a tag. -/
def rawMethod (name : String) (params : List Raw.Param) (result : String) :
    Raw.Method :=
  ⟨name, "FunctionTypeAnnotation", params, result, false, none, none, none⟩

/-- Two modules as written.  The methods of the first one and the first method
of the second one can be translated. -/
def rawModules (more : List Raw.Method) : Raw.Schema :=
  ⟨⟨[("specs", ⟨some ⟨[
    ("Clock", ⟨Table.empty, [
      rawMethod "now" [] "GenericPromiseTypeAnnotation",
      rawMethod "getConstants" [] "ObjectTypeAnnotation",
      rawMethod "set"
        [⟨"at", true, "DoubleTypeAnnotation", false, none, none, none⟩]
        "VoidTypeAnnotation"]⟩),
    ("Alarm", ⟨Table.empty,
      rawMethod "ring" [] "VoidTypeAnnotation" :: more⟩)]⟩⟩)]⟩⟩

theorem keysDistinct_rawModules (more : List Raw.Method) :
    (rawModules more).KeysDistinct := by
  refine ⟨List.nodup_singleton _, List.forall_mem_singleton.mpr ?_⟩
  rintro modules ⟨⟩
  refine ⟨show ["Clock", "Alarm"].Nodup by decide, ?_⟩
  rw [List.forall_mem_cons, List.forall_mem_singleton]
  exact ⟨List.nodup_nil, List.nodup_nil⟩

/-- A module with a single method, which can be translated. -/
def ringModule : NativeModule :=
  ⟨"Alarm", [⟨"ring", [], .void, false⟩], Table.empty⟩

def ringSchema : Schema := ⟨⟨[("specs", [clockModule, ringModule])]⟩⟩

/-- A method that returns a callback, as written. -/
def rawSnooze : Raw.Method := rawMethod "snooze" [] "FunctionTypeAnnotation"

/-- A command line that saves into a directory, and what it asks for. -/
def savingArguments : List String := ["generate", "-", "-l", "App", "-o", "out"]

def savingParams : GenerateParams :=
  ⟨"-", "App", none, some "out", false, false, 0⟩

theorem succeeds_rawModules :
    Succeeds (inputWorld (rawModules [])) (.generate savingParams)
      ringSchema where
  loads :=
    ⟨_, _, loads_inputWorld rfl (keysDistinct_rawModules []) (by decide) rfl⟩
  translates := by
    have hemits : ∀ m ∈ [clockModule, ringModule], ∀ method ∈ m.methods,
        Emits m method := by
      rw [List.forall_mem_cons, List.forall_mem_singleton]
      exact ⟨emits_clockModule, List.forall_mem_singleton.mpr ⟨_, rfl⟩⟩
    exact ⟨_, rfl, hemits⟩

/-- The last method of the last module returns a callback. -/
theorem fails_rawModules :
    Fails (inputWorld (rawModules [rawSnooze])) (.generate savingParams) := by
  have hloads : Loads (inputWorld (rawModules [rawSnooze]))
      (.generate savingParams) _ _ alarmSchema :=
    loads_inputWorld rfl (keysDistinct_rawModules [rawSnooze]) (by decide) rfl
  have hmodule : alarmModule ∈ [clockModule, alarmModule] := by simp
  have hmethod :
      ⟨"snooze", [], .callback false, false⟩ ∈ alarmModule.methods := by
    simp [alarmModule]
  exact .translating hloads rfl hmodule hmethod rfl

/-- Two modules are bridged into one file.  With a bad method after the good
ones the same command line leaves no trace. -/
theorem run_all_or_nothing_modules :
    Invocation.ofArguments savingArguments = .ok (.generate savingParams) ∧
      Succeeds (inputWorld (rawModules [])) (.generate savingParams)
        ringSchema ∧
      (∃ artifact,
        (GenerateArgs.ofParams savingParams).artifact ringSchema =
          .ok artifact ∧
        (run (inputWorld (rawModules [])) savingArguments).exit = 0 ∧
        (run (inputWorld (rawModules [])) savingArguments).stdout = "" ∧
        Tree.empty.WritesOnly
          (run (inputWorld (rawModules [])) savingArguments).tree
          "out/App-generated.cpp" artifact.contents.toUTF8) ∧
      Fails (inputWorld (rawModules [rawSnooze])) (.generate savingParams) ∧
      (run (inputWorld (rawModules [rawSnooze])) savingArguments).exit = 1 ∧
      (run (inputWorld (rawModules [rawSnooze])) savingArguments).stdout = "" ∧
      (run (inputWorld (rawModules [rawSnooze])) savingArguments).tree =
        Tree.empty := by
  have hargs : Invocation.ofArguments savingArguments =
      .ok (.generate savingParams) := rfl
  obtain ⟨-, -, hdelivers⟩ :=
    run_all_or_nothing (inputWorld (rawModules [])) hargs
  obtain ⟨-, hgenerates⟩ := hdelivers ringSchema succeeds_rawModules
  obtain ⟨artifact, hartifact, -, hsaves⟩ := hgenerates savingParams rfl
  obtain ⟨hstdout, hsaved, -⟩ := hsaves "out" "out/App-generated.cpp" rfl rfl
  obtain ⟨hexit, hwrites⟩ := hsaved ⟨rfl, _, rfl⟩
  obtain ⟨-, hnothing, -⟩ :=
    run_all_or_nothing (inputWorld (rawModules [rawSnooze])) hargs
  exact ⟨hargs, succeeds_rawModules,
    ⟨artifact, hartifact, hexit, hstdout, hwrites⟩, fails_rawModules,
    hnothing fails_rawModules⟩

end NativeGlue.Command
