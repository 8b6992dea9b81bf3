import NativeGlue.Proofs.Emission
import NativeGlue.Proofs.Flatten

/-!
# The shape of a document

A document lists, module by module, the host functions of the module and then
the class that registers them, and it ends with the provider.  The statements
are about the document alone: it is cut at its classes, and each class is
compared with the host functions that stand between it and the class before.
-/

namespace NativeGlue.Bridge

/-! ## Cutting a document at its classes -/

/-- A class with the host functions that stand before it. -/
structure ClassRun where
  thunks : List Thunk
  bridgeClass : BridgeClass

namespace ClassRun

/-- The declarations of a run. -/
def items (run : ClassRun) : List Item :=
  run.thunks.map Item.thunk ++ [.bridgeClass run.bridgeClass]

/-- The host functions of a run, each with the registration at its place. -/
def pairs (run : ClassRun) : List (Thunk × Entry) :=
  run.thunks.zip run.bridgeClass.entries

/-- The class of a run registers the methods of a module: all of them but those
that are left out, in order, each with the host function at its place. -/
structure Registers (run : ClassRun) (m : NativeModule) : Prop where
  class_name : run.bridgeClass.name = "Native" ++ m.name ++ "SpecJSI"
  entries_length : run.bridgeClass.entries.length = run.thunks.length
  serves :
    List.Forall₂ (fun method pair => Serves m.name method pair.1 pair.2)
      (m.methods.filter fun method => !method.isLeftOut) run.pairs

end ClassRun

/-- The classes among some declarations, each with the host functions since the
class before it; `pending` are those that stand before the declarations. -/
def classRunsFrom (pending : List Thunk) : List Item → List ClassRun
  | [] => []
  | .thunk t :: items => classRunsFrom (pending ++ [t]) items
  | .bridgeClass c :: items => ⟨pending, c⟩ :: classRunsFrom [] items
  | .provider _ :: items => classRunsFrom pending items

/-- The classes of a document, each with the host functions since the class
before it. -/
def Document.classRuns (d : Document) : List ClassRun :=
  classRunsFrom [] d.items

theorem classRunsFrom_thunks
    (thunks pending : List Thunk) (items : List Item) :
    classRunsFrom pending (thunks.map Item.thunk ++ items) =
      classRunsFrom (pending ++ thunks) items := by
  induction thunks generalizing pending with
  | nil => simp
  | cons t thunks ih =>
      rw [List.map_cons, List.cons_append, classRunsFrom, ih]
      simp

theorem classRunsFrom_flatMap_items
    (runs : List ClassRun) (p : Provider) :
    classRunsFrom [] (runs.flatMap ClassRun.items ++ [.provider p]) = runs := by
  induction runs with
  | nil => rfl
  | cons run runs ih =>
      rw [List.flatMap_cons, ClassRun.items, List.append_assoc,
        List.append_assoc, classRunsFrom_thunks]
      simp only [List.nil_append, List.singleton_append, classRunsFrom, ih]

theorem map_bridgeClass_classRunsFrom
    (pending : List Thunk) (items : List Item) :
    (classRunsFrom pending items).map (·.bridgeClass) =
      items.filterMap Item.bridgeClass? := by
  induction items generalizing pending with
  | nil => rfl
  | cons item items ih =>
      cases item with
      | thunk t => exact ih (pending ++ [t])
      | bridgeClass c =>
          rw [classRunsFrom, List.map_cons, ih]
          rfl
      | provider p => exact ih pending

/-! ## The blocks of an assembled document -/

/-- A block as a run. -/
def Block.run (b : Block) : ClassRun :=
  ⟨b.methods.map (·.thunk), b.bridgeClass⟩

@[simp] theorem Block.items_run (b : Block) : b.run.items = b.items := by
  simp [Block.run, ClassRun.items, Block.items]

@[simp] theorem Block.pairs_run (b : Block) :
    b.run.pairs = b.methods.map fun e => (e.thunk, e.entry) := by
  simp [Block.run, ClassRun.pairs, Block.bridgeClass, List.zip_map']

theorem emitWithin_eq_ok_iff
    {m : NativeModule} {method : Method} {emitted : Option Emitted} :
    emitWithin m method = .ok emitted ↔
      emitMethod m.name m.aliases method = .ok emitted :=
  mapError_eq_ok_iff

theorem Block.ofModule_eq_ok_iff {m : NativeModule} {b : Block} :
    Block.ofModule m = .ok b ↔
      ∃ emitted, List.Forall₂ (fun method r => emitWithin m method = .ok r)
          m.methods emitted ∧
        b = ⟨m.name, emitted.filterMap id⟩ := by
  unfold Block.ofModule
  rw [bind_eq_ok_iff]
  constructor
  · rintro ⟨emitted, hemitted, hb⟩
    exact ⟨emitted, mapM_eq_ok_iff.mp hemitted, (Except.ok.inj hb).symm⟩
  · rintro ⟨emitted, hemitted, rfl⟩
    exact ⟨emitted, mapM_eq_ok_iff.mpr hemitted, rfl⟩

/-- What is kept of the emitted methods belongs to the methods that are not
left out. -/
theorem forall₂_emitted_kept
    {m : NativeModule} {methods : List Method} {emitted : List (Option Emitted)}
    (hemitted : List.Forall₂ (fun method r => emitWithin m method = .ok r)
      methods emitted) :
    List.Forall₂
      (fun method e => emitMethod m.name m.aliases method = .ok (some e))
      (methods.filter fun method => !method.isLeftOut)
      (emitted.filterMap id) := by
  induction hemitted with
  | nil => exact List.Forall₂.nil
  | @cons method r methods emitted hr _ ih =>
      rw [emitWithin_eq_ok_iff] at hr
      cases r with
      | none =>
          have hout : method.isLeftOut = true :=
            (emitMethod_eq_none_iff m.name m.aliases).mp hr
          simpa [hout] using ih
      | some e =>
          have hkept : method.isLeftOut = false :=
            isLeftOut_eq_false_of_emitMethod_some hr
          simpa [hkept, hr] using ih

theorem Block.run_registers
    {m : NativeModule} {b : Block} (hb : Block.ofModule m = .ok b) :
    b.run.Registers m := by
  obtain ⟨emitted, hemitted, rfl⟩ := Block.ofModule_eq_ok_iff.mp hb
  constructor
  · rfl
  · simp [Block.run, Block.bridgeClass]
  · rw [Block.pairs_run, List.forall₂_map_right_iff]
    exact (forall₂_emitted_kept hemitted).imp fun _ _ h => emitMethod_serves h

theorem assemble_eq_ok_iff
    {library spec : String} {config : Config} {modules : Table NativeModule}
    {doc : Document} :
    assemble library spec config modules = .ok doc ↔
      ∃ blocks, List.Forall₂ (fun m b => Block.ofModule m = .ok b)
          modules.values blocks ∧
        doc = Document.ofBlocks library spec config blocks := by
  unfold assemble
  rw [bind_eq_ok_iff]
  constructor
  · rintro ⟨blocks, hblocks, hdoc⟩
    exact ⟨blocks, mapM_eq_ok_iff.mp hblocks, (Except.ok.inj hdoc).symm⟩
  · rintro ⟨blocks, hblocks, rfl⟩
    exact ⟨blocks, mapM_eq_ok_iff.mpr hblocks, rfl⟩

theorem Document.items_ofBlocks
    (library spec : String) (config : Config) (blocks : List Block) :
    (Document.ofBlocks library spec config blocks).items =
      (blocks.map Block.run).flatMap ClassRun.items ++
        [.provider ⟨providerName library, blocks.map Block.providerCase⟩] := by
  simp [Document.ofBlocks, List.flatMap_map]

@[simp] theorem Document.classRuns_ofBlocks
    (library spec : String) (config : Config) (blocks : List Block) :
    (Document.ofBlocks library spec config blocks).classRuns =
      blocks.map Block.run := by
  rw [Document.classRuns, Document.items_ofBlocks, classRunsFrom_flatMap_items]

/-! ## Names of classes -/

theorem className_injective : Function.Injective className := by
  intro a b h
  exact (String.append_right_inj "Native").mp
    ((String.append_left_inj "SpecJSI").mp h)

/-- Each name of a class in a document of flattened modules is given once. -/
theorem nodup_classNames_of_assemble
    {library spec : String} {config : Config} {s : Schema} {doc : Document}
    (hdoc : assemble library spec config (keptModules s) = .ok doc) :
    (doc.bridgeClasses.map (·.name)).Nodup := by
  obtain ⟨blocks, hblocks, rfl⟩ := assemble_eq_ok_iff.mp hdoc
  have hnames : (keptModules s).values.map (·.name) =
      blocks.map (·.moduleName) := by
    rw [← List.forall₂_eq_eq_eq, List.forall₂_map_left_iff,
      List.forall₂_map_right_iff]
    refine hblocks.imp fun m b hb => ?_
    obtain ⟨emitted, -, rfl⟩ := Block.ofModule_eq_ok_iff.mp hb
    rfl
  have hclasses : ((blocks.map Block.run).map (·.bridgeClass)).map (·.name) =
      (blocks.map (·.moduleName)).map className := by
    simp [Block.run, Block.bridgeClass]
  rw [Document.bridgeClasses, ← map_bridgeClass_classRunsFrom [],
    ← Document.classRuns, Document.classRuns_ofBlocks, hclasses, ← hnames,
    names_keptModules]
  exact (keptModules_keysDistinct s).map className_injective

/-! ## The document as a whole -/

/-- The declarations of a document of flattened modules are, for each module in
order, the host functions of the methods that are not left out and then the
class that registers them, and at the end the provider. -/
theorem assemble_lockstep
    {library spec : String} {config : Config} {s : Schema}
    {flat : Table NativeModule} {doc : Document}
    (hflat : flatten config.duplicates s = .ok flat)
    (hdoc : assemble library spec config flat = .ok doc) :
    List.Forall₂ ClassRun.Registers doc.classRuns flat.values ∧
      (doc.bridgeClasses.map (·.name)).Nodup ∧
      ∃ provider : Provider,
        doc.items = doc.classRuns.flatMap ClassRun.items ++
          [.provider provider] ∧
        doc.items.filterMap Item.provider? = [provider] := by
  obtain rfl := eq_keptModules_of_flatten hflat
  have hnodup := nodup_classNames_of_assemble hdoc
  obtain ⟨blocks, hblocks, rfl⟩ := assemble_eq_ok_iff.mp hdoc
  refine ⟨?_, hnodup,
    ⟨providerName library, blocks.map Block.providerCase⟩, ?_, ?_⟩
  · rw [Document.classRuns_ofBlocks, List.forall₂_map_left_iff]
    exact (hblocks.imp fun _ _ hb => Block.run_registers hb).flip
  · rw [Document.classRuns_ofBlocks, Document.items_ofBlocks]
  · have hrun : ∀ run : ClassRun, run.items.filterMap Item.provider? = [] := by
      intro run
      simp [ClassRun.items, List.filterMap_eq_nil_iff, Item.provider?]
    rw [Document.items_ofBlocks, List.filterMap_append, List.filterMap_flatMap]
    simp [hrun, Item.provider?]

/-- A module with a promise, a parameter that admits null and an accessor that
declares no constants. -/
def clockModule : NativeModule where
  name := "Clock"
  methods :=
    [⟨"now", [], .promise false, false⟩,
      ⟨"getConstants", [], .object (.structural []) false, true⟩,
      ⟨"set", [⟨"at", true, .numeric .double false⟩], .void, false⟩]
  aliases := Table.empty

def clockSchema : Schema := ⟨⟨[("specs", [clockModule])]⟩⟩

theorem assemble_lockstep_clock :
    ∃ flat doc,
      flatten .reject clockSchema = .ok flat ∧
      assemble "App" "App" { duplicates := .reject } flat = .ok doc ∧
      doc.thunks.map (·.argNames) = [["promise"], ["at"]] ∧
      List.Forall₂ ClassRun.Registers doc.classRuns flat.values ∧
      (doc.bridgeClasses.map (·.name)).Nodup ∧
      ∃ provider : Provider,
        doc.items = doc.classRuns.flatMap ClassRun.items ++
          [.provider provider] ∧
        doc.items.filterMap Item.provider? = [provider] :=
  ⟨_, _, rfl, rfl, rfl, assemble_lockstep
    (show flatten (Config.duplicates { duplicates := .reject }) clockSchema = _
      from rfl) rfl⟩

end NativeGlue.Bridge
