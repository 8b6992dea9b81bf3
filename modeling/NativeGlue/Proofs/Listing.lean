import NativeGlue.Proofs.Refusal

/-!
# The listing of signatures and the document

The listing and the document are built by separate walks over the modules of a
schema.  This module shows that they fail together and, when they succeed, say
the same: the lines of the listing that are not marked as skipped run along the
host functions and registrations of the document.
-/

namespace NativeGlue.Bridge

/-! ## What the two walks find -/

/-- What a method of a module is emitted as, if it is. -/
def emission (m : NativeModule) (method : Method) : Option Emitted :=
  (emitMethod m.name m.aliases method).toOption.join

theorem Emits.emitMethod_eq
    {m : NativeModule} {method : Method} (h : Emits m method) :
    emitMethod m.name m.aliases method = .ok (emission m method) := by
  obtain ⟨emitted, hemitted⟩ := h
  rw [emission, hemitted]
  rfl

theorem Emits.emission_eq_none_iff
    {m : NativeModule} {method : Method} (h : Emits m method) :
    emission m method = none ↔ method.isLeftOut = true := by
  rw [← emitMethod_eq_none_iff m.name m.aliases, h.emitMethod_eq,
    Except.ok.injEq]

theorem Emits.emission_method_eq
    {m : NativeModule} {method : Method} {e : Emitted} (h : Emits m method)
    (he : emission m method = some e) :
    e.thunk.method = method.name := by
  have hemit := h.emitMethod_eq
  rw [he] at hemit
  exact (emitMethod_serves hemit).thunk_method

/-- The declarations of a module whose methods can be emitted. -/
def emittedBlock (m : NativeModule) : Block :=
  ⟨m.name, m.methods.filterMap (emission m)⟩

section Success

variable {modules : List NativeModule}
  (hemits : ∀ m ∈ modules, ∀ method ∈ m.methods, Emits m method)

include hemits

theorem mapM_emitWithin_of_emits {m : NativeModule} (hm : m ∈ modules) :
    m.methods.mapM (emitWithin m) = .ok (m.methods.map (emission m)) :=
  mapM_eq_ok_map fun method hmethod =>
    emitWithin_eq_ok_iff.mpr (hemits m hm method hmethod).emitMethod_eq

theorem mapM_ofModule_of_emits :
    modules.mapM Block.ofModule = .ok (modules.map emittedBlock) := by
  apply mapM_eq_ok_map
  intro m hm
  rw [Block.ofModule, mapM_emitWithin_of_emits hemits hm]
  simp [bind, Except.bind, pure, Except.pure, emittedBlock, List.filterMap_map]

theorem mapM_moduleSignatures_of_emits :
    modules.mapM moduleSignatures =
      .ok (modules.map fun m => m.methods.map fun method =>
        signatureLine m.name method.name (emission m method)) := by
  apply mapM_eq_ok_map
  intro m hm
  apply mapM_eq_ok_map
  intro method hmethod
  rw [emitWithin_eq_ok_iff.mpr (hemits m hm method hmethod).emitMethod_eq]
  rfl

end Success

theorem eq_ofBlocks_of_assemble
    {library spec : String} {config : Config} {modules : Table NativeModule}
    {doc : Document}
    (hdoc : assemble library spec config modules = .ok doc) :
    doc = Document.ofBlocks library spec config
      (modules.values.map emittedBlock) := by
  have hemits := (exists_assemble_eq_ok_iff library spec config).mp ⟨doc, hdoc⟩
  obtain ⟨blocks, hblocks, rfl⟩ := assemble_eq_ok_iff.mp hdoc
  have hwalk := mapM_ofModule_of_emits hemits
  rw [mapM_eq_ok_iff.mpr hblocks] at hwalk
  rw [Except.ok.inj hwalk]

/-- What holds of the host functions of emitted methods, of the classes that
register emitted methods and of the provider holds of all declarations. -/
theorem forall_items_of_assemble
    {library spec : String} {config : Config} {modules : Table NativeModule}
    {doc : Document} {P : Item → Prop}
    (hdoc : assemble library spec config modules = .ok doc)
    (hthunk : ∀ m ∈ modules.values, ∀ method ∈ m.methods, ∀ e,
      emitMethod m.name m.aliases method = .ok (some e) → P (.thunk e.thunk))
    (hclass : ∀ m ∈ modules.values, ∀ entries : List Entry,
      (∀ entry ∈ entries, ∃ method ∈ m.methods, ∃ e,
        emitMethod m.name m.aliases method = .ok (some e) ∧ e.entry = entry) →
      P (.bridgeClass ⟨className m.name, entries⟩))
    (hprovider : P (.provider ⟨providerName library,
      modules.values.map fun m => ⟨m.name, className m.name⟩⟩)) :
    ∀ item ∈ doc.items, P item := by
  have hemits := (exists_assemble_eq_ok_iff library spec config).mp ⟨doc, hdoc⟩
  have hmethods : ∀ m ∈ modules.values, ∀ e ∈ (emittedBlock m).methods,
      ∃ method ∈ m.methods,
        emitMethod m.name m.aliases method = .ok (some e) := by
    intro m hm e he
    obtain ⟨method, hmethod, hemission⟩ := List.mem_filterMap.mp he
    refine ⟨method, hmethod, ?_⟩
    rw [(hemits m hm method hmethod).emitMethod_eq, hemission]
  rw [eq_ofBlocks_of_assemble hdoc, Document.ofBlocks]
  intro item hitem
  rcases List.mem_append.mp hitem with hblock | hlast
  · obtain ⟨b, hb, hmem⟩ := List.mem_flatMap.mp hblock
    obtain ⟨m, hm, rfl⟩ := List.mem_map.mp hb
    rcases List.mem_append.mp hmem with hthunks | hend
    · obtain ⟨e, he, rfl⟩ := List.mem_map.mp hthunks
      obtain ⟨method, hmethod, hemit⟩ := hmethods m hm e he
      exact hthunk m hm method hmethod e hemit
    · rw [List.mem_singleton.mp hend]
      apply hclass m hm
      intro entry hentry
      obtain ⟨e, he, rfl⟩ := List.mem_map.mp hentry
      obtain ⟨method, hmethod, hemit⟩ := hmethods m hm e he
      exact ⟨method, hmethod, e, hemit, rfl⟩
  · rw [List.mem_singleton.mp hlast, List.map_map]
    exact hprovider

theorem moduleSignatures_eq_error_iff (m : NativeModule) (e : Error) :
    moduleSignatures m = .error e ↔ FailsFirst (emitWithin m) m.methods e := by
  rw [moduleSignatures, mapM_eq_error_iff]
  exact failsFirst_bind_pure_iff

theorem signatures_eq_error_iff {s : Schema} {e : Error} :
    signatures s = .error e ↔
      ∃ m method source, FirstRefused (keptModules s).values m method source ∧
        e = .inMethod m.name method.name source := by
  rw [← mapM_walk_eq_error_iff moduleSignatures_eq_error_iff, signatures,
    flatten_overwrite]
  simp only [bind, Except.bind, pure, Except.pure]
  cases (keptModules s).values.mapM moduleSignatures <;> simp

theorem signatures_of_emits
    {s : Schema}
    (hemits : ∀ m ∈ (keptModules s).values, ∀ method ∈ m.methods,
      Emits m method) :
    signatures s = .ok (String.join ((keptModules s).values.flatMap fun m =>
      m.methods.map fun method =>
        signatureLine m.name method.name (emission m method))) := by
  rw [signatures, flatten_overwrite]
  simp only [bind, Except.bind, pure, Except.pure,
    mapM_moduleSignatures_of_emits hemits, List.flatMap_def]

/-! ## Rows of the listing -/

/-- A row of the listing: a method of a module, with its host function and its
registration unless it is skipped. -/
structure SignatureRow where
  moduleName : String
  method : String
  registered : Option (Thunk × Entry)

namespace SignatureRow

/-- The line of a row. -/
def line (r : SignatureRow) : String :=
  match r.registered with
  | none => r.moduleName ++ "." ++ r.method ++ " skipped\n"
  | some (t, e) =>
    r.moduleName ++ "." ++ t.method ++ " " ++ t.kind.name ++ " " ++
      t.descriptor.text ++ " " ++ toString e.arity ++ "\n"

/-- The class in which a row is registered, with what is registered. -/
def registration? (r : SignatureRow) : Option (String × Thunk × Entry) :=
  r.registered.map fun pair => (className r.moduleName, pair)

/-- A row is about a method of a module, and skips it exactly when it is left
out. -/
structure IsFor (r : SignatureRow) (m : NativeModule) (method : Method) :
    Prop where
  moduleName_eq : r.moduleName = m.name
  method_eq : r.method = method.name
  skipped_iff : r.registered = none ↔ method.isLeftOut = true

end SignatureRow

/-- The host functions of a document with their registrations, each with the
class that holds it. -/
def Document.registrations (d : Document) : List (String × Thunk × Entry) :=
  d.classRuns.flatMap fun run =>
    run.pairs.map fun pair => (run.bridgeClass.name, pair)

/-- The row of a method. -/
def signatureRow (m : NativeModule) (method : Method) : SignatureRow :=
  ⟨m.name, method.name, (emission m method).map fun e => (e.thunk, e.entry)⟩

theorem Emits.line_signatureRow
    {m : NativeModule} {method : Method} (h : Emits m method) :
    (signatureRow m method).line =
      signatureLine m.name method.name (emission m method) := by
  cases he : emission m method with
  | none => simp [signatureRow, SignatureRow.line, signatureLine, he]
  | some e =>
      simp [signatureRow, SignatureRow.line, signatureLine, he,
        h.emission_method_eq he]

theorem Emits.isFor_signatureRow
    {m : NativeModule} {method : Method} (h : Emits m method) :
    (signatureRow m method).IsFor m method :=
  ⟨rfl, rfl,
    by rw [← h.emission_eq_none_iff, signatureRow, Option.map_eq_none_iff]⟩

theorem registrations_ofBlocks
    (library spec : String) (config : Config) (modules : List NativeModule) :
    (Document.ofBlocks library spec config
        (modules.map emittedBlock)).registrations =
      (modules.flatMap fun m => m.methods.map (signatureRow m)).filterMap
        SignatureRow.registration? := by
  rw [Document.registrations, Document.classRuns_ofBlocks, List.map_map,
    List.flatMap_map, List.filterMap_flatMap]
  congr 1
  funext m
  rw [Function.comp_apply, Block.pairs_run, List.filterMap_map, List.map_map,
    emittedBlock, List.map_filterMap]
  congr 1
  funext method
  simp [SignatureRow.registration?, signatureRow, Block.run, Block.bridgeClass,
    Function.comp_def]

/-! ## Agreement -/

/-- Under the policy that overwrites, generation and the listing fail together
and with the same error.  Whenever generation succeeds, so does the listing, and
its rows go through the methods of the flattened modules: the rows that are not
skipped are the registrations of the document. -/
theorem generate_agrees_with_signatures
    (library spec header : String) (argComments : Bool) (s : Schema) :
    (∀ e, generate library spec ⟨.overwrite, argComments, header⟩ s = .error e ↔
      signatures s = .error e) ∧
    ((∃ a, generate library spec ⟨.overwrite, argComments, header⟩ s = .ok a) ↔
      ∃ text, signatures s = .ok text) ∧
    ∀ policy a, generate library spec ⟨policy, argComments, header⟩ s = .ok a →
      ∃ flat doc rows,
        flatten policy s = .ok flat ∧
        assemble library spec ⟨policy, argComments, header⟩ flat = .ok doc ∧
        a = ⟨artifactName spec, doc.render⟩ ∧
        signatures s = .ok (String.join (rows.map SignatureRow.line)) ∧
        List.Forall₂ (fun site row => row.IsFor site.1 site.2)
          (flat.values.flatMap fun m => m.methods.map fun method => (m, method))
          rows ∧
        rows.filterMap SignatureRow.registration? = doc.registrations := by
  have herror : ∀ e,
      generate library spec ⟨.overwrite, argComments, header⟩ s = .error e ↔
        signatures s = .error e := by
    intro e
    rw [generate_eq_error_iff, signatures_eq_error_iff, flatten_overwrite,
      ← assemble_eq_error_iff library spec ⟨.overwrite, argComments, header⟩]
    simp
  refine ⟨herror, ?_, ?_⟩
  · rw [exists_ok_iff_forall_ne_error, exists_ok_iff_forall_ne_error]
    exact forall_congr' fun e => not_congr (herror e)
  · intro policy a ha
    obtain ⟨flat, doc, hflat, hdoc, rfl⟩ := generate_eq_ok_iff.mp ha
    obtain rfl := eq_keptModules_of_flatten hflat
    have hemits := (exists_assemble_eq_ok_iff library spec _).mp ⟨doc, hdoc⟩
    obtain rfl := eq_ofBlocks_of_assemble hdoc
    let rows := (keptModules s).values.flatMap fun m =>
      m.methods.map (signatureRow m)
    have hlines : rows.map SignatureRow.line =
        (keptModules s).values.flatMap fun m => m.methods.map fun method =>
          signatureLine m.name method.name (emission m method) := by
      rw [List.map_flatMap]
      apply List.flatMap_congr
      intro m hm
      rw [List.map_map]
      apply List.map_congr_left
      intro method hmethod
      exact (hemits m hm method hmethod).line_signatureRow
    refine ⟨keptModules s, _, rows, hflat, hdoc, rfl, ?_, ?_, ?_⟩
    · rw [hlines, signatures_of_emits hemits]
    · have hrows : rows =
          ((keptModules s).values.flatMap fun m =>
            m.methods.map fun method => (m, method)).map
              fun site => signatureRow site.1 site.2 := by
        simp [rows, List.map_flatMap, Function.comp_def]
      rw [hrows, List.forall₂_map_right_iff, List.forall₂_same]
      intro site hsite
      obtain ⟨m, hm, hmethods⟩ := List.mem_flatMap.mp hsite
      obtain ⟨method, hmethod, rfl⟩ := List.mem_map.mp hmethods
      exact (hemits m hm method hmethod).isFor_signatureRow
    · exact (registrations_ofBlocks library spec _ _).symm

theorem generate_agrees_with_signatures_clock :
    ∃ a flat doc rows,
      generate "App" "App" ⟨.overwrite, false, ""⟩ clockSchema = .ok a ∧
      flatten .overwrite clockSchema = .ok flat ∧
      assemble "App" "App" ⟨.overwrite, false, ""⟩ flat = .ok doc ∧
      a = ⟨artifactName "App", doc.render⟩ ∧
      signatures clockSchema = .ok (String.join (rows.map SignatureRow.line)) ∧
      List.Forall₂ (fun site row => row.IsFor site.1 site.2)
        (flat.values.flatMap fun m => m.methods.map fun method => (m, method))
        rows ∧
      rows.filterMap SignatureRow.registration? = doc.registrations := by
  obtain ⟨flat, doc, rows, hlisting⟩ :=
    (generate_agrees_with_signatures "App" "App" "" false clockSchema).2.2
      .overwrite _ rfl
  exact ⟨_, flat, doc, rows, rfl, hlisting⟩

end NativeGlue.Bridge
