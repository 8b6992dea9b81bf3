import NativeGlue.Proofs.Listing

/-!
# Finding a module in a document

The provider of a document answers a name with the first of its cases for it.
This module says what stands behind an answer: the case is the only one for the
name, its class is declared once, and what that class registers was emitted for
the last module that the schema declares under the name.
-/

namespace NativeGlue

/-- `m` is the last module that a schema declares under its name. -/
def Schema.DeclaresLast (s : Schema) (m : NativeModule) : Prop :=
  ∃ earlier later, s.modules = earlier ++ m :: later ∧
    ∀ n ∈ later, n.name ≠ m.name

namespace Bridge

/-- The case that a provider takes for a name. -/
def Provider.caseFor? (p : Provider) (name : String) : Option ProviderCase :=
  p.cases.find? (·.moduleName = name)

/-- A class with its host functions is what the methods of a module are emitted
as, in order and without the methods that are left out. -/
def ClassRun.IsEmissionOf (run : ClassRun) (m : NativeModule) : Prop :=
  ∃ emitted,
    List.Forall₂ (fun method r => emitMethod m.name m.aliases method = .ok r)
      m.methods emitted ∧
    run.thunks = (emitted.filterMap id).map (·.thunk) ∧
    run.bridgeClass.entries = (emitted.filterMap id).map (·.entry)

/-! ## What a class registers -/

theorem isEmissionOf_run_emittedBlock
    {m : NativeModule} (hemits : ∀ method ∈ m.methods, Emits m method) :
    (emittedBlock m).run.IsEmissionOf m := by
  refine ⟨m.methods.map (emission m), ?_, ?_, ?_⟩
  · rw [List.forall₂_map_right_iff, List.forall₂_same]
    intro method hmethod
    exact (hemits method hmethod).emitMethod_eq
  · simp [emittedBlock, Block.run, List.filterMap_map]
  · simp [emittedBlock, Block.run, Block.bridgeClass, List.filterMap_map]

/-! ## Modules by name -/

/-- Among elements with distinct keys, one is found alone under its key. -/
theorem filter_key_eq_singleton
    {α : Type} {key : α → String} {xs : List α} {x : α}
    (hnodup : (xs.map key).Nodup) (hx : x ∈ xs) :
    xs.filter (fun y => key y = key x) = [x] := by
  obtain ⟨before, after, rfl⟩ := List.append_of_mem hx
  rw [List.map_append, List.map_cons, List.nodup_append, List.nodup_cons]
    at hnodup
  obtain ⟨-, ⟨hafter, -⟩, hbefore⟩ := hnodup
  have hfront : before.filter (fun y => key y = key x) = [] := by
    rw [List.filter_eq_nil_iff]
    intro y hy
    simpa using hbefore (key y) (List.mem_map_of_mem hy) (key x) (by simp)
  have hback : after.filter (fun y => key y = key x) = [] := by
    rw [List.filter_eq_nil_iff]
    intro y hy
    have hne : key y ≠ key x := fun h => hafter (h ▸ List.mem_map_of_mem hy)
    simpa using hne
  rw [List.filter_append, List.filter_cons, hfront, hback]
  simp

theorem nodup_names_keptModules (s : Schema) :
    ((keptModules s).values.map (·.name)).Nodup := by
  rw [names_keptModules]
  exact keptModules_keysDistinct s

/-- The names of the kept modules are those that some group declares. -/
theorem exists_kept_iff_declared (s : Schema) (name : String) :
    (∃ m ∈ (keptModules s).values, m.name = name) ↔
      ∃ group ∈ s.groups.values, ∃ m ∈ group, m.name = name := by
  have hkept : (∃ m ∈ (keptModules s).values, m.name = name) ↔
      name ∈ s.modules.map (·.name) := by
    rw [← List.mem_map, names_keptModules, keptModules, Table.keys_ofList,
      List.mem_reverse, List.mem_dedup, List.mem_reverse, List.map_map]
    rfl
  rw [hkept, List.mem_map, Schema.modules]
  constructor
  · rintro ⟨m, hm, hname⟩
    obtain ⟨group, hgroup, hmem⟩ := List.mem_flatten.mp hm
    exact ⟨group, hgroup, m, hmem, hname⟩
  · rintro ⟨group, hgroup, m, hmem, hname⟩
    exact ⟨m, List.mem_flatten.mpr ⟨group, hgroup, hmem⟩, hname⟩

/-! ## Looking up a name -/

section Emitted

variable (library spec : String) (config : Config) (modules : List NativeModule)

theorem provider?_ofBlocks :
    (Document.ofBlocks library spec config
        (modules.map emittedBlock)).provider? =
      some ⟨providerName library,
        modules.map fun m => ⟨m.name, className m.name⟩⟩ := by
  have hblocks : ((modules.map emittedBlock).flatMap Block.items).findSome?
      Item.provider? = none := by
    rw [List.findSome?_eq_none_iff]
    intro item hitem
    obtain ⟨b, -, hb⟩ := List.mem_flatMap.mp hitem
    rcases List.mem_append.mp hb with hthunk | hclass
    · obtain ⟨e, -, rfl⟩ := List.mem_map.mp hthunk
      rfl
    · rw [List.mem_singleton.mp hclass]
      rfl
  rw [Document.provider?, Document.ofBlocks, List.findSome?_append, hblocks]
  simp [Item.provider?, Block.providerCase, emittedBlock]

theorem bridgeClasses_ofBlocks :
    (Document.ofBlocks library spec config
        (modules.map emittedBlock)).bridgeClasses =
      modules.map fun m => (emittedBlock m).bridgeClass := by
  rw [Document.bridgeClasses, ← map_bridgeClass_classRunsFrom [],
    ← Document.classRuns, Document.classRuns_ofBlocks]
  simp [Block.run]

end Emitted

/-- The provider of a generated document has a case for exactly the names that
some group declares, and one case for each.  The class of the case is declared
once, and it registers, with the host functions before it, what is emitted for
the last module declared under the name. -/
theorem generate_lookup
    {library spec : String} {config : Config} {s : Schema} {a : Artifact}
    (ha : generate library spec config s = .ok a) :
    ∃ flat doc provider,
      flatten config.duplicates s = .ok flat ∧
      assemble library spec config flat = .ok doc ∧
      a = ⟨artifactName spec, doc.render⟩ ∧
      doc.provider? = some provider ∧
      ∀ name,
        ((∃ c, provider.caseFor? name = some c) ↔
          ∃ group ∈ s.groups.values, ∃ m ∈ group, m.name = name) ∧
        ∀ c, provider.caseFor? name = some c →
          provider.cases.filter (·.moduleName = name) = [c] ∧
          ∃ run ∈ doc.classRuns,
            doc.bridgeClasses.filter (·.name = c.className) =
              [run.bridgeClass] ∧
            ∃ m, s.DeclaresLast m ∧ m.name = name ∧ run.IsEmissionOf m := by
  obtain ⟨flat, doc, hflat, hdoc, rfl⟩ := generate_eq_ok_iff.mp ha
  obtain rfl := eq_keptModules_of_flatten hflat
  have hemits := (exists_assemble_eq_ok_iff library spec config).mp ⟨doc, hdoc⟩
  obtain rfl := eq_ofBlocks_of_assemble hdoc
  have hnodup := nodup_names_keptModules s
  refine ⟨_, _, _, hflat, hdoc, rfl, provider?_ofBlocks _ _ _ _, ?_⟩
  intro name
  simp only [Provider.caseFor?, List.find?_map]
  constructor
  · rw [← exists_kept_iff_declared]
    simp [← Option.isSome_iff_exists]
  · intro c hc
    obtain ⟨m, hfind, rfl⟩ := Option.map_eq_some_iff.mp hc
    have hm := List.mem_of_find?_eq_some hfind
    have hname : m.name = name := by simpa using List.find?_some hfind
    subst hname
    refine ⟨?_, (emittedBlock m).run, ?_, ?_,
      m, mem_values_keptModules_iff.mp hm, rfl,
      isEmissionOf_run_emittedBlock (hemits m hm)⟩
    · rw [List.filter_map]
      exact congrArg (List.map _) (filter_key_eq_singleton hnodup hm)
    · rw [Document.classRuns_ofBlocks, List.map_map]
      exact List.mem_map_of_mem hm
    · have hclasses :
          ((keptModules s).values.map fun n => className n.name).Nodup := by
        have himage := hnodup.map className_injective
        rwa [List.map_map] at himage
      rw [bridgeClasses_ofBlocks, List.filter_map]
      exact congrArg (List.map _) (filter_key_eq_singleton hclasses hm)

/-- A schema that declares a module twice.  The first declaration returns a
callback and could not be emitted. -/
def redeclaredSchema : Schema :=
  ⟨⟨[("draft", [⟨"Clock", [⟨"now", [], .callback false, false⟩], Table.empty⟩]),
    ("specs", [clockModule])]⟩⟩

theorem generate_lookup_redeclared :
    ∃ a flat doc provider,
      generate "App" "App" ⟨.overwrite, false, ""⟩ redeclaredSchema = .ok a ∧
      flatten .overwrite redeclaredSchema = .ok flat ∧
      assemble "App" "App" ⟨.overwrite, false, ""⟩ flat = .ok doc ∧
      a = ⟨artifactName "App", doc.render⟩ ∧
      doc.provider? = some provider ∧
      (¬∃ c, provider.caseFor? "Radio" = some c) ∧
      ∃ c, provider.caseFor? "Clock" = some c ∧
        provider.cases.filter (·.moduleName = "Clock") = [c] ∧
        ∃ run ∈ doc.classRuns,
          doc.bridgeClasses.filter (·.name = c.className) = [run.bridgeClass] ∧
          ∃ m, redeclaredSchema.DeclaresLast m ∧ m.name = "Clock" ∧
            run.IsEmissionOf m := by
  obtain ⟨flat, doc, provider, hflat, hdoc, ha, hprovider, hlookup⟩ :=
    generate_lookup (show generate "App" "App" ⟨.overwrite, false, ""⟩
      redeclaredSchema = .ok _ from rfl)
  obtain ⟨c, hc⟩ := (hlookup "Clock").1.mpr
    ⟨_, List.mem_cons_of_mem _ (List.mem_singleton_self _), clockModule,
      List.mem_singleton_self _, rfl⟩
  refine ⟨_, flat, doc, provider, rfl, hflat, hdoc, ha, hprovider, ?_,
    c, hc, (hlookup "Clock").2 c hc⟩
  rw [(hlookup "Radio").1]
  decide

end Bridge

end NativeGlue
