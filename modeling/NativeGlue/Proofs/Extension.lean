import NativeGlue.Proofs.Occurrences

/-!
# Adding declarations to a schema

A schema grows by a group with a new module, or by all groups of another schema.
Under the policy that overwrites, the document then changes in one place: a new
name adds a class with its host functions before the provider and a case at the
end of it, and a known name has its class and host functions replaced where they
stand.  Everything else stays as it is.
-/

namespace NativeGlue

/-! ## Larger schemas -/

namespace Schema

/-- The groups of a schema, then those of another. -/
def append (s t : Schema) : Schema :=
  ⟨⟨s.groups.entries ++ t.groups.entries⟩⟩

@[simp] theorem modules_append (s t : Schema) :
    (s.append t).modules = s.modules ++ t.modules := by
  simp [modules, append, Table.values]

theorem withGroup_eq_append
    {s : Schema} {key : String} (hkey : key ∉ s.groups.keys)
    (modules : List NativeModule) :
    s.withGroup key modules = s.append ⟨⟨[(key, modules)]⟩⟩ := by
  have hentries := Table.entries_insert_of_notMem hkey modules
  exact congrArg (fun entries => Schema.mk ⟨entries⟩) hentries

theorem modules_withGroup
    {s : Schema} {key : String} (hkey : key ∉ s.groups.keys)
    (m : NativeModule) :
    (s.withGroup key [m]).modules = s.modules ++ [m] := by
  rw [withGroup_eq_append hkey, modules_append]
  rfl

/-- Groups with new keys that are written one by one come behind the others. -/
theorem foldl_withGroup_eq_append
    {s : Schema} {groups : List (String × List NativeModule)}
    (hdistinct : (groups.map Prod.fst).Nodup)
    (hkeys : ∀ g ∈ groups, g.1 ∉ s.groups.keys) :
    groups.foldl (fun u g => u.withGroup g.1 g.2) s = s.append ⟨⟨groups⟩⟩ := by
  induction groups generalizing s with
  | nil => simp [append]
  | cons g groups ih =>
      rw [List.map_cons, List.nodup_cons] at hdistinct
      rw [List.forall_mem_cons] at hkeys
      have hlater : ∀ g' ∈ groups, g'.1 ∉ (s.append ⟨⟨[g]⟩⟩).groups.keys := by
        intro g' hg' hmem
        have hcases : g'.1 ∈ s.groups.keys ∨ g'.1 = g.1 := by
          simpa [append, Table.keys] using hmem
        rcases hcases with hold | hsame
        · exact hkeys.2 g' hg' hold
        · exact hdistinct.1 (List.mem_map.mpr ⟨g', hg', hsame⟩)
      rw [List.foldl_cons, withGroup_eq_append hkeys.1, ih hdistinct.2 hlater]
      simp [append]

end Schema

namespace Bridge

/-! ## Kept modules of a larger schema -/

theorem keptModules_of_concat
    {s u : Schema} {m : NativeModule}
    (hmodules : u.modules = s.modules ++ [m]) :
    keptModules u = (keptModules s).insert m.name m := by
  rw [keptModules, hmodules, List.map_append, List.map_singleton,
    Table.ofList_append_singleton]
  rfl

/-- A module under a new name is kept behind the others. -/
theorem values_keptModules_of_fresh
    {s u : Schema} {m : NativeModule} (hmodules : u.modules = s.modules ++ [m])
    (hfresh : m.name ∉ (keptModules s).keys) :
    (keptModules u).values = (keptModules s).values ++ [m] := by
  rw [keptModules_of_concat hmodules, Table.values,
    Table.entries_insert_of_notMem hfresh, List.map_append, List.map_singleton]
  rfl

/-- A module under a known name is kept where that name stands. -/
theorem values_keptModules_of_known
    {s u : Schema} {m : NativeModule} (hmodules : u.modules = s.modules ++ [m])
    (hknown : m.name ∈ (keptModules s).keys) :
    ∃ before old after, old.name = m.name ∧
      (keptModules s).values = before ++ old :: after ∧
      (keptModules u).values = before ++ m :: after := by
  obtain ⟨before, old, after, hentries, hwritten⟩ :=
    Table.entries_insert_of_mem hknown
  have hold : (m.name, old) ∈ (keptModules s).entries := by
    rw [hentries]
    exact List.mem_append_right _ List.mem_cons_self
  refine ⟨before.map Prod.snd, old, after.map Prod.snd,
    (mem_entries_keptModules_iff.mp hold).1, ?_, ?_⟩
  · rw [Table.values, hentries, List.map_append, List.map_cons]
  · rw [keptModules_of_concat hmodules, Table.values, hwritten, List.map_append,
      List.map_cons]

/-- Schemas that share no module name keep their modules one after the other. -/
theorem values_keptModules_append
    {s t : Schema}
    (hnames : ∀ m ∈ s.modules, ∀ n ∈ t.modules, m.name ≠ n.name) :
    (keptModules (s.append t)).values =
      (keptModules s).values ++ (keptModules t).values := by
  have hkeys : ∀ e ∈ s.modules.map (fun m => (m.name, m)),
      ∀ e' ∈ t.modules.map (fun m => (m.name, m)), e.1 ≠ e'.1 := by
    intro e he e' he'
    obtain ⟨m, hm, rfl⟩ := List.mem_map.mp he
    obtain ⟨n, hn, rfl⟩ := List.mem_map.mp he'
    exact hnames m hm n hn
  rw [Table.values, keptModules, Schema.modules_append, List.map_append,
    Table.entries_ofList_append hkeys, List.map_append]
  rfl

/-! ## Documents by their modules -/

/-- The document with other classes and another provider. -/
def Document.laidOut (d : Document) (runs : List ClassRun) (p : Provider) :
    Document :=
  { d with items := runs.flatMap ClassRun.items ++ [.provider p] }

theorem Document.laidOut_inj
    {d : Document} {runs : List ClassRun} {p p' : Provider}
    (h : d.laidOut runs p = d.laidOut runs p') :
    p = p' := by
  have hitems := List.append_cancel_left (congrArg Document.items h)
  simpa using hitems

section Emitted

variable (library spec : String) (config : Config) (modules : List NativeModule)

/-- The document of modules whose methods can be emitted. -/
def emittedDocument : Document :=
  Document.ofBlocks library spec config (modules.map emittedBlock)

/-- The class of a module whose methods can be emitted. -/
def emittedRun (m : NativeModule) : ClassRun := (emittedBlock m).run

/-- The provider of some modules. -/
def providerOf : Provider :=
  ⟨providerName library, modules.map fun m => ⟨m.name, className m.name⟩⟩

theorem classRuns_emittedDocument :
    (emittedDocument library spec config modules).classRuns =
      modules.map emittedRun := by
  rw [emittedDocument, Document.classRuns_ofBlocks, List.map_map]
  rfl

/-- Documents of different modules differ in their classes and in the provider
only. -/
theorem emittedDocument_eq_laidOut (modules' : List NativeModule) :
    emittedDocument library spec config modules' =
      (emittedDocument library spec config modules).laidOut
        (modules'.map emittedRun) (providerOf library modules') := by
  have hitems : (emittedDocument library spec config modules').items =
      (modules'.map emittedRun).flatMap ClassRun.items ++
        [.provider (providerOf library modules')] := by
    rw [emittedDocument, Document.items_ofBlocks, List.map_map, List.map_map]
    rfl
  unfold Document.laidOut
  rw [← hitems]
  rfl

theorem emittedDocument_eq_self :
    emittedDocument library spec config modules =
      (emittedDocument library spec config modules).laidOut
        (emittedDocument library spec config modules).classRuns
        (providerOf library modules) := by
  rw [classRuns_emittedDocument]
  exact emittedDocument_eq_laidOut library spec config modules modules

/-- More modules add their classes behind the others and their cases at the
end. -/
theorem emittedDocument_append (modules' : List NativeModule) :
    emittedDocument library spec config (modules ++ modules') =
      (emittedDocument library spec config modules).laidOut
        ((emittedDocument library spec config modules).classRuns ++
          modules'.map emittedRun)
        { providerOf library modules with
          cases := (providerOf library modules).cases ++
            (providerOf library modules').cases } := by
  have hprovider : providerOf library (modules ++ modules') =
      { providerOf library modules with
        cases := (providerOf library modules).cases ++
          (providerOf library modules').cases } := by
    unfold providerOf
    rw [List.map_append]
  rw [emittedDocument_eq_laidOut library spec config modules
      (modules ++ modules'),
    classRuns_emittedDocument, List.map_append, hprovider]

end Emitted

/-! ## The document of a schema -/

/-- The document of a schema. -/
def document (library spec : String) (config : Config) (s : Schema) :
    Except Error Document :=
  flatten config.duplicates s >>= assemble library spec config

/-- Generation writes out the document. -/
theorem generate_eq_document
    (library spec : String) (config : Config) (s : Schema) :
    generate library spec config s =
      document library spec config s >>= fun doc =>
        .ok ⟨artifactName spec, doc.render⟩ := by
  unfold generate document
  cases flatten config.duplicates s with
  | error e => rfl
  | ok flat => rfl

section Overwrite

variable {library spec : String} {config : Config}
  (hpolicy : config.duplicates = .overwrite)

include hpolicy

theorem document_eq_ok_iff {s : Schema} {doc : Document} :
    document library spec config s = .ok doc ↔
      (∀ m ∈ (keptModules s).values, ∀ method ∈ m.methods, Emits m method) ∧
        doc = emittedDocument library spec config (keptModules s).values := by
  have hassemble : document library spec config s =
      assemble library spec config (keptModules s) := by
    rw [document, hpolicy, flatten_overwrite]
    rfl
  rw [hassemble, ← exists_assemble_eq_ok_iff library spec config]
  constructor
  · intro hdoc
    exact ⟨⟨doc, hdoc⟩, eq_ofBlocks_of_assemble hdoc⟩
  · rintro ⟨⟨doc', hdoc'⟩, rfl⟩
    rw [hdoc', eq_ofBlocks_of_assemble hdoc']
    rfl

/-- A module under a new name adds its class before the provider and its case at
the end of the provider. -/
theorem document_of_fresh
    {s u : Schema} {m : NativeModule} {doc : Document}
    (hdoc : document library spec config s = .ok doc)
    (hmodules : u.modules = s.modules ++ [m])
    (hm : ∀ method ∈ m.methods, Emits m method)
    (hfresh : m.name ∉ (keptModules s).keys) :
    ∃ provider, doc = doc.laidOut doc.classRuns provider ∧
      document library spec config u =
        .ok (doc.laidOut (doc.classRuns ++ [emittedRun m])
          { provider with
            cases := provider.cases ++ [⟨m.name, className m.name⟩] }) := by
  obtain ⟨hemits, rfl⟩ := (document_eq_ok_iff hpolicy).mp hdoc
  refine ⟨_, emittedDocument_eq_self library spec config _, ?_⟩
  rw [document_eq_ok_iff hpolicy, values_keptModules_of_fresh hmodules hfresh,
    List.forall_mem_append, List.forall_mem_singleton]
  refine ⟨⟨hemits, hm⟩, ?_⟩
  rw [emittedDocument_append]
  rfl

/-- A module under a known name takes the place of the class of that name. -/
theorem document_of_known
    {s u : Schema} {m : NativeModule} {doc : Document}
    (hdoc : document library spec config s = .ok doc)
    (hmodules : u.modules = s.modules ++ [m])
    (hm : ∀ method ∈ m.methods, Emits m method)
    (hknown : m.name ∈ (keptModules s).keys) :
    ∃ before old after provider,
      doc = doc.laidOut (before ++ old :: after) provider ∧
      old.bridgeClass.name = className m.name ∧
      (∀ other ∈ before ++ after, other.bridgeClass.name ≠ className m.name) ∧
      document library spec config u =
        .ok (doc.laidOut (before ++ emittedRun m :: after) provider) := by
  obtain ⟨hemits, rfl⟩ := (document_eq_ok_iff hpolicy).mp hdoc
  obtain ⟨before, old, after, hname, hvalues, hvalues'⟩ :=
    values_keptModules_of_known hmodules hknown
  have hnodup := nodup_names_keptModules s
  rw [hvalues] at hemits hnodup ⊢
  refine ⟨before.map emittedRun, emittedRun old, after.map emittedRun,
    providerOf library (before ++ old :: after), ?_, ?_, ?_, ?_⟩
  · rw [← List.map_cons, ← List.map_append]
    exact emittedDocument_eq_laidOut library spec config _ _
  · exact congrArg className hname
  · intro other hother hclass
    rw [← List.map_append] at hother
    obtain ⟨n, hn, rfl⟩ := List.mem_map.mp hother
    have hsame : n.name = old.name :=
      (className_injective hclass).trans hname.symm
    rw [List.map_append, List.map_cons, List.nodup_middle, List.nodup_cons,
      ← List.map_append] at hnodup
    exact hnodup.1 (List.mem_map.mpr ⟨n, hn, hsame⟩)
  · -- The name of the module is that of the one it replaces, so the cases are
    -- the same.
    have hprovider : providerOf library (before ++ old :: after) =
        providerOf library (before ++ m :: after) := by
      simp [providerOf, hname]
    rw [document_eq_ok_iff hpolicy, hvalues', hprovider, ← List.map_cons,
      ← List.map_append]
    refine ⟨?_, (emittedDocument_eq_laidOut library spec config _ _).symm⟩
    rw [List.forall_mem_append, List.forall_mem_cons] at hemits ⊢
    exact ⟨hemits.1, hm, hemits.2.2⟩

/-- The document of two schemas that share no module name has the classes of the
first one, those of the second one, and the cases of both. -/
theorem document_append_eq_ok_iff
    {s t : Schema} (hnames : ∀ m ∈ s.modules, ∀ n ∈ t.modules, m.name ≠ n.name)
    {doc : Document} :
    document library spec config (s.append t) = .ok doc ↔
      ∃ d₁ d₂ p₁ p₂,
        document library spec config s = .ok d₁ ∧
        document library spec config t = .ok d₂ ∧
        d₁ = d₁.laidOut d₁.classRuns p₁ ∧ d₂ = d₂.laidOut d₂.classRuns p₂ ∧
        doc = d₁.laidOut (d₁.classRuns ++ d₂.classRuns)
          { p₁ with cases := p₁.cases ++ p₂.cases } := by
  rw [document_eq_ok_iff hpolicy, values_keptModules_append hnames,
    List.forall_mem_append, emittedDocument_append]
  constructor
  · rintro ⟨⟨hs, ht⟩, hdoc⟩
    refine ⟨_, _, _, _, (document_eq_ok_iff hpolicy).mpr ⟨hs, rfl⟩,
      (document_eq_ok_iff hpolicy).mpr ⟨ht, rfl⟩,
      emittedDocument_eq_self library spec config _,
      emittedDocument_eq_self library spec config _, ?_⟩
    rw [hdoc, classRuns_emittedDocument, classRuns_emittedDocument]
  · rintro ⟨d₁, d₂, p₁, p₂, h₁, h₂, hp₁, hp₂, rfl⟩
    obtain ⟨hs, rfl⟩ := (document_eq_ok_iff hpolicy).mp h₁
    obtain ⟨ht, rfl⟩ := (document_eq_ok_iff hpolicy).mp h₂
    obtain rfl := Document.laidOut_inj
      ((emittedDocument_eq_self library spec config _).symm.trans hp₁)
    obtain rfl := Document.laidOut_inj
      ((emittedDocument_eq_self library spec config _).symm.trans hp₂)
    refine ⟨⟨hs, ht⟩, ?_⟩
    rw [classRuns_emittedDocument, classRuns_emittedDocument]

end Overwrite

theorem mem_keys_keptModules_iff {s : Schema} {name : String} :
    name ∈ (keptModules s).keys ↔ ∃ n ∈ s.modules, n.name = name := by
  rw [(listsFirstOccurrences_keptModules s).mem_iff,
    declaredNames, List.mem_map]

/-- A new group with one module, all of whose methods can be emitted, changes
the document of a schema only where that module is declared: its class with the
host functions comes behind all others and its case at the end of the provider
if the name is new, and else they take the place of those of that name.  The
document of two schemas that share no module name has the classes of the first
one, those of the second one, and a provider with the cases of both; it is what
writing the groups of the second one behind those of the first one leads to. -/
theorem document_withGroup
    (library spec : String) {config : Config}
    (hpolicy : config.duplicates = .overwrite) :
    (∀ s, generate library spec config s =
      document library spec config s >>= fun doc =>
        .ok ⟨artifactName spec, doc.render⟩) ∧
    (∀ (s : Schema) (doc : Document) (key : String) (m : NativeModule),
      document library spec config s = .ok doc → key ∉ s.groups.keys →
      (∀ method ∈ m.methods,
        ∃ emitted, emitMethod m.name m.aliases method = .ok emitted) →
      ∃ run : ClassRun, run.bridgeClass.name = className m.name ∧
        run.IsEmissionOf m ∧
        ((∀ n ∈ s.modules, n.name ≠ m.name) →
          ∃ provider, doc = doc.laidOut doc.classRuns provider ∧
            document library spec config (s.withGroup key [m]) =
              .ok (doc.laidOut (doc.classRuns ++ [run])
                { provider with
                  cases := provider.cases ++ [⟨m.name, className m.name⟩] })) ∧
        ((∃ n ∈ s.modules, n.name = m.name) →
          ∃ before old after provider,
            doc = doc.laidOut (before ++ old :: after) provider ∧
            old.bridgeClass.name = className m.name ∧
            (∀ other ∈ before ++ after,
              other.bridgeClass.name ≠ className m.name) ∧
            document library spec config (s.withGroup key [m]) =
              .ok (doc.laidOut (before ++ run :: after) provider))) ∧
    (∀ s t : Schema, t.groups.KeysDistinct →
      (∀ key ∈ t.groups.keys, key ∉ s.groups.keys) →
      t.groups.entries.foldl (fun u g => u.withGroup g.1 g.2) s = s.append t) ∧
    ∀ s t : Schema, (∀ m ∈ s.modules, ∀ n ∈ t.modules, m.name ≠ n.name) →
      ∀ doc, document library spec config (s.append t) = .ok doc ↔
        ∃ d₁ d₂ p₁ p₂,
          document library spec config s = .ok d₁ ∧
          document library spec config t = .ok d₂ ∧
          d₁ = d₁.laidOut d₁.classRuns p₁ ∧ d₂ = d₂.laidOut d₂.classRuns p₂ ∧
          doc = d₁.laidOut (d₁.classRuns ++ d₂.classRuns)
            { p₁ with cases := p₁.cases ++ p₂.cases } := by
  refine ⟨generate_eq_document library spec config, ?_, ?_,
    fun s t hnames doc => document_append_eq_ok_iff hpolicy hnames⟩
  · intro s doc key m hdoc hkey hm
    have hmodules := Schema.modules_withGroup hkey m
    refine ⟨emittedRun m, rfl, isEmissionOf_run_emittedBlock hm, ?_, ?_⟩
    · intro hfresh
      apply document_of_fresh hpolicy hdoc hmodules hm
      rw [mem_keys_keptModules_iff]
      rintro ⟨n, hn, hname⟩
      exact hfresh n hn hname
    · intro hknown
      exact document_of_known hpolicy hdoc hmodules hm
        (mem_keys_keptModules_iff.mpr hknown)
  · intro s t hdistinct hkeys
    exact Schema.foldl_withGroup_eq_append hdistinct fun g hg =>
      hkeys g.1 (List.mem_map_of_mem hg)

/-- A module with one method that takes a number. -/
def radioModule (name : String) : NativeModule where
  name := name
  methods := [⟨"tune", [⟨"to", false, .numeric .float false⟩], .void, false⟩]
  aliases := Table.empty

theorem document_withGroup_radio :
    ∃ doc, document "App" "App" {} clockSchema = .ok doc ∧
      (∃ run provider, run.IsEmissionOf (radioModule "Radio") ∧
        doc = doc.laidOut doc.classRuns provider ∧
        document "App" "App" {}
            (clockSchema.withGroup "more" [radioModule "Radio"]) =
          .ok (doc.laidOut (doc.classRuns ++ [run])
            { provider with
              cases := provider.cases ++ [⟨"Radio", className "Radio"⟩] })) ∧
      (∃ before old after run provider, run.IsEmissionOf (radioModule "Clock") ∧
        doc = doc.laidOut (before ++ old :: after) provider ∧
        old.bridgeClass.name = className "Clock" ∧
        document "App" "App" {}
            (clockSchema.withGroup "more" [radioModule "Clock"]) =
          .ok (doc.laidOut (before ++ run :: after) provider)) ∧
      ∃ joined,
        document "App" "App" {}
            (clockSchema.append ⟨⟨[("more", [radioModule "Radio"])]⟩⟩) =
          .ok joined := by
  have hkey : "more" ∉ clockSchema.groups.keys := by decide
  have hemits : ∀ name, ∀ method ∈ (radioModule name).methods,
      ∃ emitted, emitMethod name Table.empty method = .ok emitted := by
    intro name method hmethod
    rw [List.mem_singleton.mp hmethod]
    exact ⟨_, rfl⟩
  obtain ⟨-, hgroup, -, happend⟩ := document_withGroup "App" "App"
    (show (Config.duplicates {}) = .overwrite from rfl)
  refine ⟨_, rfl, ?_, ?_, ?_⟩
  · obtain ⟨run, -, hrun, hfresh, -⟩ := hgroup clockSchema _ "more"
      (radioModule "Radio") rfl hkey (hemits "Radio")
    obtain ⟨provider, hdoc, hdoc'⟩ := hfresh (by decide)
    exact ⟨run, provider, hrun, hdoc, hdoc'⟩
  · obtain ⟨run, -, hrun, -, hknown⟩ := hgroup clockSchema _ "more"
      (radioModule "Clock") rfl hkey (hemits "Clock")
    obtain ⟨before, old, after, provider, hdoc, hold, -, hdoc'⟩ :=
      hknown ⟨clockModule, List.mem_singleton_self _, rfl⟩
    exact ⟨before, old, after, run, provider, hrun, hdoc, hold, hdoc'⟩
  · have hnames : ∀ m ∈ clockSchema.modules,
        ∀ n ∈ Schema.modules ⟨⟨[("more", [radioModule "Radio"])]⟩⟩,
        m.name ≠ n.name := by
      decide
    exact ⟨_, (happend _ _ hnames _).mpr ⟨_, _, ⟨"App_ModuleProvider", _⟩,
      ⟨"App_ModuleProvider", _⟩, rfl, rfl, rfl, rfl, rfl⟩⟩

end Bridge

end NativeGlue
