import NativeGlue.Proofs.Lockstep

/-!
# When generation fails

Generation fails because the modules cannot be flattened or because a method
cannot be emitted, and then the first such method decides the error.  The
listing of signatures walks the same methods, so the walk is described once for
both.
-/

namespace NativeGlue.Bridge

/-- A method of a module can be emitted, or is left out. -/
def Emits (m : NativeModule) (method : Method) : Prop :=
  ∃ emitted, emitMethod m.name m.aliases method = .ok emitted

/-- `method` of `m` is the first method that cannot be emitted, in the order of
the modules and then of their methods, and `source` is the reason. -/
structure FirstRefused
    (modules : List NativeModule) (m : NativeModule) (method : Method)
    (source : Error) : Prop where
  modules_before :
    ∃ before after, modules = before ++ m :: after ∧
      ∀ n ∈ before, ∀ f ∈ n.methods, Emits n f
  methods_before :
    ∃ before after, m.methods = before ++ method :: after ∧
      ∀ f ∈ before, Emits m f
  refused : emitMethod m.name m.aliases method = .error source

theorem FirstRefused.mem
    {modules : List NativeModule} {m : NativeModule} {method : Method}
    {source : Error} (h : FirstRefused modules m method source) :
    m ∈ modules := by
  obtain ⟨before, after, hsplit, -⟩ := h.modules_before
  rw [hsplit]
  simp

theorem exists_emitWithin_eq_ok_iff {m : NativeModule} {method : Method} :
    (∃ emitted, emitWithin m method = .ok emitted) ↔ Emits m method :=
  exists_congr fun _ => emitWithin_eq_ok_iff

theorem emitWithin_eq_error_iff
    {m : NativeModule} {method : Method} {e : Error} :
    emitWithin m method = .error e ↔
      ∃ source, emitMethod m.name m.aliases method = .error source ∧
        e = .inMethod m.name method.name source :=
  mapError_eq_error_iff

/-! ## Walking the methods of modules -/

section Walk

variable {β : Type} {walk : NativeModule → Except Error β}

/-- A walk that emits the methods of a module in order succeeds when all of
them can be emitted. -/
theorem exists_walk_eq_ok_iff
    (hwalk : ∀ m e, walk m = .error e ↔ FailsFirst (emitWithin m) m.methods e)
    (m : NativeModule) :
    (∃ b, walk m = .ok b) ↔ ∀ method ∈ m.methods, Emits m method := by
  have hmethods : (∃ rs, m.methods.mapM (emitWithin m) = .ok rs) ↔
      ∀ method ∈ m.methods, Emits m method := by
    rw [exists_mapM_eq_ok_iff]
    exact forall₂_congr fun _ _ => exists_emitWithin_eq_ok_iff
  rw [← hmethods, exists_ok_iff_forall_ne_error, exists_ok_iff_forall_ne_error]
  exact forall_congr' fun e =>
    not_congr ((hwalk m e).trans mapM_eq_error_iff.symm)

/-- A walk over modules that emits their methods in order fails at the first
method that cannot be emitted. -/
theorem mapM_walk_eq_error_iff
    (hwalk : ∀ m e, walk m = .error e ↔ FailsFirst (emitWithin m) m.methods e)
    {modules : List NativeModule} {e : Error} :
    modules.mapM walk = .error e ↔
      ∃ m method source, FirstRefused modules m method source ∧
        e = .inMethod m.name method.name source := by
  rw [mapM_eq_error_iff]
  constructor
  · rintro ⟨before, m, after, hsplit, hbefore, hm⟩
    obtain ⟨front, method, back, hmethods, hfront, hmethod⟩ := (hwalk m e).mp hm
    obtain ⟨source, hsource, he⟩ := emitWithin_eq_error_iff.mp hmethod
    refine ⟨m, method, source, ⟨?_, ?_, hsource⟩, he⟩
    · exact ⟨before, after, hsplit, fun n hn =>
        (exists_walk_eq_ok_iff hwalk n).mp (hbefore n hn)⟩
    · exact ⟨front, back, hmethods, fun f hf =>
        exists_emitWithin_eq_ok_iff.mp (hfront f hf)⟩
  · rintro ⟨m, method, source, hfirst, he⟩
    obtain ⟨before, after, hsplit, hbefore⟩ := hfirst.modules_before
    obtain ⟨front, back, hmethods, hfront⟩ := hfirst.methods_before
    refine ⟨before, m, after, hsplit, ?_, ?_⟩
    · intro n hn
      exact (exists_walk_eq_ok_iff hwalk n).mpr (hbefore n hn)
    · rw [hwalk]
      exact ⟨front, method, back, hmethods,
        fun f hf => exists_emitWithin_eq_ok_iff.mpr (hfront f hf),
        emitWithin_eq_error_iff.mpr ⟨source, hfirst.refused, he⟩⟩

theorem exists_mapM_walk_eq_ok_iff
    (hwalk : ∀ m e, walk m = .error e ↔ FailsFirst (emitWithin m) m.methods e)
    {modules : List NativeModule} :
    (∃ bs, modules.mapM walk = .ok bs) ↔
      ∀ m ∈ modules, ∀ method ∈ m.methods, Emits m method := by
  rw [exists_mapM_eq_ok_iff]
  exact forall₂_congr fun m _ => exists_walk_eq_ok_iff hwalk m

end Walk

theorem Block.ofModule_eq_error_iff (m : NativeModule) (e : Error) :
    Block.ofModule m = .error e ↔ FailsFirst (emitWithin m) m.methods e := by
  rw [Block.ofModule, bind_eq_error_iff, ← mapM_eq_error_iff]
  constructor
  · rintro (h | ⟨emitted, -, h⟩)
    · exact h
    · cases h
  · exact Or.inl

/-! ## Assembling and generating -/

theorem assemble_eq_error_iff
    (library spec : String) (config : Config) {modules : Table NativeModule}
    {e : Error} :
    assemble library spec config modules = .error e ↔
      ∃ m method source, FirstRefused modules.values m method source ∧
        e = .inMethod m.name method.name source := by
  rw [← mapM_walk_eq_error_iff Block.ofModule_eq_error_iff, assemble,
    bind_eq_error_iff]
  constructor
  · rintro (h | ⟨blocks, -, h⟩)
    · exact h
    · cases h
  · exact Or.inl

theorem exists_assemble_eq_ok_iff
    (library spec : String) (config : Config) {modules : Table NativeModule} :
    (∃ doc, assemble library spec config modules = .ok doc) ↔
      ∀ m ∈ modules.values, ∀ method ∈ m.methods, Emits m method := by
  rw [← exists_mapM_walk_eq_ok_iff Block.ofModule_eq_error_iff]
  constructor
  · rintro ⟨doc, hdoc⟩
    obtain ⟨blocks, hblocks, -⟩ := assemble_eq_ok_iff.mp hdoc
    exact ⟨blocks, mapM_eq_ok_iff.mpr hblocks⟩
  · rintro ⟨blocks, hblocks⟩
    exact ⟨_, assemble_eq_ok_iff.mpr ⟨blocks, mapM_eq_ok_iff.mp hblocks, rfl⟩⟩

theorem generate_eq_ok_iff
    {library spec : String} {config : Config} {s : Schema} {a : Artifact} :
    generate library spec config s = .ok a ↔
      ∃ flat doc, flatten config.duplicates s = .ok flat ∧
        assemble library spec config flat = .ok doc ∧
        a = ⟨artifactName spec, doc.render⟩ := by
  rw [generate, bind_eq_ok_iff]
  constructor
  · rintro ⟨flat, hflat, hrest⟩
    obtain ⟨doc, hdoc, ha⟩ := bind_eq_ok_iff.mp hrest
    exact ⟨flat, doc, hflat, hdoc, (Except.ok.inj ha).symm⟩
  · rintro ⟨flat, doc, hflat, hdoc, rfl⟩
    exact ⟨flat, hflat, bind_eq_ok_iff.mpr ⟨doc, hdoc, rfl⟩⟩

theorem generate_eq_error_iff
    {library spec : String} {config : Config} {s : Schema} {e : Error} :
    generate library spec config s = .error e ↔
      flatten config.duplicates s = .error e ∨
        ∃ flat, flatten config.duplicates s = .ok flat ∧
          assemble library spec config flat = .error e := by
  rw [generate, bind_eq_error_iff]
  refine or_congr Iff.rfl (exists_congr fun flat => and_congr Iff.rfl ?_)
  rw [bind_eq_error_iff]
  constructor
  · rintro (h | ⟨doc, -, h⟩)
    · exact h
    · cases h
  · exact Or.inl

/-- The reason why a method is refused is an error about a type, and the module
is the last one declared with its name. -/
theorem FirstRefused.source_spec
    {s : Schema} {m : NativeModule} {method : Method} {source : Error}
    (h : FirstRefused (keptModules s).values m method source) :
    source.IsTypeError ∧
      ∃ earlier later, s.modules = earlier ++ m :: later ∧
        ∀ n ∈ later, n.name ≠ m.name :=
  ⟨emitMethod_isTypeError h.refused, mem_values_keptModules_iff.mp h.mem⟩

/-- Generation succeeds exactly when the modules can be flattened and all
methods of the flattened modules can be emitted.  A failure to flatten comes
first, then the first method in order that cannot be emitted, and a declaration
that a later one replaces has no part in the outcome. -/
theorem generate_outcome
    (library spec : String) (config : Config) (s : Schema) :
    ((∃ a, generate library spec config s = .ok a) ↔
      ∃ flat, flatten config.duplicates s = .ok flat ∧
        ∀ m ∈ flat.values, ∀ method ∈ m.methods,
          ∃ emitted, emitMethod m.name m.aliases method = .ok emitted) ∧
    (∀ e, flatten config.duplicates s = .error e →
      (∃ name, e = .duplicateModule name) ∧
        generate library spec config s = .error e) ∧
    (∀ flat, flatten config.duplicates s = .ok flat →
      (∀ e, generate library spec config s = .error e ↔
        ∃ m method source, FirstRefused flat.values m method source ∧
          e = .inMethod m.name method.name source) ∧
      ∀ m method source, FirstRefused flat.values m method source →
        (∀ n f inner, source ≠ .inMethod n f inner) ∧
        (∀ name, source ≠ .duplicateModule name) ∧
        (Error.inMethod m.name method.name source).root = source ∧
        ∃ earlier later, s.modules = earlier ++ m :: later ∧
          ∀ n ∈ later, n.name ≠ m.name) ∧
    ∀ (s' : Schema) (earlier later : List NativeModule) (m m' : NativeModule),
      s.modules = earlier ++ m :: later → s'.modules = earlier ++ m' :: later →
      m'.name = m.name → (∃ n ∈ later, n.name = m.name) →
      generate library spec config s' = generate library spec config s := by
  refine ⟨?_, ?_, ?_, ?_⟩
  · constructor
    · rintro ⟨a, ha⟩
      obtain ⟨flat, doc, hflat, hdoc, -⟩ := generate_eq_ok_iff.mp ha
      exact ⟨flat, hflat,
        (exists_assemble_eq_ok_iff library spec config).mp ⟨doc, hdoc⟩⟩
    · rintro ⟨flat, hflat, hemits⟩
      obtain ⟨doc, hdoc⟩ :=
        (exists_assemble_eq_ok_iff library spec config).mpr hemits
      exact ⟨_, generate_eq_ok_iff.mpr ⟨flat, doc, hflat, hdoc, rfl⟩⟩
  · intro e hflat
    exact ⟨exists_duplicateModule_of_flatten hflat,
      generate_eq_error_iff.mpr (Or.inl hflat)⟩
  · intro flat hflat
    constructor
    · intro e
      rw [generate_eq_error_iff, hflat,
        ← assemble_eq_error_iff library spec config]
      simp
    · intro m method source hfirst
      rw [eq_keptModules_of_flatten hflat] at hfirst
      obtain ⟨hsource, hlast⟩ := hfirst.source_spec
      refine ⟨?_, ?_, hsource.root_eq, hlast⟩
      · rintro n f inner rfl
        rcases hsource with ⟨_, _, _, h⟩ | ⟨_, h⟩ <;> cases h
      · rintro name rfl
        rcases hsource with ⟨_, _, _, h⟩ | ⟨_, h⟩ <;> cases h
  · intro s' earlier later m m' hs hs' hname hlater
    rw [generate, generate, flatten_eq_of_overwritten hs hs' hname hlater]

theorem emits_clockModule :
    ∀ method ∈ clockModule.methods, Emits clockModule method := by
  simp only [clockModule, List.mem_cons, List.not_mem_nil, or_false,
    forall_eq_or_imp, forall_eq]
  exact ⟨⟨_, rfl⟩, ⟨_, rfl⟩, ⟨_, rfl⟩⟩

/-- A module whose second method returns a callback. -/
def alarmModule : NativeModule where
  name := "Alarm"
  methods :=
    [⟨"ring", [], .void, false⟩, ⟨"snooze", [], .callback false, false⟩]
  aliases := Table.empty

def alarmSchema : Schema := ⟨⟨[("specs", [clockModule, alarmModule])]⟩⟩

theorem generate_outcome_alarm :
    generate "App" "App" { duplicates := .reject } alarmSchema =
      .error (.inMethod "Alarm" "snooze"
        (.unsupported .callback false .result)) := by
  have hclock : ∀ n ∈ [clockModule], ∀ f ∈ n.methods, Emits n f := by
    rw [List.forall_mem_singleton]
    exact emits_clockModule
  have hring :
      ∀ f ∈ [Method.mk "ring" [] .void false], Emits alarmModule f := by
    simp only [List.mem_singleton, forall_eq]
    exact ⟨_, rfl⟩
  have houtcome :=
    generate_outcome "App" "App" { duplicates := .reject } alarmSchema
  have hfirst : FirstRefused [clockModule, alarmModule] alarmModule
      ⟨"snooze", [], .callback false, false⟩
      (.unsupported .callback false .result) :=
    ⟨⟨[clockModule], [], rfl, hclock⟩, ⟨_, [], rfl, hring⟩, rfl⟩
  exact ((houtcome.2.2.1 _ rfl).1 _).mpr ⟨alarmModule, _, _, hfirst, rfl⟩

end NativeGlue.Bridge
