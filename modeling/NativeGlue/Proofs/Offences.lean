import NativeGlue.Schema.OfRaw
import NativeGlue.Proofs.Traversal

/-!
# The offences of a raw schema

Conversion stops at the first offence.  This module lists all offences of a raw
schema in the order in which they stand, without converting anything: which
types are looked at, and what can be wrong with each of them.  Conversion then
succeeds when the list is empty, and otherwise fails with its head.
-/

namespace NativeGlue

/-! ## Results that report the first of some offences -/

section StopsAtFirst

variable {ε α β : Type}

/-- A result fails with the first of the given offences, and with nothing
else. -/
def StopsAtFirst (x : Except ε α) (offences : List ε) : Prop :=
  ∀ e, x = .error e ↔ offences.head? = some e

theorem stopsAtFirst_ok (a : α) : StopsAtFirst (Except.ok (ε := ε) a) [] := by
  intro e
  simp

theorem stopsAtFirst_error (e : ε) (offences : List ε) :
    StopsAtFirst (Except.error (α := α) e) (e :: offences) := by
  intro e'
  simp

theorem StopsAtFirst.exists_ok_iff
    {x : Except ε α} {offences : List ε} (hx : StopsAtFirst x offences) :
    (∃ a, x = .ok a) ↔ offences = [] := by
  rw [exists_ok_iff_forall_ne_error, ← List.head?_eq_none_iff,
    Option.eq_none_iff_forall_ne_some]
  exact forall_congr' fun e => not_congr (hx e)

/-- The offences of a step come before those of what follows it. -/
theorem StopsAtFirst.bind
    {x : Except ε α} {f : α → Except ε β} {es fs : List ε}
    (hx : StopsAtFirst x es) (hf : ∀ a, x = .ok a → StopsAtFirst (f a) fs) :
    StopsAtFirst (x >>= f) (es ++ fs) := by
  intro e
  rw [bind_eq_error_iff, List.head?_append, hx e]
  cases hes : es with
  | nil =>
      obtain ⟨a, ha⟩ := hx.exists_ok_iff.mpr hes
      subst ha
      simpa using hf a rfl e
  | cons e' es =>
      have herror : x = .error e' := (hx e').mpr (by rw [hes]; rfl)
      simp [herror]

theorem StopsAtFirst.map
    {x : Except ε α} {offences : List ε} (hx : StopsAtFirst x offences)
    (g : α → β) :
    StopsAtFirst (do let a ← x; return g a) offences := by
  rw [← List.append_nil offences]
  exact hx.bind fun a _ => stopsAtFirst_ok (g a)

/-- A walk reports the offences of its elements in order. -/
theorem stopsAtFirst_mapM
    {f : α → Except ε β} {offences : α → List ε}
    (hf : ∀ x, StopsAtFirst (f x) (offences x)) (xs : List α) :
    StopsAtFirst (xs.mapM f) (xs.flatMap offences) := by
  induction xs with
  | nil => exact stopsAtFirst_ok []
  | cons x xs ih =>
      rw [List.mapM_cons, List.flatMap_cons]
      exact (hf x).bind fun y _ => ih.map (y :: ·)

end StopsAtFirst

/-! ## Tags -/

theorem Tag.name_injective : Function.Injective Tag.name := by
  intro a b h
  have hname := Tag.ofName?_name a
  rw [h, Tag.ofName?_name] at hname
  exact (Option.some.inj hname).symm

@[simp] theorem Tag.mem_all (tag : Tag) : tag ∈ Tag.all := by
  cases tag <;> decide

theorem Tag.ofName?_eq_none_iff {name : String} :
    Tag.ofName? name = none ↔ name ∉ Tag.all.map Tag.name := by
  rw [Option.eq_none_iff_forall_ne_some, List.mem_map]
  constructor
  · rintro h ⟨tag, -, rfl⟩
    exact h tag (Tag.ofName?_name tag)
  · intro h tag htag
    exact h ⟨tag, tag.mem_all, (Tag.ofName?_eq_some_iff.mp htag).symm⟩

namespace Raw

/-! ## The types that are looked at -/

mutual

/-- A type and, depth first, the types inside it that its tag uses: those of the
members of an object and that of the elements of an array. -/
def TypeExpr.reached : TypeExpr → List TypeExpr
  | ⟨tag, nullable, name, properties, element⟩ =>
    ⟨tag, nullable, name, properties, element⟩ ::
      if tag = Tag.object.name then
        match properties with
        | none => []
        | some properties => reachedProperties properties
      else if tag = Tag.array.name then
        match element with
        | none => []
        | some element => element.reached
      else []
termination_by structural raw => raw

/-- The types that are reached through a member. -/
def Property.reached : Property → List TypeExpr
  | ⟨_, _, type⟩ => type.reached
termination_by structural raw => raw

/-- The types that are reached through some members. -/
def reachedProperties : List Property → List TypeExpr
  | [] => []
  | p :: ps => p.reached ++ reachedProperties ps
termination_by structural raw => raw

end

/-! ## What can be wrong -/

/-- What is wrong with a type, the types inside it apart. -/
def TypeExpr.offence? (t : TypeExpr) : Option SchemaError :=
  if t.tag ∉ Tag.all.map Tag.name then some (.unsupportedType t.tag)
  else if
      t.tag = Tag.reserved.name ∧ t.name ≠ some ReservedScalar.rootTag.name then
    some (.unknownReservedScalar (t.name.getD ""))
  else if t.tag = Tag.reference.name ∧ t.name = none then some .missingAliasName
  else none

/-- The offences of a type. -/
def TypeExpr.offences (t : TypeExpr) : List SchemaError :=
  t.reached.filterMap TypeExpr.offence?

/-- The offences of a method.  If it is not typed as a function, nothing else
about it is looked at. -/
def Method.offences (m : Method) : List SchemaError :=
  if m.type.tag = Tag.callback.name then
    m.type.params.flatMap (·.type.offences) ++ m.type.result.offences
  else [.notAFunction m.name m.type.tag]

/-- The offences of a module: all of its aliases, then all of its methods. -/
def NativeModule.offences (m : NativeModule) : List SchemaError :=
  m.aliases.values.flatMap TypeExpr.offences ++
    m.methods.flatMap Method.offences

/-- The offences of a group, which has none if it declares no native modules. -/
def Group.offences (g : Group) : List SchemaError :=
  match g.nativeModules with
  | none => []
  | some modules => modules.values.flatMap NativeModule.offences

/-- The offences of a schema. -/
def Schema.offences (s : Schema) : List SchemaError :=
  s.groups.values.flatMap Group.offences

end Raw

/-! ## Conversion -/

@[simp] theorem Tag.name_mem_all (tag : Tag) :
    tag.name ∈ Tag.all.map Tag.name :=
  List.mem_map_of_mem tag.mem_all

/-- A missing name reads as the empty one, which no reserved scalar has. -/
theorem ReservedScalar.ofName?_getD_eq_some_iff
    {name : Option String} {scalar : ReservedScalar} :
    ReservedScalar.ofName? (name.getD "") = some scalar ↔
      name = some scalar.name := by
  rw [ReservedScalar.ofName?_eq_some_iff]
  cases scalar
  cases name with
  | none => simp [ReservedScalar.name]
  | some name => simp

theorem ReservedScalar.ofName?_getD_eq_none_iff {name : Option String} :
    ReservedScalar.ofName? (name.getD "") = none ↔
      name ≠ some ReservedScalar.rootTag.name := by
  rw [Option.eq_none_iff_forall_ne_some]
  constructor
  · intro h hname
    exact h .rootTag (ReservedScalar.ofName?_getD_eq_some_iff.mpr hname)
  · intro h scalar hscalar
    cases scalar
    exact h (ReservedScalar.ofName?_getD_eq_some_iff.mp hscalar)

/-- A type is converted as its parts are. -/
theorem TypeExpr.ofRaw_stopsAtFirst_of_parts
    {raw : Raw.TypeExpr}
    (hproperties : ∀ ps, raw.properties = some ps →
      StopsAtFirst (propertiesOfRaw ps)
        ((Raw.reachedProperties ps).filterMap Raw.TypeExpr.offence?))
    (helement : ∀ t, raw.element = some t →
      StopsAtFirst (TypeExpr.ofRaw t) t.offences) :
    StopsAtFirst (TypeExpr.ofRaw raw) raw.offences := by
  obtain ⟨tag, nullable, name, properties, element⟩ := raw
  rw [TypeExpr.ofRaw.eq_def, Raw.TypeExpr.offences, Raw.TypeExpr.reached.eq_def,
    List.filterMap_cons, Raw.TypeExpr.offence?]
  dsimp only at hproperties helement ⊢
  cases htag : Tag.ofName? tag with
  | none =>
      rw [if_pos (Tag.ofName?_eq_none_iff.mp htag)]
      exact stopsAtFirst_error _ _
  | some known =>
      obtain rfl := Tag.ofName?_eq_some_iff.mp htag
      simp only [known.name_mem_all, not_true_eq_false, if_false,
        Tag.name_injective.eq_iff]
      cases known with
      | reserved =>
        by_cases hname : name = some ReservedScalar.rootTag.name
        · subst hname
          exact stopsAtFirst_ok _
        · have hscalar := ReservedScalar.ofName?_getD_eq_none_iff.mpr hname
          simp [hscalar, hname, stopsAtFirst_error]
      | object =>
        cases properties with
        | none => exact stopsAtFirst_ok _
        | some ps => exact (hproperties ps rfl).map _
      | array =>
        cases element with
        | none => exact stopsAtFirst_ok _
        | some t => exact (helement t rfl).map _
      | reference =>
        cases name with
        | none => exact stopsAtFirst_error _ _
        | some name => exact stopsAtFirst_ok _
      | void | string | boolean | number | double | float | int32
      | genericObject | callback | promise => exact stopsAtFirst_ok _

mutual

theorem TypeExpr.ofRaw_stopsAtFirst :
    ∀ raw : Raw.TypeExpr, StopsAtFirst (TypeExpr.ofRaw raw) raw.offences
  | ⟨_, _, _, properties, element⟩ => by
    apply TypeExpr.ofRaw_stopsAtFirst_of_parts
    · cases properties with
      | none => nofun
      | some ps =>
        rintro _ ⟨⟩
        exact propertiesOfRaw_stopsAtFirst ps
    · cases element with
      | none => nofun
      | some t =>
        rintro _ ⟨⟩
        exact TypeExpr.ofRaw_stopsAtFirst t

theorem Property.ofRaw_stopsAtFirst :
    ∀ raw : Raw.Property, StopsAtFirst (Property.ofRaw raw)
      (raw.reached.filterMap Raw.TypeExpr.offence?)
  | ⟨name, optional, type⟩ => by
    rw [Property.ofRaw.eq_def, Raw.Property.reached.eq_def]
    exact (TypeExpr.ofRaw_stopsAtFirst type).map _

theorem propertiesOfRaw_stopsAtFirst :
    ∀ raw : List Raw.Property, StopsAtFirst (propertiesOfRaw raw)
      ((Raw.reachedProperties raw).filterMap Raw.TypeExpr.offence?)
  | [] => stopsAtFirst_ok []
  | p :: ps => by
    rw [propertiesOfRaw, Raw.reachedProperties, List.filterMap_append]
    exact (Property.ofRaw_stopsAtFirst p).bind fun _ _ =>
      (propertiesOfRaw_stopsAtFirst ps).map _

end

theorem Param.ofRaw_stopsAtFirst (raw : Raw.Param) :
    StopsAtFirst (Param.ofRaw raw) raw.type.offences :=
  (TypeExpr.ofRaw_stopsAtFirst raw.type).map _

theorem Method.ofRaw_stopsAtFirst (raw : Raw.Method) :
    StopsAtFirst (Method.ofRaw raw) raw.offences := by
  rw [Method.ofRaw, Raw.Method.offences, Tag.name]
  split
  · have hparams := stopsAtFirst_mapM Param.ofRaw_stopsAtFirst raw.type.params
    exact hparams.bind fun _ _ =>
      (TypeExpr.ofRaw_stopsAtFirst raw.type.result).map _
  · exact stopsAtFirst_error _ _

/-- Converting the values of a table reports their offences in order. -/
theorem Table.mapM_stopsAtFirst
    {α β ε : Type} {f : α → Except ε β} {offences : α → List ε}
    (hf : ∀ x, StopsAtFirst (f x) (offences x)) (t : Table α) :
    StopsAtFirst (t.mapM f) (t.values.flatMap offences) := by
  rw [Table.mapM, Table.values, List.flatMap_map]
  have hentry (e : String × α) := (hf e.2).map fun value => (e.1, value)
  exact (stopsAtFirst_mapM hentry t.entries).map _

theorem NativeModule.ofRaw_stopsAtFirst
    (name : String) (raw : Raw.NativeModule) :
    StopsAtFirst (NativeModule.ofRaw name raw) raw.offences :=
  (Table.mapM_stopsAtFirst TypeExpr.ofRaw_stopsAtFirst raw.aliases).bind
    fun _ _ => (stopsAtFirst_mapM Method.ofRaw_stopsAtFirst raw.methods).map _

theorem modulesOfRaw_stopsAtFirst (raw : Table Raw.NativeModule) :
    StopsAtFirst (modulesOfRaw raw)
      (raw.values.flatMap Raw.NativeModule.offences) := by
  rw [modulesOfRaw, Table.values, List.flatMap_map]
  exact stopsAtFirst_mapM
    (fun e => NativeModule.ofRaw_stopsAtFirst e.1 e.2) raw.entries

/-- The offences of a schema are those of the groups that declare native
modules. -/
theorem Raw.Schema.flatMap_declaredGroups (raw : Raw.Schema) :
    raw.declaredGroups.flatMap
        (fun e => e.2.values.flatMap Raw.NativeModule.offences) =
      raw.offences := by
  rw [Raw.Schema.declaredGroups, Raw.Schema.offences, Table.values,
    List.flatMap_map]
  induction raw.groups.entries with
  | nil => rfl
  | cons e es ih =>
      rw [List.filterMap_cons, List.flatMap_cons, ← ih, Raw.Group.offences]
      cases e.2.nativeModules <;> rfl

theorem Schema.ofRaw_stopsAtFirst (raw : Raw.Schema) :
    StopsAtFirst (Schema.ofRaw raw) raw.offences := by
  rw [← raw.flatMap_declaredGroups, Schema.ofRaw]
  exact (stopsAtFirst_mapM
    (fun e : String × Table Raw.NativeModule =>
      (modulesOfRaw_stopsAtFirst e.2).map _) raw.declaredGroups).map _

/-- A raw schema is converted exactly when it has no offence, and otherwise the
first of its offences is the error. -/
theorem Schema.ofRaw_outcome (raw : Raw.Schema) :
    ((∃ s, Schema.ofRaw raw = .ok s) ↔ raw.offences = []) ∧
      ∀ e, Schema.ofRaw raw = .error e ↔ raw.offences.head? = some e :=
  ⟨(Schema.ofRaw_stopsAtFirst raw).exists_ok_iff, Schema.ofRaw_stopsAtFirst raw⟩

-- The members of an object are looked at in order, its element type is not.
example :
    Raw.TypeExpr.offences
        ⟨"ObjectTypeAnnotation", false, none,
          some [
            ⟨"a", false, ⟨"TypeAliasTypeAnnotation", false, none, none, none⟩⟩,
            ⟨"b", true,
              ⟨"ReservedFunctionValueTypeAnnotation", true, some "Tag",
                none, none⟩⟩],
          some ⟨"Tuple", false, none, none, none⟩⟩ =
      [.missingAliasName, .unknownReservedScalar "Tag"] := by
  decide +kernel

end NativeGlue
