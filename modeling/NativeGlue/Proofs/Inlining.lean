import NativeGlue.Proofs.Outline

/-!
# Inlining aliases and flags

A parameter may say in three places what it takes: in its type, in a flag of its
own, and in the alias that its type refers to.  Writing all of it into the type
and dropping the alias tables changes nothing that is generated, not even an
error, as long as the aliases in use are there and stand for types that are not
aliases again.
-/

namespace NativeGlue

/-! ## The inlined schema -/

/-- The type that a type stands for; a name that the table lacks stays. -/
def TypeExpr.resolvedBy (aliases : AliasTable) : TypeExpr → TypeExpr
  | .reference name => (aliases.get? name).getD (.reference name)
  | type => type

/-- The parameter whose type alone says what it takes: the type that its own
type stands for, which admits null if the flag says so. -/
def Param.inlined (aliases : AliasTable) (p : Param) : Param where
  name := p.name
  nullable := false
  type :=
    if p.nullable then (p.type.resolvedBy aliases).asNullable
    else p.type.resolvedBy aliases

/-- The method with all its parameters inlined. -/
def Method.inlined (aliases : AliasTable) (m : Method) : Method :=
  { m with params := m.params.map (Param.inlined aliases) }

/-- The module with all its methods inlined and without aliases. -/
def NativeModule.inlined (m : NativeModule) : NativeModule where
  name := m.name
  methods := m.methods.map (Method.inlined m.aliases)
  aliases := Table.empty

/-- The schema with all its modules inlined. -/
def Schema.inlined (s : Schema) : Schema where
  groups := ⟨s.groups.entries.map fun e => (e.1, e.2.map NativeModule.inlined)⟩

/-- The type is no reference, or refers to an alias of the table that stands for
a type which is none. -/
def TypeExpr.ResolvesIn (aliases : AliasTable) (type : TypeExpr) : Prop :=
  ∀ name, type = .reference name →
    ∃ target, aliases.get? name = some target ∧
      ∀ other, target ≠ .reference other

/-- Every alias that a parameter refers to is in the table of the module and
stands for a type that is no alias. -/
def NativeModule.ParamsResolve (m : NativeModule) : Prop :=
  ∀ method ∈ m.methods, ∀ p ∈ method.params, p.type.ResolvesIn m.aliases

/-- The same of every module of a schema. -/
def Schema.ParamsResolve (s : Schema) : Prop :=
  ∀ m ∈ s.modules, m.ParamsResolve

@[simp] theorem Schema.modules_inlined (s : Schema) :
    s.inlined.modules = s.modules.map NativeModule.inlined := by
  simp only [Schema.modules, Schema.inlined, Table.values, List.map_flatten,
    List.map_map]
  rfl

namespace Bridge

/-! ## Types -/

theorem resolve_of_ne_reference
    (aliases : AliasTable) {type : TypeExpr}
    (htype : ∀ name, type ≠ .reference name) :
    resolve aliases type = .ok type := by
  cases type with
  | reference name => exact absurd rfl (htype name)
  | _ => rfl

theorem resolvedBy_spec
    {aliases : AliasTable} {type : TypeExpr} (htype : type.ResolvesIn aliases) :
    resolve aliases type = .ok (type.resolvedBy aliases) ∧
      ∀ name, type.resolvedBy aliases ≠ .reference name := by
  cases type with
  | reference name =>
      obtain ⟨target, hget, htarget⟩ := htype name rfl
      have hresolved :
          (TypeExpr.reference name).resolvedBy aliases = target := by
        rw [TypeExpr.resolvedBy, hget, Option.getD_some]
      rw [hresolved]
      refine ⟨?_, htarget⟩
      rw [resolve, hget]
  | _ =>
      refine ⟨rfl, ?_⟩
      intro name hname
      cases hname

theorem asNullable_ne_reference
    {type : TypeExpr} (htype : ∀ name, type ≠ .reference name) (name : String) :
    type.asNullable ≠ .reference name := by
  cases type with
  | reference other => exact absurd rfl (htype other)
  | _ =>
      intro hname
      cases hname

theorem ofType_of_ne_reference
    (aliases : AliasTable) (position : Position) (nullable : Bool)
    {type : TypeExpr} (htype : ∀ name, type ≠ .reference name) :
    Token.ofType aliases position nullable type =
      (Token.ofResolved? position (nullable || type.isNullable) type).elim
        (.error (.unsupported type.tag (nullable || type.isNullable) position))
        .ok := by
  rw [Token.ofType_eq_bind, resolve_of_ne_reference aliases htype]
  rfl

/-- A flag beside a type says the same as the flag of the type.  Nothing has no
flag, but it has one token whatever the flag beside it says. -/
theorem ofType_asNullable
    (aliases : AliasTable) (position : Position) {type : TypeExpr}
    (htype : ∀ name, type ≠ .reference name) :
    Token.ofType aliases position false type.asNullable =
      Token.ofType aliases position true type := by
  rw [ofType_of_ne_reference aliases position _ htype,
    ofType_of_ne_reference aliases position _ (asNullable_ne_reference htype)]
  cases type with
  | reference name => exact absurd rfl (htype name)
  | object shape nullable => cases shape <;> rfl
  | _ => rfl

theorem ofType_inlined
    (aliases' : AliasTable) {aliases : AliasTable} (position : Position)
    {p : Param} (hp : p.type.ResolvesIn aliases) :
    Token.ofType aliases' position (p.inlined aliases).nullable
        (p.inlined aliases).type =
      Token.ofType aliases position p.nullable p.type := by
  obtain ⟨hresolve, hne⟩ := resolvedBy_spec hp
  have hstands : Token.ofType aliases position p.nullable p.type =
      Token.ofType aliases' position p.nullable
        (p.type.resolvedBy aliases) := by
    rw [Token.ofType_eq_bind, hresolve, ofType_of_ne_reference aliases' _ _ hne]
    rfl
  rw [hstands]
  unfold Param.inlined
  dsimp only
  cases p.nullable with
  | false => rfl
  | true => exact ofType_asNullable aliases' position hne

/-! ## Methods -/

theorem resultToken_inlined
    (aliases' aliases : AliasTable) {m : Method}
    (hresult : ∀ name, m.result ≠ .reference name) :
    Descriptor.resultToken aliases' (m.inlined aliases) =
      Descriptor.resultToken aliases m := by
  have htoken : Token.ofType aliases' .result false m.result =
      Token.ofType aliases .result false m.result := by
    rw [ofType_of_ne_reference aliases' _ _ hresult,
      ofType_of_ne_reference aliases _ _ hresult]
  unfold Descriptor.resultToken
  rw [← htoken]
  rfl

theorem ofMethod_inlined
    (aliases' : AliasTable) {aliases : AliasTable} {m : Method}
    (hresult : ∀ name, m.result ≠ .reference name)
    (hparams : ∀ p ∈ m.params, p.type.ResolvesIn aliases) :
    Descriptor.ofMethod aliases' (m.inlined aliases) =
      Descriptor.ofMethod aliases m := by
  have htokens :
      (m.inlined aliases).params.mapM
          (fun p => Token.ofType aliases' .parameter p.nullable p.type) =
        m.params.mapM
          (fun p => Token.ofType aliases .parameter p.nullable p.type) := by
    apply mapM_eq_of_forall₂
    rw [show (m.inlined aliases).params = m.params.map (Param.inlined aliases)
      from rfl, List.forall₂_map_left_iff, List.forall₂_same]
    intro p hp
    exact ofType_inlined aliases' .parameter (hparams p hp)
  unfold Descriptor.ofMethod
  rw [htokens, resultToken_inlined aliases' aliases hresult]
  rfl

/-- A method that returns a reference is refused for its kind, before any table
is looked at; all others resolve as their inlined form does. -/
theorem emitMethod_inlined
    (moduleName : String) (aliases' : AliasTable) {aliases : AliasTable}
    {m : Method} (hparams : ∀ p ∈ m.params, p.type.ResolvesIn aliases) :
    emitMethod moduleName aliases' (m.inlined aliases) =
      emitMethod moduleName aliases m := by
  have hnames :
      (m.inlined aliases).params.map (·.name) = m.params.map (·.name) := by
    rw [show (m.inlined aliases).params = m.params.map (Param.inlined aliases)
      from rfl, List.map_map]
    rfl
  have hlength : (m.inlined aliases).params.length = m.params.length :=
    List.length_map _
  have hresult : (m.inlined aliases).result = m.result := rfl
  unfold emitMethod
  rw [hnames, hlength, hresult]
  cases hkind : Kind.ofResult m.result with
  | error e => rfl
  | ok kind =>
      rw [ofMethod_inlined aliases' (result_ne_reference_of_ofResult hkind)
        hparams]
      rfl

/-! ## Modules and schemas -/

theorem sameBlock_inlined {m : NativeModule} (hm : m.ParamsResolve) :
    SameBlock m.inlined m := by
  refine ⟨rfl, ?_⟩
  have hmethods : m.inlined.methods.mapM (emitWithin m.inlined) =
      m.methods.mapM (emitWithin m) := by
    apply mapM_eq_of_forall₂
    rw [show m.inlined.methods = m.methods.map (Method.inlined m.aliases)
      from rfl, List.forall₂_map_left_iff, List.forall₂_same]
    intro method hmethod
    have hemit := emitMethod_inlined m.name Table.empty (hm method hmethod)
    unfold emitWithin
    rw [← hemit]
    rfl
  unfold Block.ofModule
  rw [hmethods]
  rfl

/-- Inlining aliases and flags leaves generation as it is: the same artifact, or
the same error. -/
theorem generate_inlined
    (library spec : String) (config : Config) {s : Schema}
    (hs : s.ParamsResolve) :
    generate library spec config s.inlined =
      generate library spec config s := by
  apply generate_eq_of_sameBlock
  rw [Schema.modules_inlined, List.forall₂_map_left_iff, List.forall₂_same]
  intro m hm
  exact sameBlock_inlined (hs m hm)

/-- A module whose only parameter refers to an alias and admits null by its
flag. -/
def volumeModule : NativeModule where
  name := "Volume"
  methods := [⟨"set", [⟨"level", true, .reference "Level"⟩], .void, false⟩]
  aliases := ⟨[("Level", .numeric .float false)]⟩

theorem generate_inlined_volume :
    ∃ s : Schema, s = ⟨⟨[("specs", [volumeModule])]⟩⟩ ∧
      s.ParamsResolve ∧
      s.inlined.modules =
        [⟨"Volume",
          [⟨"set", [⟨"level", false, .numeric .float true⟩], .void, false⟩],
          Table.empty⟩] ∧
      (∃ a, generate "App" "App" ⟨.reject, true, ""⟩ s = .ok a) ∧
      generate "App" "App" ⟨.reject, true, ""⟩ s.inlined =
        generate "App" "App" ⟨.reject, true, ""⟩ s := by
  have hmodules :
      (⟨⟨[("specs", [volumeModule])]⟩⟩ : Schema).modules = [volumeModule] := rfl
  have hs : (⟨⟨[("specs", [volumeModule])]⟩⟩ : Schema).ParamsResolve := by
    intro m hm method hmethod p hp name hname
    obtain rfl : m = volumeModule := by simpa [hmodules] using hm
    obtain rfl := List.mem_singleton.mp hmethod
    obtain rfl := List.mem_singleton.mp hp
    obtain rfl : "Level" = name := TypeExpr.reference.inj hname
    exact ⟨.numeric .float false, rfl, nofun⟩
  exact ⟨_, rfl, hs, rfl, ⟨_, rfl⟩, generate_inlined _ _ _ hs⟩

end Bridge

end NativeGlue
