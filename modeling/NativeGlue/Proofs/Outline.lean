import NativeGlue.Proofs.TwoRuns

/-!
# What generation reads of a type

Generation looks at the outside of a type only.  Two schemas that declare the
same modules, methods and parameters with types of the same outline are
generated alike: to the same text, or with the same error.
-/

namespace NativeGlue

/-! ## Outlines -/

/-- Two types have the same outline.  The flavour of a number, the elements of
an array and the members of an object that declares them may differ, and so may
whether a string, a reserved scalar or a promise admits null. -/
inductive TypeExpr.SameOutline : TypeExpr → TypeExpr → Prop where
  | void : SameOutline .void .void
  | string (nullable nullable' : Bool) :
      SameOutline (.string nullable) (.string nullable')
  | boolean (nullable : Bool) :
      SameOutline (.boolean nullable) (.boolean nullable)
  | numeric (flavour flavour' : Flavour) (nullable : Bool) :
      SameOutline (.numeric flavour nullable) (.numeric flavour' nullable)
  | reserved (scalar : ReservedScalar) (nullable nullable' : Bool) :
      SameOutline (.reserved scalar nullable) (.reserved scalar nullable')
  | generic (nullable : Bool) :
      SameOutline (.object .generic nullable) (.object .generic nullable)
  | structural (properties properties' : List Property) (nullable : Bool) :
      SameOutline (.object (.structural properties) nullable)
        (.object (.structural properties') nullable)
  | array (element element' : Option TypeExpr) (nullable : Bool) :
      SameOutline (.array element nullable) (.array element' nullable)
  | callback (nullable : Bool) :
      SameOutline (.callback nullable) (.callback nullable)
  | promise (nullable nullable' : Bool) :
      SameOutline (.promise nullable) (.promise nullable')
  | reference (name : String) : SameOutline (.reference name) (.reference name)

/-- Two parameters have the same name, flag and outline. -/
structure Param.SameOutline (p p' : Param) : Prop where
  name_eq : p.name = p'.name
  nullable_eq : p.nullable = p'.nullable
  type : p.type.SameOutline p'.type

/-- Two methods have the same name, flag and outlines.  If they are accessors,
both or neither declare that there are no constants. -/
structure Method.SameOutline (m m' : Method) : Prop where
  name_eq : m.name = m'.name
  isAccessor_eq : m.isAccessor = m'.isAccessor
  params : List.Forall₂ Param.SameOutline m.params m'.params
  result : m.result.SameOutline m'.result
  isEmptyObject_eq :
    m.isAccessor = true → m.result.isEmptyObject = m'.result.isEmptyObject

/-- A parameter of some method refers to an alias. -/
def NativeModule.RefersTo (m : NativeModule) (name : String) : Prop :=
  ∃ method ∈ m.methods, ∃ p ∈ method.params, p.type = .reference name

/-- Two modules have the same name and methods of the same outline, and every
alias that a parameter refers to has the same outline in both, or is missing
from both.  Other aliases do not matter. -/
structure NativeModule.SameOutline (m m' : NativeModule) : Prop where
  name_eq : m.name = m'.name
  methods : List.Forall₂ Method.SameOutline m.methods m'.methods
  aliases : ∀ name, m.RefersTo name →
    Option.Rel TypeExpr.SameOutline (m.aliases.get? name) (m'.aliases.get? name)

/-- Two schemas have the same groups, with modules of the same outline. -/
def Schema.SameOutline (s s' : Schema) : Prop :=
  s.groups.Alike (List.Forall₂ NativeModule.SameOutline) s'.groups

namespace Bridge

/-! ## Types -/

theorem ofResult_eq_of_sameOutline
    {t t' : TypeExpr} (ht : t.SameOutline t') :
    Kind.ofResult t = Kind.ofResult t' := by
  cases ht <;> rfl

theorem isPromise_eq_of_sameOutline
    {t t' : TypeExpr} (ht : t.SameOutline t') :
    t.isPromise = t'.isPromise := by
  cases ht <;> rfl

theorem resolve_sameOutcome
    {aliases aliases' : AliasTable} {t t' : TypeExpr} (ht : t.SameOutline t')
    (haliases : ∀ name, t = .reference name →
      Option.Rel TypeExpr.SameOutline
        (aliases.get? name) (aliases'.get? name)) :
    SameOutcome TypeExpr.SameOutline
      (resolve aliases t) (resolve aliases' t') := by
  cases ht with
  | reference name =>
      have hfound := haliases name rfl
      unfold resolve
      dsimp only
      generalize aliases.get? name = found at hfound ⊢
      generalize aliases'.get? name = found' at hfound ⊢
      cases hfound with
      | some h => exact .ok h
      | none => exact .error _
  | _ => exact .ok (by constructor)

theorem ofType_eq_of_sameOutline
    {aliases aliases' : AliasTable} {t t' : TypeExpr} (ht : t.SameOutline t')
    (haliases : ∀ name, t = .reference name →
      Option.Rel TypeExpr.SameOutline (aliases.get? name) (aliases'.get? name))
    (position : Position) (nullable : Bool) :
    Token.ofType aliases position nullable t =
      Token.ofType aliases' position nullable t' := by
  rw [Token.ofType_eq_bind, Token.ofType_eq_bind]
  apply (resolve_sameOutcome ht haliases).bind_eq
  intro resolved resolved' hresolved
  cases hresolved <;> rfl

/-! ## Methods -/

/-- A result that has a kind is no reference, so it has the same outline
whatever the aliases are. -/
theorem result_ne_reference_of_ofResult
    {t : TypeExpr} {kind : Kind} (hkind : Kind.ofResult t = .ok kind)
    (name : String) :
    t ≠ .reference name := by
  rintro rfl
  cases hkind

section Methods

variable {aliases aliases' : AliasTable} {m m' : Method}

theorem isLeftOut_eq_of_sameOutline (hm : m.SameOutline m') :
    m.isLeftOut = m'.isLeftOut := by
  unfold Method.isLeftOut
  rw [← hm.isAccessor_eq]
  cases haccessor : m.isAccessor with
  | false => rfl
  | true => rw [hm.isEmptyObject_eq haccessor]

theorem returnsPromise_eq_of_sameOutline (hm : m.SameOutline m') :
    m.returnsPromise = m'.returnsPromise :=
  isPromise_eq_of_sameOutline hm.result

theorem ofMethod_eq_of_sameOutline
    (hm : m.SameOutline m') (hresult : ∀ name, m.result ≠ .reference name)
    (haliases : ∀ p ∈ m.params, ∀ name, p.type = .reference name →
      Option.Rel TypeExpr.SameOutline
        (aliases.get? name) (aliases'.get? name)) :
    Descriptor.ofMethod aliases m = Descriptor.ofMethod aliases' m' := by
  have hparams :
      m.params.mapM
          (fun p => Token.ofType aliases .parameter p.nullable p.type) =
        m'.params.mapM
          (fun p => Token.ofType aliases' .parameter p.nullable p.type) := by
    apply mapM_eq_of_forall₂
    have htypes := (List.forall₂_and_left _ _).mpr ⟨haliases, hm.params⟩
    refine htypes.imp fun p p' hp => ?_
    rw [← hp.2.nullable_eq]
    exact ofType_eq_of_sameOutline hp.2.type hp.1 .parameter p.nullable
  have htoken : Descriptor.resultToken aliases m =
      Descriptor.resultToken aliases' m' := by
    unfold Descriptor.resultToken
    rw [← hm.isAccessor_eq, ← returnsPromise_eq_of_sameOutline hm,
      ofType_eq_of_sameOutline hm.result fun name h => absurd h (hresult name)]
  unfold Descriptor.ofMethod
  rw [hparams, htoken, returnsPromise_eq_of_sameOutline hm]

theorem emitMethod_eq_of_sameOutline
    (moduleName : String) (hm : m.SameOutline m')
    (haliases : ∀ p ∈ m.params, ∀ name, p.type = .reference name →
      Option.Rel TypeExpr.SameOutline
        (aliases.get? name) (aliases'.get? name)) :
    emitMethod moduleName aliases m = emitMethod moduleName aliases' m' := by
  have hnames : m.params.map (·.name) = m'.params.map (·.name) := by
    rw [← List.forall₂_eq_eq_eq, List.forall₂_map_left_iff,
      List.forall₂_map_right_iff]
    exact hm.params.imp fun _ _ hp => hp.name_eq
  have hleft := isLeftOut_eq_of_sameOutline hm
  unfold Method.isLeftOut at hleft
  unfold emitMethod
  rw [hleft, ← ofResult_eq_of_sameOutline hm.result, ← hm.name_eq, ← hnames,
    ← hm.params.length_eq]
  split
  · rfl
  · cases hkind : Kind.ofResult m.result with
    | error e => rfl
    | ok kind =>
        rw [ofMethod_eq_of_sameOutline hm
          (result_ne_reference_of_ofResult hkind) haliases]

end Methods

/-! ## Modules and schemas -/

theorem sameBlock_of_sameOutline
    {m m' : NativeModule} (hm : m.SameOutline m') :
    SameBlock m m' := by
  refine ⟨hm.name_eq, ?_⟩
  have hmethods : m.methods.mapM (emitWithin m) =
      m'.methods.mapM (emitWithin m') := by
    apply mapM_eq_of_forall₂
    have hall := (List.forall₂_and_left _ _).mpr ⟨fun _ h => h, hm.methods⟩
    refine hall.imp fun method method' hmethod => ?_
    have hemit := emitMethod_eq_of_sameOutline m.name hmethod.2
      fun p hp name hname => hm.aliases name ⟨method, hmethod.1, p, hp, hname⟩
    unfold emitWithin
    rw [hemit, hm.name_eq, hmethod.2.name_eq]
  unfold Block.ofModule
  rw [hmethods, hm.name_eq]

/-- Schemas of the same outline are generated alike: to the same artifact, or
with the same error. -/
theorem generate_eq_of_sameOutline
    (library spec : String) (config : Config) {s s' : Schema}
    (hs : s.SameOutline s') :
    generate library spec config s = generate library spec config s' := by
  apply generate_eq_of_sameBlock
  have hmodules : List.Forall₂ NativeModule.SameOutline s.modules s'.modules :=
    List.rel_flatten hs.values
  exact hmodules.imp fun _ _ => sameBlock_of_sameOutline

/-- A module with an accessor, a promise and a parameter that refers to an
alias; the parts that generation does not read are left open. -/
def playerModule (flavour : Flavour) (nullable : Bool) (track : TypeExpr)
    (unread : List (String × TypeExpr)) : NativeModule where
  name := "Player"
  methods :=
    [⟨"getConstants", [],
        .object (.structural [⟨"track", nullable, track⟩]) false, true⟩,
      ⟨"play",
        [⟨"from", true, .numeric flavour false⟩,
          ⟨"queue", false, .reference "Queue"⟩],
        .promise nullable, false⟩]
  aliases := ⟨unread ++ [("Queue", .array (some track) false)]⟩

theorem generate_eq_of_sameOutline_player :
    ∃ s s' : Schema,
      s = ⟨⟨[("specs", [playerModule .int32 true (.string true) []])]⟩⟩ ∧
      s' = ⟨⟨[("specs",
        [playerModule .number false .void [("Lyrics", .void)]])]⟩⟩ ∧
      s.SameOutline s' ∧
      (∃ a, generate "App" "App" ⟨.reject, false, ""⟩ s = .ok a) ∧
      generate "App" "App" ⟨.reject, false, ""⟩ s =
        generate "App" "App" ⟨.reject, false, ""⟩ s' := by
  have hmodule : (playerModule .int32 true (.string true) []).SameOutline
      (playerModule .number false .void [("Lyrics", .void)]) := by
    refine ⟨rfl, .cons ?_ (.cons ?_ .nil), ?_⟩
    · exact ⟨rfl, rfl, .nil, .structural _ _ _, fun _ => rfl⟩
    · exact ⟨rfl, rfl, .cons ⟨rfl, rfl, .numeric _ _ _⟩
        (.cons ⟨rfl, rfl, .reference _⟩ .nil), .promise _ _, nofun⟩
    · rintro name ⟨method, hmethod, p, hp, hname⟩
      have hqueue : name = "Queue" := by
        simp only [playerModule, List.mem_cons, List.not_mem_nil, or_false]
          at hmethod
        rcases hmethod with rfl | rfl
        · simp at hp
        · simp only [List.mem_cons, List.not_mem_nil, or_false] at hp
          rcases hp with rfl | rfl
          · cases hname
          · exact (TypeExpr.reference.inj hname).symm
      subst hqueue
      exact .some (.array _ _ _)
  have hs : Schema.SameOutline
      ⟨⟨[("specs", [playerModule .int32 true (.string true) []])]⟩⟩
      ⟨⟨[("specs", [playerModule .number false .void [("Lyrics", .void)]])]⟩⟩ :=
    .cons ⟨rfl, .cons hmodule .nil⟩ .nil
  exact ⟨_, _, rfl, rfl, hs, ⟨_, rfl⟩, generate_eq_of_sameOutline _ _ _ hs⟩

end Bridge

end NativeGlue
