import NativeGlue.Proofs.Inlining
import NativeGlue.Proofs.Tokens

/-!
# Methods with different descriptors

The text of a descriptor shows its tokens, so a change to a method shows in the
text as soon as it changes a token.  A parameter more or less always does, and
so does a boolean or a number that admits null where it did not before,
whichever of its flags says so.
-/

namespace NativeGlue

/-! ## Parameters that take null -/

/-- Whether a parameter takes null: its own flag says so, or the type that it
stands for. -/
def Param.takesNull (aliases : AliasTable) (p : Param) : Bool :=
  p.nullable || (p.type.resolvedBy aliases).isNullable

/-- Two types are booleans, or numbers of one flavour. -/
inductive TypeExpr.SameScalar : TypeExpr → TypeExpr → Prop where
  | boolean (nullable nullable' : Bool) :
      SameScalar (.boolean nullable) (.boolean nullable')
  | numeric (flavour : Flavour) (nullable nullable' : Bool) :
      SameScalar (.numeric flavour nullable) (.numeric flavour nullable')

theorem TypeExpr.SameScalar.ne_reference
    {type type' : TypeExpr} (hscalar : type.SameScalar type') (name : String) :
    type ≠ .reference name ∧ type' ≠ .reference name := by
  cases hscalar with
  | boolean => constructor <;> (intro h; cases h)
  | numeric => constructor <;> (intro h; cases h)

/-- Two parameters, each with the aliases of its module, stand for the same
boolean or number, and exactly one of them takes null. -/
structure Param.FlipsNull
    (aliases aliases' : AliasTable) (p p' : Param) : Prop where
  scalar :
    (p.type.resolvedBy aliases).SameScalar (p'.type.resolvedBy aliases')
  takesNull : p'.takesNull aliases' = !p.takesNull aliases

namespace Bridge

/-! ## Tokens of parameters -/

theorem resolvesIn_of_resolvedBy_ne_reference
    {aliases : AliasTable} {type : TypeExpr}
    (htype : ∀ name, type.resolvedBy aliases ≠ .reference name) :
    type.ResolvesIn aliases := by
  rintro name rfl
  have hresolved : (TypeExpr.reference name).resolvedBy aliases =
      (aliases.get? name).getD (.reference name) := rfl
  rw [hresolved] at htype
  cases hget : aliases.get? name with
  | none =>
      rw [hget] at htype
      exact absurd rfl (htype name)
  | some target =>
      rw [hget] at htype
      exact ⟨target, rfl, htype⟩

theorem ofType_of_resolvedBy_ne_reference
    {aliases : AliasTable} {p : Param} {token : Token}
    (hp : ∀ name, p.type.resolvedBy aliases ≠ .reference name) :
    Token.ofType aliases .parameter p.nullable p.type = .ok token ↔
      Token.ofResolved? .parameter (p.takesNull aliases)
        (p.type.resolvedBy aliases) = some token := by
  obtain ⟨hresolve, -⟩ :=
    resolvedBy_spec (resolvesIn_of_resolvedBy_ne_reference hp)
  have htoken : Token.ofType aliases .parameter p.nullable p.type =
      (Token.ofResolved? .parameter (p.takesNull aliases)
        (p.type.resolvedBy aliases)).elim
        (.error (.unsupported (p.type.resolvedBy aliases).tag
          (p.takesNull aliases) .parameter)) .ok := by
    rw [Token.ofType_eq_bind, hresolve]
    rfl
  rw [htoken]
  cases Token.ofResolved? .parameter (p.takesNull aliases)
    (p.type.resolvedBy aliases) with
  | none => simp
  | some found => simp

/-- A boolean or a number has one token if it takes null and another if not. -/
theorem ofResolved?_ne_of_sameScalar
    {type type' : TypeExpr} (hscalar : type.SameScalar type')
    (position : Position) (nullable : Bool) :
    Token.ofResolved? position nullable type ≠
      Token.ofResolved? position (!nullable) type' := by
  cases hscalar with
  | boolean => cases nullable <;> simp [Token.ofResolved?]
  | numeric => cases nullable <;> simp [Token.ofResolved?]

theorem token_ne_of_flipsNull
    {aliases aliases' : AliasTable} {p p' : Param} {token token' : Token}
    (hflip : Param.FlipsNull aliases aliases' p p')
    (htoken : Token.ofType aliases .parameter p.nullable p.type = .ok token)
    (htoken' :
      Token.ofType aliases' .parameter p'.nullable p'.type = .ok token') :
    token ≠ token' := by
  rw [ofType_of_resolvedBy_ne_reference
    fun name => (hflip.scalar.ne_reference name).1] at htoken
  rw [ofType_of_resolvedBy_ne_reference
    fun name => (hflip.scalar.ne_reference name).2, hflip.takesNull] at htoken'
  rintro rfl
  exact ofResolved?_ne_of_sameScalar hflip.scalar _ _
    (htoken.trans htoken'.symm)

/-! ## Descriptors of methods -/

section Methods

variable {aliases aliases' : AliasTable} {m m' : Method} {d d' : Descriptor}

/-- Each declared parameter has its token at its place. -/
theorem exists_token_of_ofMethod
    (hd : Descriptor.ofMethod aliases m = .ok d) {i : Nat} {p : Param}
    (hp : m.params[i]? = some p) :
    ∃ token, d.params[i]? = some token ∧
      Token.ofType aliases .parameter p.nullable p.type = .ok token := by
  obtain ⟨params, result, hparams, -, rfl⟩ :=
    Descriptor.ofMethod_eq_ok_iff.mp hd
  obtain ⟨hi, rfl⟩ := List.getElem?_eq_some_iff.mp hp
  have hi' : i < params.length := hparams.length_eq ▸ hi
  refine ⟨params[i], ?_, (List.forall₂_iff_get.mp hparams).2 i hi hi'⟩
  rw [List.getElem?_append_left hi', List.getElem?_eq_getElem hi']

theorem params_length_of_ofMethod
    (hd : Descriptor.ofMethod aliases m = .ok d) :
    d.params.length = m.params.length + m.returnsPromise.toNat := by
  obtain ⟨params, result, hparams, -, rfl⟩ :=
    Descriptor.ofMethod_eq_ok_iff.mp hd
  rw [List.length_append, hparams.length_eq]
  cases m.returnsPromise with
  | false => rfl
  | true => rfl

end Methods

/-- Descriptors with the same text have the same parameters and the same result.
So the text changes with every parameter that is added to a method or removed
from it, and with every boolean or number among the parameters that comes to
take null or no longer takes it, through a flag of its own, of its type or of
the alias that it refers to. -/
theorem descriptor_text_shows_params :
    (∀ d d' : Descriptor, d.text = d'.text →
      d.params = d'.params ∧ d.result = d'.result) ∧
    (∀ (aliases : AliasTable) (m : Method) (front back : List Param) (p : Param)
      (d d' : Descriptor),
      Descriptor.ofMethod aliases { m with params := front ++ back } = .ok d →
      Descriptor.ofMethod aliases { m with params := front ++ p :: back } =
        .ok d' →
      d.text ≠ d'.text) ∧
    ∀ (aliases aliases' : AliasTable) (m m' : Method) (i : Nat) (p p' : Param)
      (d d' : Descriptor),
      m.params[i]? = some p → m'.params[i]? = some p' →
      Param.FlipsNull aliases aliases' p p' →
      Descriptor.ofMethod aliases m = .ok d →
      Descriptor.ofMethod aliases' m' = .ok d' →
      d.text ≠ d'.text := by
  refine ⟨fun d d' => Descriptor.text_inj, ?_, ?_⟩
  · intro aliases m front back p d d' hd hd' htext
    have hlength := congrArg List.length (Descriptor.text_inj htext).1
    rw [params_length_of_ofMethod hd, params_length_of_ofMethod hd'] at hlength
    simp only [List.length_append, List.length_cons, Method.returnsPromise]
      at hlength
    omega
  · intro aliases aliases' m m' i p p' d d' hp hp' hflip hd hd' htext
    obtain ⟨token, htoken, hof⟩ := exists_token_of_ofMethod hd hp
    obtain ⟨token', htoken', hof'⟩ := exists_token_of_ofMethod hd' hp'
    rw [(Descriptor.text_inj htext).1, htoken'] at htoken
    exact token_ne_of_flipsNull hflip hof hof' (Option.some.inj htoken).symm

/-- A method with a boolean and a number that is named by an alias. -/
def fadeMethod : Method where
  name := "fade"
  params := [⟨"out", true, .boolean false⟩, ⟨"to", false, .reference "Level"⟩]
  result := .promise false
  isAccessor := false

/-- Aliases with a number that may admit null. -/
def levelAliases (nullable : Bool) : AliasTable :=
  ⟨[("Level", .numeric .float nullable)]⟩

theorem descriptor_text_shows_params_fade :
    ∃ plain boxed longer,
      Descriptor.ofMethod (levelAliases false) fadeMethod = .ok plain ∧
      Descriptor.ofMethod (levelAliases true) fadeMethod = .ok boxed ∧
      Descriptor.ofMethod (levelAliases false)
          { fadeMethod with
            params := [⟨"out", true, .boolean false⟩,
              ⟨"from", false, .reference "Level"⟩,
              ⟨"to", false, .reference "Level"⟩] } =
        .ok longer ∧
      plain.text ≠ boxed.text ∧ plain.text ≠ longer.text := by
  have hflip : Param.FlipsNull (levelAliases false) (levelAliases true)
      ⟨"to", false, .reference "Level"⟩ ⟨"to", false, .reference "Level"⟩ :=
    ⟨.numeric .float false true, rfl⟩
  refine ⟨_, _, _, rfl, rfl, rfl, ?_, ?_⟩
  · exact descriptor_text_shows_params.2.2 (levelAliases false)
      (levelAliases true) fadeMethod fadeMethod 1 _ _ _ _ rfl rfl hflip rfl rfl
  · exact descriptor_text_shows_params.2.1 (levelAliases false) fadeMethod
      [⟨"out", true, .boolean false⟩] [⟨"to", false, .reference "Level"⟩]
      ⟨"from", false, .reference "Level"⟩ _ _ rfl rfl

end Bridge

end NativeGlue
