import NativeGlue.Proofs.Descriptors
import NativeGlue.Proofs.HostFunctions
import NativeGlue.Proofs.MethodTypes
import NativeGlue.Proofs.Tokens

/-!
# Descriptors that the virtual machine can read

The text of a descriptor is tokens in a row.  It spells a method type of the
virtual machine unless a parameter is carried as nothing, which has a token but
is no type of a value.  The tokens also keep to their side: what is read only
stands among the parameters, what is written stands as the result.
-/

namespace NativeGlue.Bridge

/-! ## Tokens as types -/

theorem spellsField_of_ofList
    {s : String} {cs : List Char} (hs : s = String.ofList ('L' :: cs))
    (hlast : cs.getLast? = some ';')
    (hname : Jvm.isClassName cs.dropLast = true) :
    ∃ type, Jvm.SpellsField s.toList type := by
  obtain ⟨name, rfl⟩ := List.getLast?_eq_some_iff.mp hlast
  rw [List.dropLast_concat] at hname
  rw [hs, String.toList_ofList]
  exact ⟨_, .object (Jvm.isClassName_iff.mp hname)⟩

/-- Every token but that of nothing is the type of a value. -/
theorem exists_spellsField {token : Token} (htoken : token ≠ .void) :
    ∃ type, Jvm.SpellsField token.text.toList type := by
  cases token with
  | void => exact absurd rfl htoken
  | double => exact ⟨_, .double⟩
  | boolean => exact ⟨_, .boolean⟩
  | boxedDouble | boxedBoolean | string | readableMap | writableMap
  | readableArray | writableArray | callback | promise | map =>
      exact spellsField_of_ofList rfl (by decide) (by decide)

theorem exists_spellsResult (token : Token) :
    ∃ result, Jvm.SpellsResult token.text.toList result := by
  by_cases htoken : token = .void
  · rw [htoken]
    exact ⟨none, .void⟩
  · obtain ⟨type, htype⟩ := exists_spellsField htoken
    exact ⟨some type, .field htype⟩

theorem exists_spellsFields {tokens : List Token} (htokens : .void ∉ tokens) :
    ∃ types, Jvm.SpellsFields (tokens.flatMap (·.text.toList)) types ∧
      types.length = tokens.length := by
  induction tokens with
  | nil => exact ⟨[], .nil, rfl⟩
  | cons token tokens ih =>
      rw [List.mem_cons, not_or] at htokens
      obtain ⟨type, htype⟩ := exists_spellsField (Ne.symm htokens.1)
      obtain ⟨types, htypes, hlength⟩ := ih htokens.2
      exact ⟨type :: types, .cons htype htypes, congrArg (· + 1) hlength⟩

/-- A reader of types stops at the first token of nothing. -/
theorem readFields_of_void_mem
    {tokens : List Token} (htokens : .void ∈ tokens) (rest : List Char) :
    ∃ more, (Jvm.readFields (tokens.flatMap (·.text.toList) ++ rest)).2 =
      'V' :: more := by
  obtain ⟨before, after, rfl, hbefore⟩ := List.eq_append_cons_of_mem htokens
  obtain ⟨types, htypes, -⟩ := exists_spellsFields hbefore
  have hvoid : Token.void.text.toList = ['V'] := String.toList_ofList
  refine ⟨after.flatMap (·.text.toList) ++ rest, ?_⟩
  rw [List.flatMap_append, List.flatMap_cons, hvoid, List.append_assoc,
    List.append_assoc, List.singleton_append]
  rw [Jvm.readFields_append htypes rfl]

/-- A descriptor spells a method type exactly when no parameter is nothing, and
then a type with as many parameters. -/
theorem spellsMethod_text_iff (d : Descriptor) :
    ((∃ type, Jvm.SpellsMethod d.text.toList type) ↔ .void ∉ d.params) ∧
      ∀ type, Jvm.SpellsMethod d.text.toList type →
        type.params.length = d.params.length := by
  have hspells : .void ∉ d.params →
      ∃ type, Jvm.SpellsMethod d.text.toList type ∧
        type.params.length = d.params.length := by
    intro hvoid
    obtain ⟨types, htypes, hlength⟩ := exists_spellsFields hvoid
    obtain ⟨result, hresult⟩ := exists_spellsResult d.result
    rw [Descriptor.toList_text]
    exact ⟨⟨types, result⟩, .mk htypes hresult, hlength⟩
  have hvoid :
      ∀ type, Jvm.SpellsMethod d.text.toList type → .void ∉ d.params := by
    intro type htype hmem
    -- The reader comes to the token of nothing where it needs a parenthesis.
    obtain ⟨more, hmore⟩ :=
      readFields_of_void_mem hmem (')' :: d.result.text.toList)
    rw [← Jvm.readMethod_eq_some_iff, Descriptor.toList_text,
      Jvm.readMethod, hmore] at htype
    cases htype
  constructor
  · constructor
    · rintro ⟨type, htype⟩
      exact hvoid type htype
    · intro hmem
      obtain ⟨type, htype, -⟩ := hspells hmem
      exact ⟨type, htype⟩
  · intro type htype
    obtain ⟨type', htype', hlength⟩ := hspells (hvoid type htype)
    rw [htype.unique htype', hlength]

/-! ## Tokens of methods -/

/-- No kind unmarshals what is only ever a parameter. -/
theorem Kind.notMem_of_mem_tokens (kind : Kind) :
    ∀ token ∈ kind.tokens,
      token ∉ [.readableMap, .readableArray, .callback, .promise] := by
  cases kind <;> decide

theorem ofResolved?_parameter
    {nullable : Bool} {type : TypeExpr} {token : Token}
    (htoken : Token.ofResolved? .parameter nullable type = some token) :
    token ∉ [.writableMap, .writableArray, .map] ∧
      (token = .void ↔ type = .void) := by
  cases type with
  | reference => cases htoken
  | void | string | reserved | promise =>
      cases htoken
      simp
  | boolean | numeric | object | array | callback =>
      cases nullable <;> cases htoken <;> simp

/-- A parameter has a token for values that are read, and that of nothing only
if it stands for nothing. -/
theorem ofType_parameter
    {aliases : AliasTable} {p : Param} {token : Token}
    (htoken : Token.ofType aliases .parameter p.nullable p.type = .ok token) :
    token ∉ [.writableMap, .writableArray, .map] ∧
      (token = .void ↔ resolve aliases p.type = .ok .void) := by
  rw [Token.ofType_eq_bind] at htoken
  obtain ⟨type, hresolve, hfound⟩ := bind_eq_ok_iff.mp htoken
  cases hresolved :
      Token.ofResolved? .parameter (p.nullable || type.isNullable) type with
  | none =>
      rw [hresolved] at hfound
      cases hfound
  | some found =>
      rw [hresolved] at hfound
      obtain rfl : found = token := Except.ok.inj hfound
      rw [hresolve, Except.ok.injEq]
      exact ofResolved?_parameter hresolved

/-- What the virtual machine makes of the descriptor of a method. -/
structure Conforms (aliases : AliasTable) (m : Method) (d : Descriptor) :
    Prop where
  /-- It is a method type unless some parameter stands for nothing. -/
  spelled_iff :
    (∃ type, Jvm.SpellsMethod d.text.toList type) ↔
      ∀ p ∈ m.params, resolve aliases p.type ≠ .ok .void
  /-- The type that is read has the declared parameters and the promise. -/
  read_length : ∀ type, Jvm.readMethod d.text.toList = some type →
    type.params.length = m.params.length + if m.returnsPromise then 1 else 0
  params : ∀ token ∈ d.params, token ∉ [.writableMap, .writableArray, .map]
  result : d.result ∉ [.readableMap, .readableArray, .callback, .promise]
  result_eq_map_iff : d.result = .map ↔ m.isAccessor = true

section Methods

variable {aliases : AliasTable} {m : Method} {d : Descriptor}
  (hd : Descriptor.ofMethod aliases m = .ok d)

include hd

theorem void_mem_params_iff :
    .void ∈ d.params ↔ ∃ p ∈ m.params, resolve aliases p.type = .ok .void := by
  obtain ⟨params, result, hparams, -, rfl⟩ :=
    Descriptor.ofMethod_eq_ok_iff.mp hd
  have hdeclared :
      .void ∈ params ++ (if m.returnsPromise then [.promise] else []) ↔
        .void ∈ params := by
    cases m.returnsPromise <;> simp
  rw [hdeclared]
  constructor
  · intro hvoid
    obtain ⟨p, hp, htoken⟩ := exists_mem_of_forall₂ hparams hvoid
    exact ⟨p, hp, (ofType_parameter htoken).2.mp rfl⟩
  · rintro ⟨p, hp, hresolve⟩
    obtain ⟨token, hmem, htoken⟩ := exists_mem_of_forall₂ hparams.flip hp
    rwa [← (ofType_parameter htoken).2.mpr hresolve]

theorem notMem_of_mem_params {token : Token} (htoken : token ∈ d.params) :
    token ∉ [.writableMap, .writableArray, .map] := by
  obtain ⟨params, result, hparams, -, rfl⟩ :=
    Descriptor.ofMethod_eq_ok_iff.mp hd
  rcases List.mem_append.mp htoken with hdeclared | hpromise
  · obtain ⟨p, -, hp⟩ := exists_mem_of_forall₂ hparams hdeclared
    exact (ofType_parameter hp).1
  · split at hpromise
    · rw [List.mem_singleton.mp hpromise]
      decide
    · cases hpromise

theorem result_of_kind
    {kind : Kind} (hkind : Kind.ofResult m.result = .ok kind) :
    d.result ∉ [.readableMap, .readableArray, .callback, .promise] ∧
      (d.result = .map ↔ m.isAccessor = true) := by
  obtain ⟨params, result, -, hresult, rfl⟩ :=
    Descriptor.ofMethod_eq_ok_iff.mp hd
  have hmap : result = .map ↔ m.isAccessor = true :=
    (resultToken_of_kind hkind hresult).2
  refine ⟨?_, hmap⟩
  change result ∉ _
  cases haccessor : m.isAccessor with
  | true =>
      rw [hmap.mpr haccessor]
      decide
  | false =>
      exact kind.notMem_of_mem_tokens result
        (resultToken_of_not_accessor hkind hresult haccessor).1

theorem conforms_of_ofMethod
    {kind : Kind} (hkind : Kind.ofResult m.result = .ok kind) :
    Conforms aliases m d := by
  obtain ⟨hspells, hlength⟩ := spellsMethod_text_iff d
  obtain ⟨hresult, hmap⟩ := result_of_kind hd hkind
  refine ⟨?_, ?_, fun token htoken => notMem_of_mem_params hd htoken,
    hresult, hmap⟩
  · rw [hspells, void_mem_params_iff hd]
    simp
  · intro type htype
    rw [hlength type (Jvm.readMethod_eq_some_iff.mp htype),
      params_length_of_ofMethod hd]
    cases m.returnsPromise <;> rfl

end Methods

/-- The reader accepts exactly the method types of the virtual machine.  It
reads the descriptor of a host function unless some parameter of its method
stands for nothing, and then finds the declared parameters and the promise.
Whether it can be read or not, the parameters have no token for what is written,
the result has none for what is read, and it is the map of constants exactly for
an accessor. -/
theorem generate_descriptors_conform
    {library spec : String} {config : Config} {s : Schema} {a : Artifact}
    (ha : generate library spec config s = .ok a) :
    (∀ (cs : List Char) (type : Jvm.MethodType),
      Jvm.readMethod cs = some type ↔ Jvm.SpellsMethod cs type) ∧
    ∃ flat doc, flatten config.duplicates s = .ok flat ∧
      assemble library spec config flat = .ok doc ∧
      a = ⟨artifactName spec, doc.render⟩ ∧
      List.Forall₂ (fun owner thunk =>
          EmittedAs owner.1 owner.2 thunk ∧
          Conforms owner.1.aliases owner.2 thunk.descriptor)
        (keptMethods flat.values) doc.thunks := by
  obtain ⟨flat, doc, hflat, hdoc, ha, hthunks⟩ := forall₂_thunks_of_generate ha
  refine ⟨fun cs type => Jvm.readMethod_eq_some_iff, flat, doc, hflat, hdoc, ha,
    hthunks.imp ?_⟩
  intro owner thunk hemitted
  obtain ⟨entry, hemit⟩ := hemitted
  obtain ⟨hkind, hdescriptor⟩ := thunk_of_emitMethod hemit
  exact ⟨⟨entry, hemit⟩, conforms_of_ofMethod hdescriptor hkind⟩

theorem generate_descriptors_conform_gauge :
    ∃ a flat doc, generate "App" "App" {} gaugeSchema = .ok a ∧
      flatten .overwrite gaugeSchema = .ok flat ∧
      assemble "App" "App" {} flat = .ok doc ∧
      a = ⟨artifactName "App", doc.render⟩ ∧
      ∃ constants level reset, doc.thunks = [constants, level, reset] ∧
        constants.descriptor.result = .map ∧
        (∃ type, Jvm.readMethod level.descriptor.text.toList = some type ∧
          type.params.length = 1) ∧
        ¬∃ type, Jvm.SpellsMethod reset.descriptor.text.toList type := by
  obtain ⟨hreads, flat, doc, hflat, hdoc, ha, hthunks⟩ :=
    generate_descriptors_conform
      (show generate "App" "App" {} gaugeSchema = .ok _ from rfl)
  obtain rfl : ⟨[("Gauge", gaugeModule)]⟩ = flat := Except.ok.inj hflat
  obtain ⟨constants, level, reset, hall, hconstants, hlevel, hreset⟩ :=
    exists_of_forall₂_three hthunks
  refine ⟨_, _, doc, rfl, hflat, hdoc, ha, constants, level, reset, hall,
    hconstants.2.result_eq_map_iff.mpr rfl, ?_, ?_⟩
  · obtain ⟨type, htype⟩ := hlevel.2.spelled_iff.mpr (by
      intro p hp hvoid
      rw [List.mem_singleton.mp hp] at hvoid
      cases hvoid)
    have hread := (hreads _ type).mpr htype
    exact ⟨type, hread, hlevel.2.read_length type hread⟩
  · intro hspelled
    exact hreset.2.spelled_iff.mp hspelled ⟨"mark", false, .void⟩
      (List.mem_cons_of_mem _ (List.mem_singleton_self _)) rfl

end NativeGlue.Bridge
