import NativeGlue.Proofs.Inlining

/-!
# Methods that cannot be translated

Three translators look at a method: one finds the kind of its result, one the
tokens of its parameters, one the token of its result.  They differ in what they
make of aliases, of null and of accessors.  This module says, in terms of the
types that a method declares, which methods are refused, and which refusal is
reported when there are several reasons.
-/

namespace NativeGlue

namespace TypeExpr

/-- Whether a type is a map or a list. -/
def isCollection : TypeExpr → Bool
  | object _ _ | array _ _ => true
  | _ => false

/-- Whether a type is a callback. -/
def isCallback : TypeExpr → Bool
  | callback _ => true
  | _ => false

/-- Whether a type refers to an alias. -/
def isReference : TypeExpr → Bool
  | reference _ => true
  | _ => false

end TypeExpr

namespace Bridge

/-! ## What is refused -/

/-- A result has no kind: it is a callback or refers to an alias, which is not
followed. -/
def LacksKind (result : TypeExpr) : Prop :=
  result.isCallback = true ∨ result.isReference = true

instance (result : TypeExpr) : Decidable (LacksKind result) :=
  inferInstanceAs (Decidable (_ ∨ _))

/-- A parameter has no token, for the given reason. -/
inductive RefusesParam (aliases : AliasTable) (p : Param) : Error → Prop where
  /-- The alias that it refers to is missing. -/
  | missing {name : String} (htype : p.type = .reference name)
      (hname : aliases.get? name = none) :
      RefusesParam aliases p (.unresolvedAlias name)
  /-- The alias that it refers to is another reference. -/
  | chained {name other : String} (htype : p.type = .reference name)
      (hname : aliases.get? name = some (.reference other)) :
      RefusesParam aliases p
        (.unsupported (TypeExpr.reference other).tag p.nullable .parameter)
  /-- It stands for a map, a list or a callback, and it or that type admits
  null. -/
  | null {type : TypeExpr} (htype : resolve aliases p.type = .ok type)
      (hheld : type.isCollection = true ∨ type.isCallback = true)
      (hnull : p.nullable = true ∨ type.isNullable = true) :
      RefusesParam aliases p
        (.unsupported type.tag (p.nullable || type.isNullable) .parameter)

/-- A method returns a map or a list that admits null, and does so as declared:
an accessor returns a map of its own. -/
def LacksResultToken (m : Method) : Prop :=
  m.isAccessor = false ∧ m.result.isCollection = true ∧
    m.result.isNullable = true

instance (m : Method) : Decidable (LacksResultToken m) :=
  inferInstanceAs (Decidable (_ ∧ _ ∧ _))

/-- A method is refused for the given reason.  The kind of the result comes
first, then the parameters in order, then the token of the result. -/
inductive RefusesMethod (aliases : AliasTable) (m : Method) : Error → Prop where
  | kind (hkind : LacksKind m.result) :
      RefusesMethod aliases m
        (.unsupported m.result.tag m.result.isNullable .result)
  | param {before after : List Param} {p : Param} {e : Error}
      (hkind : ¬LacksKind m.result) (hsplit : m.params = before ++ p :: after)
      (hbefore : ∀ q ∈ before, ¬∃ e', RefusesParam aliases q e')
      (hp : RefusesParam aliases p e) :
      RefusesMethod aliases m e
  | token (hkind : ¬LacksKind m.result)
      (hparams : ∀ p ∈ m.params, ¬∃ e, RefusesParam aliases p e)
      (hresult : LacksResultToken m) :
      RefusesMethod aliases m
        (.unsupported m.result.tag m.result.isNullable .result)

/-! ## Kinds and tokens -/

theorem Kind.ofResult_eq_error_iff {result : TypeExpr} {e : Error} :
    Kind.ofResult result = .error e ↔
      LacksKind result ∧
        e = .unsupported result.tag result.isNullable .result := by
  unfold LacksKind
  cases result <;>
    simp [Kind.ofResult, TypeExpr.isCallback, TypeExpr.isReference,
      TypeExpr.tag, TypeExpr.isNullable, eq_comm]

theorem exists_ofResult_eq_ok_iff {result : TypeExpr} :
    (∃ kind, Kind.ofResult result = .ok kind) ↔ ¬LacksKind result := by
  rw [exists_ok_iff_forall_ne_error]
  simp [Kind.ofResult_eq_error_iff]

theorem resolve_eq_error_iff
    {aliases : AliasTable} {type : TypeExpr} {e : Error} :
    resolve aliases type = .error e ↔
      ∃ name, type = .reference name ∧ aliases.get? name = none ∧
        e = .unresolvedAlias name := by
  cases type with
  | reference name =>
      rw [resolve]
      cases hget : aliases.get? name <;> simp [hget, eq_comm]
  | _ => simp [resolve]

theorem resolve_eq_reference_iff
    {aliases : AliasTable} {type : TypeExpr} {other : String} :
    resolve aliases type = .ok (.reference other) ↔
      ∃ name, type = .reference name ∧
        aliases.get? name = some (.reference other) := by
  cases type with
  | reference name =>
      rw [resolve]
      cases hget : aliases.get? name <;> simp [hget]
  | _ => simp [resolve]

/-- The types without a token at a position. -/
theorem Token.ofResolved?_eq_none_iff
    {position : Position} {nullable : Bool} {type : TypeExpr} :
    Token.ofResolved? position nullable type = none ↔
      type.isReference = true ∨
        (type.isCollection = true ∨ type.isCallback = true) ∧ nullable = true ∨
        type.isCallback = true ∧ position = .result := by
  cases type <;> cases nullable <;> cases position <;>
    simp [Token.ofResolved?, TypeExpr.isReference, TypeExpr.isCollection,
      TypeExpr.isCallback]

theorem Token.ofType_eq_error_iff
    {aliases : AliasTable} {position : Position} {nullable : Bool}
    {type : TypeExpr} {e : Error} :
    Token.ofType aliases position nullable type = .error e ↔
      resolve aliases type = .error e ∨
        ∃ resolved, resolve aliases type = .ok resolved ∧
          Token.ofResolved? position (nullable || resolved.isNullable)
              resolved = none ∧
          e = .unsupported resolved.tag (nullable || resolved.isNullable)
            position := by
  rw [Token.ofType_eq_bind, bind_eq_error_iff]
  refine or_congr Iff.rfl (exists_congr fun resolved => and_congr Iff.rfl ?_)
  cases
      Token.ofResolved? position (nullable || resolved.isNullable) resolved <;>
    simp [eq_comm]

theorem ofType_eq_error_iff_refusesParam
    {aliases : AliasTable} {p : Param} {e : Error} :
    Token.ofType aliases .parameter p.nullable p.type = .error e ↔
      RefusesParam aliases p e := by
  rw [Token.ofType_eq_error_iff]
  constructor
  · rintro (hresolve | ⟨type, hresolve, hnone, rfl⟩)
    · obtain ⟨name, htype, hname, rfl⟩ := resolve_eq_error_iff.mp hresolve
      exact .missing htype hname
    · rcases Token.ofResolved?_eq_none_iff.mp hnone with
        hreference | hheld | ⟨-, hposition⟩
      · cases type with
        | reference other =>
            obtain ⟨name, htype, hname⟩ := resolve_eq_reference_iff.mp hresolve
            have hflag : (p.nullable || (TypeExpr.reference other).isNullable) =
                p.nullable := Bool.or_false _
            rw [hflag]
            exact .chained htype hname
        | _ => cases hreference
      · exact .null hresolve hheld.1 (by simpa using hheld.2)
      · cases hposition
  · intro hp
    cases hp with
    | missing htype hname =>
        exact Or.inl (resolve_eq_error_iff.mpr ⟨_, htype, hname, rfl⟩)
    | chained htype hname =>
        exact Or.inr ⟨_, resolve_eq_reference_iff.mpr ⟨_, htype, hname⟩, rfl,
          congrArg (Error.unsupported _ · _) (Bool.or_false _).symm⟩
    | null htype hheld hnull =>
        refine Or.inr ⟨_, htype, ?_, rfl⟩
        rw [Token.ofResolved?_eq_none_iff]
        exact Or.inr (Or.inl ⟨hheld, by simpa using hnull⟩)

theorem exists_ofType_eq_ok_iff {aliases : AliasTable} {p : Param} :
    (∃ token, Token.ofType aliases .parameter p.nullable p.type = .ok token) ↔
      ¬∃ e, RefusesParam aliases p e := by
  rw [exists_ok_iff_forall_ne_error, not_exists]
  exact forall_congr' fun e => not_congr ofType_eq_error_iff_refusesParam

theorem resultToken_eq_error_iff
    {aliases : AliasTable} {m : Method} (hkind : ¬LacksKind m.result)
    {e : Error} :
    Descriptor.resultToken aliases m = .error e ↔
      LacksResultToken m ∧
        e = .unsupported m.result.tag m.result.isNullable .result := by
  obtain ⟨kind, hresult⟩ := exists_ofResult_eq_ok_iff.mpr hkind
  have hresolve := resolve_of_ne_reference aliases
    (result_ne_reference_of_ofResult hresult)
  have hnone : Token.ofResolved? .result m.result.isNullable m.result = none ↔
      m.result.isCollection = true ∧ m.result.isNullable = true := by
    rw [Token.ofResolved?_eq_none_iff]
    unfold LacksKind at hkind
    tauto
  unfold LacksResultToken Descriptor.resultToken
  cases m.isAccessor with
  | true => simp
  | false =>
      cases hpromise : m.returnsPromise with
      | true =>
          cases hm : m.result <;>
            simp [Method.returnsPromise, TypeExpr.isPromise, hm] at hpromise
          simp [TypeExpr.isCollection]
      | false =>
          simp only [Bool.false_eq_true, if_false, true_and]
          rw [Token.ofType_eq_error_iff, hresolve]
          simp only [reduceCtorEq, false_or, Except.ok.injEq, exists_eq_left',
            Bool.false_or, hnone]

/-! ## Methods -/

theorem Descriptor.ofMethod_eq_error_iff
    {aliases : AliasTable} {m : Method} {e : Error} :
    Descriptor.ofMethod aliases m = .error e ↔
      FailsFirst (fun p => Token.ofType aliases .parameter p.nullable p.type)
          m.params e ∨
        (∀ p ∈ m.params,
          ∃ token,
            Token.ofType aliases .parameter p.nullable p.type = .ok token) ∧
        Descriptor.resultToken aliases m = .error e := by
  rw [Descriptor.ofMethod, bind_eq_error_iff, mapM_eq_error_iff]
  refine or_congr Iff.rfl ?_
  rw [← exists_mapM_eq_ok_iff]
  constructor
  · rintro ⟨params, hparams, hrest⟩
    rcases bind_eq_error_iff.mp hrest with hresult | ⟨result, -, hdone⟩
    · exact ⟨⟨params, hparams⟩, hresult⟩
    · cases hdone
  · rintro ⟨⟨params, hparams⟩, hresult⟩
    exact ⟨params, hparams, bind_eq_error_iff.mpr (Or.inl hresult)⟩

theorem failsFirst_ofType_iff
    {aliases : AliasTable} {params : List Param} {e : Error} :
    FailsFirst (fun p => Token.ofType aliases .parameter p.nullable p.type)
        params e ↔
      ∃ before p after, params = before ++ p :: after ∧
        (∀ q ∈ before, ¬∃ e', RefusesParam aliases q e') ∧
        RefusesParam aliases p e := by
  unfold FailsFirst
  simp only [exists_ofType_eq_ok_iff, ofType_eq_error_iff_refusesParam]

theorem emitMethod_eq_error_iff
    {moduleName : String} {aliases : AliasTable} {m : Method} {e : Error}
    (hm : m.isLeftOut = false) :
    emitMethod moduleName aliases m = .error e ↔
      Kind.ofResult m.result = .error e ∨
        (∃ kind, Kind.ofResult m.result = .ok kind) ∧
          Descriptor.ofMethod aliases m = .error e := by
  have hopen : ¬(m.isAccessor && m.result.isEmptyObject) = true := by
    rw [Bool.not_eq_true]
    exact hm
  rw [emitMethod, if_neg hopen, bind_eq_error_iff]
  refine or_congr Iff.rfl ?_
  constructor
  · rintro ⟨kind, hkind, hrest⟩
    rcases bind_eq_error_iff.mp hrest with hdescriptor | ⟨descriptor, -, hdone⟩
    · exact ⟨⟨kind, hkind⟩, hdescriptor⟩
    · cases hdone
  · rintro ⟨⟨kind, hkind⟩, hdescriptor⟩
    exact ⟨kind, hkind, bind_eq_error_iff.mpr (Or.inl hdescriptor)⟩

theorem emitMethod_eq_error_iff_refusesMethod
    {moduleName : String} {aliases : AliasTable} {m : Method} {e : Error}
    (hm : m.isLeftOut = false) :
    emitMethod moduleName aliases m = .error e ↔ RefusesMethod aliases m e := by
  rw [emitMethod_eq_error_iff hm, Kind.ofResult_eq_error_iff,
    exists_ofResult_eq_ok_iff, Descriptor.ofMethod_eq_error_iff,
    failsFirst_ofType_iff]
  simp only [exists_ofType_eq_ok_iff]
  constructor
  · rintro (⟨hkind, rfl⟩ | ⟨hkind, ⟨before, p, after, hsplit, hbefore, hp⟩ |
      ⟨hparams, hresult⟩⟩)
    · exact .kind hkind
    · exact .param hkind hsplit hbefore hp
    · obtain ⟨hlacks, rfl⟩ := (resultToken_eq_error_iff hkind).mp hresult
      exact .token hkind hparams hlacks
  · intro hrefuses
    cases hrefuses with
    | kind hkind => exact Or.inl ⟨hkind, rfl⟩
    | param hkind hsplit hbefore hp =>
        exact Or.inr ⟨hkind, Or.inl ⟨_, _, _, hsplit, hbefore, hp⟩⟩
    | token hkind hparams hlacks =>
        exact Or.inr ⟨hkind, Or.inr ⟨hparams,
          (resultToken_eq_error_iff hkind).mpr ⟨hlacks, rfl⟩⟩⟩

/-- Some reason to refuse a method is reported as soon as there is any. -/
theorem exists_refusesMethod_iff {aliases : AliasTable} {m : Method} :
    (∃ e, RefusesMethod aliases m e) ↔
      LacksKind m.result ∨ (∃ p ∈ m.params, ∃ e, RefusesParam aliases p e) ∨
        LacksResultToken m := by
  constructor
  · rintro ⟨e, hrefuses⟩
    cases hrefuses with
    | kind hkind => exact Or.inl hkind
    | @param _ _ p _ _ hsplit _ hp =>
        refine Or.inr (Or.inl ⟨p, ?_, e, hp⟩)
        rw [hsplit]
        exact List.mem_append_right _ List.mem_cons_self
    | token _ _ hresult => exact Or.inr (Or.inr hresult)
  · intro hany
    by_cases hkind : LacksKind m.result
    · exact ⟨_, .kind hkind⟩
    · by_cases hparams : ∃ p ∈ m.params, ∃ e, RefusesParam aliases p e
      · simp only [← ofType_eq_error_iff_refusesParam] at hparams
        obtain ⟨e, hfirst⟩ := exists_failsFirst_iff.mpr hparams
        obtain ⟨before, p, after, hsplit, hbefore, hp⟩ :=
          failsFirst_ofType_iff.mp hfirst
        exact ⟨e, .param hkind hsplit hbefore hp⟩
      · have hresult := (hany.resolve_left hkind).resolve_left hparams
        have hnone : ∀ p ∈ m.params, ¬∃ e, RefusesParam aliases p e :=
          fun p hp hrefused => hparams ⟨p, hp, hrefused⟩
        exact ⟨_, .token hkind hnone hresult⟩

theorem isLeftOut_iff {m : Method} :
    m.isLeftOut = true ↔
      m.isAccessor = true ∧
        ∃ nullable, m.result = .object (.structural []) nullable := by
  have hempty : m.result.isEmptyObject = true ↔
      ∃ nullable, m.result = .object (.structural []) nullable := by
    unfold TypeExpr.isEmptyObject
    split <;> simp_all
  rw [Method.isLeftOut, Bool.and_eq_true, hempty]

/-- A method is left out exactly when it is an accessor that declares an object
without members, whatever its parameters are.  Any other method is refused
exactly when its result is a callback or a reference, when some parameter has no
token, or when it is no accessor and returns a map or a list that admits null;
and of several reasons the result's kind is reported before the first such
parameter, and that one before the result's token. -/
theorem emitMethod_outcome
    (moduleName : String) (aliases : AliasTable) (m : Method) :
    (emitMethod moduleName aliases m = .ok none ↔
      m.isAccessor = true ∧
        ∃ nullable, m.result = .object (.structural []) nullable) ∧
    (emitMethod moduleName aliases m ≠ .ok none →
      ((∃ e, emitMethod moduleName aliases m = .error e) ↔
        LacksKind m.result ∨ (∃ p ∈ m.params, ∃ e, RefusesParam aliases p e) ∨
          LacksResultToken m) ∧
      ∀ e, emitMethod moduleName aliases m = .error e ↔
        RefusesMethod aliases m e) := by
  have hnone := emitMethod_eq_none_iff moduleName aliases (m := m)
  refine ⟨hnone.trans isLeftOut_iff, ?_⟩
  intro hkept
  rw [Ne, hnone, Bool.not_eq_true] at hkept
  have herror : ∀ e, emitMethod moduleName aliases m = .error e ↔
      RefusesMethod aliases m e :=
    fun e => emitMethod_eq_error_iff_refusesMethod hkept
  exact ⟨(exists_congr herror).trans exists_refusesMethod_iff, herror⟩

/-- A method with everything wrong but the kind of its result: a list that
admits null, an alias that is missing, and a map that admits null as the
result. -/
def relayMethod : Method where
  name := "relay"
  params :=
    [⟨"loud", true, .boolean false⟩, ⟨"stops", true, .reference "Stops"⟩,
      ⟨"via", false, .reference "Via"⟩]
  result := .object .generic true
  isAccessor := false

/-- Aliases with a list. -/
def relayAliases : AliasTable := ⟨[("Stops", .array none false)]⟩

theorem emitMethod_outcome_relay :
    emitMethod "Radio" relayAliases relayMethod ≠ .ok none ∧
      RefusesParam relayAliases ⟨"via", false, .reference "Via"⟩
        (.unresolvedAlias "Via") ∧
      LacksResultToken relayMethod ∧
      emitMethod "Radio" relayAliases relayMethod =
        .error (.unsupported .array true .parameter) := by
  have houtcome := emitMethod_outcome "Radio" relayAliases relayMethod
  have hkept : emitMethod "Radio" relayAliases relayMethod ≠ .ok none := by
    rw [Ne, houtcome.1]
    simp [relayMethod]
  have hloud : ∀ q ∈ [(⟨"loud", true, .boolean false⟩ : Param)],
      ¬∃ e, RefusesParam relayAliases q e := by
    intro q hq
    rw [List.mem_singleton.mp hq, ← exists_ofType_eq_ok_iff]
    exact ⟨_, rfl⟩
  have hstops : RefusesParam relayAliases ⟨"stops", true, .reference "Stops"⟩
      (.unsupported .array true .parameter) :=
    @RefusesParam.null relayAliases _ (.array none false) rfl
      (Or.inl rfl) (Or.inl rfl)
  exact ⟨hkept, .missing rfl rfl, by decide,
    ((houtcome.2 hkept).2 _).mpr (.param (by decide) rfl hloud hstops)⟩

end Bridge

end NativeGlue
