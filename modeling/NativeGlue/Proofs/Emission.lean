import NativeGlue.Bridge.Generate
import NativeGlue.Proofs.Traversal

/-!
# What a method is emitted as

One specification for each function that emits a method: its descriptor, its
two declarations, and the errors it can give.  The modules on documents and on
listings use these facts and never open the emitting functions again.
-/

namespace NativeGlue

/-- Whether a method is left out of the bridge: it gives the constants of its
module and declares that there are none. -/
def Method.isLeftOut (m : Method) : Bool :=
  m.isAccessor && m.result.isEmptyObject

namespace Bridge

/-! ## Descriptors -/

/-- The token of a type is that of the type it stands for, or an error about
that type. -/
theorem Token.ofType_eq_bind
    (aliases : AliasTable) (position : Position) (nullable : Bool)
    (type : TypeExpr) :
    Token.ofType aliases position nullable type =
      resolve aliases type >>= fun resolved =>
        (Token.ofResolved? position (nullable || resolved.isNullable)
            resolved).elim
          (.error (.unsupported resolved.tag (nullable || resolved.isNullable)
            position))
          .ok := by
  unfold Token.ofType
  congr 1
  funext resolved
  dsimp only
  cases
      Token.ofResolved? position (nullable || resolved.isNullable) resolved <;>
    rfl

theorem Descriptor.ofMethod_eq_ok_iff
    {aliases : AliasTable} {m : Method} {d : Descriptor} :
    Descriptor.ofMethod aliases m = .ok d ↔
      ∃ params result,
        List.Forall₂ (fun p token =>
          Token.ofType aliases .parameter p.nullable p.type = .ok token)
          m.params params ∧
        Descriptor.resultToken aliases m = .ok result ∧
        d = ⟨params ++ (if m.returnsPromise then [.promise] else []), result,
          m.returnsPromise⟩ := by
  unfold Descriptor.ofMethod
  rw [bind_eq_ok_iff]
  constructor
  · rintro ⟨params, hparams, hrest⟩
    obtain ⟨result, hresult, hd⟩ := bind_eq_ok_iff.mp hrest
    exact ⟨params, result, mapM_eq_ok_iff.mp hparams, hresult,
      (Except.ok.inj hd).symm⟩
  · rintro ⟨params, result, hparams, hresult, rfl⟩
    exact ⟨params, mapM_eq_ok_iff.mpr hparams,
      bind_eq_ok_iff.mpr ⟨result, hresult, rfl⟩⟩

/-! ## Emitted methods -/

theorem Kind.ofResult_eq_promise_iff
    {t : TypeExpr} {kind : Kind} (hkind : Kind.ofResult t = .ok kind) :
    kind = .promise ↔ t.isPromise = true := by
  cases t <;>
    simp only [Kind.ofResult, Except.ok.injEq, reduceCtorEq] at hkind <;>
    subst hkind <;>
    simp [TypeExpr.isPromise]

theorem emitMethod_of_isLeftOut
    {moduleName : String} {aliases : AliasTable} {m : Method}
    (hm : m.isLeftOut = true) :
    emitMethod moduleName aliases m = .ok none := by
  rw [emitMethod, if_pos]
  exact hm

/-- The declarations of a method that is not left out. -/
theorem emitMethod_eq_ok_iff
    {moduleName : String} {aliases : AliasTable} {m : Method}
    {emitted : Option Emitted} (hm : m.isLeftOut = false) :
    emitMethod moduleName aliases m = .ok emitted ↔
      ∃ kind descriptor,
        Kind.ofResult m.result = .ok kind ∧
        Descriptor.ofMethod aliases m = .ok descriptor ∧
        emitted = some
          { thunk := ⟨thunkName moduleName m.name, kind, m.name, descriptor,
              m.params.map (·.name) ++
                (if descriptor.isPromise then [promiseArgName] else [])⟩
            entry :=
              ⟨m.name, m.params.length, thunkName moduleName m.name⟩ } := by
  have hopen : ¬(m.isAccessor && m.result.isEmptyObject) = true := by
    rw [Bool.not_eq_true]
    exact hm
  rw [emitMethod, if_neg hopen, bind_eq_ok_iff]
  constructor
  · rintro ⟨kind, hkind, hrest⟩
    obtain ⟨descriptor, hdescriptor, hemitted⟩ := bind_eq_ok_iff.mp hrest
    exact ⟨kind, descriptor, hkind, hdescriptor, (Except.ok.inj hemitted).symm⟩
  · rintro ⟨kind, descriptor, hkind, hdescriptor, rfl⟩
    exact ⟨kind, hkind, bind_eq_ok_iff.mpr ⟨descriptor, hdescriptor, rfl⟩⟩

theorem emitMethod_eq_none_iff
    (moduleName : String) (aliases : AliasTable) {m : Method} :
    emitMethod moduleName aliases m = .ok none ↔ m.isLeftOut = true := by
  constructor
  · intro hnone
    by_contra hm
    rw [Bool.not_eq_true] at hm
    obtain ⟨kind, descriptor, -, -, hemitted⟩ :=
      (emitMethod_eq_ok_iff hm).mp hnone
    cases hemitted
  · exact emitMethod_of_isLeftOut

theorem isLeftOut_eq_false_of_emitMethod_some
    {moduleName : String} {aliases : AliasTable} {m : Method}
    {emitted : Emitted}
    (hemit : emitMethod moduleName aliases m = .ok (some emitted)) :
    m.isLeftOut = false := by
  rw [← Bool.not_eq_true]
  intro hm
  rw [emitMethod_of_isLeftOut hm] at hemit
  cases hemit

theorem thunk_of_emitMethod
    {moduleName : String} {aliases : AliasTable} {m : Method}
    {emitted : Emitted}
    (hemit : emitMethod moduleName aliases m = .ok (some emitted)) :
    Kind.ofResult m.result = .ok emitted.thunk.kind ∧
      Descriptor.ofMethod aliases m = .ok emitted.thunk.descriptor := by
  have hm := isLeftOut_eq_false_of_emitMethod_some hemit
  obtain ⟨kind, descriptor, hkind, hdescriptor, hemitted⟩ :=
    (emitMethod_eq_ok_iff hm).mp hemit
  obtain rfl := Option.some.inj hemitted
  exact ⟨hkind, hdescriptor⟩

/-- A host function and a registration belong to one method of a module: they
name it and each other, and the argument names run along the descriptor, which
has one more token than the method has parameters if it gives a promise. -/
structure Serves
    (moduleName : String) (m : Method) (thunk : Thunk) (entry : Entry) :
    Prop where
  thunk_name : thunk.name = thunkName moduleName m.name
  thunk_method : thunk.method = m.name
  entry_method : entry.method = m.name
  entry_thunk : entry.thunk = thunk.name
  arity : entry.arity = m.params.length
  isPromise : thunk.descriptor.isPromise = m.returnsPromise
  declared_args :
    thunk.argNames.take entry.arity = m.params.map (·.name)
  args_length :
    thunk.argNames.length = thunk.descriptor.params.length
  tokens_length :
    thunk.descriptor.params.length =
      if thunk.descriptor.isPromise then entry.arity + 1 else entry.arity
  promise_last :
    thunk.descriptor.isPromise = true →
      thunk.descriptor.params.getLast? = some .promise ∧
        thunk.argNames.getLast? = some promiseArgName

theorem emitMethod_serves
    {moduleName : String} {aliases : AliasTable} {m : Method}
    {emitted : Emitted}
    (hemit : emitMethod moduleName aliases m = .ok (some emitted)) :
    Serves moduleName m emitted.thunk emitted.entry := by
  have hm := isLeftOut_eq_false_of_emitMethod_some hemit
  obtain ⟨kind, descriptor, -, hdescriptor, hemitted⟩ :=
    (emitMethod_eq_ok_iff hm).mp hemit
  obtain ⟨params, result, hparams, -, rfl⟩ :=
    Descriptor.ofMethod_eq_ok_iff.mp hdescriptor
  obtain rfl := Option.some.inj hemitted
  have hlength : params.length = m.params.length := hparams.length_eq.symm
  exact
    { thunk_name := rfl
      thunk_method := rfl
      entry_method := rfl
      entry_thunk := rfl
      arity := rfl
      isPromise := rfl
      declared_args := by simp
      args_length := by
        cases m.returnsPromise <;> simp [hlength]
      tokens_length := by
        cases m.returnsPromise <;> simp [hlength]
      promise_last := by
        intro hpromise
        have hpromise : m.returnsPromise = true := hpromise
        simp [hpromise] }

/-! ## Errors of methods -/

/-- An error about a type, wrapped in nothing. -/
def Error.IsTypeError (e : Error) : Prop :=
  (∃ tag nullable position, e = .unsupported tag nullable position) ∨
    ∃ name, e = .unresolvedAlias name

theorem Error.IsTypeError.root_eq {e : Error} (he : e.IsTypeError) :
    e.root = e := by
  rcases he with ⟨tag, nullable, position, rfl⟩ | ⟨name, rfl⟩
  · rfl
  · rfl

theorem Kind.ofResult_isTypeError
    {type : TypeExpr} {e : Error} (hkind : Kind.ofResult type = .error e) :
    e.IsTypeError := by
  cases type <;>
    simp only [Kind.ofResult, reduceCtorEq, Except.error.injEq] at hkind
  · exact Or.inl ⟨_, _, _, hkind.symm⟩
  · exact Or.inl ⟨_, _, _, hkind.symm⟩

theorem resolve_isTypeError
    {aliases : AliasTable} {type : TypeExpr} {e : Error}
    (hresolve : resolve aliases type = .error e) :
    e.IsTypeError := by
  unfold resolve at hresolve
  split at hresolve
  · split at hresolve
    · cases hresolve
    · exact Or.inr ⟨_, (Except.error.inj hresolve).symm⟩
  · cases hresolve

theorem Token.ofType_isTypeError
    {aliases : AliasTable} {position : Position} {nullable : Bool}
    {type : TypeExpr} {e : Error}
    (htoken : Token.ofType aliases position nullable type = .error e) :
    e.IsTypeError := by
  unfold Token.ofType at htoken
  rcases bind_eq_error_iff.mp htoken with hresolve | ⟨resolved, -, hmatch⟩
  · exact resolve_isTypeError hresolve
  · simp only at hmatch
    split at hmatch
    · cases hmatch
    · exact Or.inl ⟨_, _, _, (Except.error.inj hmatch).symm⟩

theorem Descriptor.ofMethod_isTypeError
    {aliases : AliasTable} {m : Method} {e : Error}
    (hdescriptor : Descriptor.ofMethod aliases m = .error e) :
    e.IsTypeError := by
  unfold Descriptor.ofMethod at hdescriptor
  rcases bind_eq_error_iff.mp hdescriptor with hparams | ⟨params, -, hrest⟩
  · obtain ⟨before, p, after, -, -, hp⟩ := mapM_eq_error_iff.mp hparams
    exact Token.ofType_isTypeError hp
  · rcases bind_eq_error_iff.mp hrest with hresult | ⟨result, -, hdone⟩
    · unfold Descriptor.resultToken at hresult
      split at hresult
      · cases hresult
      · split at hresult
        · cases hresult
        · exact Token.ofType_isTypeError hresult
    · cases hdone

/-- Whatever goes wrong with a method goes wrong with a type. -/
theorem emitMethod_isTypeError
    {moduleName : String} {aliases : AliasTable} {m : Method} {e : Error}
    (hemit : emitMethod moduleName aliases m = .error e) :
    e.IsTypeError := by
  unfold emitMethod at hemit
  split at hemit
  · cases hemit
  · rcases bind_eq_error_iff.mp hemit with hkind | ⟨kind, -, hrest⟩
    · exact Kind.ofResult_isTypeError hkind
    · rcases bind_eq_error_iff.mp hrest with
        hdescriptor | ⟨descriptor, -, hdone⟩
      · exact Descriptor.ofMethod_isTypeError hdescriptor
      · cases hdone

end Bridge

end NativeGlue
