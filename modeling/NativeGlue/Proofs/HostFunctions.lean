import NativeGlue.Proofs.Inlining
import NativeGlue.Proofs.Symbols

/-!
# Host functions and the methods behind them

The host functions of a document are what its methods are emitted as, one by
one.  Each carries a kind and a descriptor, which were found separately from the
same method.  This module says when the two go together, so that the runtime
unmarshals what the method returns.
-/

namespace NativeGlue

/-- Whether a type is an object, with or without declared members. -/
def TypeExpr.isObject : TypeExpr → Bool
  | object _ _ => true
  | _ => false

namespace Bridge

/-! ## The host functions of a document -/

/-- The methods that are not left out, each with its module. -/
def keptMethods (modules : List NativeModule) : List (NativeModule × Method) :=
  modules.flatMap fun m =>
    (m.methods.filter fun method => !method.isLeftOut).map (m, ·)

/-- A host function is what a method of a module is emitted as. -/
def EmittedAs (m : NativeModule) (method : Method) (thunk : Thunk) : Prop :=
  ∃ entry, emitMethod m.name m.aliases method = .ok (some ⟨thunk, entry⟩)

theorem forall₂_emittedThunks
    {modules : List NativeModule}
    (hemits : ∀ m ∈ modules, ∀ method ∈ m.methods, Emits m method) :
    List.Forall₂ (fun owner thunk => EmittedAs owner.1 owner.2 thunk)
      (keptMethods modules) (emittedThunks modules) := by
  have hblock : ∀ m ∈ modules,
      List.Forall₂ (fun owner thunk => EmittedAs owner.1 owner.2 thunk)
        ((m.methods.filter fun method => !method.isLeftOut).map (m, ·))
        ((emittedBlock m).methods.map (·.thunk)) := by
    intro m hm
    have hkept := forall₂_emitted_kept
      (mapM_eq_ok_iff.mp (mapM_emitWithin_of_emits hemits hm))
    rw [List.filterMap_map] at hkept
    rw [List.forall₂_map_left_iff, List.forall₂_map_right_iff]
    exact hkept.imp fun method e he => ⟨e.entry, he⟩
  -- Only the blocks matter from here on; they are joined in the order of the
  -- modules.
  clear hemits
  induction modules with
  | nil => exact .nil
  | cons m modules ih =>
      rw [List.forall_mem_cons] at hblock
      exact List.rel_append hblock.1 (ih hblock.2)

/-- The host functions of a generated document are what its methods are emitted
as, in order. -/
theorem forall₂_thunks_of_generate
    {library spec : String} {config : Config} {s : Schema} {a : Artifact}
    (ha : generate library spec config s = .ok a) :
    ∃ flat doc, flatten config.duplicates s = .ok flat ∧
      assemble library spec config flat = .ok doc ∧
      a = ⟨artifactName spec, doc.render⟩ ∧
      List.Forall₂ (fun owner thunk => EmittedAs owner.1 owner.2 thunk)
        (keptMethods flat.values) doc.thunks := by
  obtain ⟨flat, doc, hflat, hdoc, rfl⟩ := generate_eq_ok_iff.mp ha
  have hemits := (exists_assemble_eq_ok_iff library spec config).mp ⟨doc, hdoc⟩
  refine ⟨flat, doc, hflat, hdoc, rfl, ?_⟩
  rw [eq_ofBlocks_of_assemble hdoc, thunks_ofBlocks]
  exact forall₂_emittedThunks hemits

/-! ## Kinds and result tokens -/

/-- The tokens of the results that a kind can unmarshal. -/
def Kind.tokens : Kind → List Token
  | void => [.void]
  | string => [.string]
  | boolean => [.boolean, .boxedBoolean]
  | number => [.double, .boxedDouble]
  | promise => [.void]
  | object => [.writableMap, .map]
  | array => [.writableArray]

/-- The kind of a host function can unmarshal what its descriptor says that the
method returns.  A promise comes back through the last parameter. -/
def Kind.Suits (kind : Kind) (d : Descriptor) : Prop :=
  d.result ∈ kind.tokens ∧ (kind = .promise → d.params.getLast? = some .promise)

/-- A result that is no promise has a token of its kind, and not the map of an
accessor. -/
theorem ofResolved?_result_of_kind
    {result : TypeExpr} {kind : Kind} {nullable : Bool} {token : Token}
    (hkind : Kind.ofResult result = .ok kind)
    (hpromise : result.isPromise = false)
    (htoken : Token.ofResolved? .result nullable result = some token) :
    token ∈ kind.tokens ∧ token ≠ .map := by
  cases result with
  | callback | reference => cases hkind
  | promise => cases hpromise
  | void | string | reserved =>
      cases hkind
      cases htoken
      decide
  | boolean | numeric | object | array =>
      cases hkind
      cases nullable <;> cases htoken <;> decide

section Results

variable {aliases : AliasTable} {m : Method} {kind : Kind} {result : Token}
  (hkind : Kind.ofResult m.result = .ok kind)
  (hresult : Descriptor.resultToken aliases m = .ok result)

include hkind hresult

theorem resultToken_of_not_accessor (haccessor : m.isAccessor = false) :
    result ∈ kind.tokens ∧ result ≠ .map := by
  unfold Descriptor.resultToken at hresult
  rw [haccessor, if_neg Bool.false_ne_true] at hresult
  cases hpromise : m.returnsPromise with
  | true =>
      rw [hpromise, if_pos rfl] at hresult
      have hvoid : Token.void = result := Except.ok.inj hresult
      rw [← hvoid, (Kind.ofResult_eq_promise_iff hkind).mpr hpromise]
      decide
  | false =>
      rw [hpromise, if_neg Bool.false_ne_true,
        ofType_of_ne_reference aliases .result false
          (result_ne_reference_of_ofResult hkind)] at hresult
      cases htoken : Token.ofResolved? .result (false || m.result.isNullable)
          m.result with
      | none =>
          rw [htoken] at hresult
          cases hresult
      | some token =>
          rw [htoken] at hresult
          obtain rfl : token = result := Except.ok.inj hresult
          exact ofResolved?_result_of_kind hkind hpromise htoken

/-- The map of an accessor suits the kind of an object only, and no other method
returns it. -/
theorem resultToken_of_kind :
    (result ∈ kind.tokens ↔ (m.isAccessor = true → m.result.isObject = true)) ∧
      (result = .map ↔ m.isAccessor = true) := by
  cases haccessor : m.isAccessor with
  | false =>
      have hfound := resultToken_of_not_accessor hkind hresult haccessor
      simp [hfound]
  | true =>
      unfold Descriptor.resultToken at hresult
      rw [haccessor, if_pos rfl] at hresult
      obtain rfl : Token.map = result := Except.ok.inj hresult
      refine ⟨?_, by simp⟩
      cases hm : m.result <;> rw [hm] at hkind <;> cases hkind <;>
        simp [Kind.tokens, TypeExpr.isObject]

end Results

theorem suits_of_emittedAs
    {m : NativeModule} {method : Method} {thunk : Thunk}
    (hemitted : EmittedAs m method thunk) :
    (¬thunk.kind.Suits thunk.descriptor ↔
      method.isAccessor = true ∧ method.result.isObject = false) ∧
      (thunk.kind = .promise ↔ thunk.descriptor.isPromise = true) := by
  obtain ⟨entry, hemit⟩ := hemitted
  have hserves := emitMethod_serves hemit
  obtain ⟨hkind, hdescriptor⟩ := thunk_of_emitMethod hemit
  obtain ⟨params, result, -, hresult, hd⟩ :=
    Descriptor.ofMethod_eq_ok_iff.mp hdescriptor
  have hpromise :
      thunk.kind = .promise ↔ thunk.descriptor.isPromise = true := by
    rw [hserves.isPromise]
    exact Kind.ofResult_eq_promise_iff hkind
  have hlast : thunk.kind = .promise →
      thunk.descriptor.params.getLast? = some .promise :=
    fun h => (hserves.promise_last (hpromise.mp h)).1
  have hsuits : thunk.kind.Suits thunk.descriptor ↔
      (method.isAccessor = true → method.result.isObject = true) := by
    have htoken : thunk.descriptor.result = result :=
      congrArg Descriptor.result hd
    rw [Kind.Suits, and_iff_left hlast, htoken]
    exact (resultToken_of_kind hkind hresult).1
  refine ⟨?_, hpromise⟩
  rw [hsuits, Classical.not_imp, Bool.not_eq_true]

/-- The kind of a host function can unmarshal what its descriptor says is
returned, except for an accessor that does not declare an object: the descriptor
then says that a map is returned, and the kind follows the declaration.  The
kind is that of a promise exactly when the descriptor has one. -/
theorem generate_kinds_suit
    {library spec : String} {config : Config} {s : Schema} {a : Artifact}
    (ha : generate library spec config s = .ok a) :
    ∃ flat doc, flatten config.duplicates s = .ok flat ∧
      assemble library spec config flat = .ok doc ∧
      a = ⟨artifactName spec, doc.render⟩ ∧
      List.Forall₂ (fun owner thunk =>
          EmittedAs owner.1 owner.2 thunk ∧
          (¬thunk.kind.Suits thunk.descriptor ↔
            owner.2.isAccessor = true ∧ owner.2.result.isObject = false) ∧
          (thunk.kind = .promise ↔ thunk.descriptor.isPromise = true))
        (keptMethods flat.values) doc.thunks := by
  obtain ⟨flat, doc, hflat, hdoc, ha, hthunks⟩ := forall₂_thunks_of_generate ha
  refine ⟨flat, doc, hflat, hdoc, ha, hthunks.imp ?_⟩
  intro owner thunk hemitted
  exact ⟨hemitted, suits_of_emittedAs hemitted⟩

theorem exists_of_forall₂_three
    {α β : Type} {R : α → β → Prop} {x y z : α} {ws : List β}
    (h : List.Forall₂ R [x, y, z] ws) :
    ∃ u v w, ws = [u, v, w] ∧ R x u ∧ R y v ∧ R z w := by
  obtain ⟨u, us, hu, hrest, rfl⟩ := List.forall₂_cons_left_iff.mp h
  obtain ⟨v, vs, hv, hlast, rfl⟩ := List.forall₂_cons_left_iff.mp hrest
  obtain ⟨w, others, hw, hothers, rfl⟩ := List.forall₂_cons_left_iff.mp hlast
  obtain rfl := List.forall₂_nil_left_iff.mp hothers
  exact ⟨u, v, w, rfl, hu, hv, hw⟩

/-- A module whose accessor declares a string. -/
def gaugeModule : NativeModule where
  name := "Gauge"
  methods :=
    [⟨"getConstants", [], .string false, true⟩,
      ⟨"level", [⟨"unit", false, .reference "Unit"⟩],
        .numeric .float true, false⟩,
      ⟨"reset", [⟨"hard", true, .boolean false⟩, ⟨"mark", false, .void⟩],
        .promise false, false⟩]
  aliases := ⟨[("Unit", .string true)]⟩

def gaugeSchema : Schema := ⟨⟨[("specs", [gaugeModule])]⟩⟩

theorem generate_kinds_suit_gauge :
    ∃ a flat doc, generate "App" "App" {} gaugeSchema = .ok a ∧
      flatten .overwrite gaugeSchema = .ok flat ∧
      assemble "App" "App" {} flat = .ok doc ∧
      a = ⟨artifactName "App", doc.render⟩ ∧
      ∃ constants level reset, doc.thunks = [constants, level, reset] ∧
        ¬constants.kind.Suits constants.descriptor ∧
        level.kind.Suits level.descriptor ∧
        reset.kind.Suits reset.descriptor := by
  obtain ⟨flat, doc, hflat, hdoc, ha, hthunks⟩ := generate_kinds_suit
    (show generate "App" "App" {} gaugeSchema = .ok _ from rfl)
  obtain rfl : ⟨[("Gauge", gaugeModule)]⟩ = flat := Except.ok.inj hflat
  obtain ⟨constants, level, reset, hall, hconstants, hlevel, hreset⟩ :=
    exists_of_forall₂_three hthunks
  refine ⟨_, _, doc, rfl, hflat, hdoc, ha, constants, level, reset, hall,
    hconstants.2.1.mpr ⟨rfl, rfl⟩, ?_, ?_⟩
  · exact Classical.not_not.mp fun h => Bool.noConfusion (hlevel.2.1.mp h).1
  · exact Classical.not_not.mp fun h => Bool.noConfusion (hreset.2.1.mp h).1

end Bridge

end NativeGlue
