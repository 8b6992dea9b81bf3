import NativeGlue.Proofs.Refusal

/-!
# Two runs of generation side by side

Two schemas whose modules agree one by one are generated in step: the runs
flatten to modules that agree one by one, or are refused with the same error,
and then emit the same declarations.  What it means for two modules to agree is
left open here as far as possible; all that generation reads of a module is its
name and its block.
-/

namespace NativeGlue

variable {ε α β γ : Type}

/-! ## Results that agree -/

/-- Two results are the same failure, or successes with related values. -/
inductive SameOutcome (R : α → β → Prop) : Except ε α → Except ε β → Prop where
  | error (e : ε) : SameOutcome R (.error e) (.error e)
  | ok {a : α} {b : β} (hab : R a b) : SameOutcome R (.ok a) (.ok b)

theorem SameOutcome.bind_eq
    {R : α → β → Prop} {x : Except ε α} {y : Except ε β}
    {f : α → Except ε γ} {g : β → Except ε γ}
    (hxy : SameOutcome R x y) (hfg : ∀ a b, R a b → f a = g b) :
    (x >>= f) = (y >>= g) := by
  cases hxy with
  | error e => rfl
  | ok hab => exact hfg _ _ hab

theorem SameOutcome.bind
    {δ : Type} {R : α → β → Prop} {S : γ → δ → Prop}
    {x : Except ε α} {y : Except ε β}
    {f : α → Except ε γ} {g : β → Except ε δ}
    (hxy : SameOutcome R x y) (hfg : ∀ a b, R a b → SameOutcome S (f a) (g b)) :
    SameOutcome S (x >>= f) (y >>= g) := by
  cases hxy with
  | error e => exact .error e
  | ok hab => exact hfg _ _ hab

/-- Walks whose steps agree give the same result. -/
theorem mapM_eq_of_forall₂
    {f : α → Except ε γ} {g : β → Except ε γ} {xs : List α} {ys : List β}
    (hxys : List.Forall₂ (fun x y => f x = g y) xs ys) :
    xs.mapM f = ys.mapM g := by
  induction hxys with
  | nil => rfl
  | cons hxy _ ih => rw [List.mapM_cons, List.mapM_cons, hxy, ih]

/-- Folds whose steps keep their states related end related. -/
theorem foldlM_sameOutcome
    {σ τ : Type} {R : α → β → Prop} {S : σ → τ → Prop}
    {f : σ → α → Except ε σ} {g : τ → β → Except ε τ}
    (hstep : ∀ s t x y, S s t → R x y → SameOutcome S (f s x) (g t y))
    {xs : List α} {ys : List β} (hxys : List.Forall₂ R xs ys)
    {s : σ} {t : τ} (hst : S s t) :
    SameOutcome S (xs.foldlM f s) (ys.foldlM g t) := by
  induction hxys generalizing s t with
  | nil => exact .ok hst
  | @cons x y _ _ hxy _ ih =>
      rw [List.foldlM_cons, List.foldlM_cons]
      exact (hstep s t x y hst hxy).bind fun _ _ hnext => ih hnext

/-! ## Tables that agree -/

/-- Two tables have the same keys in the same order, with related values. -/
def Table.Alike (R : α → β → Prop) (t : Table α) (u : Table β) : Prop :=
  List.Forall₂ (fun e f => e.1 = f.1 ∧ R e.2 f.2) t.entries u.entries

namespace Table.Alike

variable {R : α → β → Prop} {t : Table α} {u : Table β}

theorem keys_eq (htu : t.Alike R u) : t.keys = u.keys := by
  unfold Table.keys
  rw [← List.forall₂_eq_eq_eq, List.forall₂_map_left_iff,
    List.forall₂_map_right_iff]
  exact htu.imp fun _ _ h => h.1

theorem values (htu : t.Alike R u) : List.Forall₂ R t.values u.values := by
  unfold Table.values
  rw [List.forall₂_map_left_iff, List.forall₂_map_right_iff]
  exact htu.imp fun _ _ h => h.2

theorem insert
    (htu : t.Alike R u) (key : String) {a : α} {b : β} (hab : R a b) :
    (t.insert key a).Alike R (u.insert key b) := by
  obtain ⟨es⟩ := t
  obtain ⟨fs⟩ := u
  unfold Table.Alike Table.insert at *
  dsimp only at *
  induction htu with
  | nil => exact .cons ⟨rfl, hab⟩ .nil
  | @cons e f es fs hef hrest ih =>
      obtain ⟨k, v⟩ := e
      obtain ⟨k', w⟩ := f
      obtain ⟨rfl, hvw⟩ := hef
      unfold Table.insertEntry
      split
      · exact .cons ⟨rfl, hab⟩ hrest
      · exact .cons ⟨rfl, hvw⟩ ih

end Table.Alike

/-! ## Schemas that agree -/

namespace Bridge

/-- Two modules have one name and give the same declarations or the same
error. -/
def SameBlock (m m' : NativeModule) : Prop :=
  m.name = m'.name ∧ Block.ofModule m = Block.ofModule m'

theorem addModule_sameOutcome
    {R : NativeModule → NativeModule → Prop}
    (hname : ∀ m m', R m m' → m.name = m'.name) (policy : DuplicatePolicy)
    {flat flat' : Table NativeModule} {m m' : NativeModule}
    (hflat : flat.Alike R flat') (hm : R m m') :
    SameOutcome (Table.Alike R) (addModule policy flat m)
      (addModule policy flat' m') := by
  have hcontains : flat.contains m.name = flat'.contains m.name := by
    rw [Bool.eq_iff_iff, Table.contains_eq_true_iff, Table.contains_eq_true_iff,
      hflat.keys_eq]
  unfold addModule
  rw [← hname m m' hm, hcontains]
  split
  · exact .error _
  · exact .ok (hflat.insert m.name hm)

/-- Flattening keeps modules that agree in step. -/
theorem flatten_sameOutcome
    {R : NativeModule → NativeModule → Prop}
    (hname : ∀ m m', R m m' → m.name = m'.name) (policy : DuplicatePolicy)
    {s s' : Schema} (hs : List.Forall₂ R s.modules s'.modules) :
    SameOutcome (Table.Alike R) (flatten policy s) (flatten policy s') := by
  have hstep : ∀ flat flat' m m', Table.Alike R flat flat' → R m m' →
      SameOutcome (Table.Alike R) (addModule policy flat m)
        (addModule policy flat' m') :=
    fun _ _ _ _ hflat hm => addModule_sameOutcome hname policy hflat hm
  exact foldlM_sameOutcome hstep hs List.Forall₂.nil

/-- Schemas whose modules give the same declarations one by one are generated
alike. -/
theorem generate_eq_of_sameBlock
    (library spec : String) (config : Config) {s s' : Schema}
    (hs : List.Forall₂ SameBlock s.modules s'.modules) :
    generate library spec config s = generate library spec config s' := by
  unfold generate
  apply (flatten_sameOutcome (fun _ _ h => h.1) config.duplicates hs).bind_eq
  intro flat flat' hflat
  have hblocks : flat.values.mapM Block.ofModule =
      flat'.values.mapM Block.ofModule :=
    mapM_eq_of_forall₂ (hflat.values.imp fun _ _ h => h.2)
  unfold assemble
  rw [hblocks]

end Bridge

end NativeGlue
