import NativeGlue.Proofs.Lookup
import NativeGlue.Proofs.Text.Delimited

/-!
# Symbols of host functions

The symbol of a host function is made of a module name and a method name with
fixed text around them, and either name may contain that text.  This module says
exactly when two symbols are the same, and that a document has no symbol twice
as long as no module name contains the text between the names.
-/

namespace NativeGlue

/-! ## Separators without a border -/

section Separators

variable {α : Type}

/-- No part of a list but the whole is both its beginning and its end, so two
occurrences of the list never overlap. -/
def Unbordered (sep : List α) : Prop :=
  ∀ part, part ≠ [] → part <+: sep → part <:+ sep → part = sep

/-- A list whose last element occurs nowhere else in it has no border. -/
theorem unbordered_concat {front : List α} {last : α} (hlast : last ∉ front) :
    Unbordered (front ++ [last]) := by
  intro part hne hprefix hsuffix
  rcases List.prefix_concat_iff.mp hprefix with hwhole | hfront
  · exact hwhole
  · have hmem : last ∈ part := by
      rcases List.suffix_concat_iff.mp hsuffix with hnil | ⟨rest, hrest, -⟩
      · exact absurd hnil hne
      · simp [hrest]
    exact absurd (hfront.mem hmem) hlast

/-- The separator after a gap is either the one before it, or it lies behind
it. -/
theorem Unbordered.gap_cases
    {sep gap ys ys' : List α} (hsep : Unbordered sep)
    (h : sep ++ ys = gap ++ (sep ++ ys')) :
    (gap = [] ∧ ys = ys') ∨
      ∃ between, gap = sep ++ between ∧ ys = between ++ (sep ++ ys') := by
  rcases List.append_eq_append_iff.mp h with
    ⟨between, hgap, hys⟩ | ⟨part, hsplit, hrest⟩
  · exact Or.inr ⟨between, hgap, hys⟩
  · by_cases hpart : part = []
    · subst hpart
      rw [List.append_nil] at hsplit
      exact Or.inr ⟨[], by simp [hsplit], by simpa using hrest.symm⟩
    · have hsuffix : part <:+ sep := ⟨gap, hsplit.symm⟩
      have hprefix : part <+: sep :=
        List.prefix_of_prefix_length_le ⟨ys, hrest.symm⟩
          (List.prefix_append sep ys') hsuffix.length_le
      obtain rfl := hsep part hpart hprefix hsuffix
      exact Or.inl ⟨by simpa using hsplit, (List.append_cancel_left hrest).symm⟩

/-- Two pairs that read the same around a separator are the same, or one of them
is cut at a later occurrence of the separator than the other. -/
theorem Unbordered.append_eq_append_iff
    {sep xs ys xs' ys' : List α} (hsep : Unbordered sep) :
    xs ++ (sep ++ ys) = xs' ++ (sep ++ ys') ↔
      (xs = xs' ∧ ys = ys') ∨
        (∃ z, xs' = xs ++ (sep ++ z) ∧ ys = z ++ (sep ++ ys')) ∨
        ∃ z, xs = xs' ++ (sep ++ z) ∧ ys' = z ++ (sep ++ ys) := by
  constructor
  · intro h
    rcases List.append_eq_append_iff.mp h with
      ⟨gap, rfl, hrest⟩ | ⟨gap, rfl, hrest⟩
    · rcases hsep.gap_cases hrest with ⟨rfl, hys⟩ | ⟨z, rfl, hys⟩
      · exact Or.inl ⟨by simp, hys⟩
      · exact Or.inr (Or.inl ⟨z, rfl, hys⟩)
    · rcases hsep.gap_cases hrest with ⟨rfl, hys⟩ | ⟨z, rfl, hys⟩
      · exact Or.inl ⟨by simp, hys.symm⟩
      · exact Or.inr (Or.inr ⟨z, rfl, hys⟩)
  · rintro (⟨rfl, rfl⟩ | ⟨z, rfl, rfl⟩ | ⟨z, rfl, rfl⟩) <;> simp

end Separators

/-- Two pairs of texts that read the same around a separator. -/
theorem append_separator_eq_iff
    {sep : String} (hsep : Unbordered sep.toList) {s t s' t' : String} :
    s ++ (sep ++ t) = s' ++ (sep ++ t') ↔
      (s = s' ∧ t = t') ∨
        (∃ x, s' = s ++ sep ++ x ∧ t = x ++ sep ++ t') ∨
        ∃ x, s = s' ++ sep ++ x ∧ t' = x ++ sep ++ t := by
  have hlist : ∀ a b c d : String,
      (∃ x : List Char, b.toList = a.toList ++ (sep.toList ++ x) ∧
          c.toList = x ++ (sep.toList ++ d.toList)) ↔
        ∃ x : String, b = a ++ sep ++ x ∧ c = x ++ sep ++ d := by
    intro a b c d
    constructor
    · rintro ⟨x, hb, hc⟩
      refine ⟨String.ofList x, ?_, ?_⟩ <;> rw [← String.toList_inj] <;> simpa
    · rintro ⟨x, rfl, rfl⟩
      exact ⟨x.toList, by simp, by simp⟩
  rw [← String.toList_inj]
  simp only [String.toList_append]
  rw [hsep.append_eq_append_iff, hlist, hlist,
    String.toList_inj, String.toList_inj]

namespace Bridge

/-! ## Symbols that are the same -/

/-- What stands between the two names in the symbol of a host function. -/
def symbolSeparator : String := "SpecJSI_"

theorem unbordered_symbolSeparator : Unbordered symbolSeparator.toList := by
  have hchars : symbolSeparator.toList =
      ['S', 'p', 'e', 'c', 'J', 'S', 'I'] ++ ['_'] :=
    String.toList_ofList
  rw [hchars]
  exact unbordered_concat (by decide)

theorem thunkName_eq (moduleName method : String) :
    thunkName moduleName method =
      "__hostFunction_Native" ++
        (moduleName ++ (symbolSeparator ++ method)) := by
  show "__hostFunction_" ++ ("Native" ++ moduleName ++ "SpecJSI") ++
    "_" ++ method = _
  have hfront : "__hostFunction_Native" = "__hostFunction_" ++ "Native" := rfl
  have hback : symbolSeparator = "SpecJSI" ++ "_" := rfl
  rw [hfront, hback]
  simp only [String.append_assoc]

theorem thunkName_eq_thunkName_iff {m₁ f₁ m₂ f₂ : String} :
    thunkName m₁ f₁ = thunkName m₂ f₂ ↔
      (m₁ = m₂ ∧ f₁ = f₂) ∨
        (∃ x, m₂ = m₁ ++ symbolSeparator ++ x ∧
          f₁ = x ++ symbolSeparator ++ f₂) ∨
        ∃ x, m₁ = m₂ ++ symbolSeparator ++ x ∧
          f₂ = x ++ symbolSeparator ++ f₁ := by
  rw [thunkName_eq, thunkName_eq, String.append_right_inj,
    append_separator_eq_iff unbordered_symbolSeparator]

/-- A text contains the separator of symbols. -/
def HoldsSeparator (name : String) : Prop :=
  ∃ front back, name = front ++ symbolSeparator ++ back

/-- Modules whose names lack the separator share no symbol unless they share
their name. -/
theorem thunkName_inj
    {m₁ f₁ m₂ f₂ : String} (h₁ : ¬HoldsSeparator m₁) (h₂ : ¬HoldsSeparator m₂)
    (h : thunkName m₁ f₁ = thunkName m₂ f₂) :
    m₁ = m₂ ∧ f₁ = f₂ := by
  rcases thunkName_eq_thunkName_iff.mp h with hsame | ⟨x, hm₂, -⟩ | ⟨x, hm₁, -⟩
  · exact hsame
  · exact absurd ⟨m₁, x, hm₂⟩ h₂
  · exact absurd ⟨m₂, x, hm₁⟩ h₁

/-! ## Symbols of a document -/

/-- The host functions of modules whose methods can be emitted. -/
def emittedThunks (modules : List NativeModule) : List Thunk :=
  modules.flatMap fun m => (emittedBlock m).methods.map (·.thunk)

theorem thunks_ofBlocks
    (library spec : String) (config : Config) (modules : List NativeModule) :
    (Document.ofBlocks library spec config (modules.map emittedBlock)).thunks =
      emittedThunks modules := by
  have hitems : ∀ b : Block,
      b.items.filterMap Item.thunk? = b.methods.map (·.thunk) := by
    intro b
    simp [Block.items, List.filterMap_append, List.filterMap_map, Item.thunk?,
      Function.comp_def]
  rw [Document.thunks, Document.ofBlocks, List.filterMap_append,
    List.filterMap_flatMap, List.flatMap_map]
  simp only [hitems]
  simp [emittedThunks, Item.thunk?]

/-- A kept module is one of those declared. -/
theorem mem_modules_of_mem_keptModules
    {s : Schema} {m : NativeModule} (hm : m ∈ (keptModules s).values) :
    m ∈ s.modules := by
  obtain ⟨earlier, later, hsplit, -⟩ := mem_values_keptModules_iff.mp hm
  rw [hsplit]
  exact List.mem_append_right _ List.mem_cons_self

section Modules

variable {modules : List NativeModule}
  (hemits : ∀ m ∈ modules, ∀ method ∈ m.methods, Emits m method)
  (hnames : (modules.map (·.name)).Nodup)
  (hmethods : ∀ m ∈ modules, (m.methods.map (·.name)).Nodup)
  (hseparator : ∀ m ∈ modules, ¬HoldsSeparator m.name)

include hemits

theorem emitMethod_of_emission
    {m : NativeModule} (hm : m ∈ modules) {method : Method}
    (hmethod : method ∈ m.methods) {e : Emitted}
    (he : emission m method = some e) :
    emitMethod m.name m.aliases method = .ok (some e) := by
  rw [(hemits m hm method hmethod).emitMethod_eq, he]

theorem symbol_of_emission
    {m : NativeModule} (hm : m ∈ modules) {method : Method}
    (hmethod : method ∈ m.methods) {e : Emitted}
    (he : emission m method = some e) :
    e.thunk.name = thunkName m.name method.name :=
  (emitMethod_serves (emitMethod_of_emission hemits hm hmethod he)).thunk_name

include hnames hmethods hseparator

/-- Modules with distinct names and distinct methods give their host functions
distinct symbols. -/
theorem nodup_symbols : ((emittedThunks modules).map (·.name)).Nodup := by
  rw [List.Nodup, List.pairwise_map, emittedThunks, List.pairwise_flatMap]
  constructor
  · -- Within a module the symbols differ as the method names do.
    intro m hm
    have hdistinct : m.methods.Pairwise fun f f' => f.name ≠ f'.name :=
      List.pairwise_map.mp (hmethods m hm)
    rw [List.pairwise_map]
    refine List.pairwise_filterMap.mpr (hdistinct.imp_of_mem ?_)
    intro f f' hf hf' hne e he e' he' hsymbol
    rw [symbol_of_emission hemits hm hf he,
      symbol_of_emission hemits hm hf' he'] at hsymbol
    exact hne (thunkName_inj (hseparator m hm) (hseparator m hm) hsymbol).2
  · -- Across modules they differ as the module names do.
    have hdistinct : modules.Pairwise fun m m' => m.name ≠ m'.name :=
      List.pairwise_map.mp hnames
    refine hdistinct.imp_of_mem ?_
    intro m m' hm hm' hne t ht t' ht' hsymbol
    obtain ⟨e, he, rfl⟩ := List.mem_map.mp ht
    obtain ⟨e', he', rfl⟩ := List.mem_map.mp ht'
    obtain ⟨f, hf, hemission⟩ := List.mem_filterMap.mp he
    obtain ⟨f', hf', hemission'⟩ := List.mem_filterMap.mp he'
    rw [symbol_of_emission hemits hm hf hemission,
      symbol_of_emission hemits hm' hf' hemission'] at hsymbol
    exact hne (thunkName_inj (hseparator m hm) (hseparator m' hm') hsymbol).1

/-- What a module registers refers to the host functions that were emitted with
it. -/
theorem forall₂_refers {m : NativeModule} (hm : m ∈ modules) :
    List.Forall₂ (fun thunk entry =>
      (emittedThunks modules).filter (·.name = entry.thunk) = [thunk] ∧
        ∃ n ∈ modules, ∃ method ∈ n.methods,
          emitMethod n.name n.aliases method = .ok (some ⟨thunk, entry⟩))
      (emittedBlock m).run.thunks (emittedBlock m).run.bridgeClass.entries := by
  show List.Forall₂ _ ((emittedBlock m).methods.map (·.thunk))
    ((emittedBlock m).methods.map (·.entry))
  rw [List.forall₂_map_left_iff, List.forall₂_map_right_iff, List.forall₂_same]
  intro e he
  obtain ⟨method, hmethod, hemission⟩ := List.mem_filterMap.mp he
  have hemit := emitMethod_of_emission hemits hm hmethod hemission
  have hthunk : e.thunk ∈ emittedThunks modules :=
    List.mem_flatMap.mpr ⟨m, hm, List.mem_map_of_mem he⟩
  refine ⟨?_, m, hm, method, hmethod, hemit⟩
  rw [(emitMethod_serves hemit).entry_thunk]
  exact filter_key_eq_singleton
    (nodup_symbols hemits hnames hmethods hseparator) hthunk

end Modules

/-- Two symbols are the same exactly when the names are, or when one pair of
names is the other cut at a later occurrence of the separator.  So a document of
modules whose methods have distinct names and whose own names lack the separator
has no symbol twice, and each registration refers to the host function that was
emitted with it and to no other. -/
theorem thunkName_collisions :
    (∀ m₁ f₁ m₂ f₂ : String, thunkName m₁ f₁ = thunkName m₂ f₂ ↔
      (m₁, f₁) = (m₂, f₂) ∨
        (∃ x, m₂ = m₁ ++ "SpecJSI_" ++ x ∧ f₁ = x ++ "SpecJSI_" ++ f₂) ∨
        ∃ x, m₁ = m₂ ++ "SpecJSI_" ++ x ∧ f₂ = x ++ "SpecJSI_" ++ f₁) ∧
    ∀ (library spec : String) (config : Config) (s : Schema)
      (flat : Table NativeModule) (doc : Document),
      (∀ m ∈ s.modules, (m.methods.map (·.name)).Nodup) →
      (∀ m ∈ s.modules, ¬∃ front back, m.name = front ++ "SpecJSI_" ++ back) →
      flatten config.duplicates s = .ok flat →
      assemble library spec config flat = .ok doc →
      (doc.thunks.map (·.name)).Nodup ∧
        ∀ run ∈ doc.classRuns,
          List.Forall₂ (fun thunk entry =>
            doc.thunks.filter (·.name = entry.thunk) = [thunk] ∧
              ∃ m ∈ flat.values, ∃ method ∈ m.methods,
                emitMethod m.name m.aliases method = .ok (some ⟨thunk, entry⟩))
            run.thunks run.bridgeClass.entries := by
  constructor
  · intro m₁ f₁ m₂ f₂
    rw [Prod.mk.injEq]
    exact thunkName_eq_thunkName_iff
  · intro library spec config s flat doc hmethods hseparator hflat hdoc
    obtain rfl := eq_keptModules_of_flatten hflat
    have hemits :=
      (exists_assemble_eq_ok_iff library spec config).mp ⟨doc, hdoc⟩
    obtain rfl := eq_ofBlocks_of_assemble hdoc
    have hnames := nodup_names_keptModules s
    have hdistinct :
        ∀ m ∈ (keptModules s).values, (m.methods.map (·.name)).Nodup :=
      fun m hm => hmethods m (mem_modules_of_mem_keptModules hm)
    have hfree : ∀ m ∈ (keptModules s).values, ¬HoldsSeparator m.name :=
      fun m hm => hseparator m (mem_modules_of_mem_keptModules hm)
    rw [thunks_ofBlocks, Document.classRuns_ofBlocks,
      List.map_map, List.forall_mem_map]
    exact ⟨nodup_symbols hemits hnames hdistinct hfree,
      fun m hm => forall₂_refers hemits hnames hdistinct hfree hm⟩

theorem not_holdsSeparator_of_lacks {name : String} (hname : Lacks '_' name) :
    ¬HoldsSeparator name := by
  rintro ⟨front, back, rfl⟩
  have hmark : '_' ∈ symbolSeparator.toList := by decide
  exact (lacks_append_iff.mp (lacks_append_iff.mp hname).1).2 hmark

/-- Two modules with the same methods; the name of the second one ends as the
class of the first one does. -/
def twinSchema : Schema :=
  ⟨⟨[("specs",
    [clockModule, ⟨"ClockSpecJSI", clockModule.methods, Table.empty⟩])]⟩⟩

theorem thunkName_collisions_twin :
    thunkName "Clock" "raySpecJSI_now" = thunkName "ClockSpecJSI_ray" "now" ∧
    ∃ flat doc,
      flatten .overwrite twinSchema = .ok flat ∧
      assemble "App" "App" {} flat = .ok doc ∧
      (doc.thunks.map (·.name)).Nodup ∧
      ∀ run ∈ doc.classRuns,
        List.Forall₂ (fun thunk entry =>
          doc.thunks.filter (·.name = entry.thunk) = [thunk] ∧
            ∃ m ∈ flat.values, ∃ method ∈ m.methods,
              emitMethod m.name m.aliases method = .ok (some ⟨thunk, entry⟩))
          run.thunks run.bridgeClass.entries := by
  have hmethods : ∀ m ∈ twinSchema.modules, (m.methods.map (·.name)).Nodup := by
    intro m hm
    rcases List.mem_pair.mp hm with rfl | rfl <;> decide
  have hseparator : ∀ m ∈ twinSchema.modules, ¬HoldsSeparator m.name := by
    intro m hm
    rcases List.mem_pair.mp hm with rfl | rfl <;>
      exact not_holdsSeparator_of_lacks (lacks_ofList rfl (by decide))
  refine ⟨?_, _, _, rfl, rfl, ?_⟩
  · exact (thunkName_collisions.1 _ _ _ _).mpr
      (Or.inr (Or.inl ⟨"ray", rfl, rfl⟩))
  · exact thunkName_collisions.2 "App" "App" {} twinSchema _ _ hmethods
      hseparator rfl rfl

end Bridge

end NativeGlue
