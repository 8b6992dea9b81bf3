import NativeGlue.Proofs.Lookup

/-!
# First and last occurrences of module names

What flattening makes of names that occur more than once, said in terms of
positions.  The policy that overwrites lists a name where it first occurs, with
the module that last declares it.  The policy that rejects stops at the earliest
position whose name has occurred before; without such a position both policies
keep the modules just as they are declared.
-/

namespace NativeGlue

/-! ## Names in order of first occurrence -/

/-- `names` are the names that occur in `declared`, each listed once, in the
order of their first occurrences. -/
structure ListsFirstOccurrences (names declared : List String) : Prop where
  mem_iff : ∀ name, name ∈ names ↔ name ∈ declared
  ordered : names.Pairwise fun a b => declared.idxOf a < declared.idxOf b

/-- Writing an entry keeps the keys in the order of first occurrence. -/
theorem ListsFirstOccurrences.insert
    {α : Type} {t : Table α} {declared : List String}
    (ht : ListsFirstOccurrences t.keys declared) (key : String) (value : α) :
    ListsFirstOccurrences (t.insert key value).keys (declared ++ [key]) := by
  -- The names met so far keep their first occurrences.
  have hkept : t.keys.Pairwise fun a b =>
      (declared ++ [key]).idxOf a < (declared ++ [key]).idxOf b := by
    refine ht.ordered.imp_of_mem fun {a b} ha hb hlt => ?_
    rw [List.idxOf_append_of_mem ((ht.mem_iff a).mp ha),
      List.idxOf_append_of_mem ((ht.mem_iff b).mp hb)]
    exact hlt
  rw [Table.keys_insert]
  by_cases hkey : key ∈ t.keys
  · rw [if_pos hkey]
    refine ⟨fun name => ?_, hkept⟩
    rw [List.mem_append, List.mem_singleton, ← ht.mem_iff]
    exact ⟨Or.inl, fun h => h.elim id fun hname => hname ▸ hkey⟩
  · rw [if_neg hkey]
    refine ⟨fun name => ?_, List.pairwise_append.mpr
      ⟨hkept, List.pairwise_singleton _ _, fun a ha b hb => ?_⟩⟩
    · rw [List.mem_append, List.mem_append, ht.mem_iff]
    · have hdeclared := (ht.mem_iff a).mp ha
      have hfresh : key ∉ declared := fun h => hkey ((ht.mem_iff key).mpr h)
      rw [List.mem_singleton.mp hb, List.idxOf_append_of_mem hdeclared,
        List.idxOf_append_of_notMem hfresh]
      exact Nat.lt_add_right _ (List.idxOf_lt_length_iff.mpr hdeclared)

theorem listsFirstOccurrences_ofList
    {α : Type} (entries : List (String × α)) :
    ListsFirstOccurrences (Table.ofList entries).keys
      (entries.map Prod.fst) := by
  induction entries using List.reverseRecOn with
  | nil => exact ⟨fun _ => Iff.rfl, List.Pairwise.nil⟩
  | append_singleton entries e ih =>
      rw [Table.ofList_append_singleton, List.map_append, List.map_singleton]
      exact ih.insert e.1 e.2

namespace Bridge

/-! ## Flattening -/

theorem listsFirstOccurrences_keptModules (s : Schema) :
    ListsFirstOccurrences (keptModules s).keys (declaredNames s) := by
  have hkeys :=
    listsFirstOccurrences_ofList (s.modules.map fun m => (m.name, m))
  rw [List.map_map] at hkeys
  exact hkeys

theorem get?_keptModules_iff {s : Schema} {name : String} {m : NativeModule} :
    (keptModules s).get? name = some m ↔ m.name = name ∧ s.DeclaresLast m := by
  rw [← (keptModules_keysDistinct s).mem_entries_iff]
  exact mem_entries_keptModules_iff

/-- Modules with distinct names are kept just as they are declared. -/
theorem entries_keptModules_of_nodup
    {s : Schema} (hnodup : (declaredNames s).Nodup) :
    (keptModules s).entries = s.modules.map fun m => (m.name, m) := by
  have hdistinct : Table.KeysDistinct ⟨s.modules.map fun m => (m.name, m)⟩ := by
    unfold Table.KeysDistinct Table.keys
    rw [List.map_map]
    exact hnodup
  exact congrArg Table.entries hdistinct.ofList_entries

theorem exists_flatten_reject_eq_error_iff {s : Schema} :
    (∃ e, flatten .reject s = .error e) ↔ ¬(declaredNames s).Nodup := by
  constructor
  · rintro ⟨e, herror⟩
    obtain ⟨i, name, hfirst, -⟩ := flatten_reject_eq_error_iff.mp herror
    exact hfirst.repeated.not_nodup
  · intro hrepeats
    by_contra hnone
    obtain ⟨flat, hflat⟩ :=
      exists_ok_iff_forall_ne_error.mpr (not_exists.mp hnone)
    exact hrepeats (flatten_reject_eq_ok_iff.mp hflat).1

/-- Flattening that overwrites succeeds: it lists the names in the order of
their first occurrences, each with the module that last declares it.  Flattening
that rejects fails exactly when a name occurs twice, with the name at the
earliest position whose name has occurred before, and else it gives the same
result, which then lists every module in order of declaration. -/
theorem flatten_outcome (s : Schema) :
    (∃ flat, flatten .overwrite s = .ok flat ∧
      ListsFirstOccurrences flat.keys (declaredNames s) ∧
      ∀ name m, flat.get? name = some m ↔ m.name = name ∧ s.DeclaresLast m) ∧
    ((∃ e, flatten .reject s = .error e) ↔
      ∃ name, 2 ≤ (declaredNames s).count name) ∧
    (∀ e, flatten .reject s = .error e ↔
      ∃ i name, FirstRepeatedAt (declaredNames s) i name ∧
        e = .duplicateModule name) ∧
    ∀ flat, flatten .reject s = .ok flat →
      flatten .overwrite s = .ok flat ∧
        flat.entries = s.modules.map fun m => (m.name, m) := by
  refine ⟨⟨keptModules s, flatten_overwrite s,
      listsFirstOccurrences_keptModules s, fun _ _ => get?_keptModules_iff⟩,
    ?_, fun _ => flatten_reject_eq_error_iff, ?_⟩
  · rw [exists_flatten_reject_eq_error_iff, List.nodup_iff_count_le_one,
      not_forall]
    exact exists_congr fun name => Nat.not_le
  · intro flat hflat
    obtain ⟨hnodup, rfl⟩ := flatten_reject_eq_ok_iff.mp hflat
    exact ⟨flatten_overwrite s, entries_keptModules_of_nodup hnodup⟩

/-- A schema of modules without methods, given by their names. -/
def bareSchema (groups : List (String × List String)) : Schema :=
  ⟨⟨groups.map fun g => (g.1, g.2.map fun name => ⟨name, [], Table.empty⟩)⟩⟩

theorem flatten_outcome_bare :
    flatten .reject (bareSchema [("a", ["Clock", "Radio", "Clock"]),
      ("b", ["Radio", "Alarm", "Clock"])]) = .error (.duplicateModule "Clock") ∧
    ∃ flat,
      flatten .reject (bareSchema [("a", ["Radio"]), ("b", ["Alarm"])]) =
        .ok flat ∧
      flatten .overwrite (bareSchema [("a", ["Radio"]), ("b", ["Alarm"])]) =
        .ok flat ∧
      flat.entries = [("Radio", ⟨"Radio", [], Table.empty⟩),
        ("Alarm", ⟨"Alarm", [], Table.empty⟩)] := by
  constructor
  · refine ((flatten_outcome _).2.2.1 _).mpr
      ⟨2, "Clock", ⟨⟨rfl, by decide⟩, ?_⟩, rfl⟩
    intro j hj other hrepeated
    have hnodup : (["Clock", "Radio"] : List String).Nodup := by decide
    exact ((repeatedAt_append_iff hj _ other).mp hrepeated).not_nodup hnodup
  · exact ⟨_, rfl, (flatten_outcome _).2.2.2 _ rfl⟩

end Bridge

end NativeGlue
