import NativeGlue.Bridge.Generate
import NativeGlue.Proofs.Table
import NativeGlue.Proofs.Traversal

/-!
# Flattening the modules of a schema

Which modules a schema keeps when its groups are put into one namespace.  A
repeated name keeps its first position and its last declaration, or it is
refused.  Both policies agree wherever the second one accepts, so what is
proved about the kept modules holds under either.
-/

namespace NativeGlue

/-! ## The earliest repetition -/

/-- A name stands at a position and also at some position before it. -/
def RepeatedAt (names : List String) (i : Nat) (name : String) : Prop :=
  names[i]? = some name ∧ name ∈ names.take i

/-- A list of names repeats itself at a position, and at none before it. -/
structure FirstRepeatedAt (names : List String) (i : Nat) (name : String) :
    Prop where
  repeated : RepeatedAt names i name
  earliest : ∀ j < i, ∀ other, ¬RepeatedAt names j other

theorem RepeatedAt.not_nodup
    {names : List String} {i : Nat} {name : String}
    (h : RepeatedAt names i name) :
    ¬names.Nodup := by
  obtain ⟨hi, hmem⟩ := h
  obtain ⟨hlt, hget⟩ := List.getElem?_eq_some_iff.mp hi
  intro hnodup
  rw [← List.take_append_drop i names, List.nodup_append] at hnodup
  refine hnodup.2.2 name hmem name ?_ rfl
  rw [List.drop_eq_getElem_cons hlt, hget]
  exact List.mem_cons_self

theorem repeatedAt_append_iff
    {front : List String} {j : Nat} (hj : j < front.length) (back : List String)
    (name : String) :
    RepeatedAt (front ++ back) j name ↔ RepeatedAt front j name := by
  unfold RepeatedAt
  rw [List.getElem?_append_left hj,
    List.take_append_of_le_length (Nat.le_of_lt hj)]

theorem firstRepeatedAt_of_nodup
    {earlier later : List String} {name : String} (hnodup : earlier.Nodup)
    (hmem : name ∈ earlier) :
    FirstRepeatedAt (earlier ++ name :: later) earlier.length name := by
  refine ⟨⟨?_, ?_⟩, fun j hj other hrepeated => ?_⟩
  · simp
  · rw [List.take_left]
    exact hmem
  · exact ((repeatedAt_append_iff hj _ other).mp hrepeated).not_nodup hnodup

theorem FirstRepeatedAt.unique
    {names : List String} {i i' : Nat} {name name' : String}
    (h : FirstRepeatedAt names i name) (h' : FirstRepeatedAt names i' name') :
    name = name' := by
  have hle : i ≤ i' :=
    Nat.not_lt.mp fun hlt => h.earliest i' hlt name' h'.repeated
  have hge : i' ≤ i :=
    Nat.not_lt.mp fun hlt => h'.earliest i hlt name h.repeated
  obtain rfl := Nat.le_antisymm hle hge
  exact Option.some.inj (h.repeated.1.symm.trans h'.repeated.1)

namespace Bridge

/-! ## The kept modules -/

/-- The names of the declared modules in order of declaration. -/
def declaredNames (s : Schema) : List String := s.modules.map (·.name)

/-- The declared modules, written into one table in order of declaration. -/
def keptModules (s : Schema) : Table NativeModule :=
  Table.ofList (s.modules.map fun m => (m.name, m))

@[simp] theorem addModule_overwrite
    (flat : Table NativeModule) (m : NativeModule) :
    addModule .overwrite flat m = .ok (flat.insert m.name m) := by
  simp [addModule]

/-- Flattening that overwrites keeps the written table. -/
@[simp] theorem flatten_overwrite (s : Schema) :
    flatten .overwrite s = .ok (keptModules s) := by
  have hrun : ∀ (ms : List NativeModule) (flat : Table NativeModule),
      ms.foldlM (addModule .overwrite) flat =
        .ok (ms.foldl (fun t m => t.insert m.name m) flat) := by
    intro ms
    induction ms with
    | nil => intro flat; rfl
    | cons m ms ih =>
        intro flat
        rw [List.foldlM_cons, addModule_overwrite]
        exact ih _
  rw [flatten, hrun, keptModules, Table.ofList, List.foldl_map]

theorem addModule_reject_of_mem
    {flat : Table NativeModule} {m : NativeModule} (hm : m.name ∈ flat.keys) :
    addModule .reject flat m = .error (.duplicateModule m.name) := by
  rw [addModule, if_pos ⟨rfl, Table.contains_eq_true_iff.mpr hm⟩]

theorem addModule_reject_of_notMem
    {flat : Table NativeModule} {m : NativeModule} (hm : m.name ∉ flat.keys) :
    addModule .reject flat m = .ok (flat.insert m.name m) := by
  rw [addModule, if_neg]
  rintro ⟨-, hcontains⟩
  exact hm (Table.contains_eq_true_iff.mp hcontains)

/-- A run that rejects adds modules as long as their names are new, and it
stops at the first name that is not. -/
theorem foldlM_addModule_reject
    (ms : List NativeModule) (flat : Table NativeModule) :
    ((∃ earlier name later, ms.map (·.name) = earlier ++ name :: later ∧
        earlier.Nodup ∧ (∀ n ∈ earlier, n ∉ flat.keys) ∧
        name ∈ flat.keys ++ earlier ∧
        ms.foldlM (addModule .reject) flat = .error (.duplicateModule name)) ∨
      ((ms.map (·.name)).Nodup ∧ (∀ n ∈ ms.map (·.name), n ∉ flat.keys) ∧
        ms.foldlM (addModule .reject) flat =
          ms.foldlM (addModule .overwrite) flat)) := by
  induction ms generalizing flat with
  | nil => exact Or.inr ⟨List.nodup_nil, by simp, rfl⟩
  | cons m ms ih =>
      by_cases hm : m.name ∈ flat.keys
      · refine Or.inl ⟨[], m.name, ms.map (·.name), rfl, List.nodup_nil,
          by simp, by simpa using hm, ?_⟩
        rw [List.foldlM_cons, addModule_reject_of_mem hm]
        rfl
      · have hkeys : (flat.insert m.name m).keys = flat.keys ++ [m.name] := by
          rw [Table.keys_insert, if_neg hm]
        have hstep (policy : DuplicatePolicy)
            (hadd : addModule policy flat m = .ok (flat.insert m.name m)) :
            (m :: ms).foldlM (addModule policy) flat =
              ms.foldlM (addModule policy) (flat.insert m.name m) := by
          rw [List.foldlM_cons, hadd]
          rfl
        rw [hstep .reject (addModule_reject_of_notMem hm),
          hstep .overwrite (addModule_overwrite flat m)]
        rcases ih (flat.insert m.name m) with
          ⟨earlier, name, later, hsplit, hnodup, hfresh, hname, hrun⟩ |
          ⟨hnodup, hfresh, hrun⟩
        · rw [hkeys] at hfresh hname
          refine Or.inl ⟨m.name :: earlier, name, later, ?_, ?_, ?_, ?_, hrun⟩
          · rw [List.map_cons, hsplit, List.cons_append]
          · exact List.nodup_cons.mpr
              ⟨fun h => hfresh _ h (by simp), hnodup⟩
          · rw [List.forall_mem_cons]
            exact ⟨hm, fun n hn hmem => hfresh n hn (by simp [hmem])⟩
          · simpa [or_assoc] using hname
        · rw [hkeys] at hfresh
          refine Or.inr ⟨?_, ?_, hrun⟩
          · rw [List.map_cons]
            exact List.nodup_cons.mpr
              ⟨fun h => hfresh _ h (by simp), hnodup⟩
          · rw [List.map_cons, List.forall_mem_cons]
            exact ⟨hm, fun n hn hmem => hfresh n hn (by simp [hmem])⟩

/-- Flattening that rejects either finds every name new and keeps what
overwriting keeps, or stops at the first name that has occurred before. -/
theorem flatten_reject_cases (s : Schema) :
    (∃ i name, FirstRepeatedAt (declaredNames s) i name ∧
        flatten .reject s = .error (.duplicateModule name)) ∨
      ((declaredNames s).Nodup ∧ flatten .reject s = .ok (keptModules s)) := by
  rcases foldlM_addModule_reject s.modules Table.empty with
    ⟨earlier, name, later, hsplit, hnodup, -, hname, hrun⟩ | ⟨hnodup, -, hrun⟩
  · have hmem : name ∈ earlier := by
      simpa [Table.keys, Table.empty] using hname
    refine Or.inl ⟨earlier.length, name, ?_, hrun⟩
    rw [declaredNames, hsplit]
    exact firstRepeatedAt_of_nodup hnodup hmem
  · exact Or.inr ⟨hnodup, hrun.trans (flatten_overwrite s)⟩

/-- Flattening that rejects fails at the earliest position whose name has
occurred before. -/
theorem flatten_reject_eq_error_iff {s : Schema} {e : Error} :
    flatten .reject s = .error e ↔
      ∃ i name, FirstRepeatedAt (declaredNames s) i name ∧
        e = .duplicateModule name := by
  rcases flatten_reject_cases s with ⟨i, name, hfirst, herror⟩ | ⟨hnodup, hok⟩
  · rw [herror, Except.error.injEq]
    constructor
    · intro he
      exact ⟨i, name, hfirst, he.symm⟩
    · rintro ⟨i', name', hfirst', rfl⟩
      rw [hfirst.unique hfirst']
  · rw [hok]
    constructor
    · intro h
      cases h
    · rintro ⟨i, name, hfirst, -⟩
      exact absurd hnodup hfirst.repeated.not_nodup

theorem flatten_reject_eq_ok_iff {s : Schema} {flat : Table NativeModule} :
    flatten .reject s = .ok flat ↔
      (declaredNames s).Nodup ∧ flat = keptModules s := by
  rcases flatten_reject_cases s with ⟨i, name, hfirst, herror⟩ | ⟨hnodup, hok⟩
  · rw [herror]
    constructor
    · intro h
      cases h
    · intro h
      exact absurd h.1 hfirst.repeated.not_nodup
  · rw [hok, Except.ok.injEq]
    exact ⟨fun h => ⟨hnodup, h.symm⟩, fun h => h.2.symm⟩

/-- Whatever the policy, a successful flattening gives the kept modules. -/
theorem eq_keptModules_of_flatten
    {policy : DuplicatePolicy} {s : Schema} {flat : Table NativeModule}
    (hflat : flatten policy s = .ok flat) :
    flat = keptModules s := by
  cases policy with
  | overwrite =>
      rw [flatten_overwrite] at hflat
      exact (Except.ok.inj hflat).symm
  | reject => exact (flatten_reject_eq_ok_iff.mp hflat).2

/-- A failure to flatten names a module. -/
theorem exists_duplicateModule_of_flatten
    {policy : DuplicatePolicy} {s : Schema} {e : Error}
    (hflat : flatten policy s = .error e) :
    ∃ name, e = .duplicateModule name := by
  cases policy with
  | overwrite =>
      rw [flatten_overwrite] at hflat
      cases hflat
  | reject =>
      obtain ⟨_, name, -, he⟩ := flatten_reject_eq_error_iff.mp hflat
      exact ⟨name, he⟩

theorem keptModules_keysDistinct (s : Schema) : (keptModules s).KeysDistinct :=
  Table.keysDistinct_ofList _

/-- A kept module stands under its own name and is the last one declared with
it. -/
theorem mem_entries_keptModules_iff
    {s : Schema} {name : String} {m : NativeModule} :
    (name, m) ∈ (keptModules s).entries ↔
      m.name = name ∧ ∃ earlier later, s.modules = earlier ++ m :: later ∧
        ∀ n ∈ later, n.name ≠ m.name := by
  rw [(keptModules_keysDistinct s).mem_entries_iff, keptModules,
    Table.get?_ofList, ← List.map_reverse, List.lookup_eq_some_iff]
  constructor
  · rintro ⟨front, back, hsplit, hfront⟩
    obtain ⟨later, rest, hreverse, rfl, hrest⟩ :=
      List.map_eq_append_iff.mp hsplit
    obtain ⟨m', earlier, rfl, hm', rfl⟩ := List.map_eq_cons_iff.mp hrest
    obtain ⟨rfl, rfl⟩ := Prod.mk.inj hm'
    refine ⟨rfl, earlier.reverse, later.reverse, ?_, ?_⟩
    · rw [← List.reverse_reverse s.modules, hreverse]
      simp
    · intro n hn
      have hne := hfront (n.name, n)
        (List.mem_map_of_mem (List.mem_reverse.mp hn))
      exact (bne_iff_ne.mp hne).symm
  · rintro ⟨rfl, earlier, later, hsplit, hlater⟩
    refine ⟨later.reverse.map fun n => (n.name, n),
      earlier.reverse.map fun n => (n.name, n), ?_, ?_⟩
    · rw [hsplit]
      simp
    · intro p hp
      obtain ⟨n, hn, rfl⟩ := List.mem_map.mp hp
      exact bne_iff_ne.mpr (hlater n (List.mem_reverse.mp hn)).symm

/-- The kept modules are the last declarations of their names. -/
theorem mem_values_keptModules_iff {s : Schema} {m : NativeModule} :
    m ∈ (keptModules s).values ↔
      ∃ earlier later, s.modules = earlier ++ m :: later ∧
        ∀ n ∈ later, n.name ≠ m.name := by
  unfold Table.values
  rw [List.mem_map]
  constructor
  · rintro ⟨⟨name, n⟩, hmem, rfl⟩
    exact (mem_entries_keptModules_iff.mp hmem).2
  · intro hlast
    exact ⟨(m.name, m), mem_entries_keptModules_iff.mpr ⟨rfl, hlast⟩, rfl⟩

/-- The names of the kept modules are the keys under which they stand. -/
@[simp] theorem names_keptModules (s : Schema) :
    (keptModules s).values.map (·.name) = (keptModules s).keys := by
  unfold Table.values Table.keys
  rw [List.map_map]
  apply List.map_congr_left
  rintro ⟨name, m⟩ hmem
  exact (mem_entries_keptModules_iff.mp hmem).1

/-- Two schemas that differ in a declaration which a later one of the same name
replaces flatten to the same modules, or are refused with the same error. -/
theorem flatten_eq_of_overwritten
    {s s' : Schema} {earlier later : List NativeModule} {m m' : NativeModule}
    (hs : s.modules = earlier ++ m :: later)
    (hs' : s'.modules = earlier ++ m' :: later)
    (hname : m'.name = m.name) (hlater : ∃ n ∈ later, n.name = m.name)
    (policy : DuplicatePolicy) :
    flatten policy s' = flatten policy s := by
  have hkept : keptModules s' = keptModules s := by
    rw [keptModules, keptModules, hs, hs']
    simp only [List.map_append, List.map_cons, hname]
    apply Table.ofList_eq_of_overwritten
    obtain ⟨n, hn, hnm⟩ := hlater
    rw [List.map_map, List.mem_map]
    exact ⟨n, hn, hnm⟩
  have hnames : declaredNames s' = declaredNames s := by
    rw [declaredNames, declaredNames, hs, hs']
    simp [hname]
  cases policy with
  | overwrite => rw [flatten_overwrite, flatten_overwrite, hkept]
  | reject =>
      cases hflat : flatten .reject s with
      | error e =>
          rw [flatten_reject_eq_error_iff] at hflat ⊢
          rw [hnames]
          exact hflat
      | ok flat =>
          rw [flatten_reject_eq_ok_iff] at hflat ⊢
          rw [hnames, hkept]
          exact hflat

end Bridge

end NativeGlue
