import NativeGlue.Proofs.Occurrences
import NativeGlue.Proofs.Raw.Repeats
import NativeGlue.Proofs.TwoRuns

/-!
# Loaded schemas

What holds of every schema that a text gives, however often the text repeats a
key.  Tables are read with distinct keys, and conversion keeps them so.  The
groups of the schema are those of the text that declare modules.  A name that is
declared twice is then declared by two groups, which is all that the policy that
rejects can find.
-/

namespace NativeGlue

open Json

namespace Raw

/-! ## Distinct keys -/

theorem Record.keysDistinct_ofRow
    {r : Record} {row : Row r.fields}
    (h : Row.All Shape.KeysDistinct r.fields row) :
    r.KeysDistinct (r.ofRow row) := by
  cases r with
  | schema => exact h.1 _ rfl
  | group => exact h.1
  | nativeModule => exact (h.1 _ rfl).1
  | _ => trivial

/-- The tables in a decoded value have distinct keys. -/
theorem Shape.keysDistinct_of_decode
    {levels : Nat} {s : Shape} {t : Tree} {v : s.Val}
    (hv : Shape.decode levels s t = some v) :
    s.KeysDistinct v := by
  induction levels generalizing s t with
  | zero =>
      cases s with
      | text => trivial
      | flag => trivial
      | _ => cases t <;> cases hv
  | succ levels ih =>
      cases s with
      | text => trivial
      | flag => trivial
      | list r =>
          cases t with
          | list items =>
              intro w hw
              obtain ⟨item, -, hitem⟩ := exists_of_mem_mapM hv hw
              exact ih (s := .record r) hitem
          | _ => cases hv
      | table r =>
          cases t with
          | object ms =>
              obtain ⟨entries, hentries, rfl⟩ := decode_table_eq_some_iff.mp hv
              refine ⟨Table.keysDistinct_ofList entries, fun e he => ?_⟩
              obtain ⟨m, -, hm⟩ := exists_mem_of_forall₂ hentries
                (Table.mem_of_mem_entries_ofList he)
              exact ih (s := .record r) hm.2
          | _ => cases hv
      | record r =>
          have hdecoded : ∀ f ∈ r.fields, ∀ t w,
              Shape.decode levels f.shape t = some w →
              f.shape.KeysDistinct w :=
            fun f _ t w hw => ih hw
          have hmissing : ∀ f ∈ r.fields, ∀ v w,
              f.missing? = some v → f.given v = some w →
              f.shape.KeysDistinct w :=
            fun f _ v w hv hw => Shape.keysDistinct_of_empty?
              (Field.defaulted_of_missing hv hw).2
          cases t with
          | list items =>
              obtain ⟨row, hrow, rfl⟩ := decode_list_eq_some_iff.mp hv
              exact Record.keysDistinct_ofRow
                (rowOfItems_all hrow hdecoded hmissing)
          | object ms =>
              obtain ⟨named, row, -, hrow, rfl⟩ :=
                decode_object_eq_some_iff.mp hv
              exact Record.keysDistinct_ofRow
                (rowOfMembers_all hrow hdecoded hmissing)
          | _ => cases hv

/-! ## The groups of a text -/

/-- What is written for the only field of a record: the values of the members
with its key, or the items of a list. -/
def writtenFor (key : String) : Tree → List Tree
  | .object ms => (ms.filter fun m => nameOf m = some key).map (·.value)
  | .list items => items
  | _ => []

/-- The members of an object by name, in order. -/
def writtenEntries : Tree → List (String × Tree)
  | .object ms =>
      ms.filterMap fun m => (nameOf m).map fun name => (name, m.value)
  | _ => []

/-- The groups of a schema as they are written, in order; keys may repeat. -/
def writtenGroups (t : Tree) : List (String × Tree) :=
  (writtenFor "modules" t).flatMap writtenEntries

/-- A group as it is written has a table of native modules. -/
def HasModuleTable (t : Tree) : Prop :=
  ∃ ms, Tree.object ms ∈ writtenFor "nativeModules" t

section Written

variable {inner : InnerDecoder} {f : Field} {value : f.Val}

/-- The value of a field that may be left out comes from what is written for
it. -/
def FromWritten
    (inner : InnerDecoder) (f : Field) (written : List Tree) (value : f.Val) :
    Prop :=
  (written = [] ∧ f.missing? = some value) ∨
    ∃ t, written = [t] ∧ f.decode inner t = some value

theorem fromWritten_object {ms : List Member} {named : List (String × Tree)}
    (hnamed : List.Forall₂ Names ms named)
    (h : rowOfMembers inner named [f] = some (value, ())) :
    FromWritten inner f (writtenFor f.key (.object ms)) value := by
  have hwritten : writtenFor f.key (.object ms) =
      (named.filter (·.1 = f.key)).map Prod.snd :=
    values_filter_nameOf hnamed f.key
  obtain ⟨hvalue, -⟩ := pair_eq_some_iff.mp h
  rw [hwritten]
  unfold Field.decodeAmong at hvalue
  generalize named.filter (·.1 = f.key) = found at hvalue
  rcases found with _ | ⟨m, _ | ⟨m', more⟩⟩
  · exact Or.inl ⟨rfl, hvalue⟩
  · exact Or.inr ⟨m.2, rfl, hvalue⟩
  · cases hvalue

theorem fromWritten_list {items : List Tree}
    (h : rowOfItems inner [f] items = some (value, ())) :
    FromWritten inner f (writtenFor f.key (.list items)) value := by
  rcases items with _ | ⟨t, _ | ⟨t', more⟩⟩
  · obtain ⟨hvalue, -⟩ := rowOfItems_nil_eq_some_iff.mp h
    exact Or.inl ⟨rfl, Field.missing?_of_omitted? hvalue⟩
  · obtain ⟨hvalue, -⟩ := rowOfItems_cons_eq_some_iff.mp h
    exact Or.inr ⟨t, rfl, hvalue⟩
  · obtain ⟨-, hmore⟩ := rowOfItems_cons_eq_some_iff.mp h
    cases hmore

end Written

section Groups

variable {levels : Nat}

theorem fromWritten_schema {t : Tree} {v : Schema}
    (hv : Shape.decode (levels + 1) (.record .schema) t = some v) :
    FromWritten (Shape.decode levels) ⟨"modules", .table .group, .defaulted⟩
      (writtenFor "modules" t) v.groups := by
  cases t with
  | list items =>
      obtain ⟨⟨value, ⟨⟩⟩, hrow, rfl⟩ := decode_list_eq_some_iff.mp hv
      exact fromWritten_list hrow
  | object ms =>
      obtain ⟨named, ⟨value, ⟨⟩⟩, hnamed, hrow, rfl⟩ :=
        decode_object_eq_some_iff.mp hv
      exact fromWritten_object hnamed hrow
  | _ => cases hv

theorem fromWritten_group
    {t : Tree} {g : Group}
    (hg : Shape.decode (levels + 1) (.record .group) t = some g) :
    FromWritten (Shape.decode levels)
      ⟨"nativeModules", .table .nativeModule, .omissible⟩
      (writtenFor "nativeModules" t) g.nativeModules := by
  cases t with
  | list items =>
      obtain ⟨⟨value, ⟨⟩⟩, hrow, rfl⟩ := decode_list_eq_some_iff.mp hg
      exact fromWritten_list hrow
  | object ms =>
      obtain ⟨named, ⟨value, ⟨⟩⟩, hnamed, hrow, rfl⟩ :=
        decode_object_eq_some_iff.mp hg
      exact fromWritten_object hnamed hrow
  | _ => cases hg

theorem exists_members_of_decode_table
    {r : Record} {t : Tree} {v : Table r.Val}
    (hv : Shape.decode levels (.table r) t = some v) :
    ∃ ms, t = .object ms := by
  cases t with
  | object ms => exact ⟨ms, rfl⟩
  | _ => cases levels <;> cases hv

/-- A group declares modules exactly if a table of them is written. -/
theorem hasModuleTable_iff {t : Tree} {g : Group}
    (hg : Shape.decode (levels + 1) (.record .group) t = some g) :
    HasModuleTable t ↔ g.nativeModules.isSome = true := by
  unfold HasModuleTable
  rcases fromWritten_group hg with ⟨hwritten, hmissing⟩ | ⟨u, hwritten, hdecode⟩
  · have hnone : none = g.nativeModules := Option.some.inj hmissing
    rw [hwritten, ← hnone]
    simp
  · rw [hwritten]
    by_cases hu : u = .null
    · have hnone : none = g.nativeModules := by
        rw [hu] at hdecode
        exact Option.some.inj hdecode
      rw [hu, ← hnone]
      simp
    · have hnullable : (Shape.decode levels (.table .nativeModule) u).map some =
          some g.nativeModules :=
        (decodeNullable_of_ne_null hu).symm.trans hdecode
      obtain ⟨modules, hmodules, hsome⟩ := Option.map_eq_some_iff.mp hnullable
      obtain ⟨ms, rfl⟩ := exists_members_of_decode_table hmodules
      rw [← hsome]
      exact iff_of_true ⟨ms, List.mem_singleton_self _⟩ rfl

theorem writtenEntries_cons
    {m : Member} {name : String} (hm : nameOf m = some name)
    (ms : List Member) :
    writtenEntries (.object (m :: ms)) =
      (name, m.value) :: writtenEntries (.object ms) := by
  rw [writtenEntries, writtenEntries, List.filterMap_cons, hm]
  rfl

theorem forall₂_writtenEntries
    {ms : List Member} {entries : List (String × Group)}
    (h : List.Forall₂ (DecodesEntry levels .group) ms entries) :
    List.Forall₂
      (fun e g =>
        e.1 = g.1 ∧ Shape.decode levels (.record .group) e.2 = some g.2)
      (writtenEntries (.object ms)) entries := by
  induction h with
  | nil => exact .nil
  | @cons m g ms entries hg _ ih =>
      have hwritten := writtenEntries_cons hg.1 ms
      exact hwritten ▸ .cons ⟨rfl, hg.2⟩ ih

/-- The groups of a schema are what the written groups are read as. -/
theorem exists_groups_of_decode
    {t : Tree} {v : Schema}
    (hv : Shape.decode (levels + 2) (.record .schema) t = some v) :
    ∃ entries : List (String × Group),
      List.Forall₂
        (fun e g =>
          e.1 = g.1 ∧ Shape.decode levels (.record .group) e.2 = some g.2)
        (writtenGroups t) entries ∧
      v.groups = Table.ofList entries := by
  unfold writtenGroups
  rcases fromWritten_schema hv with
    ⟨hwritten, hmissing⟩ | ⟨u, hwritten, hdecode⟩
  · rw [hwritten]
    exact ⟨[], .nil, (Option.some.inj hmissing).symm⟩
  · rw [hwritten, List.flatMap_singleton]
    obtain ⟨ms, rfl⟩ := exists_members_of_decode_table hdecode
    obtain ⟨entries, hentries, hgroups⟩ := decode_table_eq_some_iff.mp hdecode
    exact ⟨entries, forall₂_writtenEntries hentries, hgroups.symm⟩

end Groups

end Raw

/-! ## Conversion -/

theorem mapM_values_eq_ok_iff
    {ε α β : Type} {f : α → Except ε β} {es : List (String × α)}
    {es' : List (String × β)} :
    (es.mapM fun e => do
        let value ← f e.2
        return (e.1, value)) = .ok es' ↔
      Table.Alike (fun a b => f a = .ok b) ⟨es⟩ ⟨es'⟩ := by
  have hentry : ∀ (e : String × α) (e' : String × β),
      (f e.2 >>= fun value => pure (e.1, value)) = .ok e' ↔
        e.1 = e'.1 ∧ f e.2 = .ok e'.2 := by
    rintro ⟨key, a⟩ ⟨key', b⟩
    rw [bind_eq_ok_iff]
    constructor
    · rintro ⟨c, hc, heq⟩
      obtain ⟨rfl, rfl⟩ := Prod.mk.inj (Except.ok.inj heq)
      exact ⟨rfl, hc⟩
    · rintro ⟨rfl, hb⟩
      exact ⟨b, hb, rfl⟩
  rw [mapM_eq_ok_iff]
  exact ⟨fun h => h.imp fun e e' => (hentry e e').mp,
    fun h => h.imp fun e e' => (hentry e e').mpr⟩

theorem Table.mapM_eq_ok_iff
    {ε α β : Type} {f : α → Except ε β} {t : Table α} {u : Table β} :
    t.mapM f = .ok u ↔ t.Alike (fun a b => f a = .ok b) u := by
  rw [Table.mapM, bind_eq_ok_iff]
  constructor
  · rintro ⟨entries, hentries, hu⟩
    obtain rfl := Except.ok.inj hu
    exact mapM_values_eq_ok_iff.mp hentries
  · intro h
    exact ⟨u.entries, mapM_values_eq_ok_iff.mpr h, rfl⟩

/-- The methods that give constants are those with the name for it. -/
def Method.AccessorByName (m : Method) : Prop :=
  m.isAccessor = true ↔ m.name = "getConstants"

theorem Method.accessorByName_of_ofRaw {raw : Raw.Method} {m : Method}
    (h : Method.ofRaw raw = .ok m) : m.AccessorByName := by
  unfold Method.ofRaw at h
  split at h
  · obtain ⟨params, -, h⟩ := bind_eq_ok_iff.mp h
    obtain ⟨result, -, h⟩ := bind_eq_ok_iff.mp h
    obtain rfl := Except.ok.inj h
    exact decide_eq_true_iff
  · cases h

theorem NativeModule.ofRaw_eq_ok_iff
    {name : String} {raw : Raw.NativeModule} {m : NativeModule} :
    NativeModule.ofRaw name raw = .ok m ↔
      m.name = name ∧
      raw.aliases.Alike (fun t type => TypeExpr.ofRaw t = .ok type) m.aliases ∧
      List.Forall₂ (fun r method => Method.ofRaw r = .ok method)
        raw.methods m.methods := by
  unfold NativeModule.ofRaw
  rw [bind_eq_ok_iff]
  constructor
  · rintro ⟨aliases, haliases, h⟩
    obtain ⟨methods, hmethods, h⟩ := bind_eq_ok_iff.mp h
    obtain rfl := Except.ok.inj h
    exact ⟨rfl, Table.mapM_eq_ok_iff.mp haliases, mapM_eq_ok_iff.mp hmethods⟩
  · rintro ⟨rfl, haliases, hmethods⟩
    exact ⟨m.aliases, Table.mapM_eq_ok_iff.mpr haliases,
      bind_eq_ok_iff.mpr ⟨m.methods, mapM_eq_ok_iff.mpr hmethods, rfl⟩⟩

theorem Schema.ofRaw_eq_ok_iff {raw : Raw.Schema} {s : Schema} :
    Schema.ofRaw raw = .ok s ↔
      Table.Alike (fun modules ms => modulesOfRaw modules = .ok ms)
        ⟨raw.declaredGroups⟩ s.groups := by
  rw [Schema.ofRaw, bind_eq_ok_iff]
  constructor
  · rintro ⟨groups, hgroups, hs⟩
    obtain rfl := Except.ok.inj hs
    exact mapM_values_eq_ok_iff.mp hgroups
  · intro h
    exact ⟨s.groups.entries, mapM_values_eq_ok_iff.mpr h, rfl⟩

theorem mem_declaredGroups_iff {raw : Raw.Schema} {key : String}
    {modules : Table Raw.NativeModule} :
    (key, modules) ∈ raw.declaredGroups ↔
      ∃ g, (key, g) ∈ raw.groups.entries ∧ g.nativeModules = some modules := by
  unfold Raw.Schema.declaredGroups
  rw [List.mem_filterMap]
  constructor
  · rintro ⟨⟨key', g⟩, hg, hmodules⟩
    obtain ⟨modules', hsome, heq⟩ := Option.map_eq_some_iff.mp hmodules
    obtain ⟨rfl, rfl⟩ := Prod.mk.inj heq
    exact ⟨g, hg, hsome⟩
  · rintro ⟨g, hg, hmodules⟩
    exact ⟨(key, g), hg, Option.map_eq_some_iff.mpr ⟨modules, hmodules, rfl⟩⟩

theorem keys_declaredGroups (raw : Raw.Schema) :
    raw.declaredGroups.map Prod.fst =
      (raw.groups.entries.filter fun e => e.2.nativeModules.isSome).map
        Prod.fst := by
  unfold Raw.Schema.declaredGroups
  induction raw.groups.entries with
  | nil => rfl
  | cons e entries ih =>
      cases hmodules : e.2.nativeModules with
      | none => simp [hmodules, ih]
      | some modules => simp [hmodules, ih]

theorem names_of_modulesOfRaw
    {raw : Table Raw.NativeModule} {ms : List NativeModule}
    (h : modulesOfRaw raw = .ok ms) :
    raw.keys = ms.map (·.name) := by
  unfold Table.keys
  rw [← List.forall₂_eq_eq_eq, List.forall₂_map_left_iff,
    List.forall₂_map_right_iff]
  exact (mapM_eq_ok_iff.mp h).imp fun e m hm =>
    (NativeModule.ofRaw_eq_ok_iff.mp hm).1.symm

/-- Tables have distinct keys, the modules of a group have distinct names, and
the methods that give constants are those with the name for it. -/
structure Schema.WellFormed (s : Schema) : Prop where
  groups : s.groups.KeysDistinct
  modules : ∀ g ∈ s.groups.entries, (g.2.map (·.name)).Nodup
  aliases : ∀ m ∈ s.modules, m.aliases.KeysDistinct
  accessors : ∀ m ∈ s.modules, ∀ method ∈ m.methods, method.AccessorByName

section Converted

variable {raw : Raw.Schema} {s : Schema} (h : Schema.ofRaw raw = .ok s)

include h

theorem keys_of_ofRaw :
    s.groups.keys =
      (raw.groups.entries.filter fun e => e.2.nativeModules.isSome).map
        Prod.fst := by
  rw [← keys_declaredGroups]
  exact (Schema.ofRaw_eq_ok_iff.mp h).keys_eq.symm

/-- A group comes from a raw group that declares modules. -/
theorem exists_rawGroup
    {g : String × List NativeModule} (hg : g ∈ s.groups.entries) :
    ∃ rawGroup modules, (g.1, rawGroup) ∈ raw.groups.entries ∧
      rawGroup.nativeModules = some modules ∧
      modulesOfRaw modules = .ok g.2 := by
  obtain ⟨e, he, hkey, hmodules⟩ :=
    exists_mem_of_forall₂ (Schema.ofRaw_eq_ok_iff.mp h) hg
  obtain ⟨rawGroup, hrawGroup, hsome⟩ := mem_declaredGroups_iff.mp he
  exact ⟨rawGroup, e.2, hkey ▸ hrawGroup, hsome, hmodules⟩

theorem Schema.wellFormed_of_ofRaw (hraw : raw.KeysDistinct) :
    s.WellFormed := by
  -- A module of the schema comes from one of a raw group, under its own name.
  have hmodule : ∀ m ∈ s.modules, ∃ rawModule : Raw.NativeModule,
      rawModule.KeysDistinct ∧
      NativeModule.ofRaw m.name rawModule = .ok m := by
    intro m hm
    obtain ⟨ms, hms, hmem⟩ := List.mem_flatten.mp hm
    obtain ⟨g, hg, rfl⟩ := List.mem_map.mp hms
    obtain ⟨rawGroup, modules, hrawGroup, hsome, hmodules⟩ :=
      exists_rawGroup h hg
    obtain ⟨e, he, hofRaw⟩ :=
      exists_mem_of_forall₂ (mapM_eq_ok_iff.mp hmodules) hmem
    have hname := (NativeModule.ofRaw_eq_ok_iff.mp hofRaw).1
    exact ⟨e.2, (hraw.2 _ hrawGroup modules hsome).2 e he, hname ▸ hofRaw⟩
  constructor
  case groups =>
    unfold Table.KeysDistinct
    rw [keys_of_ofRaw h]
    exact hraw.1.sublist (List.filter_sublist.map Prod.fst)
  case modules =>
    intro g hg
    obtain ⟨rawGroup, modules, hrawGroup, hsome, hmodules⟩ :=
      exists_rawGroup h hg
    rw [← names_of_modulesOfRaw hmodules]
    exact (hraw.2 _ hrawGroup modules hsome).1
  case aliases =>
    intro m hm
    obtain ⟨rawModule, hkeys, hofRaw⟩ := hmodule m hm
    unfold Table.KeysDistinct
    rw [← (NativeModule.ofRaw_eq_ok_iff.mp hofRaw).2.1.keys_eq]
    exact hkeys
  case accessors =>
    intro m hm method hmethod
    obtain ⟨rawModule, -, hofRaw⟩ := hmodule m hm
    obtain ⟨r, -, hr⟩ :=
      exists_mem_of_forall₂ (NativeModule.ofRaw_eq_ok_iff.mp hofRaw).2.2 hmethod
    exact Method.accessorByName_of_ofRaw hr

end Converted

/-! ## Groups in the order of the text -/

theorem rel_lookup_of_forall₂
    {α β : Type} {R : α → β → Prop} {es : List (String × α)}
    {es' : List (String × β)}
    (h : List.Forall₂ (fun e e' => e.1 = e'.1 ∧ R e.2 e'.2) es es')
    (key : String) :
    Option.Rel R (es.lookup key) (es'.lookup key) := by
  induction h with
  | nil => exact .none
  | @cons e e' es es' he _ ih =>
      rw [List.lookup_cons, List.lookup_cons, ← he.1]
      cases key == e.1 with
      | true => exact .some he.2
      | false => exact ih

/-- The keys of a schema are those of the groups of a text whose last value has
a table of native modules, in the order in which they first occur. -/
structure Schema.KeysFollow (s : Schema) (written : List (String × Tree)) :
    Prop where
  mem_iff : ∀ key, key ∈ s.groups.keys ↔
    ∃ t, written.reverse.lookup key = some t ∧ Raw.HasModuleTable t
  ordered : s.groups.keys.Pairwise fun a b =>
    (written.map Prod.fst).idxOf a < (written.map Prod.fst).idxOf b

theorem Schema.keysFollow_of_ofRaw
    {raw : Raw.Schema} {s : Schema} (h : Schema.ofRaw raw = .ok s)
    {levels : Nat} {t : Tree}
    (hraw : Raw.Shape.decode (levels + 3) (.record .schema) t = some raw) :
    s.KeysFollow (Raw.writtenGroups t) := by
  obtain ⟨entries, hentries, hgroups⟩ := Raw.exists_groups_of_decode hraw
  have hnames : (Raw.writtenGroups t).map Prod.fst = entries.map Prod.fst := by
    rw [← List.forall₂_eq_eq_eq, List.forall₂_map_left_iff,
      List.forall₂_map_right_iff]
    exact hentries.imp fun _ _ he => he.1
  have hkeys := keys_of_ofRaw h
  rw [hgroups] at hkeys
  constructor
  case mem_iff =>
    intro key
    have hlookup :
        Option.Rel
          (fun (t : Tree) (g : Raw.Group) =>
            Raw.Shape.decode (levels + 1) (.record .group) t = some g)
          ((Raw.writtenGroups t).reverse.lookup key)
          (entries.reverse.lookup key) :=
      rel_lookup_of_forall₂ (List.forall₂_reverse_iff.mpr hentries) key
    have hmem : key ∈ s.groups.keys ↔ ∃ g,
        entries.reverse.lookup key = some g ∧
        g.nativeModules.isSome = true := by
      rw [hkeys, List.mem_map, ← Table.get?_ofList]
      constructor
      · rintro ⟨⟨_, g⟩, hg, rfl⟩
        obtain ⟨hg, hsome⟩ := List.mem_filter.mp hg
        exact ⟨g, (Table.keysDistinct_ofList entries).mem_entries_iff.mp hg,
          hsome⟩
      · rintro ⟨g, hg, hsome⟩
        have hentry :=
          (Table.keysDistinct_ofList entries).mem_entries_iff.mpr hg
        exact ⟨(key, g), List.mem_filter.mpr ⟨hentry, hsome⟩, rfl⟩
    rw [hmem]
    generalize (Raw.writtenGroups t).reverse.lookup key = x at hlookup
    generalize entries.reverse.lookup key = y at hlookup
    cases hlookup with
    | none => simp
    | some hdecode => simp [Raw.hasModuleTable_iff hdecode]
  case ordered =>
    rw [hkeys, hnames]
    exact (listsFirstOccurrences_ofList entries).ordered.sublist
      (List.filter_sublist.map Prod.fst)

/-! ## Names that two groups declare -/

/-- The declared modules in order: the key of the group and the name of the
module. -/
def Schema.declarations (s : Schema) : List (String × String) :=
  s.groups.entries.flatMap fun g => g.2.map fun m => (g.1, m.name)

/-- At a position a name is declared that another group has declared before. -/
def ClashesAt
    (declarations : List (String × String)) (i : Nat) (name : String) :
    Prop :=
  ∃ key, declarations[i]? = some (key, name) ∧
    ∃ other, other ≠ key ∧ (other, name) ∈ declarations.take i

/-- The first position where a name is declared that another group has declared
before. -/
structure FirstClashAt
    (declarations : List (String × String)) (i : Nat) (name : String) :
    Prop where
  clashes : ClashesAt declarations i name
  earliest : ∀ j < i, ∀ other, ¬ClashesAt declarations j other

/-- Two different groups declare modules of one name. -/
def Schema.SharesName (s : Schema) : Prop :=
  ∃ g ∈ s.groups.entries, ∃ g' ∈ s.groups.entries, g.1 ≠ g'.1 ∧
    ∃ m ∈ g.2, ∃ m' ∈ g'.2, m.name = m'.name

theorem declaredNames_eq (s : Schema) :
    Bridge.declaredNames s = s.declarations.map Prod.snd := by
  simp [Bridge.declaredNames, Schema.declarations, Schema.modules, Table.values,
    List.map_flatten, List.flatMap_def, Function.comp_def]

theorem Schema.WellFormed.nodup_declarations {s : Schema} (hs : s.WellFormed) :
    s.declarations.Nodup := by
  refine List.nodup_flatMap.mpr ⟨fun g hg => ?_,
    (List.pairwise_map.mp hs.groups).imp ?_⟩
  · have hpairs := (hs.modules g hg).map (Prod.mk_right_injective g.1)
    rwa [List.map_map] at hpairs
  · intro g g' hne p hp hp'
    obtain ⟨m, -, rfl⟩ := List.mem_map.mp hp
    obtain ⟨m', -, heq⟩ := List.mem_map.mp hp'
    exact hne (Prod.mk.inj heq).1.symm

theorem Schema.mem_declarations_iff {s : Schema} {d : String × String} :
    d ∈ s.declarations ↔
      ∃ g ∈ s.groups.entries, d.1 = g.1 ∧ ∃ m ∈ g.2, m.name = d.2 := by
  obtain ⟨key, name⟩ := d
  unfold Schema.declarations
  simp only [List.mem_flatMap, List.mem_map, Prod.mk.injEq]
  constructor
  · rintro ⟨g, hg, m, hm, rfl, rfl⟩
    exact ⟨g, hg, rfl, m, hm, rfl⟩
  · rintro ⟨g, hg, rfl, m, hm, rfl⟩
    exact ⟨g, hg, m, hm, rfl, rfl⟩

/-- Where no group declares a name twice, a name is repeated by another
group. -/
theorem clashesAt_iff
    {declarations : List (String × String)} (h : declarations.Nodup) {i : Nat}
    {name : String} :
    ClashesAt declarations i name ↔
      RepeatedAt (declarations.map Prod.snd) i name := by
  unfold ClashesAt RepeatedAt
  rw [List.getElem?_map, Option.map_eq_some_iff, ← List.map_take, List.mem_map]
  constructor
  · rintro ⟨key, hi, other, -, hother⟩
    exact ⟨⟨(key, name), hi, rfl⟩, (other, name), hother, rfl⟩
  · rintro ⟨⟨⟨key, _⟩, hi, rfl⟩, ⟨other, _⟩, hother, rfl⟩
    refine ⟨key, hi, other, fun heq => ?_, hother⟩
    subst heq
    -- The same group would declare the name at an earlier position too.
    obtain ⟨hlt, hget⟩ := List.getElem?_eq_some_iff.mp hi
    obtain ⟨j, hj, hsame⟩ := List.mem_take_iff_getElem.mp hother
    have hij := (h.getElem_inj_iff).mp (hsame.trans hget.symm)
    omega

theorem firstClashAt_iff
    {declarations : List (String × String)} (h : declarations.Nodup) {i : Nat}
    {name : String} :
    FirstClashAt declarations i name ↔
      FirstRepeatedAt (declarations.map Prod.snd) i name := by
  constructor
  · rintro ⟨hclashes, hearliest⟩
    exact ⟨(clashesAt_iff h).mp hclashes, fun j hj other hother =>
      hearliest j hj other ((clashesAt_iff h).mpr hother)⟩
  · rintro ⟨hrepeated, hearliest⟩
    exact ⟨(clashesAt_iff h).mpr hrepeated, fun j hj other hother =>
      hearliest j hj other ((clashesAt_iff h).mp hother)⟩

theorem Schema.WellFormed.nodup_declaredNames_iff
    {s : Schema} (hs : s.WellFormed) :
    ¬(Bridge.declaredNames s).Nodup ↔ s.SharesName := by
  rw [declaredNames_eq, List.nodup_map_iff_inj_on hs.nodup_declarations]
  unfold Schema.SharesName
  push Not
  constructor
  · rintro ⟨d, hd, d', hd', hname, hne⟩
    obtain ⟨g, hg, hkey, m, hm, hmname⟩ := Schema.mem_declarations_iff.mp hd
    obtain ⟨g', hg', hkey', m', hm', hmname'⟩ :=
      Schema.mem_declarations_iff.mp hd'
    refine ⟨g, hg, g', hg', fun heq => hne ?_, m, hm, m', hm', ?_⟩
    · exact Prod.ext (hkey.trans (heq.trans hkey'.symm)) hname
    · rw [hmname, hmname', hname]
  · rintro ⟨g, hg, g', hg', hne, m, hm, m', hm', hname⟩
    have hd : (g.1, m.name) ∈ s.declarations :=
      Schema.mem_declarations_iff.mpr ⟨g, hg, rfl, m, hm, rfl⟩
    have hd' : (g'.1, m'.name) ∈ s.declarations :=
      Schema.mem_declarations_iff.mpr ⟨g', hg', rfl, m', hm', rfl⟩
    exact ⟨_, hd, _, hd', hname, fun heq => hne (Prod.mk.inj heq).1⟩

namespace Bridge

theorem generate_eq_duplicateModule_iff
    {library spec : String} {config : Config} {s : Schema} {name : String} :
    generate library spec config s = .error (.duplicateModule name) ↔
      flatten config.duplicates s = .error (.duplicateModule name) := by
  rw [generate_eq_error_iff]
  constructor
  · rintro (hflat | ⟨flat, -, hassemble⟩)
    · exact hflat
    · obtain ⟨m, method, source, -, heq⟩ :=
        (assemble_eq_error_iff library spec config).mp hassemble
      cases heq
  · exact Or.inl

end Bridge

/-- Every schema that a text gives is well formed, and its groups are those of
the text that have a table of native modules.  With the policy that rejects,
generation finds a duplicate exactly if two groups declare a module of one name,
and reports the name that is the first to be declared again by another group. -/
theorem Schema.parse_wellFormed
    {text : String} {s : Schema} (h : Schema.parse text = .ok s) :
    s.WellFormed ∧
      (∃ t, SpellsText text.toList t ∧ s.KeysFollow (Raw.writtenGroups t)) ∧
      ∀ library spec config, config.duplicates = .reject →
        ((∃ name, Bridge.generate library spec config s =
            .error (.duplicateModule name)) ↔
          s.SharesName) ∧
        ∀ name,
          Bridge.generate library spec config s =
            .error (.duplicateModule name) ↔
          ∃ i, FirstClashAt s.declarations i name := by
  obtain ⟨raw, hraw, hofRaw⟩ := bind_eq_ok_iff.mp h
  obtain ⟨t, ht, hdecode⟩ :=
    Raw.Shape.parse_eq_ok_iff.mp (mapError_eq_ok_iff.mp hraw)
  have hwellFormed :=
    Schema.wellFormed_of_ofRaw hofRaw (Raw.Shape.keysDistinct_of_decode hdecode)
  refine ⟨hwellFormed, ⟨t, ht, Schema.keysFollow_of_ofRaw hofRaw hdecode⟩, ?_⟩
  intro library spec config hpolicy
  have hgenerate (name : String) :
      Bridge.generate library spec config s = .error (.duplicateModule name) ↔
        Bridge.flatten .reject s = .error (.duplicateModule name) := by
    rw [Bridge.generate_eq_duplicateModule_iff, hpolicy]
  constructor
  · rw [← hwellFormed.nodup_declaredNames_iff,
      ← Bridge.exists_flatten_reject_eq_error_iff]
    constructor
    · rintro ⟨name, hname⟩
      exact ⟨_, (hgenerate name).mp hname⟩
    · rintro ⟨e, he⟩
      obtain ⟨name, rfl⟩ := Bridge.exists_duplicateModule_of_flatten he
      exact ⟨name, (hgenerate name).mpr he⟩
  · intro name
    rw [hgenerate, Bridge.flatten_reject_eq_error_iff, declaredNames_eq]
    simp only [firstClashAt_iff hwellFormed.nodup_declarations]
    constructor
    · rintro ⟨i, name', hfirst, heq⟩
      obtain rfl := Bridge.Error.duplicateModule.inj heq
      exact ⟨i, hfirst⟩
    · rintro ⟨i, hfirst⟩
      exact ⟨i, name, hfirst, rfl⟩

def Raw.clockGroup : Raw.Group := ⟨some ⟨[("Clock", ⟨⟨[]⟩, []⟩)]⟩⟩

/-- Two keys are written twice, the one first without modules and the other at
last. -/
def Raw.clockGroups : List (String × Raw.Group) :=
  [("a", ⟨none⟩), ("c", clockGroup), ("b", clockGroup), ("a", clockGroup),
    ("c", ⟨none⟩)]

theorem Raw.parse_clockGroups :
    Raw.Schema.parse (groupsText (clockGroups.map fun g => (g.1, g.2.tree))) =
      .ok ⟨Table.ofList clockGroups⟩ := by
  have hclock : Shape.decode 125 (.record .group) clockGroup.tree =
      some clockGroup := by
    have hkeys : clockGroup.KeysDistinct := by
      simp [clockGroup, Group.KeysDistinct, NativeModule.KeysDistinct,
        Table.KeysDistinct, Table.keys]
    have hdepth : clockGroup.tree.depth ≤ 125 := by
      change 4 ≤ 125
      decide
    exact Shape.decode_tree (.record .group) clockGroup hkeys 125 hdepth
  refine parse_groupsText ?_ ?_
  · intro g hg
    obtain ⟨g, -, rfl⟩ := List.mem_map.mp hg
    exact spells_print_group g.2
  · refine List.forall₂_map_left_iff.mpr
      (List.forall₂_same.mpr fun g hg => ⟨rfl, ?_⟩)
    simp only [clockGroups, List.mem_cons, List.not_mem_nil, or_false] at hg
    obtain rfl | rfl | rfl | rfl | rfl := hg
    · rfl
    · exact hclock
    · exact hclock
    · exact hclock
    · rfl

/-- Two groups that both declare a clock. -/
def twoClocks : Schema :=
  ⟨⟨[("a", [⟨"Clock", [], ⟨[]⟩⟩]), ("b", [⟨"Clock", [], ⟨[]⟩⟩])]⟩⟩

/-- The group that is written first without modules gets them from its last
value, and keeps its place; the group whose last value has none is left out. -/
theorem Schema.parse_wellFormed_twoClocks :
    Schema.parse
        (Raw.groupsText (Raw.clockGroups.map fun g => (g.1, g.2.tree))) =
      .ok twoClocks ∧
    twoClocks.WellFormed ∧
    twoClocks.SharesName ∧
    ∀ library spec config, config.duplicates = .reject →
      Bridge.generate library spec config twoClocks =
        .error (.duplicateModule "Clock") := by
  have hparse :
      Schema.parse
          (Raw.groupsText (Raw.clockGroups.map fun g => (g.1, g.2.tree))) =
        .ok twoClocks := by
    rw [Schema.parse, Raw.parse_clockGroups]
    rfl
  obtain ⟨hwellFormed, -, hreject⟩ := Schema.parse_wellFormed hparse
  have hfirst : FirstClashAt twoClocks.declarations 1 "Clock" := by
    refine ⟨⟨"b", rfl, "a", by decide, List.mem_cons_self⟩, ?_⟩
    rintro j hj other ⟨key, -, earlier, -, hmem⟩
    rw [Nat.lt_one_iff.mp hj] at hmem
    cases hmem
  have hgenerate (library spec : String) (config : Bridge.Config)
      (hpolicy : config.duplicates = .reject) :
      Bridge.generate library spec config twoClocks =
        .error (.duplicateModule "Clock") :=
    ((hreject library spec config hpolicy).2 "Clock").mpr ⟨1, hfirst⟩
  have hshares := ((hreject "" "" { duplicates := .reject } rfl).1).mp
    ⟨"Clock", hgenerate "" "" { duplicates := .reject } rfl⟩
  exact ⟨hparse, hwellFormed, hshares, hgenerate⟩

end NativeGlue
