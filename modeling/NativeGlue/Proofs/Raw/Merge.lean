import NativeGlue.Proofs.Raw.Edits
import NativeGlue.Proofs.Table

/-!
# Merging the keys of tables

A table may repeat a key, and then what counts is the place of the first member
and the value of the last one.  Merging writes that out: in every table of a
tree the first member of a key gets its last value, and the later ones are left
out.  A merged tree decodes to what the tree itself decodes to, and some text
spells it.
-/

namespace NativeGlue.Raw

open Json

/-! ## Merging what has one name -/

section Merging

variable {α β ν : Type} [DecidableEq ν]

/-- An element after all later elements of its name have been written over
it. -/
def overwritten (name : α → ν) (write : α → α → α) : α → List α → α
  | a, [] => a
  | a, b :: bs =>
      overwritten name write (if name b = name a then write a b else a) bs

/-- The first element of every name with the later ones written over it, and
without these.  Names that have been seen before are passed over. -/
def mergeNames (name : α → ν) (write : α → α → α) (seen : List ν) :
    List α → List α
  | [] => []
  | a :: as =>
    if name a ∈ seen then mergeNames name write seen as
    else
      overwritten name write a as :: mergeNames name write (name a :: seen) as

variable {name : α → ν} {write : α → α → α} {name' : β → ν} {write' : β → β → β}
  {R : α → β → Prop}

theorem overwritten_rel
    (hname : ∀ a b, R a b → name a = name' b)
    (hwrite : ∀ a a' b b', R a b → R a' b' → R (write a a') (write' b b'))
    {as : List α} {bs : List β} (h : List.Forall₂ R as bs) {a : α} {b : β}
    (hab : R a b) :
    R (overwritten name write a as) (overwritten name' write' b bs) := by
  induction h generalizing a b with
  | nil => exact hab
  | @cons a' b' as bs hab' _ ih =>
      rw [overwritten, overwritten, ← hname a b hab, ← hname a' b' hab']
      apply ih
      split
      · exact hwrite a a' b b' hab hab'
      · exact hab

/-- Lists that agree element by element are merged alike. -/
theorem forall₂_mergeNames
    (hname : ∀ a b, R a b → name a = name' b)
    (hwrite : ∀ a a' b b', R a b → R a' b' → R (write a a') (write' b b'))
    {as : List α} {bs : List β} (h : List.Forall₂ R as bs) (seen : List ν) :
    List.Forall₂ R (mergeNames name write seen as)
      (mergeNames name' write' seen bs) := by
  induction h generalizing seen with
  | nil => exact .nil
  | @cons a b as bs hab hmore ih =>
      rw [mergeNames, mergeNames, ← hname a b hab]
      split
      · exact ih seen
      · exact .cons (overwritten_rel hname hwrite hmore hab) (ih _)

theorem overwritten_of_write
    {P : α → Prop} (hwrite : ∀ a b, P a → P b → P (write a b)) {a : α}
    {as : List α} (ha : P a) (has : ∀ b ∈ as, P b) :
    P (overwritten name write a as) := by
  induction as generalizing a with
  | nil => exact ha
  | cons b bs ih =>
      rw [List.forall_mem_cons] at has
      rw [overwritten]
      apply ih _ has.2
      split
      · exact hwrite a b ha has.1
      · exact ha

/-- What holds of all elements, and is kept by writing one over another, holds
of the merged elements. -/
theorem forall_mem_mergeNames
    {P : α → Prop} (hwrite : ∀ a b, P a → P b → P (write a b)) {as : List α}
    (has : ∀ a ∈ as, P a) (seen : List ν) :
    ∀ a ∈ mergeNames name write seen as, P a := by
  induction as generalizing seen with
  | nil => exact fun a ha => absurd ha List.not_mem_nil
  | cons a as ih =>
      rw [List.forall_mem_cons] at has
      rw [mergeNames]
      split
      · exact ih has.2 seen
      · rw [List.forall_mem_cons]
        exact ⟨overwritten_of_write hwrite has.1 has.2, ih has.2 _⟩

end Merging

section Entries

variable {α : Type}

/-- The name of an entry. -/
def entryName (e : String × α) : Option String := some e.1

/-- An entry with the value of another one. -/
def overEntry (e e' : String × α) : String × α := (e.1, e'.2)

theorem overwritten_entry_of_ne
    {e : String × α} {key : String} (hkey : key ≠ e.1) (value : α)
    (es : List (String × α)) :
    overwritten entryName overEntry e ((key, value) :: es) =
      overwritten entryName overEntry e es := by
  have hname : entryName (key, value) ≠ entryName e :=
    fun h => hkey (Option.some.inj h)
  rw [overwritten, if_neg hname]

theorem overwritten_entry_of_eq
    (key : String) (old value : α) (es : List (String × α)) :
    overwritten entryName overEntry (key, old) ((key, value) :: es) =
      overwritten entryName overEntry (key, value) es := by
  have hname : entryName (key, value) = entryName (key, old) := rfl
  rw [overwritten, if_pos hname]
  rfl

theorem overwritten_insert
    {t : Table α} (ht : t.KeysDistinct) {key : String} (hkey : key ∈ t.keys)
    (value : α) (es : List (String × α)) :
    (t.insert key value).entries.map (overwritten entryName overEntry · es) =
      t.entries.map
        (overwritten entryName overEntry · ((key, value) :: es)) := by
  obtain ⟨before, old, after, hsplit, hinsert⟩ :=
    Table.entries_insert_of_mem hkey
  unfold Table.KeysDistinct Table.keys at ht
  rw [hsplit, List.map_append, List.map_cons,
    List.nodup_append, List.nodup_cons] at ht
  obtain ⟨-, ⟨hafter, -⟩, hbefore⟩ := ht
  have hbefore' : ∀ e ∈ before,
      overwritten entryName overEntry e ((key, value) :: es) =
        overwritten entryName overEntry e es := by
    intro e he
    have hne := hbefore e.1 (List.mem_map_of_mem he) key List.mem_cons_self
    exact overwritten_entry_of_ne hne.symm value es
  have hafter' : ∀ e ∈ after,
      overwritten entryName overEntry e ((key, value) :: es) =
        overwritten entryName overEntry e es := by
    intro e he
    have hne : key ≠ e.1 :=
      fun heq => hafter (List.mem_map.mpr ⟨e, he, heq.symm⟩)
    exact overwritten_entry_of_ne hne value es
  rw [hinsert, hsplit, List.map_append, List.map_append, List.map_cons,
    List.map_cons, List.map_congr_left hbefore', List.map_congr_left hafter',
    overwritten_entry_of_eq]

/-- Writing entries into a table overwrites those that are there and adds the
merged others. -/
theorem entries_foldl_insert
    {t : Table α} (ht : t.KeysDistinct) {seen : List (Option String)}
    (hseen : ∀ key, some key ∈ seen ↔ key ∈ t.keys) (es : List (String × α)) :
    (es.foldl (fun t e => t.insert e.1 e.2) t).entries =
      t.entries.map (overwritten entryName overEntry · es) ++
        mergeNames entryName overEntry seen es := by
  induction es generalizing t seen with
  | nil => simp [overwritten, mergeNames]
  | cons e es ih =>
      obtain ⟨key, value⟩ := e
      have hkeys := Table.keys_insert t key value
      rw [List.foldl_cons, mergeNames]
      by_cases hkey : key ∈ t.keys
      · have hmet : entryName (key, value) ∈ seen := (hseen key).mpr hkey
        rw [if_pos hkey] at hkeys
        rw [if_pos hmet, ih (ht.insert key value) (hkeys ▸ hseen),
          overwritten_insert ht hkey]
      · have hnew : entryName (key, value) ∉ seen :=
          fun h => hkey ((hseen key).mp h)
        have hnext : ∀ k, some k ∈ entryName (key, value) :: seen ↔
            k ∈ (t.insert key value).keys := by
          intro k
          rw [hkeys, if_neg hkey, List.mem_cons, hseen, List.mem_append,
            List.mem_singleton, entryName, Option.some.injEq, or_comm]
        have hother : ∀ e ∈ t.entries,
            overwritten entryName overEntry e ((key, value) :: es) =
              overwritten entryName overEntry e es := by
          intro e he
          have hne : key ≠ e.1 :=
            fun heq => hkey (List.mem_map.mpr ⟨e, he, heq.symm⟩)
          exact overwritten_entry_of_ne hne value es
        rw [if_neg hnew, ih (ht.insert key value) hnext,
          Table.entries_insert_of_notMem hkey, List.map_append,
          List.map_congr_left hother, List.append_assoc]
        rfl

/-- Merging entries does not change the table that they make. -/
@[simp] theorem ofList_mergeNames (entries : List (String × α)) :
    Table.ofList (mergeNames entryName overEntry [] entries) =
      Table.ofList entries := by
  have hempty : (Table.empty : Table α).KeysDistinct := List.nodup_nil
  have hentries : (Table.ofList entries).entries =
      mergeNames entryName overEntry [] entries :=
    entries_foldl_insert hempty (fun _ => by simp [Table.keys, Table.empty])
      entries
  rw [← hentries, (Table.keysDistinct_ofList entries).ofList_entries]

end Entries

/-! ## Merging trees -/

/-- A member with the value of another one. -/
def overMember (m m' : Member) : Member := ⟨m.key, m'.value⟩

/-- As what shape an object of some shape reads the members of a name, if it
does. -/
def Shape.member? : Shape → Option String → Option Shape
  | .record r, name =>
      (r.fields.find? fun f => some f.key = name).map Field.shape
  | .table r, _ => some (.record r)
  | _, _ => none

/-- As what shape a list of some shape reads the item at an index, if it
does. -/
def Shape.item? : Shape → Nat → Option Shape
  | .record r, i => r.fields[i]?.map Field.shape
  | .list r, _ => some (.record r)
  | _, _ => none

/-- The members of an object of some shape, merged by name if it is a table. -/
def Shape.mergeKeys : Shape → List Member → List Member
  | .table _, ms => mergeNames nameOf overMember [] ms
  | _, ms => ms

mutual

/-- A tree that is read as a shape, if at all, with the keys of its tables
merged. -/
def mergeAs : Option Shape → Tree → Tree
  | some s, .list items => .list (mergeItems s 0 items)
  | some s, .object ms => .object (s.mergeKeys (mergeMembers s ms))
  | _, t => t
termination_by structural _ t => t

/-- The items from an index on of a list that is read as a shape. -/
def mergeItems (s : Shape) (i : Nat) : List Tree → List Tree
  | [] => []
  | t :: ts => mergeAs (s.item? i) t :: mergeItems s (i + 1) ts
termination_by structural ts => ts

/-- The members of an object that is read as a shape. -/
def mergeMembers (s : Shape) : List Member → List Member
  | [] => []
  | m :: ms => mergeMember s m :: mergeMembers s ms
termination_by structural ms => ms

/-- A member of an object that is read as a shape. -/
def mergeMember (s : Shape) : Member → Member
  | ⟨key, t⟩ => ⟨key, mergeAs (s.member? ((spelled? key).map String.ofList)) t⟩
termination_by structural m => m

end

/-- A tree of some shape in which the keys of all tables are merged: the first
member of a key has its last value, and the later ones are left out. -/
def Shape.merge (s : Shape) (t : Tree) : Tree := mergeAs (some s) t

@[simp] theorem mergeMembers_eq_map (s : Shape) (ms : List Member) :
    mergeMembers s ms = ms.map (mergeMember s) := by
  induction ms with
  | nil => rfl
  | cons m ms ih => rw [mergeMembers, ih, List.map_cons]

@[simp] theorem nameOf_mergeMember (s : Shape) (m : Member) :
    nameOf (mergeMember s m) = nameOf m := by
  obtain ⟨key, t⟩ := m
  rfl

@[simp] theorem value_mergeMember (s : Shape) (m : Member) :
    (mergeMember s m).value = mergeAs (s.member? (nameOf m)) m.value := by
  obtain ⟨key, t⟩ := m
  rfl

theorem Shape.merge_ne_null {s : Shape} {t : Tree} (ht : t ≠ .null) :
    s.merge t ≠ .null := by
  cases t with
  | null => exact absurd rfl ht
  | _ => exact nofun

/-! ## Decoded members -/

theorem mapM_eq_some_iff_forall₂
    {α β : Type} {f : α → Option β} {xs : List α} {ys : List β} :
    xs.mapM f = some ys ↔ List.Forall₂ (fun x y => f x = some y) xs ys := by
  induction xs generalizing ys with
  | nil =>
      rw [List.mapM_nil, List.forall₂_nil_left_iff]
      exact ⟨fun h => (Option.some.inj h).symm, fun h => h ▸ rfl⟩
  | cons x xs ih =>
      rw [mapM_cons_eq_some_iff, List.forall₂_cons_left_iff]
      constructor
      · rintro ⟨y, ys, hy, hys, rfl⟩
        exact ⟨y, ys, hy, ih.mp hys, rfl⟩
      · rintro ⟨y, ys, hy, hys, rfl⟩
        exact ⟨y, ys, hy, ih.mpr hys, rfl⟩

/-- A member has a name and a value. -/
def Names (m : Member) (e : String × Tree) : Prop :=
  nameOf m = some e.1 ∧ m.value = e.2

theorem namedMembers_eq_some_iff
    {ms : List Member} {named : List (String × Tree)} :
    namedMembers ms = some named ↔ List.Forall₂ Names ms named := by
  rw [namedMembers, mapM_eq_some_iff_forall₂]
  have hmember : ∀ (m : Member) (e : String × Tree),
      (spelled? m.key).map (fun key => (String.ofList key, m.value)) = some e ↔
        Names m e := by
    intro m e
    unfold Names nameOf
    cases spelled? m.key with
    | none => simp
    | some key => simp [Prod.ext_iff]
  exact ⟨fun h => h.imp fun m e => (hmember m e).mp,
    fun h => h.imp fun m e => (hmember m e).mpr⟩

section Decoded

variable {levels : Nat} {r : Record}

/-- A member of a table decodes to an entry. -/
def DecodesEntry (levels : Nat) (r : Record) (m : Member) (e : String × r.Val) :
    Prop :=
  nameOf m = some e.1 ∧ Shape.decode levels (.record r) m.value = some e.2

theorem exists_decodeEntries_iff
    {ms : List Member} {entries : List (String × r.Val)} :
    (∃ named, namedMembers ms = some named ∧
        decodeEntries (Shape.decode levels) r named = some entries) ↔
      List.Forall₂ (DecodesEntry levels r) ms entries := by
  induction ms generalizing entries with
  | nil =>
      rw [List.forall₂_nil_left_iff]
      constructor
      · rintro ⟨named, hnamed, hentries⟩
        obtain rfl := Option.some.inj hnamed
        exact (Option.some.inj hentries).symm
      · rintro rfl
        exact ⟨[], rfl, rfl⟩
  | cons m ms ih =>
      rw [List.forall₂_cons_left_iff]
      constructor
      · rintro ⟨named, hnamed, hentries⟩
        obtain ⟨name, more, hname, hmore, rfl⟩ :=
          namedMembers_cons_eq_some_iff.mp hnamed
        obtain ⟨e, es, he, hes, rfl⟩ := mapM_cons_eq_some_iff.mp hentries
        obtain ⟨v, hv, rfl⟩ := Option.map_eq_some_iff.mp he
        exact ⟨(name, v), es, ⟨hname, hv⟩, ih.mp ⟨more, hmore, hes⟩, rfl⟩
      · rintro ⟨⟨name, v⟩, es, ⟨hname, hv⟩, hes, rfl⟩
        obtain ⟨more, hmore, hentries⟩ := ih.mpr hes
        refine ⟨(name, m.value) :: more,
          namedMembers_cons_eq_some_iff.mpr ⟨name, more, hname, hmore, rfl⟩,
          mapM_cons_eq_some_iff.mpr ⟨(name, v), es, ?_, hentries, rfl⟩⟩
        exact Option.map_eq_some_iff.mpr ⟨v, hv, rfl⟩

theorem decode_table_eq_some_iff {ms : List Member} {v : Table r.Val} :
    Shape.decode (levels + 1) (.table r) (.object ms) = some v ↔
      ∃ entries, List.Forall₂ (DecodesEntry levels r) ms entries ∧
        Table.ofList entries = v := by
  constructor
  · intro h
    obtain ⟨named, hnamed, hrest⟩ := Option.bind_eq_some_iff.mp h
    obtain ⟨entries, hentries, hv⟩ := Option.bind_eq_some_iff.mp hrest
    exact ⟨entries, exists_decodeEntries_iff.mp ⟨named, hnamed, hentries⟩,
      Option.some.inj hv⟩
  · rintro ⟨entries, hentries, rfl⟩
    obtain ⟨named, hnamed, hdecode⟩ := exists_decodeEntries_iff.mpr hentries
    exact Option.bind_eq_some_iff.mpr ⟨named, hnamed,
      Option.bind_eq_some_iff.mpr ⟨entries, hdecode, rfl⟩⟩

theorem decode_object_eq_some_iff {ms : List Member} {v : r.Val} :
    Shape.decode (levels + 1) (.record r) (.object ms) = some v ↔
      ∃ named row, List.Forall₂ Names ms named ∧
        rowOfMembers (Shape.decode levels) named r.fields = some row ∧
          r.ofRow row = v := by
  constructor
  · intro h
    obtain ⟨named, hnamed, hrest⟩ := Option.bind_eq_some_iff.mp h
    obtain ⟨row, hrow, hv⟩ := Option.bind_eq_some_iff.mp hrest
    exact ⟨named, row, namedMembers_eq_some_iff.mp hnamed, hrow,
      Option.some.inj hv⟩
  · rintro ⟨named, row, hnamed, hrow, rfl⟩
    exact Option.bind_eq_some_iff.mpr
      ⟨named, namedMembers_eq_some_iff.mpr hnamed,
        Option.bind_eq_some_iff.mpr ⟨row, hrow, rfl⟩⟩

theorem decode_list_eq_some_iff {items : List Tree} {v : r.Val} :
    Shape.decode (levels + 1) (.record r) (.list items) = some v ↔
      ∃ row, rowOfItems (Shape.decode levels) r.fields items = some row ∧
        r.ofRow row = v := by
  constructor
  · intro h
    obtain ⟨row, hrow, hv⟩ := Option.bind_eq_some_iff.mp h
    exact ⟨row, hrow, Option.some.inj hv⟩
  · rintro ⟨row, hrow, rfl⟩
    exact Option.bind_eq_some_iff.mpr ⟨row, hrow, rfl⟩

end Decoded

/-! ## Merging does not change what is decoded -/

section Fields

variable {inner : InnerDecoder}

/-- Merging inside a value does not change what a decoder makes of it. -/
def KeepsMerged (inner : InnerDecoder) : Prop :=
  ∀ s t v, inner s t = some v → inner s (s.merge t) = some v

theorem KeepsMerged.field
    (h : KeepsMerged inner) {f : Field} {t : Tree} {v : f.Val}
    (hv : f.decode inner t = some v) :
    f.decode inner (f.shape.merge t) = some v := by
  obtain ⟨key, s, presence⟩ := f
  have hnullable (w : Option s.Val) (hw : decodeNullable (inner s) t = some w) :
      decodeNullable (inner s) (s.merge t) = some w := by
    by_cases ht : t = .null
    · rw [ht] at hw ⊢
      exact hw
    · rw [decodeNullable_of_ne_null ht] at hw
      obtain ⟨v, hv, rfl⟩ := Option.map_eq_some_iff.mp hw
      rw [decodeNullable_of_ne_null (Shape.merge_ne_null ht), h s t v hv]
      rfl
  cases presence with
  | required => exact h s t v hv
  | defaulted => exact h s t v hv
  | optional => exact hnullable v hv
  | omissible => exact hnullable v hv

theorem KeepsMerged.rowOfItems
    (h : KeepsMerged inner) {r : Record} {fs : List Field} {i : Nat}
    (hfs : r.fields.drop i = fs) {items : List Tree} {row : Row fs}
    (hrow : rowOfItems inner fs items = some row) :
    Raw.rowOfItems inner fs (mergeItems (.record r) i items) = some row := by
  induction items generalizing fs i with
  | nil => exact hrow
  | cons t items ih =>
      cases fs with
      | nil => cases hrow
      | cons f fs =>
          obtain ⟨value, more⟩ := row
          obtain ⟨hvalue, hmore⟩ := rowOfItems_cons_eq_some_iff.mp hrow
          have hf : r.fields[i]? = some f := by
            rw [← List.head?_drop, hfs, List.head?_cons]
          have hrest : r.fields.drop (i + 1) = fs := by
            rw [← List.tail_drop, hfs, List.tail_cons]
          have hitem : Shape.item? (.record r) i = some f.shape :=
            congrArg (Option.map Field.shape) hf
          rw [mergeItems, hitem]
          exact rowOfItems_cons_eq_some_iff.mpr ⟨h.field hvalue, ih hrest hmore⟩

/-- A named member of an object that is read as a shape, with merged keys
inside. -/
def mergeNamed (s : Shape) (e : String × Tree) : String × Tree :=
  (e.1, mergeAs (s.member? (some e.1)) e.2)

theorem Names.merge
    {s : Shape} {m : Member} {e : String × Tree} (h : Names m e) :
    Names (mergeMember s m) (mergeNamed s e) := by
  obtain ⟨hname, hvalue⟩ := h
  refine ⟨(nameOf_mergeMember s m).trans hname, ?_⟩
  rw [value_mergeMember, hname, hvalue, mergeNamed]

theorem Record.member?_key {r : Record} {f : Field} (hf : f ∈ r.fields) :
    Shape.member? (.record r) (some f.key) = some f.shape := by
  obtain ⟨g, hg⟩ : ∃ g,
      r.fields.find? (fun g => some g.key = some f.key) = some g := by
    rw [← Option.isSome_iff_exists, List.find?_isSome]
    exact ⟨f, hf, by simp⟩
  have hkey : g.key = f.key := by simpa using List.find?_some hg
  obtain rfl := Record.eq_of_key_eq (List.mem_of_find?_eq_some hg) hf hkey
  exact congrArg (Option.map Field.shape) hg

theorem KeepsMerged.decodeAmong (h : KeepsMerged inner) {r : Record} {f : Field}
    (hf : f ∈ r.fields) {named : List (String × Tree)} {v : f.Val}
    (hv : f.decodeAmong inner named = some v) :
    f.decodeAmong inner (named.map (mergeNamed (.record r))) = some v := by
  have hfilter : (named.map (mergeNamed (.record r))).filter (·.1 = f.key) =
      (named.filter (·.1 = f.key)).map (mergeNamed (.record r)) :=
    List.filter_map
  have hkey : ∀ m ∈ named.filter (·.1 = f.key), m.1 = f.key :=
    fun m hm => of_decide_eq_true (List.mem_filter.mp hm).2
  unfold Field.decodeAmong at hv ⊢
  rw [hfilter]
  generalize named.filter (·.1 = f.key) = found at hv hkey
  rcases found with _ | ⟨m, _ | ⟨m', more⟩⟩
  · exact hv
  · have hshape := Record.member?_key hf
    rw [← hkey m List.mem_cons_self] at hshape
    show f.decode inner (mergeAs (Shape.member? (.record r) (some m.1)) m.2) =
      some v
    rw [hshape]
    exact h.field hv
  · cases hv

theorem KeepsMerged.rowOfMembers
    (h : KeepsMerged inner) {r : Record} {fs : List Field} (hfs : fs ⊆ r.fields)
    {named : List (String × Tree)} {row : Row fs}
    (hrow : rowOfMembers inner named fs = some row) :
    Raw.rowOfMembers inner (named.map (mergeNamed (.record r))) fs =
      some row := by
  induction fs with
  | nil => rfl
  | cons f fs ih =>
      rw [List.cons_subset] at hfs
      obtain ⟨value, more⟩ := row
      obtain ⟨hvalue, hmore⟩ := pair_eq_some_iff.mp hrow
      exact pair_eq_some_iff.mpr ⟨h.decodeAmong hfs.1 hvalue, ih hfs.2 hmore⟩

end Fields

section Merged

variable {levels : Nat}

theorem DecodesEntry.merge
    (h : KeepsMerged (Shape.decode levels)) {r : Record} {m : Member}
    {e : String × r.Val} (he : DecodesEntry levels r m e) :
    DecodesEntry levels r (mergeMember (.table r) m) e := by
  refine ⟨(nameOf_mergeMember _ m).trans he.1, ?_⟩
  rw [value_mergeMember]
  exact h (.record r) m.value e.2 he.2

theorem decode_merge_table
    (h : KeepsMerged (Shape.decode levels)) {r : Record} {ms : List Member}
    {v : Table r.Val}
    (hv : Shape.decode (levels + 1) (.table r) (.object ms) = some v) :
    Shape.decode (levels + 1) (.table r) (Shape.merge (.table r) (.object ms)) =
      some v := by
  obtain ⟨entries, hentries, rfl⟩ := decode_table_eq_some_iff.mp hv
  have hinside : List.Forall₂ (DecodesEntry levels r)
      (mergeMembers (.table r) ms) entries := by
    rw [mergeMembers_eq_map, List.forall₂_map_left_iff]
    exact hentries.imp fun m e he => he.merge h
  have hmerged : List.Forall₂ (DecodesEntry levels r)
      (mergeNames nameOf overMember [] (mergeMembers (.table r) ms))
      (mergeNames entryName overEntry [] entries) :=
    forall₂_mergeNames (fun _ _ he => he.1)
      (fun _ _ _ _ he he' => ⟨he.1, he'.2⟩) hinside []
  exact decode_table_eq_some_iff.mpr ⟨_, hmerged, ofList_mergeNames entries⟩

theorem decode_merge_object
    (h : KeepsMerged (Shape.decode levels)) {r : Record} {ms : List Member}
    {v : r.Val}
    (hv : Shape.decode (levels + 1) (.record r) (.object ms) = some v) :
    Shape.decode (levels + 1) (.record r)
      (Shape.merge (.record r) (.object ms)) = some v := by
  obtain ⟨named, row, hnamed, hrow, rfl⟩ := decode_object_eq_some_iff.mp hv
  have hinside : List.Forall₂ Names (mergeMembers (.record r) ms)
      (named.map (mergeNamed (.record r))) := by
    rw [mergeMembers_eq_map, List.forall₂_map_left_iff,
      List.forall₂_map_right_iff]
    exact hnamed.imp fun m e he => he.merge
  exact decode_object_eq_some_iff.mpr
    ⟨_, row, hinside, h.rowOfMembers (List.Subset.refl _) hrow, rfl⟩

theorem decode_merge_items
    (h : KeepsMerged (Shape.decode levels)) {r : Record} {items : List Tree}
    {vs : List r.Val} {i : Nat}
    (hvs : items.mapM (Shape.decode levels (.record r)) = some vs) :
    (mergeItems (.list r) i items).mapM (Shape.decode levels (.record r)) =
      some vs := by
  induction items generalizing vs i with
  | nil => exact hvs
  | cons t items ih =>
      obtain ⟨v, more, hv, hmore, rfl⟩ := mapM_cons_eq_some_iff.mp hvs
      exact mapM_cons_eq_some_iff.mpr
        ⟨v, more, h (.record r) t v hv, ih hmore, rfl⟩

/-- Merging the keys of tables does not change what a tree decodes to. -/
theorem keepsMerged_decode (levels : Nat) :
    KeepsMerged (Shape.decode levels) := by
  induction levels with
  | zero =>
      intro s t v hv
      cases s <;> cases t <;> exact hv
  | succ levels ih =>
      intro s t v hv
      cases s with
      | text =>
          cases t with
          | string => exact hv
          | _ => cases hv
      | flag =>
          cases t with
          | boolean => exact hv
          | _ => cases hv
      | record r =>
          cases t with
          | list items =>
              obtain ⟨row, hrow, rfl⟩ := decode_list_eq_some_iff.mp hv
              exact decode_list_eq_some_iff.mpr
                ⟨row, ih.rowOfItems (i := 0) rfl hrow, rfl⟩
          | object ms => exact decode_merge_object ih hv
          | _ => cases hv
      | list r =>
          cases t with
          | list items => exact decode_merge_items ih hv
          | _ => cases hv
      | table r =>
          cases t with
          | object ms => exact decode_merge_table ih hv
          | _ => cases hv

end Merged

/-! ## A merged tree can be written -/

section Written

theorem exists_of_separated
    {α : Type} {R : List Char → α → Prop} {cs : List Char} {xs : List α}
    (h : Separated R cs xs) :
    ∀ x ∈ xs, ∃ cs, R cs x := by
  induction h with
  | single hx => exact List.forall_mem_singleton.mpr ⟨_, hx⟩
  | cons hx _ ih => exact List.forall_mem_cons.mpr ⟨⟨_, hx⟩, ih⟩

theorem exists_separated
    {α : Type} {R : List Char → α → Prop} {x : α} {xs : List α}
    (h : ∀ y ∈ x :: xs, ∃ cs, R cs y) :
    ∃ cs, Separated R cs (x :: xs) := by
  induction xs generalizing x with
  | nil =>
      obtain ⟨cs, hcs⟩ := h x List.mem_cons_self
      exact ⟨cs, .single hcs⟩
  | cons y xs ih =>
      rw [List.forall_mem_cons] at h
      obtain ⟨cs, hcs⟩ := h.1
      obtain ⟨more, hmore⟩ := ih h.2
      exact ⟨_, .cons hcs hmore⟩

/-- Some text spells a tree. -/
def Writable (t : Tree) : Prop := ∃ cs, Spells cs t

/-- Some texts spell the key and the value of a member. -/
def WritableMember (m : Member) : Prop :=
  (∃ cs, SpellsString cs m.key) ∧ Writable m.value

@[simp] theorem writable_list_iff {items : List Tree} :
    Writable (.list items) ↔ ∀ t ∈ items, Writable t := by
  constructor
  · rintro ⟨cs, hcs⟩
    cases hcs with
    | emptyList => exact fun t ht => absurd ht List.not_mem_nil
    | list hitems =>
        intro t ht
        obtain ⟨_, _, hspells, _⟩ := exists_of_separated hitems t ht
        exact ⟨_, hspells⟩
  · intro h
    cases items with
    | nil => exact ⟨_, .emptyList blank_nil⟩
    | cons t ts =>
        have hpadded : ∀ u ∈ t :: ts, ∃ cs, Padded Spells cs u := by
          intro u hu
          obtain ⟨cs, hcs⟩ := h u hu
          exact ⟨_, .intro blank_nil hcs blank_nil⟩
        obtain ⟨cs, hcs⟩ := exists_separated hpadded
        exact ⟨_, .list hcs⟩

@[simp] theorem writable_object_iff {ms : List Member} :
    Writable (.object ms) ↔ ∀ m ∈ ms, WritableMember m := by
  constructor
  · rintro ⟨cs, hcs⟩
    cases hcs with
    | emptyObject => exact fun m hm => absurd hm List.not_mem_nil
    | object hmembers =>
        intro m hm
        obtain ⟨_, ⟨_, hkey, _⟩, ⟨_, hvalue, _⟩⟩ :=
          exists_of_separated hmembers m hm
        exact ⟨⟨_, hkey⟩, _, hvalue⟩
  · intro h
    cases ms with
    | nil => exact ⟨_, .emptyObject blank_nil⟩
    | cons m ms =>
        have hmember : ∀ n ∈ m :: ms, ∃ cs, SpellsMember Spells cs n := by
          intro n hn
          obtain ⟨⟨k, hk⟩, cs, hcs⟩ := h n hn
          obtain ⟨key, value⟩ := n
          exact ⟨_, .intro (.intro blank_nil hk blank_nil)
            (.intro blank_nil hcs blank_nil)⟩
        obtain ⟨cs, hcs⟩ := exists_separated hmember
        exact ⟨_, .object hcs⟩

theorem exists_of_mem_mergeItems
    {s : Shape} {i : Nat} {items : List Tree} {u : Tree}
    (hu : u ∈ mergeItems s i items) :
    ∃ s?, ∃ t ∈ items, u = mergeAs s? t := by
  induction items generalizing i with
  | nil => exact absurd hu List.not_mem_nil
  | cons t items ih =>
      rcases List.mem_cons.mp hu with rfl | hu
      · exact ⟨_, t, List.mem_cons_self, rfl⟩
      · obtain ⟨s?, t', ht', rfl⟩ := ih hu
        exact ⟨s?, t', List.mem_cons_of_mem t ht', rfl⟩

theorem writableMember_mergeKeys
    {s : Shape} {ms : List Member} (h : ∀ m ∈ ms, WritableMember m) :
    ∀ m ∈ s.mergeKeys ms, WritableMember m := by
  cases s with
  | table r =>
      exact forall_mem_mergeNames (fun m m' hm hm' => ⟨hm.1, hm'.2⟩) h []
  | _ => exact h

theorem writable_iff_exists_text {t : Tree} :
    Writable t ↔ ∃ text : String, SpellsText text.toList t := by
  constructor
  · rintro ⟨cs, hcs⟩
    have hpadded := Padded.intro blank_nil hcs blank_nil
    rw [List.nil_append, List.append_nil, ← String.toList_ofList (l := cs)]
      at hpadded
    exact ⟨_, hpadded⟩
  · rintro ⟨text, htext⟩
    generalize text.toList = cs at htext
    obtain ⟨_, hspells, _⟩ := htext
    exact ⟨_, hspells⟩

theorem Writable.mergeAs {t : Tree} (h : Writable t) (s? : Option Shape) :
    Writable (Raw.mergeAs s? t) := by
  -- Merging goes into the parts of a tree, so the induction is on the depth.
  obtain ⟨n, hn⟩ : ∃ n, t.depth ≤ n := ⟨t.depth, le_rfl⟩
  induction n using Nat.strong_induction_on generalizing t s? with
  | _ n ih =>
      cases s? with
      | none => cases t <;> exact h
      | some s =>
          cases t with
          | list items =>
              obtain ⟨k, rfl, hitems⟩ := list_depth_le_iff.mp hn
              refine writable_list_iff.mpr fun u hu => ?_
              obtain ⟨s?, t, ht, rfl⟩ := exists_of_mem_mergeItems hu
              exact ih k (Nat.lt_succ_self k) (writable_list_iff.mp h t ht)
                s? (hitems t ht)
          | object ms =>
              obtain ⟨k, rfl, hmembers⟩ := object_depth_le_iff.mp hn
              refine writable_object_iff.mpr (writableMember_mergeKeys ?_)
              rw [mergeMembers_eq_map, List.forall_mem_map]
              intro m hm
              obtain ⟨hkey, hvalue⟩ := writable_object_iff.mp h m hm
              obtain ⟨key, t⟩ := m
              exact ⟨hkey, ih k (Nat.lt_succ_self k) hvalue _ (hmembers _ hm)⟩
          | _ => exact h

end Written

end NativeGlue.Raw
