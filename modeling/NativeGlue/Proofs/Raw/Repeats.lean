import NativeGlue.Proofs.Raw.Merge
import NativeGlue.Schema.OfRaw

/-!
# Repeated keys

What a schema text says when an object repeats a key.  In a table every value is
read, and the text says the same as one whose keys are merged.  In a record a
field may be given only once.
-/

namespace NativeGlue.Raw

open Json

/-! ## What is read -/

/-- Reading a tree as a shape with so many levels comes to a part of it, which
is read as a shape with the levels that are left.  Members that are skipped, and
a null where a value may be left out, are not read. -/
inductive Reached (levels : Nat) (s : Shape) (t : Tree) :
    Nat → Shape → Tree → Prop
  | whole : Reached levels s t levels s t
  | member {k : Nat} {s₁ s₂ : Shape} {ms : List Member} {m : Member} :
      Reached levels s t (k + 1) s₁ (.object ms) → m ∈ ms →
      s₁.member? (nameOf m) = some s₂ → m.value ≠ .null →
      Reached levels s t k s₂ m.value
  | item {k i : Nat} {s₁ s₂ : Shape} {items : List Tree} {u : Tree} :
      Reached levels s t (k + 1) s₁ (.list items) → items[i]? = some u →
      s₁.item? i = some s₂ → u ≠ .null → Reached levels s t k s₂ u

section Parts

variable {levels : Nat}

theorem Field.exists_inner_of_decode
    {inner : InnerDecoder} {f : Field} {t : Tree} {v : f.Val}
    (hv : f.decode inner t = some v) (ht : t ≠ .null) :
    ∃ w, inner f.shape t = some w := by
  obtain ⟨key, s, presence⟩ := f
  have hnullable (w : Option s.Val) (hw : decodeNullable (inner s) t = some w) :
      ∃ w, inner s t = some w := by
    rw [decodeNullable_of_ne_null ht] at hw
    obtain ⟨v, hv, -⟩ := Option.map_eq_some_iff.mp hw
    exact ⟨v, hv⟩
  cases presence with
  | required => exact ⟨v, hv⟩
  | defaulted => exact ⟨v, hv⟩
  | optional => exact hnullable v hv
  | omissible => exact hnullable v hv

theorem exists_decodeAmong
    {inner : InnerDecoder} {fs : List Field} {named : List (String × Tree)}
    {row : Row fs} (hrow : rowOfMembers inner named fs = some row) {f : Field}
    (hf : f ∈ fs) :
    ∃ v, f.decodeAmong inner named = some v := by
  induction fs with
  | nil => cases hf
  | cons g fs ih =>
      obtain ⟨value, more⟩ := row
      obtain ⟨hvalue, hmore⟩ := pair_eq_some_iff.mp hrow
      rcases List.mem_cons.mp hf with rfl | hf
      · exact ⟨value, hvalue⟩
      · exact ih hmore hf

/-- A field that is given in an object is given once. -/
theorem decodeAmong_eq_decode
    {inner : InnerDecoder} {f : Field} {named : List (String × Tree)} {t : Tree}
    {v : f.Val} (ht : (f.key, t) ∈ named)
    (hv : f.decodeAmong inner named = some v) :
    named.filter (·.1 = f.key) = [(f.key, t)] ∧ f.decode inner t = some v := by
  have hmem : (f.key, t) ∈ named.filter (·.1 = f.key) :=
    List.mem_filter.mpr ⟨ht, by simp⟩
  unfold Field.decodeAmong at hv
  generalize named.filter (·.1 = f.key) = found at hv hmem
  rcases found with _ | ⟨m, _ | ⟨m', more⟩⟩
  · cases hmem
  · obtain rfl := List.mem_singleton.mp hmem
    exact ⟨rfl, hv⟩
  · cases hv

theorem exists_decode_member
    {s s' : Shape} {ms : List Member} {m : Member} {v : s.Val}
    (hv : Shape.decode (levels + 1) s (.object ms) = some v) (hm : m ∈ ms)
    (hs : s.member? (nameOf m) = some s') (hnull : m.value ≠ .null) :
    ∃ w, Shape.decode levels s' m.value = some w := by
  cases s with
  | text => cases hs
  | flag => cases hs
  | list => cases hs
  | table r =>
      obtain rfl : Shape.record r = s' := Option.some.inj hs
      obtain ⟨entries, hentries, -⟩ := decode_table_eq_some_iff.mp hv
      obtain ⟨e, -, he⟩ := exists_mem_of_forall₂ hentries.flip hm
      exact ⟨e.2, he.2⟩
  | record r =>
      obtain ⟨named, row, hnamed, hrow, -⟩ := decode_object_eq_some_iff.mp hv
      obtain ⟨f, hfind, rfl⟩ := Option.map_eq_some_iff.mp hs
      have hf := List.mem_of_find?_eq_some hfind
      have hkey : some f.key = nameOf m := by simpa using List.find?_some hfind
      obtain ⟨⟨name, t⟩, he, hname, rfl⟩ := exists_mem_of_forall₂ hnamed.flip hm
      obtain rfl : f.key = name := Option.some.inj (hkey.trans hname)
      obtain ⟨w, hw⟩ := exists_decodeAmong hrow hf
      exact Field.exists_inner_of_decode (decodeAmong_eq_decode he hw).2 hnull

theorem exists_decode_rowItem
    {inner : InnerDecoder} {fs : List Field} {items : List Tree} {row : Row fs}
    (hrow : rowOfItems inner fs items = some row) {i : Nat} {f : Field}
    {t : Tree} (hf : fs[i]? = some f) (ht : items[i]? = some t) :
    ∃ v, f.decode inner t = some v := by
  induction fs generalizing items i with
  | nil => cases hf
  | cons g fs ih =>
      obtain ⟨value, more⟩ := row
      cases items with
      | nil => cases ht
      | cons u items =>
          obtain ⟨hvalue, hmore⟩ := rowOfItems_cons_eq_some_iff.mp hrow
          cases i with
          | zero =>
              obtain rfl : g = f := Option.some.inj hf
              obtain rfl : u = t := Option.some.inj ht
              exact ⟨value, hvalue⟩
          | succ i => exact ih hmore hf ht

theorem exists_decode_item
    {s s' : Shape} {items : List Tree} {i : Nat} {t : Tree} {v : s.Val}
    (hv : Shape.decode (levels + 1) s (.list items) = some v)
    (ht : items[i]? = some t) (hs : s.item? i = some s') (hnull : t ≠ .null) :
    ∃ w, Shape.decode levels s' t = some w := by
  cases s with
  | text => cases hs
  | flag => cases hs
  | table => cases hs
  | list r =>
      obtain rfl : Shape.record r = s' := Option.some.inj hs
      have hitems :=
        mapM_eq_some_iff_forall₂.mp (show items.mapM _ = some v from hv)
      obtain ⟨w, -, hw⟩ :=
        exists_mem_of_forall₂ hitems.flip (List.mem_of_getElem? ht)
      exact ⟨w, hw⟩
  | record r =>
      obtain ⟨row, hrow, -⟩ := decode_list_eq_some_iff.mp hv
      obtain ⟨f, hf, rfl⟩ := Option.map_eq_some_iff.mp hs
      obtain ⟨w, hw⟩ := exists_decode_rowItem hrow hf ht
      exact Field.exists_inner_of_decode hw hnull

/-- If a tree decodes, so does every part that is read. -/
theorem Reached.exists_decode
    {s s' : Shape} {t u : Tree} {k : Nat} (h : Reached levels s t k s' u)
    {v : s.Val} (hv : Shape.decode levels s t = some v) :
    ∃ w, Shape.decode k s' u = some w := by
  induction h with
  | whole => exact ⟨v, hv⟩
  | member _ hm hs hnull ih =>
      obtain ⟨w, hw⟩ := ih
      exact exists_decode_member hw hm hs hnull
  | item _ hu hs hnull ih =>
      obtain ⟨w, hw⟩ := ih
      exact exists_decode_item hw hu hs hnull

theorem values_filter_nameOf {ms : List Member} {named : List (String × Tree)}
    (h : List.Forall₂ Names ms named) (key : String) :
    (ms.filter fun m => nameOf m = some key).map (·.value) =
      (named.filter (·.1 = key)).map Prod.snd := by
  induction h with
  | nil => rfl
  | @cons m e ms named he _ ih =>
      simp only [List.filter_cons, he.1, Option.some.injEq]
      split
      · rw [List.map_cons, List.map_cons, ih, he.2]
      · exact ih

/-- A record gives each of its fields at most once. -/
theorem countP_nameOf_le_one
    {r : Record} {ms : List Member} {v : r.Val}
    (hv : Shape.decode levels (.record r) (.object ms) = some v) {f : Field}
    (hf : f ∈ r.fields) :
    ms.countP (fun m => nameOf m = some f.key) ≤ 1 := by
  cases levels with
  | zero => cases hv
  | succ levels =>
      obtain ⟨named, row, hnamed, hrow, -⟩ := decode_object_eq_some_iff.mp hv
      obtain ⟨w, hw⟩ := exists_decodeAmong hrow hf
      have hlength := congrArg List.length (values_filter_nameOf hnamed f.key)
      rw [List.length_map, List.length_map] at hlength
      rw [List.countP_eq_length_filter, hlength]
      unfold Field.decodeAmong at hw
      split at hw
      · next hnone => simp [hnone]
      · next hone => simp [hone]
      · cases hw

end Parts

/-! ## Texts -/

/-- A text is refused when it is read, before anything is converted. -/
def Schema.Refused (text : String) : Prop :=
  ∃ fault, Schema.parse text = .error fault ∧
    NativeGlue.Schema.parse text = .error (.json fault)

theorem Schema.refused_of_forall_decode_ne
    {text : String} {t : Tree} (ht : SpellsText text.toList t)
    (h : ∀ r, Shape.decode maxLevels (.record .schema) t ≠ some r) :
    Schema.Refused text := by
  cases hparse : Schema.parse text with
  | error fault =>
      refine ⟨fault, hparse, ?_⟩
      rw [NativeGlue.Schema.parse, hparse]
      rfl
  | ok r =>
      obtain ⟨t', ht', hr⟩ := Shape.parse_eq_ok_iff.mp hparse
      obtain rfl := ht.unique ht'
      exact absurd hr (h r)

/-- Repeated keys.  An accepted text says the same as any text of its tree with
merged keys, and there are such texts: it gives the same raw schema, and
converting that gives the same result.  A text is refused if a table in it has
any value that cannot be read, be it written over or not, or if a record in it
gives one of its fields twice. -/
theorem Schema.parse_repeated_keys (text : String) :
    (∀ r, Schema.parse text = .ok r →
      ∃ t, SpellsText text.toList t ∧
        (∃ text' : String,
          SpellsText text'.toList (Shape.merge (.record .schema) t)) ∧
        ∀ text' : String,
          SpellsText text'.toList (Shape.merge (.record .schema) t) →
          Schema.parse text' = .ok r ∧
            NativeGlue.Schema.parse text' = NativeGlue.Schema.parse text) ∧
    ∀ t, SpellsText text.toList t →
      (∀ levels r ms m,
        Reached maxLevels (.record .schema) t (levels + 1) (.table r)
          (.object ms) →
        m ∈ ms →
        Shape.decode levels (.record r) m.value = none →
        Schema.Refused text) ∧
      ∀ levels r ms f,
        Reached maxLevels (.record .schema) t levels (.record r) (.object ms) →
        f ∈ r.fields →
        2 ≤ ms.countP (fun m => nameOf m = some f.key) →
        Schema.Refused text := by
  refine ⟨fun r hr => ?_, fun t ht => ⟨?_, ?_⟩⟩
  · obtain ⟨t, ht, hdecode⟩ := Shape.parse_eq_ok_iff.mp hr
    refine ⟨t, ht, ?_, fun text' ht' => ?_⟩
    · have hwritable : Writable t := writable_iff_exists_text.mpr ⟨text, ht⟩
      exact writable_iff_exists_text.mp
        (hwritable.mergeAs (some (.record .schema)))
    · have hmerged := keepsMerged_decode maxLevels (.record .schema) t r hdecode
      have hr' : Schema.parse text' = .ok r :=
        Shape.parse_eq_ok_iff.mpr ⟨_, ht', hmerged⟩
      refine ⟨hr', ?_⟩
      rw [NativeGlue.Schema.parse, NativeGlue.Schema.parse, hr, hr']
  · intro levels r ms m hreached hm hnone
    refine Schema.refused_of_forall_decode_ne ht fun v hv => ?_
    obtain ⟨w, hw⟩ := hreached.exists_decode hv
    obtain ⟨entries, hentries, -⟩ := decode_table_eq_some_iff.mp hw
    obtain ⟨e, -, he⟩ := exists_mem_of_forall₂ hentries.flip hm
    rw [he.2] at hnone
    cases hnone
  · intro levels r ms f hreached hf htwice
    refine Schema.refused_of_forall_decode_ne ht fun v hv => ?_
    obtain ⟨w, hw⟩ := hreached.exists_decode hv
    have hone := countP_nameOf_le_one hw hf
    omega

/-! ## Texts of groups -/

/-- A schema with the given groups. -/
def groupsTree (groups : List (String × Tree)) : Tree :=
  objectTree [("modules", objectTree groups)]

/-- The text of a schema with the given groups. -/
def groupsText (groups : List (String × Tree)) : String :=
  String.ofList (groupsTree groups).print

theorem spellsText_groupsText {groups : List (String × Tree)}
    (h : ∀ g ∈ groups, Spells g.2.print g.2) :
    SpellsText (groupsText groups).toList (groupsTree groups) :=
  spellsText_ofList_print
    (spells_print_objectTree_singleton _ (spells_print_objectTree h))

/-- Groups that can be read are written into a table. -/
theorem parse_groupsText
    {trees : List (String × Tree)} {groups : List (String × Group)}
    (hspells : ∀ g ∈ trees, Spells g.2.print g.2)
    (h : List.Forall₂
      (fun t g => t.1 = g.1 ∧ Shape.decode 125 (.record .group) t.2 = some g.2)
      trees groups) :
    Schema.parse (groupsText trees) = .ok ⟨Table.ofList groups⟩ := by
  have htable : Shape.decode 126 (.table .group) (objectTree trees) =
      some (Table.ofList groups : Table Group) :=
    Shape.decode_entries h
  have hschema := @Shape.decode_objectTree 126 .schema
    [("modules", objectTree trees)] (Table.ofList groups, ())
    (pair_eq_some_iff.mpr ⟨htable, rfl⟩)
  exact Shape.parse_eq_ok_iff.mpr ⟨_, spellsText_groupsText hspells, hschema⟩

theorem spells_print_group (g : Group) : Spells g.tree.print g.tree :=
  Shape.spells_print_tree (.record .group) g

@[simp] theorem mergeMember_member (s : Shape) (key : String) (value : Tree) :
    mergeMember s (member key value) =
      member key (mergeAs (s.member? (some key)) value) := by
  have hkey : (spelled? (pieces key)).map String.ofList = some key :=
    spelled?_pieces key
  rw [member, mergeMember, hkey, member]

theorem member?_modules :
    Shape.member? (.record .schema) (some "modules") = some (.table .group) :=
  @Record.member?_key .schema ⟨"modules", .table .group, .defaulted⟩
    List.mem_cons_self

/-- A schema with one group, which declares no modules. -/
def bareSchema : Schema := ⟨⟨[("g", ⟨none⟩)]⟩⟩

/-- A group with a type that is read but cannot be converted. -/
def oddGroup : Group :=
  ⟨some ⟨[("Clock",
    ⟨⟨[("Time", ⟨"TimeTypeAnnotation", false, none, none, none⟩)]⟩, []⟩)]⟩⟩

theorem decode_oddGroup :
    Shape.decode 125 (.record .group) oddGroup.tree = some oddGroup := by
  have hdepth : oddGroup.tree.depth ≤ 125 := by
    change 5 ≤ 125
    decide
  have hkeys : oddGroup.KeysDistinct := by
    simp [oddGroup, Group.KeysDistinct, NativeModule.KeysDistinct,
      Table.KeysDistinct, Table.keys]
  exact Shape.decode_tree (.record .group) oddGroup hkeys 125 hdepth

theorem merge_overwrittenGroup (first : Tree) :
    Shape.merge (.record .schema)
        (groupsTree [("g", first), ("g", Group.tree ⟨none⟩)]) =
      bareSchema.tree := by
  have hgroups : mergeAs (some (.table .group))
        (objectTree [("g", first), ("g", Group.tree ⟨none⟩)]) =
      objectTree [("g", Group.tree ⟨none⟩)] := by
    simp only [objectTree, List.map_cons, List.map_nil, mergeAs, mergeMembers,
      mergeMember_member, Shape.mergeKeys, mergeNames, overwritten,
      nameOf_member]
    rfl
  rw [Shape.merge, groupsTree, objectTree, List.map_singleton, mergeAs,
    mergeMembers, mergeMember_member, member?_modules, hgroups]
  rfl

/-- A type that cannot be converted is written over and never seen; a null that
is written over is refused all the same, and so are two tables of groups. -/
theorem Schema.parse_repeated_keys_overwritten :
    (Schema.ofRaw ⟨⟨[("g", oddGroup)]⟩⟩ =
        .error (.unsupportedType "TimeTypeAnnotation") ∧
      Schema.parse
          (groupsText [("g", oddGroup.tree), ("g", Group.tree ⟨none⟩)]) =
        .ok bareSchema ∧
      Schema.parse bareSchema.print = .ok bareSchema ∧
      NativeGlue.Schema.parse bareSchema.print =
        NativeGlue.Schema.parse
          (groupsText [("g", oddGroup.tree), ("g", Group.tree ⟨none⟩)])) ∧
    Schema.Refused (groupsText [("g", .null), ("g", Group.tree ⟨none⟩)]) ∧
    Schema.Refused
      (String.ofList (objectTree
        [("modules", objectTree []), ("modules", objectTree [])]).print) := by
  refine ⟨?_, ?_, ?_⟩
  · have hspells : ∀ g ∈ [("g", oddGroup.tree), ("g", Group.tree ⟨none⟩)],
        Spells g.2.print g.2 := by
      simpa using ⟨spells_print_group oddGroup, spells_print_group ⟨none⟩⟩
    have hparse :
        Schema.parse
            (groupsText [("g", oddGroup.tree), ("g", Group.tree ⟨none⟩)]) =
          .ok bareSchema :=
      @parse_groupsText _ [("g", oddGroup), ("g", ⟨none⟩)] hspells
        (.cons ⟨rfl, decode_oddGroup⟩ (.cons ⟨rfl, rfl⟩ .nil))
    obtain ⟨t, ht, -, hmerged⟩ := (Schema.parse_repeated_keys _).1 _ hparse
    obtain rfl := ht.unique (spellsText_groupsText hspells)
    rw [merge_overwrittenGroup] at hmerged
    have hbare : SpellsText bareSchema.print.toList bareSchema.tree :=
      spellsText_ofList_print
        (Shape.spells_print_tree (.record .schema) bareSchema)
    exact ⟨rfl, hparse, hmerged _ hbare⟩
  · have hspells : ∀ g ∈ [("g", Tree.null), ("g", Group.tree ⟨none⟩)],
        Spells g.2.print g.2 := by
      have hnull : Spells (Tree.print .null) .null := Spells.null
      simpa using ⟨hnull, spells_print_group ⟨none⟩⟩
    have hreached : Reached maxLevels (.record .schema)
        (groupsTree [("g", .null), ("g", Group.tree ⟨none⟩)])
        126 (.table .group)
        (objectTree [("g", .null), ("g", Group.tree ⟨none⟩)]) :=
      Reached.member Reached.whole List.mem_cons_self
        ((congrArg _ (nameOf_member _ _)).trans member?_modules) nofun
    have hrefused :=
      (Schema.parse_repeated_keys _).2 _ (spellsText_groupsText hspells)
    exact hrefused.1 _ _ _ _ hreached List.mem_cons_self rfl
  · have hempty : Spells (objectTree []).print (objectTree []) :=
      spells_print_objectTree (by simp)
    have htwice :
        Spells
          (objectTree
            [("modules", objectTree []), ("modules", objectTree [])]).print
          (objectTree
            [("modules", objectTree []), ("modules", objectTree [])]) :=
      spells_print_objectTree (by simpa using hempty)
    have hrefused :=
      (Schema.parse_repeated_keys _).2 _ (spellsText_ofList_print htwice)
    exact hrefused.2 _ .schema _ ⟨"modules", .table .group, .defaulted⟩
      Reached.whole List.mem_cons_self (by simp)

end NativeGlue.Raw
