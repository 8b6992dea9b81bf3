import NativeGlue.Proofs.Json.Print
import NativeGlue.Proofs.Raw.Rows
import NativeGlue.Proofs.Table
import NativeGlue.Raw.Encode

/-!
# Values and their trees

The tree of a value, shape by shape.  A record is an object of the fields that
have a value, so facts about trees are proved once for all records, by induction
on values of every shape.  Main results: the text of a value spells its tree,
and the tree decodes to the value where its brackets find room.
-/

namespace NativeGlue.Raw

open Json

/-! ## Trees by shape -/

/-- The tree of a record. -/
def Record.tree : (r : Record) → r.Val → Tree
  | schema, v => Schema.tree v
  | group, v => Group.tree v
  | nativeModule, v => NativeModule.tree v
  | method, v => Method.tree v
  | functionType, v => FunctionType.tree v
  | param, v => Param.tree v
  | typeExpr, v => TypeExpr.tree v
  | property, v => Property.tree v

/-- The tree of a value. -/
def Shape.tree : (s : Shape) → s.Val → Tree
  | text, v => textTree v
  | flag, v => .boolean v
  | record r, v => r.tree v
  | list r, vs => .list (List.map r.tree vs)
  | table r, t => tableTree r.tree t

/-- The value of a field, unless the field is absent. -/
def Field.given : (f : Field) → f.Val → Option f.shape.Val
  | ⟨_, _, .required⟩, v => some v
  | ⟨_, _, .defaulted⟩, v => some v
  | ⟨_, _, .optional⟩, v => v
  | ⟨_, _, .omissible⟩, v => v

/-- The keys and trees of the fields that have a value. -/
def Row.named : (fs : List Field) → Row fs → List (String × Tree)
  | [], _ => []
  | f :: fs, (v, row) =>
    ((f.given v).map fun w => (f.key, f.shape.tree w)).toList ++
      Row.named fs row

/-- The object with the given members. -/
def objectTree (named : List (String × Tree)) : Tree :=
  .object (named.map fun m => member m.1 m.2)

@[simp] theorem propertyTrees_eq_map (ps : List Property) :
    propertyTrees ps = ps.map Property.tree := by
  induction ps with
  | nil => rfl
  | cons p ps ih => rw [propertyTrees, ih, List.map_cons]

theorem Record.tree_eq_objectTree (r : Record) (v : r.Val) :
    r.tree v = objectTree (Row.named r.fields (r.toRow v)) := by
  cases r with
  | group =>
      obtain ⟨_ | modules⟩ := v
      · rfl
      · rfl
  | typeExpr =>
      obtain ⟨tag, nullable, name, properties, element⟩ := v
      cases name <;> cases properties <;> cases element <;>
        simp only [Record.tree, TypeExpr.tree, propertyTrees_eq_map] <;> rfl
  | property =>
      obtain ⟨name, optional, type⟩ := v
      rfl
  | _ => rfl

theorem tableTree_eq_objectTree {α : Type} (tree : α → Tree) (t : Table α) :
    tableTree tree t = objectTree (t.entries.map fun e => (e.1, tree e.2)) := by
  simp [tableTree, objectTree]

theorem Shape.tree_table (r : Record) (t : Table r.Val) :
    Shape.tree (.table r) t =
      objectTree (t.entries.map fun e => (e.1, r.tree e.2)) :=
  tableTree_eq_objectTree r.tree t

theorem Shape.tree_record (r : Record) (v : r.Val) :
    Shape.tree (.record r) v = objectTree (Row.named r.fields (r.toRow v)) :=
  r.tree_eq_objectTree v

theorem Shape.tree_ne_null (s : Shape) (v : s.Val) : s.tree v ≠ .null := by
  cases s with
  | record r =>
      rw [Shape.tree_record r v]
      exact nofun
  | _ => exact nofun

theorem objectTree_depth_le_iff {named : List (String × Tree)} {n : Nat} :
    (objectTree named).depth ≤ n ↔
      ∃ k, n = k + 1 ∧ ∀ m ∈ named, m.2.depth ≤ k := by
  simp only [objectTree, object_depth_le_iff, List.forall_mem_map, member]

/-! ## Induction on values -/

/-- The fields that have a value have one with the property. -/
def Row.All (P : (s : Shape) → s.Val → Prop) : (fs : List Field) → Row fs → Prop
  | [], _ => True
  | f :: fs, (v, row) =>
      (∀ w, f.given v = some w → P f.shape w) ∧ Row.All P fs row

theorem Row.All.imp
    {P Q : (s : Shape) → s.Val → Prop} {fs : List Field} {row : Row fs}
    (h : Row.All P fs row) (himp : ∀ s v, P s v → Q s v) :
    Row.All Q fs row := by
  induction fs with
  | nil => trivial
  | cons f fs ih =>
      obtain ⟨v, row⟩ := row
      exact ⟨fun w hw => himp _ w (h.1 w hw), ih h.2⟩

theorem Row.All.and
    {P Q : (s : Shape) → s.Val → Prop} {fs : List Field} {row : Row fs}
    (hP : Row.All P fs row) (hQ : Row.All Q fs row) :
    Row.All (fun s v => P s v ∧ Q s v) fs row := by
  induction fs with
  | nil => trivial
  | cons f fs ih =>
      obtain ⟨v, row⟩ := row
      exact ⟨fun w hw => ⟨hP.1 w hw, hQ.1 w hw⟩, ih hP.2 hQ.2⟩

theorem Row.forall_named_iff
    (Q : Tree → Prop) {fs : List Field} {row : Row fs} :
    (∀ m ∈ Row.named fs row, Q m.2) ↔
      Row.All (fun s v => Q (s.tree v)) fs row := by
  induction fs with
  | nil => simp [Row.named, Row.All]
  | cons f fs ih =>
      obtain ⟨v, row⟩ := row
      simp only [Row.named, Row.All, List.mem_append, or_imp, forall_and, ih]
      cases f.given v <;> simp

/-- What holds of texts and flags, and of a list, a table or a record when it
holds of the values inside, holds of all values. -/
theorem Shape.val_induction
    {P : (s : Shape) → s.Val → Prop} (text : ∀ v : String, P .text v)
    (flag : ∀ v : Bool, P .flag v)
    (list : ∀ (r : Record) (vs : List r.Val), (∀ v ∈ vs, P (.record r) v) →
      P (.list r) vs)
    (table : ∀ (r : Record) (t : Table r.Val),
      (∀ e ∈ t.entries, P (.record r) e.2) → P (.table r) t)
    (record : ∀ (r : Record) (v : r.Val), Row.All P r.fields (r.toRow v) →
      P (.record r) v)
    (s : Shape) (v : s.Val) :
    P s v := by
  -- The codes of shapes go round in a circle, so the induction is on the depth
  -- of trees.
  have hdepth : ∀ n (s : Shape) (v : s.Val), (s.tree v).depth ≤ n → P s v := by
    intro n
    induction n using Nat.strong_induction_on with
    | _ n ih =>
        intro s v hn
        cases s with
        | text => exact text v
        | flag => exact flag v
        | list r =>
            obtain ⟨k, rfl, hitems⟩ := list_depth_le_iff.mp hn
            refine list r v fun w hw => ?_
            exact ih k (Nat.lt_succ_self k) (.record r) w
              (hitems _ (List.mem_map_of_mem hw))
        | table r =>
            rw [Shape.tree_table r v] at hn
            obtain ⟨k, rfl, hentries⟩ := objectTree_depth_le_iff.mp hn
            refine table r v fun e he => ?_
            exact ih k (Nat.lt_succ_self k) (.record r) e.2
              (hentries (e.1, r.tree e.2) (List.mem_map_of_mem he))
        | record r =>
            rw [Shape.tree_record r v] at hn
            obtain ⟨k, rfl, hfields⟩ := objectTree_depth_le_iff.mp hn
            have hrow := (Row.forall_named_iff fun t => t.depth ≤ k).mp hfields
            exact record r v (hrow.imp fun s w => ih k (Nat.lt_succ_self k) s w)
  exact hdepth _ s v le_rfl

/-! ## Printing -/

theorem spellsPiece_of_mem_pieces {s : String} {p : Piece} (hp : p ∈ pieces s) :
    SpellsPiece p.print p := by
  obtain ⟨c, -, rfl⟩ := List.mem_map.mp hp
  exact spellsPiece_ofChar c

theorem spells_print_objectTree {named : List (String × Tree)}
    (h : ∀ m ∈ named, Spells m.2.print m.2) :
    Spells (objectTree named).print (objectTree named) := by
  refine spells_print_object fun m hm => ?_
  obtain ⟨e, he, rfl⟩ := List.mem_map.mp hm
  exact ⟨spellsString_print fun p => spellsPiece_of_mem_pieces, h e he⟩

theorem spells_print_objectTree_singleton
    (key : String) {t : Tree} (h : Spells t.print t) :
    Spells (objectTree [(key, t)]).print (objectTree [(key, t)]) :=
  spells_print_objectTree (List.forall_mem_singleton.mpr h)

/-- The text of a value spells its tree. -/
theorem Shape.spells_print_tree (s : Shape) (v : s.Val) :
    Spells (s.tree v).print (s.tree v) := by
  induction s, v using Shape.val_induction with
  | text v =>
      exact Spells.string
        (spellsString_print fun p => spellsPiece_of_mem_pieces)
  | flag v =>
      cases v with
      | true => exact Spells.true
      | false => exact Spells.false
  | list r vs ih =>
      refine spells_print_list fun t ht => ?_
      obtain ⟨v, hv, rfl⟩ := List.mem_map.mp ht
      exact ih v hv
  | table r t ih =>
      rw [Shape.tree_table r t]
      refine spells_print_objectTree fun m hm => ?_
      obtain ⟨e, he, rfl⟩ := List.mem_map.mp hm
      exact ih e he
  | record r v ih =>
      rw [Shape.tree_record r v]
      exact spells_print_objectTree
        ((Row.forall_named_iff fun t => Spells t.print t).mpr ih)

/-! ## Decoding -/

@[simp] theorem spelled?_pieces (s : String) :
    (spelled? (pieces s)).map String.ofList = some s := by
  rw [pieces, spelled?_map_ofChar]
  simp

@[simp] theorem namedMembers_map_member (named : List (String × Tree)) :
    namedMembers (named.map fun m => member m.1 m.2) = some named := by
  induction named with
  | nil => rfl
  | cons m named ih =>
      exact namedMembers_cons_eq_some_iff.mpr
        ⟨m.1, named, spelled?_pieces m.1, ih, rfl⟩

section Decoding

variable {levels : Nat} {r : Record}

@[simp] theorem Shape.decode_textTree (levels : Nat) (s : String) :
    Shape.decode levels .text (textTree s) = some s := by
  cases levels with
  | zero => exact spelled?_pieces s
  | succ levels => exact spelled?_pieces s

theorem Shape.decode_objectTree
    {named : List (String × Tree)} {row : Row r.fields}
    (h : rowOfMembers (Shape.decode levels) named r.fields = some row) :
    Shape.decode (levels + 1) (.record r) (objectTree named) =
      some (r.ofRow row) := by
  refine Option.bind_eq_some_iff.mpr ⟨_, namedMembers_map_member named, ?_⟩
  exact Option.bind_eq_some_iff.mpr ⟨row, h, rfl⟩

theorem Shape.decode_items
    {items : List Tree} {row : Row r.fields}
    (h : rowOfItems (Shape.decode levels) r.fields items = some row) :
    Shape.decode (levels + 1) (.record r) (.list items) = some (r.ofRow row) :=
  Option.bind_eq_some_iff.mpr ⟨row, h, rfl⟩

theorem Shape.decode_entries
    {named : List (String × Tree)} {entries : List (String × r.Val)}
    (h : List.Forall₂
      (fun m e => m.1 = e.1 ∧ Shape.decode levels (.record r) m.2 = some e.2)
      named entries) :
    Shape.decode (levels + 1) (.table r) (objectTree named) =
      some (Table.ofList entries : Table r.Val) := by
  refine Option.bind_eq_some_iff.mpr ⟨_, namedMembers_map_member named, ?_⟩
  refine Option.bind_eq_some_iff.mpr ⟨entries, ?_, rfl⟩
  induction h with
  | nil => rfl
  | cons h _ ih =>
      refine mapM_cons_eq_some_iff.mpr ⟨_, _, ?_, ih, rfl⟩
      exact Option.map_eq_some_iff.mpr ⟨_, h.2, Prod.ext h.1 rfl⟩

end Decoding

section Fields

variable {inner : InnerDecoder} {f : Field} {v : f.Val} {w : f.shape.Val}
  {t : Tree}

theorem Field.decode_of_given
    (hv : f.given v = some w) (ht : inner f.shape t = some w)
    (hnull : t ≠ .null) :
    f.decode inner t = some v := by
  obtain ⟨key, s, presence⟩ := f
  cases presence with
  | required => exact ht.trans (congrArg some (Option.some.inj hv).symm)
  | defaulted => exact ht.trans (congrArg some (Option.some.inj hv).symm)
  | optional =>
      obtain rfl : v = some w := hv
      exact (decodeNullable_of_ne_null hnull).trans
        (congrArg (Option.map some) ht)
  | omissible =>
      obtain rfl : v = some w := hv
      exact (decodeNullable_of_ne_null hnull).trans
        (congrArg (Option.map some) ht)

theorem Field.given_of_decode
    (hv : f.decode inner t = some v) (hw : f.given v = some w) :
    inner f.shape t = some w := by
  obtain ⟨key, s, presence⟩ := f
  have hnullable {v : Option s.Val} (hv : decodeNullable (inner s) t = some v)
      (hw : v = some w) : inner s t = some w := by
    subst hw
    cases t with
    | null => cases hv
    | _ =>
        obtain ⟨w', hw', heq⟩ := Option.map_eq_some_iff.mp hv
        rwa [← Option.some.inj heq]
  cases presence with
  | required => exact hv.trans hw
  | defaulted => exact hv.trans hw
  | optional => exact hnullable hv hw
  | omissible => exact hnullable hv hw

theorem Field.missing?_of_given_eq_none (hv : f.given v = none) :
    f.missing? = some v := by
  obtain ⟨key, s, presence⟩ := f
  cases presence with
  | required => cases hv
  | defaulted => cases hv
  | optional => exact congrArg some (show none = v from hv.symm)
  | omissible => exact congrArg some (show none = v from hv.symm)

end Fields

theorem Row.mem_keys_of_mem_named
    {fs : List Field} {row : Row fs} {m : String × Tree}
    (hm : m ∈ Row.named fs row) :
    m.1 ∈ fs.map Field.key := by
  induction fs with
  | nil => cases hm
  | cons f fs ih =>
      obtain ⟨v, row⟩ := row
      rcases List.mem_append.mp hm with hown | hmore
      · obtain ⟨w, -, rfl⟩ :=
          Option.map_eq_some_iff.mp (Option.mem_toList.mp hown)
        exact List.mem_cons_self
      · exact List.mem_cons_of_mem _ (ih hmore)

/-- A row is found again among the members it is written as. -/
theorem rowOfMembers_named
    {inner : InnerDecoder} {fs : List Field} {row : Row fs}
    (hkeys : (fs.map Field.key).Nodup)
    (hrow : Row.All (fun s w => inner s (s.tree w) = some w) fs row) :
    rowOfMembers inner (Row.named fs row) fs = some row := by
  induction fs with
  | nil => rfl
  | cons f fs ih =>
      obtain ⟨v, row⟩ := row
      rw [List.map_cons, List.nodup_cons] at hkeys
      have hother : ∀ m ∈ Row.named fs row, m.1 ≠ f.key := by
        intro m hm heq
        exact hkeys.1 (heq ▸ Row.mem_keys_of_mem_named hm)
      refine pair_eq_some_iff.mpr ⟨?_, ?_⟩
      · have hnone : (Row.named fs row).filter (·.1 = f.key) = [] := by
          simpa [List.filter_eq_nil_iff] using hother
        cases hv : f.given v with
        | none =>
            simp only [Field.decodeAmong, Row.named, hv, Option.map_none,
              Option.toList_none, List.nil_append, hnone]
            exact Field.missing?_of_given_eq_none hv
        | some w =>
            simp only [Field.decodeAmong, Row.named, hv, Option.map_some,
              Option.toList_some, List.singleton_append, List.filter_cons,
              decide_true, if_true, hnone]
            exact Field.decode_of_given hv (hrow.1 w hv)
              (f.shape.tree_ne_null w)
      · have hrest : (Row.named (f :: fs) (v, row)).filter (·.1 ≠ f.key) =
            Row.named fs row := by
          have hself : (Row.named fs row).filter (·.1 ≠ f.key) =
              Row.named fs row :=
            List.filter_eq_self.mpr fun m hm => by simpa using hother m hm
          cases hv : f.given v <;> simpa [Row.named, hv] using hself
        rw [← rowOfMembers_filter_ne inner hkeys.1, hrest]
        exact ih hkeys.2 hrow.2

/-! ## Distinct keys -/

/-- No alias of the module is declared twice. -/
def NativeModule.KeysDistinct (m : NativeModule) : Prop :=
  m.aliases.KeysDistinct

/-- No module of the group and no alias of a module is declared twice. -/
def Group.KeysDistinct (g : Group) : Prop :=
  ∀ modules, g.nativeModules = some modules →
    modules.KeysDistinct ∧ ∀ e ∈ modules.entries, e.2.KeysDistinct

/-- No group, no module of a group and no alias of a module is declared
twice. -/
def Schema.KeysDistinct (s : Schema) : Prop :=
  s.groups.KeysDistinct ∧ ∀ e ∈ s.groups.entries, e.2.KeysDistinct

/-- The tables in a record have distinct keys. -/
def Record.KeysDistinct : (r : Record) → r.Val → Prop
  | schema, v => Schema.KeysDistinct v
  | group, v => Group.KeysDistinct v
  | nativeModule, v => NativeModule.KeysDistinct v
  | _, _ => True

/-- The tables in a value have distinct keys. -/
def Shape.KeysDistinct : (s : Shape) → s.Val → Prop
  | text, _ | flag, _ => True
  | record r, v => r.KeysDistinct v
  | list r, (vs : List r.Val) => ∀ v ∈ vs, r.KeysDistinct v
  | table r, (t : Table r.Val) =>
      t.KeysDistinct ∧ ∀ e ∈ t.entries, r.KeysDistinct e.2

theorem Record.KeysDistinct.all
    {r : Record} {v : r.Val} (hv : r.KeysDistinct v) :
    Row.All Shape.KeysDistinct r.fields (r.toRow v) := by
  cases r with
  | schema =>
      refine ⟨?_, trivial⟩
      rintro _ ⟨⟩
      exact hv
  | group => exact ⟨hv, trivial⟩
  | nativeModule =>
      refine ⟨?_, ?_, trivial⟩
      · rintro _ ⟨⟩
        exact ⟨hv, fun _ _ => trivial⟩
      · intro methods _ m _
        trivial
  | functionType =>
      exact ⟨fun _ _ => trivial, fun _ _ _ _ => trivial, fun _ _ => trivial,
        trivial⟩
  | typeExpr =>
      exact ⟨fun _ _ => trivial, fun _ _ => trivial, fun _ _ => trivial,
        fun _ _ _ _ => trivial, fun _ _ => trivial, trivial⟩
  | method => exact ⟨fun _ _ => trivial, fun _ _ => trivial, trivial⟩
  | param =>
      exact ⟨fun _ _ => trivial, fun _ _ => trivial, fun _ _ => trivial,
        trivial⟩
  | property =>
      exact ⟨fun _ _ => trivial, fun _ _ => trivial, fun _ _ => trivial,
        trivial⟩

theorem mapM_map_eq_some
    {α β : Type} {f : β → Option α} {g : α → β} {xs : List α}
    (h : ∀ x ∈ xs, f (g x) = some x) :
    (xs.map g).mapM f = some xs := by
  induction xs with
  | nil => rfl
  | cons x xs ih =>
      exact mapM_cons_eq_some_iff.mpr ⟨x, xs, h x List.mem_cons_self,
        ih fun y hy => h y (List.mem_cons_of_mem x hy), rfl⟩

/-- The tree of a value decodes to the value if there are levels for its
brackets. -/
theorem Shape.decode_tree
    (s : Shape) (v : s.Val) (hkeys : s.KeysDistinct v) (levels : Nat)
    (hlevels : (s.tree v).depth ≤ levels) :
    Shape.decode levels s (s.tree v) = some v := by
  induction s, v using Shape.val_induction generalizing levels with
  | text v => exact Shape.decode_textTree levels v
  | flag v =>
      cases levels with
      | zero => rfl
      | succ levels => rfl
  | list r vs ih =>
      obtain ⟨k, rfl, hitems⟩ := list_depth_le_iff.mp hlevels
      refine mapM_map_eq_some fun v hv => ?_
      exact ih v hv (hkeys v hv) k (hitems _ (List.mem_map_of_mem hv))
  | table r t ih =>
      rw [Shape.tree_table r t] at hlevels ⊢
      obtain ⟨k, rfl, hentries⟩ := objectTree_depth_le_iff.mp hlevels
      refine (Shape.decode_entries ?_).trans
        (congrArg some hkeys.1.ofList_entries)
      rw [List.forall₂_map_left_iff, List.forall₂_same]
      intro e he
      have hdepth := hentries _ (List.mem_map_of_mem he)
      exact ⟨rfl, ih e he (hkeys.2 e he) k hdepth⟩
  | record r v ih =>
      rw [Shape.tree_record r v] at hlevels ⊢
      obtain ⟨k, rfl, hfields⟩ := objectTree_depth_le_iff.mp hlevels
      have hdepth := (Row.forall_named_iff fun t => t.depth ≤ k).mp hfields
      have hdistinct : Row.All Shape.KeysDistinct r.fields (r.toRow v) :=
        Record.KeysDistinct.all hkeys
      have hrow := rowOfMembers_named r.nodup_keys
        (((ih.and hdistinct).and hdepth).imp fun s w h => h.1.1 h.1.2 k h.2)
      exact (Shape.decode_objectTree hrow).trans
        (congrArg some (r.ofRow_toRow v))

end NativeGlue.Raw
