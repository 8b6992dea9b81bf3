import NativeGlue.Proofs.Json.Respace
import NativeGlue.Proofs.Raw.Depth
import Mathlib.Logic.Relation

/-!
# Ways to write the same schema

Edits of a schema text that do not change what it says: the order of the members
of a record, members that no field has, a record as an object or as a list,
defaults that are written or left out, and blanks between tokens.  An edit may
be made anywhere, so it is a relation between trees that follows the declared
shapes down to a record.
-/

namespace NativeGlue.Raw

open Json

/-! ## Edits of trees -/

/-- The text that the key of a member spells. -/
def nameOf (m : Member) : Option String := (spelled? m.key).map String.ofList

@[simp] theorem nameOf_member (key : String) (value : Tree) :
    nameOf (member key value) = some key :=
  spelled?_pieces key

/-- The tree that says the same as leaving a field out of an object. -/
def Field.implied? : Field → Option Tree
  | ⟨_, _, .required⟩ => none
  | ⟨_, s, .defaulted⟩ => s.empty?.map s.tree
  | ⟨_, _, .optional⟩ => some .null
  | ⟨_, _, .omissible⟩ => some .null

/-- The tree of a field in an object: that of its only member, or the one that
says the same as leaving it out. -/
def Field.Stands (f : Field) (named : List (String × Tree)) (t : Tree) : Prop :=
  named.filter (·.1 = f.key) = [(f.key, t)] ∨
    named.filter (·.1 = f.key) = [] ∧ f.implied? = some t

/-- The second tree is the first one with one edit inside a value of the
shape. -/
inductive Edit : Shape → Tree → Tree → Prop
  /-- The members of a record change places. -/
  | permute {r : Record} {ms ms' : List Member} :
      ms.Perm ms' → Edit (.record r) (.object ms) (.object ms')
  /-- A record gets a member that none of its fields has. -/
  | insert {r : Record} {ms ms' : List Member} {m : Member} {name : String} :
      nameOf m = some name → name ∉ r.fields.map Field.key →
      Edit (.record r) (.object (ms ++ ms')) (.object (ms ++ m :: ms'))
  /-- A field of a record that was left out is written. -/
  | write {r : Record} {f : Field} {ms ms' : List Member} {m : Member} :
      f ∈ r.fields → nameOf m = some f.key → f.implied? = some m.value →
      (∀ m' ∈ ms ++ ms', nameOf m' ≠ some f.key) →
      Edit (.record r) (.object (ms ++ ms')) (.object (ms ++ m :: ms'))
  /-- A record becomes the list of all its fields. -/
  | spread {r : Record} {ms : List Member} {named : List (String × Tree)}
      {items : List Tree} :
      namedMembers ms = some named →
      List.Forall₂ (fun f t => f.Stands named t) r.fields items →
      Edit (.record r) (.object ms) (.list items)
  /-- An edit in a field of a record. -/
  | inField {r : Record} {f : Field} {ms ms' : List Member} {key : List Piece}
      {t t' : Tree} :
      f ∈ r.fields → nameOf ⟨key, t⟩ = some f.key → Edit f.shape t t' →
      Edit (.record r) (.object (ms ++ ⟨key, t⟩ :: ms'))
        (.object (ms ++ ⟨key, t'⟩ :: ms'))
  /-- An edit in a field of a record that is written as a list. -/
  | inItem {r : Record} {f : Field} {items items' : List Tree} {t t' : Tree} :
      r.fields[items.length]? = some f → Edit f.shape t t' →
      Edit (.record r) (.list (items ++ t :: items'))
        (.list (items ++ t' :: items'))
  /-- An edit in a record of a list. -/
  | inList {r : Record} {items items' : List Tree} {t t' : Tree} :
      Edit (.record r) t t' →
      Edit (.list r) (.list (items ++ t :: items'))
        (.list (items ++ t' :: items'))
  /-- An edit in a record of a table. -/
  | inTable {r : Record} {ms ms' : List Member} {key : List Piece}
      {t t' : Tree} :
      Edit (.record r) t t' →
      Edit (.table r) (.object (ms ++ ⟨key, t⟩ :: ms'))
        (.object (ms ++ ⟨key, t'⟩ :: ms'))

theorem Edit.ne_null {s : Shape} {t t' : Tree} (h : Edit s t t') :
    t ≠ .null ∧ t' ≠ .null := by
  cases h <;> exact ⟨nofun, nofun⟩

/-! ## The fields of an edited object -/

section Fields

variable {inner : InnerDecoder}

theorem rowOfMembers_congr
    {fs : List Field} {named named' : List (String × Tree)}
    (h : ∀ f ∈ fs, f.decodeAmong inner named = f.decodeAmong inner named') :
    rowOfMembers inner named fs = rowOfMembers inner named' fs := by
  induction fs with
  | nil => rfl
  | cons f fs ih =>
      rw [rowOfMembers, rowOfMembers, h f List.mem_cons_self,
        ih fun g hg => h g (List.mem_cons_of_mem f hg)]

theorem Field.decodeAmong_of_filter_eq
    {f : Field} {named named' : List (String × Tree)}
    (h : named.filter (·.1 = f.key) = named'.filter (·.1 = f.key)) :
    f.decodeAmong inner named = f.decodeAmong inner named' := by
  rw [Field.decodeAmong, Field.decodeAmong, h]

theorem Field.decodeAmong_perm
    {f : Field} {named named' : List (String × Tree)} (h : named.Perm named') :
    f.decodeAmong inner named = f.decodeAmong inner named' := by
  have hfilter := h.filter (·.1 = f.key)
  rw [Field.decodeAmong, Field.decodeAmong]
  generalize named.filter (·.1 = f.key) = found at hfilter
  generalize named'.filter (·.1 = f.key) = found' at hfilter
  rcases found with _ | ⟨m, _ | ⟨m', more⟩⟩
  · rw [List.nil_perm.mp hfilter]
  · rw [List.singleton_perm.mp hfilter]
  -- Two members or more are refused in any order.
  · have hlength := hfilter.length_eq
    rcases found' with _ | ⟨n, _ | ⟨n', more'⟩⟩
    · simp at hlength
    · simp at hlength
    · rfl

theorem filter_insert_of_ne
    {named named' : List (String × Tree)} {m : String × Tree} {key : String}
    (hm : m.1 ≠ key) :
    (named ++ m :: named').filter (·.1 = key) =
      (named ++ named').filter (·.1 = key) := by
  rw [List.filter_append, List.filter_append,
    List.filter_cons_of_neg (by simpa using hm)]

theorem filter_insert_of_eq
    {named named' : List (String × Tree)} {m : String × Tree} {key : String}
    (hm : m.1 = key) (hnone : (named ++ named').filter (·.1 = key) = []) :
    (named ++ m :: named').filter (·.1 = key) = [m] := by
  rw [List.filter_append, List.append_eq_nil_iff] at hnone
  rw [List.filter_append, List.filter_cons_of_pos (by simpa using hm),
    hnone.1, hnone.2]
  rfl

theorem Field.decode_congr
    {f : Field} {t t' : Tree} (h : inner f.shape t = inner f.shape t')
    (ht : t ≠ .null) (ht' : t' ≠ .null) :
    f.decode inner t = f.decode inner t' := by
  obtain ⟨key, s, presence⟩ := f
  have hnullable :
      decodeNullable (inner s) t = decodeNullable (inner s) t' := by
    rw [decodeNullable_of_ne_null ht, decodeNullable_of_ne_null ht']
    exact congrArg (Option.map some) h
  cases presence with
  | required => exact h
  | defaulted => exact h
  | optional => exact hnullable
  | omissible => exact hnullable

theorem Record.eq_of_key_eq
    {r : Record} {f g : Field} (hf : f ∈ r.fields) (hg : g ∈ r.fields)
    (hkey : f.key = g.key) :
    f = g :=
  List.inj_on_of_nodup_map r.nodup_keys hf hg hkey

/-- A field's member is replaced by one that decodes to the same. -/
theorem Field.decodeAmong_replace
    {f : Field} {named named' : List (String × Tree)} {t t' : Tree}
    (h : f.decode inner t = f.decode inner t') :
    f.decodeAmong inner (named ++ (f.key, t) :: named') =
      f.decodeAmong inner (named ++ (f.key, t') :: named') := by
  simp only [Field.decodeAmong, List.filter_append, List.filter_cons,
    decide_true, if_true]
  generalize named.filter (·.1 = f.key) = before
  generalize named'.filter (·.1 = f.key) = after
  rcases before with _ | ⟨m, before⟩
  · rcases after with _ | ⟨n, after⟩
    · exact h
    · rfl
  · cases before <;> rfl

end Fields

/-! ## The members of an edited object -/

section Members

variable {R : List (String × Tree) → List (String × Tree) → Prop}

theorem bind_eq_of_rel
    {α β γ : Type} {R : α → β → Prop} {x : Option α} {y : Option β}
    {f : α → Option γ} {g : β → Option γ} (h : Option.Rel R x y)
    (hfg : ∀ a b, R a b → f a = g b) :
    x.bind f = y.bind g := by
  cases h with
  | some hab => exact hfg _ _ hab
  | none => rfl

theorem rel_imp
    {α β : Type} {R S : α → β → Prop} {x : Option α} {y : Option β}
    (h : Option.Rel R x y) (himp : ∀ a b, R a b → S a b) :
    Option.Rel S x y := by
  cases h with
  | some hab => exact Option.Rel.some (himp _ _ hab)
  | none => exact Option.Rel.none

theorem namedMembers_append (ms ms' : List Member) :
    namedMembers (ms ++ ms') =
      (namedMembers ms).bind fun named =>
        (namedMembers ms').map fun named' => named ++ named' := by
  have happend : namedMembers (ms ++ ms') = (do
      let named ← namedMembers ms
      let named' ← namedMembers ms'
      pure (named ++ named')) := List.mapM_append
  rw [happend]
  cases namedMembers ms <;> cases namedMembers ms' <;> rfl

theorem namedMembers_cons
    {m : Member} {name : String} (hm : nameOf m = some name)
    (ms : List Member) :
    namedMembers (m :: ms) =
      (namedMembers ms).map fun named => (name, m.value) :: named := by
  cases hms : namedMembers ms with
  | none =>
      refine Option.eq_none_iff_forall_ne_some.mpr fun named hnamed => ?_
      obtain ⟨_, more, -, hmore, -⟩ := namedMembers_cons_eq_some_iff.mp hnamed
      cases hms.symm.trans hmore
  | some named =>
      exact namedMembers_cons_eq_some_iff.mpr ⟨name, named, hm, hms, rfl⟩

/-- The named members before and after a place in an object. -/
theorem rel_namedMembers_append {ms ms₁ ms₂ : List Member}
    (h : ∀ named, namedMembers ms = some named →
      Option.Rel (fun named₁ named₂ => R (named ++ named₁) (named ++ named₂))
        (namedMembers ms₁) (namedMembers ms₂)) :
    Option.Rel R (namedMembers (ms ++ ms₁)) (namedMembers (ms ++ ms₂)) := by
  rw [namedMembers_append, namedMembers_append]
  cases hms : namedMembers ms with
  | none => exact Option.Rel.none
  | some named =>
      specialize h named hms
      generalize namedMembers ms₁ = x at h
      generalize namedMembers ms₂ = y at h
      cases h with
      | none => exact Option.Rel.none
      | some hR => exact Option.Rel.some hR

theorem rel_namedMembers_insert
    {ms ms' : List Member} {m : Member} {name : String}
    (hm : nameOf m = some name)
    (h : ∀ named named',
      namedMembers ms = some named → namedMembers ms' = some named' →
      R (named ++ named') (named ++ (name, m.value) :: named')) :
    Option.Rel R (namedMembers (ms ++ ms'))
      (namedMembers (ms ++ m :: ms')) := by
  refine rel_namedMembers_append fun named hnamed => ?_
  rw [namedMembers_cons hm]
  cases hms' : namedMembers ms' with
  | none => exact Option.Rel.none
  | some named' => exact Option.Rel.some (h named named' hnamed hms')

theorem rel_namedMembers_replace
    {ms ms' : List Member} {key : List Piece} {t t' : Tree}
    (h : ∀ named named' name, nameOf ⟨key, t⟩ = some name →
      R (named ++ (name, t) :: named') (named ++ (name, t') :: named')) :
    Option.Rel R (namedMembers (ms ++ ⟨key, t⟩ :: ms'))
      (namedMembers (ms ++ ⟨key, t'⟩ :: ms')) := by
  refine rel_namedMembers_append fun named _ => ?_
  cases hname : nameOf ⟨key, t⟩ with
  | none =>
      have hnone (u : Tree) : namedMembers (⟨key, u⟩ :: ms') = none := by
        refine Option.eq_none_iff_forall_ne_some.mpr fun named hnamed => ?_
        obtain ⟨name, -, hkey, -, -⟩ := namedMembers_cons_eq_some_iff.mp hnamed
        cases hname.symm.trans hkey
      rw [hnone t, hnone t']
      exact Option.Rel.none
  | some name =>
      have hname' : nameOf ⟨key, t'⟩ = some name := hname
      rw [namedMembers_cons hname, namedMembers_cons hname']
      cases namedMembers ms' with
      | none => exact Option.Rel.none
      | some named' => exact Option.Rel.some (h named named' name hname)

theorem rel_mapM_perm
    {α β : Type} {f : α → Option β} {xs ys : List α} (h : xs.Perm ys) :
    Option.Rel List.Perm (xs.mapM f) (ys.mapM f) := by
  induction h with
  | nil => exact Option.Rel.some (List.Perm.refl _)
  | @cons x xs ys _ ih =>
      simp only [List.mapM_cons]
      cases f x with
      | none => exact Option.Rel.none
      | some b =>
          generalize xs.mapM f = u at ih
          generalize ys.mapM f = v at ih
          cases ih with
          | none => exact Option.Rel.none
          | some hperm => exact Option.Rel.some (hperm.cons b)
  | swap x y xs =>
      simp only [List.mapM_cons]
      cases f x <;> cases f y <;> cases xs.mapM f
      case some.some.some a b zs =>
        exact Option.Rel.some (List.Perm.swap a b zs)
      all_goals exact Option.Rel.none
  | @trans xs ys zs _ _ ih₁ ih₂ =>
      generalize xs.mapM f = u at ih₁
      generalize ys.mapM f = v at ih₁ ih₂
      generalize zs.mapM f = w at ih₂
      cases ih₁ with
      | none => exact ih₂
      | some h₁ =>
          cases ih₂ with
          | some h₂ => exact Option.Rel.some (h₁.trans h₂)

theorem filter_eq_nil_of_nameOf
    {ms : List Member} {named : List (String × Tree)}
    (h : namedMembers ms = some named) {key : String}
    (hkey : ∀ m ∈ ms, nameOf m ≠ some key) :
    named.filter (·.1 = key) = [] := by
  refine List.filter_eq_nil_iff.mpr fun m hm heq => ?_
  obtain ⟨m', hm', hnamed⟩ := exists_of_mem_mapM h hm
  obtain ⟨chars, hchars, rfl⟩ := Option.map_eq_some_iff.mp hnamed
  obtain rfl : String.ofList chars = key := of_decide_eq_true heq
  exact hkey m' hm' (Option.map_eq_some_iff.mpr ⟨chars, hchars, rfl⟩)

end Members

/-! ## Edits do not change what is decoded -/

theorem Shape.keysDistinct_of_empty?
    {s : Shape} {w : s.Val} (hw : s.empty? = some w) :
    s.KeysDistinct w := by
  cases s with
  | text => trivial
  | flag => trivial
  | record => cases hw
  | list r =>
      obtain rfl := Option.some.inj hw
      exact fun _ hv => absurd hv List.not_mem_nil
  | table r =>
      obtain rfl := Option.some.inj hw
      exact ⟨List.nodup_nil, fun _ he => absurd he List.not_mem_nil⟩

/-- A default or a null that is written says the same as leaving the field
out. -/
theorem Record.decode_implied
    {r : Record} {levels : Nat} (hr : r.reserve ≤ levels + 1) {f : Field}
    (hf : f ∈ r.fields) {t : Tree} (ht : f.implied? = some t) :
    f.decode (Shape.decode levels) t = f.missing? := by
  have hdepth {v : f.Val} {w : f.shape.Val} :=
    r.depth_missing_le hr hf (v := v) (w := w)
  obtain ⟨key, s, presence⟩ := f
  cases presence with
  | required => cases ht
  | defaulted =>
      obtain ⟨w, hw, rfl⟩ := Option.map_eq_some_iff.mp ht
      have hlevels : (s.tree w).depth ≤ levels := hdepth (v := w) hw rfl
      exact (s.decode_tree w (Shape.keysDistinct_of_empty? hw)
        levels hlevels).trans hw.symm
  | optional =>
      obtain rfl := Option.some.inj ht
      rfl
  | omissible =>
      obtain rfl := Option.some.inj ht
      rfl

theorem rowOfItems_replace
    {inner : InnerDecoder} {fs : List Field} {f : Field}
    {items items' : List Tree} {t t' : Tree} (hf : fs[items.length]? = some f)
    (h : f.decode inner t = f.decode inner t') :
    rowOfItems inner fs (items ++ t :: items') =
      rowOfItems inner fs (items ++ t' :: items') := by
  induction items generalizing fs with
  | nil =>
      cases fs with
      | nil => cases hf
      | cons g fs =>
          obtain rfl : g = f := by simpa using hf
          rw [List.nil_append, List.nil_append, rowOfItems, rowOfItems, h]
  | cons u items ih =>
      cases fs with
      | nil => cases hf
      | cons g fs =>
          have hmore : fs[items.length]? = some f := by simpa using hf
          rw [List.cons_append, List.cons_append, rowOfItems, rowOfItems,
            ih hmore]

theorem rowOfMembers_eq_rowOfItems
    {inner : InnerDecoder} {fs : List Field} {named : List (String × Tree)}
    {items : List Tree}
    (himplied : ∀ f ∈ fs, ∀ t, f.implied? = some t →
      f.decode inner t = f.missing?)
    (h : List.Forall₂ (fun f t => f.Stands named t) fs items) :
    rowOfMembers inner named fs = rowOfItems inner fs items := by
  induction h with
  | nil => rfl
  | @cons f t fs items hf _ ih =>
      have hvalue : f.decodeAmong inner named = f.decode inner t := by
        rcases hf with hone | ⟨hnone, ht⟩
        · simp only [Field.decodeAmong, hone]
        · simp only [Field.decodeAmong, hnone]
          exact (himplied f List.mem_cons_self t ht).symm
      rw [rowOfMembers, rowOfItems, hvalue,
        ih fun g hg => himplied g (List.mem_cons_of_mem f hg)]

theorem mapM_replace {α β : Type} {f : α → Option β} {xs xs' : List α} {x y : α}
    (h : f x = f y) : (xs ++ x :: xs').mapM f = (xs ++ y :: xs').mapM f := by
  rw [List.mapM_append, List.mapM_append, List.mapM_cons, List.mapM_cons, h]

section Decoded

variable {levels : Nat} {r : Record}

theorem decode_object (ms : List Member) :
    Shape.decode (levels + 1) (.record r) (.object ms) =
      (namedMembers ms).bind fun named =>
        (rowOfMembers (Shape.decode levels) named r.fields).bind fun row =>
          some (r.ofRow row) :=
  rfl

theorem decode_list (items : List Tree) :
    Shape.decode (levels + 1) (.record r) (.list items) =
      (rowOfItems (Shape.decode levels) r.fields items).bind fun row =>
        some (r.ofRow row) :=
  rfl

/-- The entries of a table from the members of an object. -/
def decodeEntries
    (inner : InnerDecoder) (r : Record) (named : List (String × Tree)) :
    Option (List (String × r.Val)) :=
  named.mapM fun m => (inner (.record r) m.2).map fun value => (m.1, value)

theorem decode_table (ms : List Member) :
    Shape.decode (levels + 1) (.table r) (.object ms) =
      (namedMembers ms).bind fun named =>
        (decodeEntries (Shape.decode levels) r named).bind fun entries =>
          some (Table.ofList entries) :=
  rfl

/-- Objects with the same fields decode to the same record. -/
theorem decode_object_congr
    {ms ms' : List Member}
    (h : Option.Rel (fun named named' => ∀ f ∈ r.fields,
        f.decodeAmong (Shape.decode levels) named =
          f.decodeAmong (Shape.decode levels) named')
      (namedMembers ms) (namedMembers ms')) :
    Shape.decode (levels + 1) (.record r) (.object ms) =
      Shape.decode (levels + 1) (.record r) (.object ms') := by
  rw [decode_object, decode_object]
  refine bind_eq_of_rel h fun named named' hfields => ?_
  rw [rowOfMembers_congr hfields]

theorem decode_permute {ms ms' : List Member} (h : ms.Perm ms') :
    Shape.decode (levels + 1) (.record r) (.object ms) =
      Shape.decode (levels + 1) (.record r) (.object ms') := by
  have hnamed : Option.Rel List.Perm (namedMembers ms) (namedMembers ms') :=
    rel_mapM_perm h
  exact decode_object_congr (rel_imp hnamed fun _ _ hperm f _ =>
    Field.decodeAmong_perm hperm)

theorem decode_insert {ms ms' : List Member} {m : Member} {name : String}
    (hname : nameOf m = some name) (hfresh : name ∉ r.fields.map Field.key) :
    Shape.decode (levels + 1) (.record r) (.object (ms ++ ms')) =
      Shape.decode (levels + 1) (.record r) (.object (ms ++ m :: ms')) := by
  refine decode_object_congr
    (rel_namedMembers_insert hname fun named named' _ _ f hf => ?_)
  have hne : name ≠ f.key := fun heq => hfresh (heq ▸ List.mem_map_of_mem hf)
  exact (Field.decodeAmong_of_filter_eq (filter_insert_of_ne hne)).symm

theorem decode_write
    (hr : r.reserve ≤ levels + 1) {f : Field} {ms ms' : List Member}
    {m : Member} (hf : f ∈ r.fields) (hname : nameOf m = some f.key)
    (himplied : f.implied? = some m.value)
    (hfresh : ∀ m' ∈ ms ++ ms', nameOf m' ≠ some f.key) :
    Shape.decode (levels + 1) (.record r) (.object (ms ++ ms')) =
      Shape.decode (levels + 1) (.record r) (.object (ms ++ m :: ms')) := by
  refine decode_object_congr
    (rel_namedMembers_insert hname fun named named' h h' g hg => ?_)
  by_cases hkey : f.key = g.key
  · obtain rfl := Record.eq_of_key_eq hf hg hkey
    have hnamed : namedMembers (ms ++ ms') = some (named ++ named') := by
      rw [namedMembers_append, h, h']
      rfl
    have hnone := filter_eq_nil_of_nameOf hnamed hfresh
    have hone : (named ++ (f.key, m.value) :: named').filter (·.1 = f.key) =
        [(f.key, m.value)] := filter_insert_of_eq rfl hnone
    simp only [Field.decodeAmong, hnone, hone]
    exact (r.decode_implied hr hf himplied).symm
  · exact (Field.decodeAmong_of_filter_eq (filter_insert_of_ne hkey)).symm

theorem decode_spread
    (hr : r.reserve ≤ levels + 1) {ms : List Member}
    {named : List (String × Tree)} {items : List Tree}
    (hnamed : namedMembers ms = some named)
    (hitems : List.Forall₂ (fun f t => f.Stands named t) r.fields items) :
    Shape.decode (levels + 1) (.record r) (.object ms) =
      Shape.decode (levels + 1) (.record r) (.list items) := by
  have hrow := rowOfMembers_eq_rowOfItems
    (fun f hf t ht => r.decode_implied hr hf ht) hitems
  rw [decode_object, decode_list, hnamed, Option.bind_some, hrow]

theorem decode_inField
    {f : Field} {ms ms' : List Member} {key : List Piece} {t t' : Tree}
    (hf : f ∈ r.fields) (hname : nameOf ⟨key, t⟩ = some f.key)
    (h : f.decode (Shape.decode levels) t = f.decode (Shape.decode levels) t') :
    Shape.decode (levels + 1) (.record r) (.object (ms ++ ⟨key, t⟩ :: ms')) =
      Shape.decode (levels + 1) (.record r)
        (.object (ms ++ ⟨key, t'⟩ :: ms')) := by
  refine decode_object_congr
    (rel_namedMembers_replace fun named named' name hkey g hg => ?_)
  obtain rfl : f.key = name := Option.some.inj (hname.symm.trans hkey)
  by_cases hgf : f.key = g.key
  · obtain rfl := Record.eq_of_key_eq hf hg hgf
    exact Field.decodeAmong_replace h
  · refine Field.decodeAmong_of_filter_eq ?_
    rw [filter_insert_of_ne hgf, filter_insert_of_ne hgf]

theorem decode_inItem
    {f : Field} {items items' : List Tree} {t t' : Tree}
    (hf : r.fields[items.length]? = some f)
    (h : f.decode (Shape.decode levels) t = f.decode (Shape.decode levels) t') :
    Shape.decode (levels + 1) (.record r) (.list (items ++ t :: items')) =
      Shape.decode (levels + 1) (.record r)
        (.list (items ++ t' :: items')) := by
  rw [decode_list, decode_list, rowOfItems_replace hf h]

theorem decode_inTable
    {ms ms' : List Member} {key : List Piece} {t t' : Tree}
    (h : Shape.decode levels (.record r) t =
      Shape.decode levels (.record r) t') :
    Shape.decode (levels + 1) (.table r) (.object (ms ++ ⟨key, t⟩ :: ms')) =
      Shape.decode (levels + 1) (.table r)
        (.object (ms ++ ⟨key, t'⟩ :: ms')) := by
  have hentries :
      Option.Rel (fun named named' =>
          decodeEntries (Shape.decode levels) r named =
            decodeEntries (Shape.decode levels) r named')
        (namedMembers (ms ++ ⟨key, t⟩ :: ms'))
        (namedMembers (ms ++ ⟨key, t'⟩ :: ms')) :=
    rel_namedMembers_replace fun named named' name _ =>
      mapM_replace (congrArg (Option.map fun value => (name, value)) h)
  rw [decode_table, decode_table]
  refine bind_eq_of_rel hentries fun named named' heq => ?_
  rw [heq]

end Decoded

/-- An edit does not change what a tree decodes to. -/
theorem Edit.decode_eq
    {s : Shape} {t t' : Tree} (h : Edit s t t') {levels : Nat}
    (hs : s.Fits levels) :
    Shape.decode levels s t = Shape.decode levels s t' := by
  -- Edited trees have brackets, so without a level both are refused.
  induction h generalizing levels with
  | permute hperm =>
      cases levels with
      | zero => rfl
      | succ levels => exact decode_permute hperm
  | insert hname hfresh =>
      cases levels with
      | zero => rfl
      | succ levels => exact decode_insert hname hfresh
  | write hf hname himplied hfresh =>
      cases levels with
      | zero => rfl
      | succ levels => exact decode_write hs hf hname himplied hfresh
  | spread hnamed hitems =>
      cases levels with
      | zero => rfl
      | succ levels => exact decode_spread hs hnamed hitems
  | inField hf hname hedit ih =>
      cases levels with
      | zero => rfl
      | succ levels =>
          have hinner := ih (Record.fits_of_mem_fields hs hf)
          have hvalue :=
            Field.decode_congr hinner hedit.ne_null.1 hedit.ne_null.2
          exact decode_inField hf hname hvalue
  | inItem hf hedit ih =>
      cases levels with
      | zero => rfl
      | succ levels =>
          have hinner :=
            ih (Record.fits_of_mem_fields hs (List.mem_of_getElem? hf))
          have hvalue :=
            Field.decode_congr hinner hedit.ne_null.1 hedit.ne_null.2
          exact decode_inItem hf hvalue
  | inList hedit ih =>
      cases levels with
      | zero => rfl
      | succ levels => exact mapM_replace (ih hs)
  | inTable hedit ih =>
      cases levels with
      | zero => rfl
      | succ levels => exact decode_inTable (ih hs)

/-! ## Edits of texts -/

/-- One edit of a schema text: an edit of its tree made or undone, or other
blanks between its tokens. -/
inductive TextEdit : String → String → Prop
  | made {text text' : String} {t t' : Tree} :
      SpellsText text.toList t → SpellsText text'.toList t' →
      Edit (.record .schema) t t' → TextEdit text text'
  | undone {text text' : String} {t t' : Tree} :
      SpellsText text.toList t → SpellsText text'.toList t' →
      Edit (.record .schema) t' t → TextEdit text text'
  | respaced {text text' : String} :
      Respaced text.toList text'.toList → TextEdit text text'

theorem TextEdit.exists_decode_eq
    {text text' : String} (h : TextEdit text text') {t : Tree}
    (ht : SpellsText text.toList t) :
    ∃ t', SpellsText text'.toList t' ∧
      Shape.decode maxLevels (.record .schema) t =
        Shape.decode maxLevels (.record .schema) t' := by
  cases h with
  | made hu hu' hedit =>
      obtain rfl := ht.unique hu
      exact ⟨_, hu', hedit.decode_eq fits_schema⟩
  | undone hu hu' hedit =>
      obtain rfl := ht.unique hu
      exact ⟨_, hu', (hedit.decode_eq fits_schema).symm⟩
  | respaced hspace => exact ⟨t, ht.of_respaced hspace, rfl⟩

theorem TextEdit.parse_eq_ok
    {text text' : String} (h : TextEdit text text') {r : Schema}
    (hr : Schema.parse text = .ok r) :
    Schema.parse text' = .ok r := by
  obtain ⟨t, ht, hdecode⟩ := Shape.parse_eq_ok_iff.mp hr
  obtain ⟨t', ht', heq⟩ := h.exists_decode_eq ht
  exact Shape.parse_eq_ok_iff.mpr ⟨t', ht', heq ▸ hdecode⟩

/-- The way a schema is written is irrelevant: an accepted text is some tokens
with blanks around them, and after any sequence of edits it is still accepted,
with the same result. -/
theorem Schema.parse_eq_ok_of_edits
    {text : String} {r : Schema} (hr : Schema.parse text = .ok r) :
    (∃ tokens, Laid tokens text.toList) ∧
      ∀ text', Relation.ReflTransGen TextEdit text text' →
        Schema.parse text' = .ok r := by
  constructor
  · obtain ⟨t, ht, -⟩ := Shape.parse_eq_ok_iff.mp hr
    obtain ⟨tokens, hlaid, -⟩ := ht.exists_laid
    exact ⟨tokens, hlaid⟩
  · intro text' hedits
    induction hedits with
    | refl => exact hr
    | tail _ hedit ih => exact hedit.parse_eq_ok ih

/-- The groups of a schema whose one alias has a type with the given tree. -/
def aliasGroups (type : Tree) : Tree :=
  objectTree [("g", objectTree [("nativeModules", objectTree [("Clock",
    objectTree
      [("aliases", objectTree [("At", type)]), ("properties", .list [])])])])]

/-- A schema whose one alias has a type with the given tree. -/
def aliasTree (type : Tree) : Tree := objectTree [("modules", aliasGroups type)]

theorem spells_print_aliasGroups {type : Tree} (h : Spells type.print type) :
    Spells (aliasGroups type).print (aliasGroups type) := by
  have hmethods : Spells (Tree.list []).print (.list []) :=
    spells_print_list fun _ ht => absurd ht List.not_mem_nil
  have haliases := spells_print_objectTree_singleton "At" h
  refine spells_print_objectTree_singleton _
    (spells_print_objectTree_singleton _
      (spells_print_objectTree_singleton _ (spells_print_objectTree ?_)))
  exact List.forall_mem_cons.mpr
    ⟨haliases, List.forall_mem_singleton.mpr hmethods⟩

theorem spells_print_aliasTree {type : Tree} (h : Spells type.print type) :
    Spells (aliasTree type).print (aliasTree type) :=
  spells_print_objectTree_singleton _ (spells_print_aliasGroups h)

/-- An edit inside the only entry of a table that is the first member of a
record. -/
theorem Edit.inEntry
    {r r' : Record} {key : String} {presence : Presence}
    (hf : ⟨key, .table r', presence⟩ ∈ r.fields) (name : String)
    (rest : List (String × Tree)) {t t' : Tree} (h : Edit (.record r') t t') :
    Edit (.record r) (objectTree ((key, objectTree [(name, t)]) :: rest))
      (objectTree ((key, objectTree [(name, t')]) :: rest)) := by
  have htable : Edit (.table r') (objectTree [(name, t)])
      (objectTree [(name, t')]) :=
    @Edit.inTable r' [] [] (pieces name) t t' h
  exact @Edit.inField r _ [] (rest.map fun m => member m.1 m.2) (pieces key)
    _ _ hf (spelled?_pieces key) htable

theorem Edit.inAlias {t t' : Tree} (h : Edit (.record .typeExpr) t t') :
    Edit (.record .schema) (aliasTree t) (aliasTree t') := by
  have hmodule := @Edit.inEntry .nativeModule .typeExpr _ _ List.mem_cons_self
    "At" [("properties", .list [])] _ _ h
  have hgroup := @Edit.inEntry .group .nativeModule _ _ List.mem_cons_self
    "Clock" [] _ _ hmodule
  exact @Edit.inEntry .schema .group _ _ List.mem_cons_self "g" [] _ _ hgroup

/-- The members of the type, as far as a text has them. -/
def tagMember : String × Tree := ("type", textTree "DoubleTypeAnnotation")

def flagMember : String × Tree := ("nullable", .boolean false)

def surplusMember : String × Tree := ("ü", .list [.null])

/-- The schema with the given members of the type. -/
def typeText (ms : List (String × Tree)) : String :=
  String.ofList (aliasTree (objectTree ms)).print

/-- The fields of the type as a list. -/
def listedType : Tree :=
  .list [textTree "DoubleTypeAnnotation", .boolean false, .null, .null, .null]

/-- The schema and the type as lists, with blanks at two places. -/
def listedText : String :=
  " [\n\t\x7b\"g\":\x7b\"nativeModules\":\x7b\"Clock\":\x7b\"aliases\":" ++
    "\x7b\"At\":[\"DoubleTypeAnnotation\",false,null,null,null]\x7d," ++
    "\"properties\":[]\x7d\x7d\x7d\x7d]"

theorem spellsText_typeText
    {ms : List (String × Tree)}
    (hms : ms ⊆ [tagMember, flagMember, surplusMember]) :
    SpellsText (typeText ms).toList (aliasTree (objectTree ms)) := by
  refine spellsText_ofList_print
    (spells_print_aliasTree (spells_print_objectTree ?_))
  intro m hm
  have hmember := hms hm
  simp only [List.mem_cons, List.not_mem_nil, or_false] at hmember
  rcases hmember with rfl | rfl | rfl
  · exact Shape.spells_print_tree .text "DoubleTypeAnnotation"
  · exact Spells.false
  · exact spells_print_list (List.forall_mem_singleton.mpr Spells.null)

theorem edit_write_flag
    {ms ms' : List (String × Tree)} (hms : ∀ m ∈ ms ++ ms', m.1 ≠ "nullable") :
    Edit (.record .typeExpr) (objectTree (ms ++ ms'))
      (objectTree (ms ++ flagMember :: ms')) := by
  have hflag :
      (⟨"nullable", .flag, .defaulted⟩ : Field) ∈ Record.fields .typeExpr := by
    decide
  rw [objectTree, objectTree, List.map_append, List.map_append, List.map_cons]
  refine Edit.write hflag (nameOf_member "nullable" _) rfl ?_
  rw [← List.map_append]
  intro m hm
  obtain ⟨named, hnamed, rfl⟩ := List.mem_map.mp hm
  rw [nameOf_member]
  exact fun h => hms named hnamed (Option.some.inj h)

/-- The flag is left out, an unknown member is inserted, the flag is written at
another place, and the members change places. -/
theorem edits_typeText :
    TextEdit (typeText [tagMember, flagMember]) (typeText [tagMember]) ∧
    Relation.ReflTransGen TextEdit (typeText [tagMember])
      (typeText [surplusMember, tagMember, flagMember]) := by
  have htag := @spellsText_typeText [tagMember] (by simp)
  have hinserted := @spellsText_typeText [tagMember, surplusMember] (by simp)
  have hwritten := @spellsText_typeText [flagMember, tagMember, surplusMember]
    (by simp)
  have hpermuted := @spellsText_typeText [surplusMember, tagMember, flagMember]
    (by simp)
  constructor
  · have hwrite := @edit_write_flag [tagMember] [] (by simp [tagMember])
    exact TextEdit.undone (spellsText_typeText (by simp)) htag hwrite.inAlias
  · have hinsert : Edit (.record .typeExpr) (objectTree [tagMember])
        (objectTree [tagMember, surplusMember]) :=
      @Edit.insert .typeExpr [_] [] _ _ (nameOf_member "ü" _) (by decide)
    have hwrite := @edit_write_flag [] [tagMember, surplusMember]
      (by simp [tagMember, surplusMember])
    have hpermute : Edit (.record .typeExpr)
        (objectTree [flagMember, tagMember, surplusMember])
        (objectTree [surplusMember, tagMember, flagMember]) :=
      Edit.permute (List.reverse_perm _).symm
    have hfirst := Relation.ReflTransGen.single
      (TextEdit.made htag hinserted hinsert.inAlias)
    have hsecond :=
      hfirst.tail (TextEdit.made hinserted hwritten hwrite.inAlias)
    exact hsecond.tail (TextEdit.made hwritten hpermuted hpermute.inAlias)

/-- The type and the schema become the lists of their fields, and get other
blanks. -/
theorem edits_listedText :
    Relation.ReflTransGen TextEdit
      (typeText [surplusMember, tagMember, flagMember])
      listedText := by
  have htype : Spells listedType.print listedType := by
    refine spells_print_list fun t ht => ?_
    simp only [List.mem_cons, List.not_mem_nil, or_false] at ht
    rcases ht with rfl | rfl | rfl | rfl | rfl
    · exact Shape.spells_print_tree .text "DoubleTypeAnnotation"
    · exact Spells.false
    all_goals exact Spells.null
  have hgroups := spells_print_aliasGroups htype
  have hlist : Spells (Tree.list [aliasGroups listedType]).print
      (.list [aliasGroups listedType]) :=
    spells_print_list (List.forall_mem_singleton.mpr hgroups)
  have hspread : Edit (.record .typeExpr)
      (objectTree [surplusMember, tagMember, flagMember]) listedType :=
    Edit.spread (namedMembers_map_member _)
      (.cons (Or.inl rfl) (.cons (Or.inl rfl) (.cons (Or.inr ⟨rfl, rfl⟩)
        (.cons (Or.inr ⟨rfl, rfl⟩) (.cons (Or.inr ⟨rfl, rfl⟩) .nil)))))
  have hschema : Edit (.record .schema) (aliasTree listedType)
      (.list [aliasGroups listedType]) :=
    Edit.spread (namedMembers_map_member _) (.cons (Or.inl rfl) .nil)
  have hlaid : listedText.toList = [' '] ++ ['['] ++
      (['\n', '\t'] ++ ((aliasGroups listedType).print ++ [']'])) := by
    decide +kernel
  have hprint : (Tree.list [aliasGroups listedType]).print =
      '[' :: ((aliasGroups listedType).print ++ [']']) := rfl
  have htext := spellsText_ofList_print hlist
  have hspace :
      Respaced (String.ofList (Tree.list [aliasGroups listedType]).print).toList
        listedText.toList := by
    rw [hprint, String.toList_ofList] at htext ⊢
    rw [hlaid]
    exact htext.respaced_mark (by decide) (by simp [Blank]) (by simp [Blank])
  have halias := spellsText_ofList_print (spells_print_aliasTree htype)
  have hfirst := Relation.ReflTransGen.single
    (TextEdit.made (spellsText_typeText (by simp)) halias hspread.inAlias)
  have hsecond := hfirst.tail (TextEdit.made halias htext hschema)
  exact hsecond.tail (TextEdit.respaced hspace)

theorem Schema.parse_eq_ok_of_edits_listed :
    Relation.ReflTransGen TextEdit looseSchema.print listedText ∧
      Schema.parse looseSchema.print = .ok looseSchema ∧
      Schema.parse (typeText [tagMember]) = .ok looseSchema ∧
      Schema.parse listedText = .ok looseSchema := by
  have hprint : looseSchema.print = typeText [tagMember, flagMember] := rfl
  have hleft := Relation.ReflTransGen.single edits_typeText.1
  have hedits := (hleft.trans edits_typeText.2).trans edits_listedText
  have hkeys : looseSchema.KeysDistinct := by
    simp [looseSchema, Schema.KeysDistinct, Group.KeysDistinct,
      NativeModule.KeysDistinct, Table.KeysDistinct, Table.keys]
  have hread : Schema.parse looseSchema.print = .ok looseSchema :=
    Schema.parse_print_eq_ok hkeys (by decide)
  rw [hprint] at hread ⊢
  have haccepted := (Schema.parse_eq_ok_of_edits hread).2
  exact ⟨hedits, hread, haccepted _ hleft, haccepted _ hedits⟩

end NativeGlue.Raw
