import NativeGlue.Proofs.Raw.Encode
import NativeGlue.Proofs.Raw.Reader

/-!
# Depth and round trip

Every bracket takes one of 127 levels.  With fewer levels a reader gives the
same result or finds too many brackets open, and a value that is read has no
more brackets than there are levels, those of its defaults included.  Together
with the trees of values this says when the text of a schema is read back.
-/

namespace NativeGlue.Raw

open Json

/-! ## Reading with fewer levels -/

/-- One result is another one, or that too many brackets are open. -/
def Curbed {α : Type} (x y : Except Fault α) : Prop :=
  x = y ∨ x = .error .tooDeep

theorem Curbed.refl {α : Type} (x : Except Fault α) : Curbed x x := Or.inl rfl

theorem Curbed.bind
    {α β : Type} {x y : Except Fault α} {f g : α → Except Fault β}
    (hxy : Curbed x y) (hfg : ∀ a, Curbed (f a) (g a)) :
    Curbed (x >>= f) (y >>= g) := by
  rcases hxy with rfl | rfl
  · cases x with
    | error fault => exact Curbed.refl _
    | ok a => exact hfg a
  · exact Or.inr rfl

/-- A reader gives what another one gives, or finds too many brackets open. -/
def CurbedReader {α : Type} (read read' : Reader α) : Prop :=
  ∀ cs, Curbed (read cs) (read' cs)

section Walk

variable {α σ : Type}

theorem CurbedReader.nullable
    {read read' : Reader α} (h : CurbedReader read read') :
    CurbedReader (readNullable read) (readNullable read') := by
  intro cs
  unfold readNullable
  split
  · exact Curbed.refl _
  · exact (h _).bind fun _ => Curbed.refl _

theorem CurbedReader.elements
    {item item' : Reader α} (h : CurbedReader item item') (n : Nat)
    (first : Bool) :
    CurbedReader (elements item n first) (elements item' n first) := by
  induction n generalizing first with
  | zero => exact fun cs => Curbed.refl _
  | succ n ih =>
      intro cs
      rw [Json.elements, Json.elements]
      refine (Curbed.refl _).bind fun next => ?_
      obtain ⟨more, rest⟩ := next
      cases more with
      | false => exact Curbed.refl _
      | true =>
          exact (h rest).bind fun read =>
            (ih false read.2).bind fun _ => Curbed.refl _

theorem members_curbed
    {member member' : σ → String → Reader σ}
    (h : ∀ s key, CurbedReader (member s key) (member' s key)) (n : Nat)
    (first : Bool) (s : σ) :
    CurbedReader (members member n first s) (members member' n first s) := by
  induction n generalizing first s with
  | zero => exact fun cs => Curbed.refl _
  | succ n ih =>
      intro cs
      rw [members, members]
      refine (Curbed.refl _).bind fun next => ?_
      obtain ⟨key?, rest⟩ := next
      cases key? with
      | none => exact Curbed.refl _
      | some key => exact (h s key rest).bind fun read => ih false read.1 read.2

theorem CurbedReader.startingWith
    {body body' : Reader α} (h : CurbedReader body body') (start : Char)
    (wanted : Wanted) :
    CurbedReader (startingWith start wanted body)
      (startingWith start wanted body') := by
  intro cs
  unfold Json.startingWith
  split
  · exact Curbed.refl _
  · split
    · exact h _
    · exact Curbed.refl _

end Walk

section Records

variable {inner inner' : Inner}

theorem Field.read_curbed
    (h : ∀ s, CurbedReader (inner s) (inner' s)) (f : Field) :
    CurbedReader (f.read inner) (f.read inner') := by
  obtain ⟨key, s, presence⟩ := f
  cases presence with
  | required => exact h s
  | defaulted => exact h s
  | optional => exact (h s).nullable
  | omissible => exact (h s).nullable

theorem Slots.read_curbed
    (h : ∀ s, CurbedReader (inner s) (inner' s)) (bound : Nat) (fs : List Field)
    (slots : Slots fs) (key : String) :
    CurbedReader (Slots.read bound inner fs slots key)
      (Slots.read bound inner' fs slots key) := by
  induction fs with
  | nil => exact fun cs => Curbed.refl _
  | cons f fs ih =>
      intro cs
      obtain ⟨slot, slots⟩ := slots
      by_cases hkey : key = f.key
      · simp only [Slots.read, if_pos hkey]
        cases slot with
        | some => exact Curbed.refl _
        | none =>
            exact (Curbed.refl _).bind fun rest =>
              (f.read_curbed h rest).bind fun _ => Curbed.refl _
      · simp only [Slots.read, if_neg hkey]
        exact (ih slots cs).bind fun _ => Curbed.refl _

theorem readRow_curbed (h : ∀ s, CurbedReader (inner s) (inner' s)) (r : Record)
    (fs : List Field) (index : Nat) :
    CurbedReader (readRow inner r fs index) (readRow inner' r fs index) := by
  induction fs generalizing index with
  | nil => exact fun cs => Curbed.refl _
  | cons f fs ih =>
      intro cs
      rw [readRow, readRow]
      refine (Curbed.refl _).bind fun next => ?_
      obtain ⟨more, rest⟩ := next
      cases more with
      | false => exact Curbed.refl _
      | true =>
          exact (f.read_curbed h rest).bind fun read =>
            (ih (index + 1) read.2).bind fun _ => Curbed.refl _

theorem readEntry_curbed
    (h : ∀ s, CurbedReader (inner s) (inner' s)) (r : Record) (t : Table r.Val)
    (key : String) :
    CurbedReader (readEntry inner r t key) (readEntry inner' r t key) := by
  intro cs
  exact (Curbed.refl _).bind fun rest =>
    (h (.record r) rest).bind fun _ => Curbed.refl _

end Records

theorem Shape.readWith_tooDeep
    (bound : Nat) (inner : Except Fault Inner) (s : Shape) :
    CurbedReader (Shape.readWith bound (.error .tooDeep) s)
      (Shape.readWith bound inner s) := by
  cases s with
  | text => exact fun cs => Curbed.refl _
  | flag => exact fun cs => Curbed.refl _
  | list r => exact CurbedReader.startingWith (fun cs => Or.inr rfl) '[' .list
  | table r =>
      exact CurbedReader.startingWith (fun cs => Or.inr rfl) '\x7b' .object
  | record r =>
      intro cs
      simp only [Shape.readWith]
      split
      · exact Or.inr rfl
      · exact Or.inr rfl
      · exact Curbed.refl _

theorem Shape.readWith_curbed
    {inner inner' : Inner} (h : ∀ s, CurbedReader (inner s) (inner' s))
    (bound : Nat) (s : Shape) :
    CurbedReader (Shape.readWith bound (.ok inner) s)
      (Shape.readWith bound (.ok inner') s) := by
  cases s with
  | text => exact fun cs => Curbed.refl _
  | flag => exact fun cs => Curbed.refl _
  | list r => exact ((h (.record r)).elements bound true).startingWith '[' .list
  | table r =>
      have hentries :=
        members_curbed (readEntry_curbed h r) bound true Table.empty
      exact hentries.startingWith '\x7b' .object
  | record r =>
      intro cs
      simp only [Shape.readWith]
      split
      · exact (readRow_curbed h r r.fields 0 _).bind fun _ => Curbed.refl _
      · have hslots := members_curbed (Slots.read_curbed h bound r.fields)
          bound true (Slots.empty r.fields)
        exact (hslots _).bind fun _ => Curbed.refl _
      · exact Curbed.refl _

/-- With fewer levels a reader gives the same result or finds too many brackets
open. -/
theorem Shape.read_curbed
    (bound : Nat) {levels levels' : Nat} (hlevels : levels ≤ levels')
    (s : Shape) :
    CurbedReader (Shape.read bound levels s) (Shape.read bound levels' s) := by
  induction levels generalizing levels' s with
  | zero =>
      cases levels' with
      | zero => exact fun cs => Curbed.refl _
      | succ levels' => exact Shape.readWith_tooDeep bound _ s
  | succ levels ih =>
      obtain ⟨k, rfl⟩ : ∃ k, levels' = k + 1 :=
        Nat.exists_eq_succ_of_ne_zero (by omega)
      exact Shape.readWith_curbed
        (fun s => ih (Nat.le_of_succ_le_succ hlevels) s) bound s

/-! ## Values that have been read -/

/-- How many levels must be left where a record stands, so that the defaults of
its fields and of the records inside find room. -/
def Record.reserve : Record → Nat
  | schema => 9
  | group => 7
  | nativeModule => 5
  | method => 3
  | functionType => 2
  | param | typeExpr | property => 0

/-- The levels that are left where a value stands are enough for all defaults in
it. -/
def Shape.Fits (levels : Nat) : Shape → Prop
  | text | flag => True
  | record r => r.reserve ≤ levels
  | list r | table r => r.reserve ≤ levels - 1

theorem Record.fits_of_mem_fields
    {r : Record} {levels : Nat} (hr : r.reserve ≤ levels + 1) {f : Field}
    (hf : f ∈ r.fields) :
    f.shape.Fits levels := by
  revert hf f
  cases r <;> simp [Record.fields, Record.reserve, Shape.Fits] at hr ⊢ <;> omega

/-- A value that was left out and is not absent is the default of its field. -/
theorem Field.defaulted_of_missing {f : Field} {v : f.Val} {w : f.shape.Val}
    (hv : f.missing? = some v) (hw : f.given v = some w) :
    f.presence = .defaulted ∧ f.shape.empty? = some w := by
  obtain ⟨key, s, presence⟩ := f
  cases presence with
  | required => cases hv
  | defaulted => exact ⟨rfl, hv.trans hw⟩
  | optional =>
      obtain rfl : none = v := Option.some.inj hv
      cases hw
  | omissible =>
      obtain rfl : none = v := Option.some.inj hv
      cases hw

theorem Field.missing?_of_omitted?
    {f : Field} {v : f.Val} (hv : f.omitted? = some v) :
    f.missing? = some v := by
  obtain ⟨key, s, presence⟩ := f
  cases presence with
  | optional => cases hv
  | _ => exact hv

theorem Record.two_le_reserve
    {r : Record} {f : Field} (hf : f ∈ r.fields)
    (hdefault : f.presence = .defaulted) (hflag : f.shape ≠ .flag) :
    2 ≤ r.reserve := by
  revert f
  cases r <;> simp [Record.fields, Record.reserve]

/-- A default is no deeper than the levels inside its record. -/
theorem Record.depth_missing_le
    {r : Record} {levels : Nat} (hr : r.reserve ≤ levels + 1) {f : Field}
    (hf : f ∈ r.fields) {v : f.Val} {w : f.shape.Val} (hv : f.missing? = some v)
    (hw : f.given v = some w) :
    (f.shape.tree w).depth ≤ levels := by
  obtain ⟨hdefault, hempty⟩ := Field.defaulted_of_missing hv hw
  by_cases hflag : f.shape = .flag
  · have hzero (s : Shape) (hs : s = .flag) (w : s.Val) :
        (s.tree w).depth = 0 := by
      subst hs
      rfl
    rw [hzero f.shape hflag w]
    exact Nat.zero_le levels
  · have hone (s : Shape) (w : s.Val) (hw : s.empty? = some w) :
        (s.tree w).depth ≤ 1 := by
      cases s with
      | record => cases hw
      | text => exact Nat.zero_le 1
      | flag => exact Nat.zero_le 1
      | list =>
          obtain rfl := Option.some.inj hw
          exact le_rfl
      | table =>
          obtain rfl := Option.some.inj hw
          exact le_rfl
    have hreserve := Record.two_le_reserve hf hdefault hflag
    exact (hone f.shape w hempty).trans (by omega)

section Decoded

variable {inner : InnerDecoder} {P : (s : Shape) → s.Val → Prop}

theorem rowOfMembers_all
    {fs : List Field} {named : List (String × Tree)} {row : Row fs}
    (h : rowOfMembers inner named fs = some row)
    (hdecoded : ∀ f ∈ fs, ∀ t w, inner f.shape t = some w → P f.shape w)
    (hmissing : ∀ f ∈ fs, ∀ v w, f.missing? = some v → f.given v = some w →
      P f.shape w) :
    Row.All P fs row := by
  induction fs with
  | nil => trivial
  | cons f fs ih =>
      obtain ⟨v, more⟩ := row
      obtain ⟨hv, hmore⟩ := pair_eq_some_iff.mp h
      refine ⟨fun w hw => ?_,
        ih hmore (fun g hg => hdecoded g (List.mem_cons_of_mem f hg))
        fun g hg => hmissing g (List.mem_cons_of_mem f hg)⟩
      unfold Field.decodeAmong at hv
      split at hv
      · exact hmissing f List.mem_cons_self v w hv hw
      · exact hdecoded f List.mem_cons_self _ w (Field.given_of_decode hv hw)
      · cases hv

theorem rowOfItems_all
    {fs : List Field} {items : List Tree} {row : Row fs}
    (h : rowOfItems inner fs items = some row)
    (hdecoded : ∀ f ∈ fs, ∀ t w, inner f.shape t = some w → P f.shape w)
    (hmissing : ∀ f ∈ fs, ∀ v w, f.missing? = some v → f.given v = some w →
      P f.shape w) :
    Row.All P fs row := by
  induction fs generalizing items with
  | nil => trivial
  | cons f fs ih =>
      obtain ⟨v, more⟩ := row
      have hmore {items : List Tree}
          (hmore : rowOfItems inner fs items = some more) :
          Row.All P fs more :=
        ih hmore (fun g hg => hdecoded g (List.mem_cons_of_mem f hg))
          fun g hg => hmissing g (List.mem_cons_of_mem f hg)
      cases items with
      | nil =>
          obtain ⟨hv, hrest⟩ := rowOfItems_nil_eq_some_iff.mp h
          refine ⟨fun w hw => ?_, hmore hrest⟩
          exact hmissing f List.mem_cons_self v w
            (Field.missing?_of_omitted? hv) hw
      | cons t items =>
          obtain ⟨hv, hrest⟩ := rowOfItems_cons_eq_some_iff.mp h
          refine ⟨fun w hw => ?_, hmore hrest⟩
          exact hdecoded f List.mem_cons_self t w (Field.given_of_decode hv hw)

end Decoded

theorem exists_of_mem_mapM
    {α β : Type} {f : α → Option β} {xs : List α} {ys : List β}
    (h : xs.mapM f = some ys) {y : β} (hy : y ∈ ys) :
    ∃ x ∈ xs, f x = some y := by
  induction xs generalizing ys with
  | nil =>
      obtain rfl : [] = ys := by simpa using h
      cases hy
  | cons x xs ih =>
      obtain ⟨z, zs, hz, hzs, rfl⟩ := mapM_cons_eq_some_iff.mp h
      rcases List.mem_cons.mp hy with rfl | hy
      · exact ⟨x, List.mem_cons_self, hz⟩
      · obtain ⟨x', hx', hfx'⟩ := ih hzs hy
        exact ⟨x', List.mem_cons_of_mem x hx', hfx'⟩

/-- A value that is decoded with some levels has no more brackets than these,
with its defaults written out. -/
theorem Shape.depth_tree_le {levels : Nat} {s : Shape} {t : Tree} {v : s.Val}
    (hs : s.Fits levels) (hv : Shape.decode levels s t = some v) :
    (s.tree v).depth ≤ levels := by
  induction levels generalizing s t with
  | zero =>
      cases s with
      | text => exact Nat.zero_le 0
      | flag => exact Nat.zero_le 0
      | _ => cases t <;> cases hv
  | succ levels ih =>
      cases s with
      | text => exact Nat.zero_le _
      | flag => exact Nat.zero_le _
      | list r =>
          cases t with
          | list items =>
              refine list_depth_le_iff.mpr ⟨levels, rfl, fun u hu => ?_⟩
              obtain ⟨w, hw, rfl⟩ := List.mem_map.mp hu
              obtain ⟨item, -, hitem⟩ := exists_of_mem_mapM hv hw
              exact ih (s := .record r) hs hitem
          | _ => cases hv
      | table r =>
          cases t with
          | object ms =>
              obtain ⟨named, -, hv⟩ := Option.bind_eq_some_iff.mp hv
              obtain ⟨entries, hentries, hv⟩ := Option.bind_eq_some_iff.mp hv
              obtain rfl := Option.some.inj hv
              rw [Shape.tree_table r]
              refine objectTree_depth_le_iff.mpr ⟨levels, rfl, fun m hm => ?_⟩
              obtain ⟨e, he, rfl⟩ := List.mem_map.mp hm
              have hwritten := Table.mem_of_mem_entries_ofList he
              obtain ⟨m, -, hm⟩ := exists_of_mem_mapM hentries hwritten
              obtain ⟨w, hw, rfl⟩ := Option.map_eq_some_iff.mp hm
              exact ih (s := .record r) hs hw
          | _ => cases hv
      | record r =>
          have hrow {row : Row r.fields}
              (hall :
                Row.All (fun s w => (s.tree w).depth ≤ levels) r.fields row) :
              (Shape.tree (.record r) (r.ofRow row)).depth ≤ levels + 1 := by
            rw [Shape.tree_record r, r.toRow_ofRow]
            exact objectTree_depth_le_iff.mpr ⟨levels, rfl,
              (Row.forall_named_iff fun t => t.depth ≤ levels).mpr hall⟩
          have hdecoded : ∀ f ∈ r.fields, ∀ t w,
              Shape.decode levels f.shape t = some w →
              (f.shape.tree w).depth ≤ levels :=
            fun f hf t w hw => ih (Record.fits_of_mem_fields hs hf) hw
          have hmissing : ∀ f ∈ r.fields, ∀ v w,
              f.missing? = some v → f.given v = some w →
              (f.shape.tree w).depth ≤ levels :=
            fun f hf v w hv hw => Record.depth_missing_le hs hf hv hw
          cases t with
          | list items =>
              obtain ⟨row, hitems, hv⟩ := Option.bind_eq_some_iff.mp hv
              obtain rfl := Option.some.inj hv
              exact hrow (rowOfItems_all hitems hdecoded hmissing)
          | object ms =>
              obtain ⟨named, -, hv⟩ := Option.bind_eq_some_iff.mp hv
              obtain ⟨row, hmembers, hv⟩ := Option.bind_eq_some_iff.mp hv
              obtain rfl := Option.some.inj hv
              exact hrow (rowOfMembers_all hmembers hdecoded hmissing)
          | _ => cases hv

/-! ## Round trip -/

/-- The text that prints a tree, where the tree is printed as it is spelled. -/
theorem spellsText_ofList_print {t : Tree} (ht : Spells t.print t) :
    SpellsText (String.ofList t.print).toList t := by
  have hpadded := Padded.intro blank_nil ht blank_nil
  rwa [List.nil_append, List.append_nil, ← String.toList_ofList (l := t.print)]
    at hpadded

/-- A text whose tree decodes with more levels is read, or has too many
brackets. -/
theorem Shape.parse_eq_ok_or_tooDeep
    {s : Shape} {text : String} {t : Tree} {v : s.Val} {levels : Nat}
    (htext : SpellsText text.toList t) (hlevels : maxLevels ≤ levels)
    (hv : Shape.decode levels s t = some v) :
    s.parse text = .ok v ∨ s.parse text = .error .tooDeep := by
  obtain ⟨rest, hblank, hahead⟩ := ((leads_ahead Spells).rule _ _).mp htext
  have hfollows := (Shape.read_follows text.toList.length levels).follows s
  have hread := hfollows.complete _ _ _ _ hahead hblank.endsNumeral le_rfl hv
  rcases Shape.read_curbed text.toList.length hlevels s text.toList with
    hsame | hdeep
  · refine Or.inl (bind_eq_ok_iff.mpr ⟨_, hsame.trans hread, if_pos ?_⟩)
    exact List.isEmpty_iff.mpr (skipSpace_eq_nil.mpr hblank)
  · exact Or.inr (bind_eq_error_iff.mpr (Or.inl hdeep))

theorem Shape.parse_print {s : Shape} {v : s.Val} (hs : s.Fits maxLevels)
    (hkeys : s.KeysDistinct v) :
    s.parse (String.ofList (s.tree v).print) =
      if (s.tree v).depth ≤ maxLevels then .ok v else .error .tooDeep := by
  have htext := spellsText_ofList_print (s.spells_print_tree v)
  split
  · next hdepth =>
      exact Shape.parse_eq_ok_iff.mpr
        ⟨_, htext, s.decode_tree v hkeys maxLevels hdepth⟩
  · next hdepth =>
      -- With more levels the text would be read, so here it is read or found
      -- too deep, and what is read is not that deep.
      have hdecode := s.decode_tree v hkeys (s.tree v).depth le_rfl
      have hread := Shape.parse_eq_ok_or_tooDeep htext (by omega) hdecode
      refine hread.resolve_left fun hok => ?_
      obtain ⟨t, -, ht⟩ := Shape.parse_eq_ok_iff.mp hok
      exact hdepth (Shape.depth_tree_le hs ht)

theorem fits_schema : Shape.Fits maxLevels (.record .schema) := by
  change 9 ≤ 127
  decide

theorem Schema.parse_print_eq_ok
    {r : Schema} (hkeys : r.KeysDistinct) (hdepth : r.tree.depth ≤ maxLevels) :
    Schema.parse r.print = .ok r :=
  (Shape.parse_print (s := .record .schema) fits_schema hkeys).trans
    (if_pos hdepth)

/-- The text of a schema with distinct keys is JSON text for its tree.  It is
read back as the schema if no more than 127 brackets are nested, and refused as
too deep otherwise; and no schema that is read is deeper. -/
theorem Schema.parse_print_by_depth :
    (∀ r : Schema, r.KeysDistinct →
      SpellsText r.print.toList r.tree ∧
        Schema.parse r.print =
          if r.tree.depth ≤ 127 then .ok r else .error .tooDeep) ∧
      (Fault.tooDeep.message = "recursion limit exceeded" ∧
        Fault.tooDeep.category = .grammar) ∧
      ∀ text r, Schema.parse text = .ok r → r.tree.depth ≤ 127 := by
  refine ⟨fun r hkeys => ⟨?_, ?_⟩, ⟨rfl, rfl⟩, fun text r hparse => ?_⟩
  · exact spellsText_ofList_print (Shape.spells_print_tree (.record .schema) r)
  · exact Shape.parse_print (s := .record .schema) fits_schema hkeys
  · obtain ⟨t, -, ht⟩ := Shape.parse_eq_ok_iff.mp hparse
    exact Shape.depth_tree_le (s := .record .schema) fits_schema ht

/-- A list of lists and so on, as a type. -/
def nestedType : Nat → TypeExpr
  | 0 => ⟨"Control \x01 \"\\", true, some "\t€𝄞", some [], none⟩
  | n + 1 => ⟨"ArrayTypeAnnotation", false, none, none, some (nestedType n)⟩

/-- A schema with one alias, which stands for a nested type. -/
def nestedSchema (n : Nat) : Schema :=
  ⟨⟨[("", ⟨some ⟨[("Nest", ⟨⟨[("Deep", nestedType n)]⟩, []⟩)]⟩⟩)]⟩⟩

theorem depth_nestedType (n : Nat) : (nestedType n).tree.depth = n + 2 := by
  induction n with
  | zero => rfl
  | succ n ih =>
      simp [nestedType, TypeExpr.tree, member, textTree, Tree.depth,
        depthOfMembers, Member.depth, ih]

theorem depth_nestedSchema (n : Nat) : (nestedSchema n).tree.depth = n + 8 := by
  simp [nestedSchema, Schema.tree, Group.tree, NativeModule.tree, tableTree,
    member, Tree.depth, depthOfMembers, depthOfItems, Member.depth,
    depth_nestedType]

theorem keysDistinct_nestedSchema (n : Nat) :
    (nestedSchema n).KeysDistinct := by
  simp [nestedSchema, Schema.KeysDistinct, Group.KeysDistinct,
    NativeModule.KeysDistinct, Table.KeysDistinct, Table.keys]

/-- The deepest nested schema that is read back, and the next one. -/
theorem Schema.parse_print_by_depth_nested :
    (nestedSchema 119).KeysDistinct ∧ (nestedSchema 120).KeysDistinct ∧
      Schema.parse (nestedSchema 119).print = .ok (nestedSchema 119) ∧
      Schema.parse (nestedSchema 120).print = .error .tooDeep := by
  have hread (n : Nat) :=
    (Schema.parse_print_by_depth.1 (nestedSchema n)
      (keysDistinct_nestedSchema n)).2
  simp only [depth_nestedSchema] at hread
  exact ⟨keysDistinct_nestedSchema 119, keysDistinct_nestedSchema 120,
    hread 119, hread 120⟩

end NativeGlue.Raw
