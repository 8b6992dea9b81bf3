import NativeGlue.Proofs.Raw.Encode

/-!
# The schema reader accepts its format

The reader goes over a text once, checks shapes, counts levels, skips what it
does not know and fills in what is left out.  It accepts a text exactly if the
text is a value of the JSON grammar between blanks whose tree decodes to the
result.
-/

namespace NativeGlue.Raw

open Json

/-! ## Shapes -/

/-- Either no bracket may be opened, for the reader and the decoder alike, or
the readers inside a bracket follow the decoders. -/
inductive Opens (bound : Nat) : Except Fault Inner → Option InnerDecoder → Prop
  | closed (fault : Fault) : Opens bound (.error fault) none
  | opened {inner : Inner} {decoder : InnerDecoder} :
      InnerFollows bound inner decoder → Opens bound (.ok inner) (some decoder)

theorem Opens.exists_decoder {bound : Nat} {inner : Inner}
    {decoder? : Option InnerDecoder} (h : Opens bound (.ok inner) decoder?) :
    ∃ decoder, decoder? = some decoder ∧ InnerFollows bound inner decoder := by
  cases h with
  | opened hinner => exact ⟨_, rfl, hinner⟩

theorem Opens.exists_inner {bound : Nat} {inner? : Except Fault Inner}
    {decoder : InnerDecoder} (h : Opens bound inner? (some decoder)) :
    ∃ inner, inner? = .ok inner ∧ InnerFollows bound inner decoder := by
  cases h with
  | opened hinner => exact ⟨_, rfl, hinner⟩

section Shapes

variable {bound : Nat} {inner? : Except Fault Inner}
  {decoder? : Option InnerDecoder}

theorem follows_text :
    Follows bound (Shape.readWith bound inner? .text)
      (Shape.decodeWith decoder? .text) where
  sound := by
    intro cs v rest hread
    obtain ⟨ps, hahead, hps⟩ := readText_eq_ok_iff.mp hread
    exact ⟨.string ps, hahead, hps⟩
  complete := by
    intro cs t rest v hahead _ _ hdecode
    cases t with
    | string ps => exact readText_eq_ok_iff.mpr ⟨ps, hahead, hdecode⟩
    | _ => cases hdecode

theorem follows_flag :
    Follows bound (Shape.readWith bound inner? .flag)
      (Shape.decodeWith decoder? .flag) where
  sound := by
    intro cs v rest hread
    exact ⟨.boolean v, readFlag_eq_ok_iff.mp hread, rfl⟩
  complete := by
    intro cs t rest v hahead _ _ hdecode
    cases t with
    | boolean b =>
        obtain rfl := Option.some.inj hdecode
        exact readFlag_eq_ok_iff.mpr hahead
    | _ => cases hdecode

theorem length_le_of_skipSpace_eq {cs rest : List Char} {c : Char}
    (h : skipSpace cs = c :: rest) (hbound : cs.length ≤ bound) :
    rest.length ≤ bound := by
  have hskip := skipSpace_length_le cs
  rw [h, List.length_cons] at hskip
  omega

theorem Opens.follows_list (h : Opens bound inner? decoder?) (r : Record) :
    Follows bound (Shape.readWith bound inner? (.list r))
      (Shape.decodeWith decoder? (.list r)) where
  sound := by
    intro cs v rest hread
    obtain ⟨after, hskip, hbody⟩ := startingWith_eq_ok_iff.mp hread
    obtain ⟨inner, rfl, helements⟩ := bind_eq_ok_iff.mp hbody
    obtain ⟨decoder, rfl, hinner⟩ := h.exists_decoder
    obtain ⟨ts, hrun, hts⟩ :=
      (hinner.follows (.record r)).elements_sound helements
    exact ⟨.list ts, ahead_list_iff.mpr ⟨after, hskip, hrun⟩, hts⟩
  complete := by
    intro cs t rest v hahead _ hbound hdecode
    cases t with
    | list ts =>
        obtain ⟨decoder, rfl, hts⟩ := Option.bind_eq_some_iff.mp hdecode
        obtain ⟨inner, rfl, hinner⟩ := h.exists_inner
        obtain ⟨after, hskip, hrun⟩ := ahead_list_iff.mp hahead
        have hlen := length_le_of_skipSpace_eq hskip hbound
        have helements :=
          (hinner.follows (.record r)).elements_complete hrun hts hlen hlen
        exact startingWith_eq_ok_iff.mpr
          ⟨after, hskip, bind_eq_ok_iff.mpr ⟨inner, rfl, helements⟩⟩
    | _ => cases hdecode

/-! ## Tables -/

theorem foldlM_insert_eq_some_iff
    {α : Type} {decode : Tree → Option α} {named : List (String × Tree)}
    {t t' : Table α} :
    named.foldlM
        (fun t m => (decode m.2).map fun value => t.insert m.1 value) t =
        some t' ↔
      ∃ entries,
        named.mapM (fun m => (decode m.2).map fun value => (m.1, value)) =
          some entries ∧
        entries.foldl (fun t e => t.insert e.1 e.2) t = t' := by
  induction named generalizing t with
  | nil => simp
  | cons m named ih =>
      rw [foldlM_cons_eq_some_iff]
      constructor
      · rintro ⟨t₁, hinsert, hmore⟩
        obtain ⟨value, hvalue, rfl⟩ := Option.map_eq_some_iff.mp hinsert
        obtain ⟨entries, hentries, hfold⟩ := ih.mp hmore
        refine ⟨(m.1, value) :: entries, mapM_cons_eq_some_iff.mpr ?_, hfold⟩
        exact ⟨_, entries, by rw [hvalue]; rfl, hentries, rfl⟩
      · rintro ⟨_, hmap, hfold⟩
        obtain ⟨entry, entries, hentry, hentries, rfl⟩ :=
          mapM_cons_eq_some_iff.mp hmap
        obtain ⟨value, hvalue, rfl⟩ := Option.map_eq_some_iff.mp hentry
        exact ⟨t.insert m.1 value, by rw [hvalue]; rfl,
          ih.mpr ⟨entries, hentries, hfold⟩⟩

theorem InnerFollows.entries
    {inner : Inner} {decoder : InnerDecoder}
    (h : InnerFollows bound inner decoder) (r : Record) :
    StepFollows bound (readEntry inner r) (fun t m =>
      (decoder (.record r) m.2).map fun value => t.insert m.1 value) where
  sound := by
    intro t t' key cs rest hread
    obtain ⟨left, hcolon, hread⟩ := bind_eq_ok_iff.mp hread
    obtain ⟨⟨value, left'⟩, hvalue, hdone⟩ := bind_eq_ok_iff.mp hread
    obtain ⟨rfl, rfl⟩ := Prod.mk.inj (Except.ok.inj hdone)
    obtain ⟨b, hb, rfl⟩ := colon_eq_ok_iff.mp hcolon
    obtain ⟨tree, hahead, htree⟩ := (h.follows (.record r)).sound _ _ _ hvalue
    exact ⟨b, left, tree, hb, rfl, hahead, by rw [htree]; rfl⟩
  complete := by
    intro t t' key b left tree rest hb hahead hrest hbound hinsert
    obtain ⟨value, hvalue, rfl⟩ := Option.map_eq_some_iff.mp hinsert
    have hcolon : colon (b ++ ':' :: left) = .ok left :=
      colon_eq_ok_iff.mpr ⟨b, hb, rfl⟩
    have hread :=
      (h.follows (.record r)).complete _ _ _ _ hahead hrest hbound hvalue
    exact bind_eq_ok_iff.mpr ⟨_, hcolon, bind_eq_ok_iff.mpr ⟨_, hread, rfl⟩⟩

theorem Opens.follows_table (h : Opens bound inner? decoder?) (r : Record) :
    Follows bound (Shape.readWith bound inner? (.table r))
      (Shape.decodeWith decoder? (.table r)) where
  sound := by
    intro cs v rest hread
    obtain ⟨after, hskip, hbody⟩ := startingWith_eq_ok_iff.mp hread
    obtain ⟨inner, rfl, hmembers⟩ := bind_eq_ok_iff.mp hbody
    obtain ⟨decoder, rfl, hinner⟩ := h.exists_decoder
    obtain ⟨ms, named, hrun, hnamed, hfold⟩ :=
      (hinner.entries r).members_sound hmembers
    obtain ⟨entries, hentries, hv⟩ := foldlM_insert_eq_some_iff.mp hfold
    refine ⟨.object ms, ahead_object_iff.mpr ⟨after, hskip, hrun⟩, ?_⟩
    exact Option.bind_eq_some_iff.mpr ⟨named, hnamed,
      Option.bind_eq_some_iff.mpr ⟨entries, hentries, congrArg some hv⟩⟩
  complete := by
    intro cs t rest v hahead _ hbound hdecode
    cases t with
    | object ms =>
        obtain ⟨decoder, rfl, hdecode⟩ := Option.bind_eq_some_iff.mp hdecode
        obtain ⟨named, hnamed, hdecode⟩ := Option.bind_eq_some_iff.mp hdecode
        obtain ⟨entries, hentries, hv⟩ := Option.bind_eq_some_iff.mp hdecode
        obtain ⟨inner, rfl, hinner⟩ := h.exists_inner
        obtain ⟨after, hskip, hrun⟩ := ahead_object_iff.mp hahead
        have hlen := length_le_of_skipSpace_eq hskip hbound
        have hfold :=
          foldlM_insert_eq_some_iff.mpr ⟨entries, hentries, Option.some.inj hv⟩
        have hmembers :=
          (hinner.entries r).members_complete hrun hnamed hfold hlen hlen
        exact startingWith_eq_ok_iff.mpr
          ⟨after, hskip, bind_eq_ok_iff.mpr ⟨inner, rfl, hmembers⟩⟩
    | _ => cases hdecode

/-! ## Records -/

theorem Opens.follows_record (h : Opens bound inner? decoder?) (r : Record) :
    Follows bound (Shape.readWith bound inner? (.record r))
      (Shape.decodeWith decoder? (.record r)) where
  sound := by
    intro cs v rest hread
    simp only [Shape.readWith] at hread
    split at hread
    · next after hskip =>
        obtain ⟨inner, rfl, hopen⟩ := bind_eq_ok_iff.mp hread
        obtain ⟨⟨row, left⟩, hrow, hdone⟩ := bind_eq_ok_iff.mp hopen
        obtain ⟨rfl, rfl⟩ := Prod.mk.inj (Except.ok.inj hdone)
        obtain ⟨decoder, rfl, hinner⟩ := h.exists_decoder
        obtain ⟨ts, hrun, hts⟩ := hinner.readRow_sound hrow
        refine ⟨.list ts, ahead_list_iff.mpr ⟨after, hskip, hrun⟩, ?_⟩
        exact Option.bind_eq_some_iff.mpr ⟨row, hts, rfl⟩
    · next after hskip =>
        obtain ⟨inner, rfl, hopen⟩ := bind_eq_ok_iff.mp hread
        obtain ⟨⟨slots, left⟩, hmembers, hfilled⟩ := bind_eq_ok_iff.mp hopen
        obtain ⟨row, hclose, hdone⟩ := bind_eq_ok_iff.mp hfilled
        obtain ⟨rfl, rfl⟩ := Prod.mk.inj (Except.ok.inj hdone)
        obtain ⟨decoder, rfl, hinner⟩ := h.exists_decoder
        obtain ⟨ms, named, hrun, hnamed, hfold⟩ :=
          (hinner.slots r.fields).members_sound hmembers
        have hrow :=
          (rowOfMembers_eq_some_iff r.nodup_keys).mpr ⟨slots, hfold, hclose⟩
        refine ⟨.object ms, ahead_object_iff.mpr ⟨after, hskip, hrun⟩, ?_⟩
        exact Option.bind_eq_some_iff.mpr ⟨named, hnamed,
          Option.bind_eq_some_iff.mpr ⟨row, hrow, rfl⟩⟩
    · cases hread
  complete := by
    intro cs t rest v hahead _ hbound hdecode
    cases t with
    | list ts =>
        obtain ⟨decoder, rfl, hdecode⟩ := Option.bind_eq_some_iff.mp hdecode
        obtain ⟨row, hts, hv⟩ := Option.bind_eq_some_iff.mp hdecode
        obtain rfl := Option.some.inj hv
        obtain ⟨inner, rfl, hinner⟩ := h.exists_inner
        obtain ⟨after, hskip, hrun⟩ := ahead_list_iff.mp hahead
        have hlen := length_le_of_skipSpace_eq hskip hbound
        have hfirst : Run ']' (Ahead Spells) (0 == 0) after ts rest := hrun
        have hrow : readRow inner r r.fields 0 after = .ok (row, rest) :=
          hinner.readRow_complete hfirst hts hlen
        simp only [Shape.readWith, hskip]
        exact bind_eq_ok_iff.mpr ⟨inner, rfl, bind_eq_ok_iff.mpr ⟨_, hrow, rfl⟩⟩
    | object ms =>
        obtain ⟨decoder, rfl, hdecode⟩ := Option.bind_eq_some_iff.mp hdecode
        obtain ⟨named, hnamed, hdecode⟩ := Option.bind_eq_some_iff.mp hdecode
        obtain ⟨row, hrow, hv⟩ := Option.bind_eq_some_iff.mp hdecode
        obtain rfl := Option.some.inj hv
        obtain ⟨inner, rfl, hinner⟩ := h.exists_inner
        obtain ⟨after, hskip, hrun⟩ := ahead_object_iff.mp hahead
        have hlen := length_le_of_skipSpace_eq hskip hbound
        obtain ⟨slots, hfold, hclose⟩ :=
          (rowOfMembers_eq_some_iff r.nodup_keys).mp hrow
        have hmembers :=
          (hinner.slots r.fields).members_complete hrun hnamed hfold hlen hlen
        simp only [Shape.readWith, hskip]
        exact bind_eq_ok_iff.mpr ⟨inner, rfl,
          bind_eq_ok_iff.mpr ⟨_, hmembers,
            bind_eq_ok_iff.mpr ⟨_, hclose, rfl⟩⟩⟩
    | _ => cases hdecode

theorem Opens.innerFollows (h : Opens bound inner? decoder?) :
    InnerFollows bound (Shape.readWith bound inner?)
      (Shape.decodeWith decoder?) where
  follows s := by
    cases s with
    | text => exact follows_text
    | flag => exact follows_flag
    | list r => exact h.follows_list r
    | table r => exact h.follows_table r
    | record r => exact h.follows_record r
  null s := by
    cases s <;> rfl

end Shapes

/-! ## Whole texts -/

theorem Shape.read_follows (bound levels : Nat) :
    InnerFollows bound (Shape.read bound levels) (Shape.decode levels) := by
  induction levels with
  | zero => exact (Opens.closed .tooDeep).innerFollows
  | succ levels ih => exact (Opens.opened ih).innerFollows

/-- A whole text is read exactly if it spells a tree that decodes to the
value. -/
theorem Shape.parse_eq_ok_iff {s : Shape} {text : String} {v : s.Val} :
    s.parse text = .ok v ↔
      ∃ t, SpellsText text.toList t ∧ Shape.decode maxLevels s t = some v := by
  have hfollows := (Shape.read_follows text.toList.length maxLevels).follows s
  constructor
  · intro h
    obtain ⟨⟨value, rest⟩, hread, h⟩ := bind_eq_ok_iff.mp h
    have htail : (if (skipSpace rest).isEmpty then pure value
        else throw Fault.trailingCharacters) = Except.ok v := h
    split at htail
    · next hend =>
        obtain rfl := Except.ok.inj htail
        obtain ⟨t, hahead, ht⟩ := hfollows.sound _ _ _ hread
        have hblank : Blank rest :=
          skipSpace_eq_nil.mp (List.isEmpty_iff.mp hend)
        have htext := ((leads_ahead Spells).rule _ _).mpr ⟨rest, hblank, hahead⟩
        exact ⟨t, htext, ht⟩
    · cases htail
  · rintro ⟨t, htext, ht⟩
    obtain ⟨rest, hblank, hahead⟩ := ((leads_ahead Spells).rule _ _).mp htext
    have hread := hfollows.complete _ _ _ _ hahead hblank.endsNumeral le_rfl ht
    refine bind_eq_ok_iff.mpr ⟨_, hread, if_pos ?_⟩
    exact List.isEmpty_iff.mpr (skipSpace_eq_nil.mpr hblank)

/-- The schema reader accepts exactly its format: a text spells at most one
tree, and reading it gives a schema exactly if it spells a tree that decodes to
that schema with at most 127 brackets open. -/
theorem Schema.parse_accepts_format (text : String) :
    (∀ t t', SpellsText text.toList t → SpellsText text.toList t' → t = t') ∧
      ∀ r, Schema.parse text = .ok r ↔
        ∃ t, SpellsText text.toList t ∧
          Shape.decode 127 (.record .schema) t = some r := by
  constructor
  · intro t t' h h'
    exact h.unique h'
  · intro r
    exact Shape.parse_eq_ok_iff

/-- A text with a group that is written twice, an unknown member, a module that
is written as the list of its first field, and a type without its flag. -/
def looseText : String :=
  " \x7b\"modules\":\x7b\"g\":\x7b\x7d,\"g\":\x7b\"x\":[null]," ++
    "\"nativeModules\":\x7b\"Clock\":[\x7b\"At\":" ++
    "\x7b\"type\":\"DoubleTypeAnnotation\"\x7d\x7d]\x7d\x7d\x7d\x7d\n"

def looseType : Tree := objectTree [("type", textTree "DoubleTypeAnnotation")]

def looseModule : Tree := .list [objectTree [("At", looseType)]]

def looseGroup : Tree :=
  objectTree
    [("x", .list [.null]),
      ("nativeModules", objectTree [("Clock", looseModule)])]

/-- The tree of the text. -/
def looseTree : Tree :=
  objectTree [("modules", objectTree [("g", objectTree []), ("g", looseGroup)])]

/-- What the text is read as. -/
def looseSchema : Schema :=
  ⟨⟨[("g", ⟨some ⟨[("Clock",
    ⟨⟨[("At", ⟨"DoubleTypeAnnotation", false, none, none, none⟩)]⟩, []⟩)]⟩⟩)]⟩⟩

theorem spellsText_looseText : SpellsText looseText.toList looseTree := by
  have htype : Spells looseType.print looseType :=
    spells_print_objectTree_singleton _
      (Shape.spells_print_tree .text "DoubleTypeAnnotation")
  have hmodule : Spells looseModule.print looseModule :=
    spells_print_list (List.forall_mem_singleton.mpr
      (spells_print_objectTree_singleton _ htype))
  have hgroup : Spells looseGroup.print looseGroup := by
    refine spells_print_objectTree (List.forall_mem_cons.mpr ⟨?_, ?_⟩)
    · exact spells_print_list (List.forall_mem_singleton.mpr Spells.null)
    · exact List.forall_mem_singleton.mpr
        (spells_print_objectTree_singleton _ hmodule)
  have htree : Spells looseTree.print looseTree := by
    refine spells_print_objectTree_singleton _ (spells_print_objectTree ?_)
    refine List.forall_mem_cons.mpr ⟨?_, ?_⟩
    · exact spells_print_objectTree fun _ hm => absurd hm List.not_mem_nil
    · exact List.forall_mem_singleton.mpr hgroup
  have htext : looseText.toList = [' '] ++ looseTree.print ++ ['\n'] := by
    decide +kernel
  rw [htext]
  exact Padded.intro (by simp [Blank]) htree (by simp [Blank])

theorem decode_looseTree :
    Shape.decode 127 (.record .schema) looseTree = some looseSchema := by
  have htype := @Shape.decode_objectTree 120 .typeExpr
    [("type", textTree "DoubleTypeAnnotation")]
    ("DoubleTypeAnnotation", false, none, none, none, ())
    (pair_eq_some_iff.mpr ⟨Shape.decode_textTree _ _, rfl⟩)
  have haliases := @Shape.decode_entries 121 .typeExpr [("At", looseType)]
    [("At", _)] (.cons ⟨rfl, htype⟩ .nil)
  have hmodule := @Shape.decode_items 122 .nativeModule
    [objectTree [("At", looseType)]] (_, [], ())
    (pair_eq_some_iff.mpr ⟨haliases, rfl⟩)
  have hmodules := @Shape.decode_entries 123 .nativeModule
    [("Clock", looseModule)] [("Clock", _)] (.cons ⟨rfl, hmodule⟩ .nil)
  have hgroup := @Shape.decode_objectTree 124 .group
    [("x", .list [.null]),
      ("nativeModules", objectTree [("Clock", looseModule)])] (some _, ())
    (pair_eq_some_iff.mpr ⟨congrArg (Option.map some) hmodules, rfl⟩)
  have hgroups := @Shape.decode_entries 125 .group
    [("g", objectTree []), ("g", looseGroup)] [("g", ⟨none⟩), ("g", _)]
    (.cons ⟨rfl, rfl⟩ (.cons ⟨rfl, hgroup⟩ .nil))
  exact @Shape.decode_objectTree 126 .schema [("modules", _)] (_, ())
    (pair_eq_some_iff.mpr ⟨hgroups, rfl⟩)

theorem Schema.parse_accepts_format_loose :
    (∀ t, SpellsText looseText.toList t → t = looseTree) ∧
      Schema.parse looseText = .ok looseSchema := by
  obtain ⟨hunique, hparse⟩ := Schema.parse_accepts_format looseText
  constructor
  · intro t ht
    exact hunique t looseTree ht spellsText_looseText
  · exact (hparse _).mpr ⟨looseTree, spellsText_looseText, decode_looseTree⟩

end NativeGlue.Raw
