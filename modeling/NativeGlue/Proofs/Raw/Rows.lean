import NativeGlue.Proofs.Raw.Walk
import NativeGlue.Raw.Reader

/-!
# The fields of a record

A record is read from a list of its fields, or from an object.  The reader of
objects keeps a slot for each field and fills it when the field's key comes; the
decoder looks each field up among all the members.  The two agree because the
keys of a record are distinct.
-/

namespace NativeGlue.Raw

open Json

/-- The readers inside a bracket follow the decoders, none of which accepts
null. -/
structure InnerFollows (bound : Nat) (inner : Inner) (decoder : InnerDecoder) :
    Prop where
  follows (s : Shape) : Follows bound (inner s) (decoder s)
  null (s : Shape) : decoder s .null = none

theorem InnerFollows.field
    {bound : Nat} {inner : Inner} {decoder : InnerDecoder}
    (h : InnerFollows bound inner decoder) (f : Field) :
    Follows bound (f.read inner) (f.decode decoder) := by
  obtain ⟨key, s, presence⟩ := f
  cases presence with
  | required => exact h.follows s
  | defaulted => exact h.follows s
  | optional => exact (h.follows s).nullable (h.null s)
  | omissible => exact (h.follows s).nullable (h.null s)

theorem Record.nodup_keys (r : Record) : (r.fields.map Field.key).Nodup := by
  cases r <;> decide

/-! ## Fields in a list -/

section Rows

variable {bound : Nat} {inner : Inner} {decoder : InnerDecoder}

theorem pair_eq_some_iff
    {α β : Type} {x : Option α} {y : Option β} {a : α} {b : β} :
    (do let a ← x; let b ← y; return (a, b)) = some (a, b) ↔
      x = some a ∧ y = some b := by
  cases x <;> cases y <;> simp

theorem omittedRow_cons_eq_ok_iff {r : Record} {f : Field} {fs : List Field}
    {index : Nat} {value : f.Val} {more : Row fs} :
    omittedRow r (f :: fs) index = .ok (value, more) ↔
      f.omitted? = some value ∧ omittedRow r fs (index + 1) = .ok more := by
  rw [omittedRow]
  cases f.omitted? with
  | none => simp
  | some value' =>
      constructor
      · intro h
        obtain ⟨more', hmore, hdone⟩ := bind_eq_ok_iff.mp h
        obtain ⟨rfl, rfl⟩ := Prod.mk.inj (Except.ok.inj hdone)
        exact ⟨rfl, hmore⟩
      · rintro ⟨hvalue, hmore⟩
        obtain rfl := Option.some.inj hvalue
        exact bind_eq_ok_iff.mpr ⟨more, hmore, rfl⟩

theorem rowOfItems_nil_eq_some_iff {f : Field} {fs : List Field} {value : f.Val}
    {more : Row fs} :
    rowOfItems decoder (f :: fs) [] = some (value, more) ↔
      f.omitted? = some value ∧ rowOfItems decoder fs [] = some more :=
  pair_eq_some_iff

theorem omittedRow_eq_ok_iff
    {r : Record} {fs : List Field} {index : Nat} {row : Row fs} :
    omittedRow r fs index = .ok row ↔ rowOfItems decoder fs [] = some row := by
  induction fs generalizing index with
  | nil => exact iff_of_true rfl rfl
  | cons f fs ih =>
      obtain ⟨value, more⟩ := row
      exact omittedRow_cons_eq_ok_iff.trans
        ((and_congr_right' ih).trans rowOfItems_nil_eq_some_iff.symm)

theorem rowOfItems_cons_eq_some_iff {f : Field} {fs : List Field} {t : Tree}
    {ts : List Tree} {value : f.Val} {more : Row fs} :
    rowOfItems decoder (f :: fs) (t :: ts) = some (value, more) ↔
      f.decode decoder t = some value ∧ rowOfItems decoder fs ts = some more :=
  pair_eq_some_iff

theorem InnerFollows.readRow_sound
    (h : InnerFollows bound inner decoder) {r : Record} {fs : List Field}
    {index : Nat} {cs rest : List Char} {row : Row fs}
    (hread : readRow inner r fs index cs = .ok (row, rest)) :
    ∃ ts, Run ']' (Ahead Spells) (index == 0) cs ts rest ∧
      rowOfItems decoder fs ts = some row := by
  induction fs generalizing index cs with
  | nil =>
      obtain ⟨left, hend, hdone⟩ := bind_eq_ok_iff.mp hread
      obtain ⟨rfl, rfl⟩ := Prod.mk.inj (Except.ok.inj hdone)
      exact ⟨[], run_nil_iff.mpr (listEnd_eq_ok_iff.mp hend), rfl⟩
  | cons f fs ih =>
      obtain ⟨⟨more, left⟩, hnext, hread⟩ := bind_eq_ok_iff.mp hread
      cases more with
      | false =>
          obtain ⟨omitted, homitted, hdone⟩ := bind_eq_ok_iff.mp hread
          obtain ⟨rfl, rfl⟩ := Prod.mk.inj (Except.ok.inj hdone)
          exact ⟨[], run_nil_iff.mpr (nextElement_eq_false_iff.mp hnext),
            omittedRow_eq_ok_iff.mp homitted⟩
      | true =>
          obtain ⟨after, hlead, rfl⟩ := nextElement_sound hnext
          obtain ⟨⟨value, left⟩, hvalue, hread⟩ := bind_eq_ok_iff.mp hread
          obtain ⟨⟨more, left'⟩, hmore, hdone⟩ := bind_eq_ok_iff.mp hread
          obtain ⟨rfl, rfl⟩ := Prod.mk.inj (Except.ok.inj hdone)
          obtain ⟨t, hahead, ht⟩ := (h.field f).sound _ _ _ hvalue
          obtain ⟨ts, hrun, hts⟩ := ih hmore
          refine ⟨t :: ts, run_cons_iff.mpr ⟨after, left, hlead, ?_, hrun⟩, ?_⟩
          · exact ahead_skipSpace_iff.mp hahead
          · exact rowOfItems_cons_eq_some_iff.mpr ⟨ht, hts⟩

theorem InnerFollows.readRow_complete
    (h : InnerFollows bound inner decoder) {r : Record} {fs : List Field}
    {index : Nat} {cs rest : List Char} {row : Row fs} {ts : List Tree}
    (hrun : Run ']' (Ahead Spells) (index == 0) cs ts rest)
    (hts : rowOfItems decoder fs ts = some row) (hbound : cs.length ≤ bound) :
    readRow inner r fs index cs = .ok (row, rest) := by
  induction fs generalizing index cs ts with
  | nil =>
      cases ts with
      | nil =>
          have hend := listEnd_eq_ok_iff.mpr (run_nil_iff.mp hrun)
          exact bind_eq_ok_iff.mpr ⟨rest, hend, rfl⟩
      | cons => cases hts
  | cons f fs ih =>
      cases ts with
      | nil =>
          have hnext : nextElement (index == 0) cs = .ok (false, rest) :=
            nextElement_eq_false_iff.mpr (run_nil_iff.mp hrun)
          have homitted : omittedRow r (f :: fs) index = .ok row :=
            omittedRow_eq_ok_iff.mpr hts
          exact bind_eq_ok_iff.mpr
            ⟨_, hnext, bind_eq_ok_iff.mpr ⟨_, homitted, rfl⟩⟩
      | cons t ts =>
          obtain ⟨after, left, hlead, hahead, hmore⟩ := run_cons_iff.mp hrun
          obtain ⟨value, more⟩ := row
          obtain ⟨hvalue, hmoreItems⟩ := rowOfItems_cons_eq_some_iff.mp hts
          have hafter := hlead.length_le
          have hleft := length_lt_of_ahead hahead
          have hread := (h.field f).complete _ _ _ _
            (ahead_skipSpace_iff.mpr hahead)
            (hmore.endsNumeral endsNumeral_bracket)
            ((skipSpace_length_le after).trans (hafter.trans hbound)) hvalue
          have hmoreRun :
              Run ']' (Ahead Spells) (index + 1 == 0) left ts rest := hmore
          have hmoreRead := ih hmoreRun hmoreItems (by omega)
          exact bind_eq_ok_iff.mpr ⟨_, nextElement_complete hlead hahead,
            bind_eq_ok_iff.mpr ⟨_, hread,
              bind_eq_ok_iff.mpr ⟨_, hmoreRead, rfl⟩⟩⟩

end Rows

/-! ## Fields in an object -/

/-- The slot of a field after a value for it; a taken slot is refused. -/
def Field.fill (decoder : InnerDecoder) (f : Field) (slot : Option f.Val)
    (m : String × Tree) : Option (Option f.Val) :=
  match slot with
  | some _ => none
  | none => (f.decode decoder m.2).map some

/-- The slots of fields after a member. -/
def Slots.take (decoder : InnerDecoder) :
    (fs : List Field) → Slots fs → String × Tree → Option (Slots fs)
  | [], slots, _ => some slots
  | f :: fs, (slot, slots), m =>
    if m.1 = f.key then (f.fill decoder slot m).map fun slot => (slot, slots)
    else (take decoder fs slots m).map fun slots => (slot, slots)

section Slots

variable {bound : Nat} {inner : Inner} {decoder : InnerDecoder}

theorem Slots.take_eq_some_iff_of_eq {f : Field} {fs : List Field}
    {slot slot' : Option f.Val} {slots slots' : Slots fs} {m : String × Tree}
    (hkey : m.1 = f.key) :
    Slots.take decoder (f :: fs) (slot, slots) m = some (slot', slots') ↔
      f.fill decoder slot m = some slot' ∧ slots = slots' := by
  have htake : Slots.take decoder (f :: fs) (slot, slots) m =
      (f.fill decoder slot m).map fun slot => (slot, slots) := if_pos hkey
  rw [htake]
  constructor
  · intro h
    obtain ⟨_, hfill, hpair⟩ := Option.map_eq_some_iff.mp h
    obtain ⟨rfl, rfl⟩ := Prod.mk.inj hpair
    exact ⟨hfill, rfl⟩
  · rintro ⟨hfill, rfl⟩
    exact Option.map_eq_some_iff.mpr ⟨slot', hfill, rfl⟩

theorem Slots.take_eq_some_iff_of_ne {f : Field} {fs : List Field}
    {slot slot' : Option f.Val} {slots slots' : Slots fs} {m : String × Tree}
    (hkey : m.1 ≠ f.key) :
    Slots.take decoder (f :: fs) (slot, slots) m = some (slot', slots') ↔
      slot = slot' ∧ Slots.take decoder fs slots m = some slots' := by
  have htake : Slots.take decoder (f :: fs) (slot, slots) m =
      (Slots.take decoder fs slots m).map fun slots => (slot, slots) :=
    if_neg hkey
  rw [htake]
  constructor
  · intro h
    obtain ⟨_, hmore, hpair⟩ := Option.map_eq_some_iff.mp h
    obtain ⟨rfl, rfl⟩ := Prod.mk.inj hpair
    exact ⟨rfl, hmore⟩
  · rintro ⟨rfl, hmore⟩
    exact Option.map_eq_some_iff.mpr ⟨slots', hmore, rfl⟩

theorem Field.fill_eq_some_iff
    {f : Field} {slot slot' : Option f.Val} {m : String × Tree} :
    f.fill decoder slot m = some slot' ↔
      slot = none ∧
        ∃ value, f.decode decoder m.2 = some value ∧ some value = slot' := by
  cases slot with
  | none => simp [Field.fill]
  | some _ => simp [Field.fill]

theorem InnerFollows.slots_sound
    (h : InnerFollows bound inner decoder) {fs : List Field}
    {slots slots' : Slots fs} {key : String} {cs rest : List Char}
    (hread : Slots.read bound inner fs slots key cs = .ok (slots', rest)) :
    ∃ b left t, Blank b ∧ cs = b ++ ':' :: left ∧ Ahead Spells left t rest ∧
      Slots.take decoder fs slots (key, t) = some slots' := by
  induction fs with
  | nil =>
      obtain ⟨left, hcolon, hread⟩ := bind_eq_ok_iff.mp hread
      obtain ⟨left', hskip, hdone⟩ := bind_eq_ok_iff.mp hread
      obtain ⟨⟨t, left''⟩, hvalue, hskipped⟩ := bind_eq_ok_iff.mp hskip
      obtain ⟨rfl, rfl⟩ := Prod.mk.inj (Except.ok.inj hdone)
      obtain rfl := Except.ok.inj hskipped
      obtain ⟨b, hb, rfl⟩ := colon_eq_ok_iff.mp hcolon
      exact ⟨b, left, t, hb, rfl, value_sound hvalue, rfl⟩
  | cons f fs ih =>
      obtain ⟨slot, slots⟩ := slots
      rw [Slots.read] at hread
      split at hread
      · next hkey =>
          split at hread
          · cases hread
          · obtain ⟨left, hcolon, hread⟩ := bind_eq_ok_iff.mp hread
            obtain ⟨⟨value, left'⟩, hvalue, hdone⟩ := bind_eq_ok_iff.mp hread
            obtain ⟨rfl, rfl⟩ := Prod.mk.inj (Except.ok.inj hdone)
            obtain ⟨b, hb, rfl⟩ := colon_eq_ok_iff.mp hcolon
            obtain ⟨t, hahead, ht⟩ := (h.field f).sound _ _ _ hvalue
            have hfill : f.fill decoder none (key, t) = some (some value) :=
              Field.fill_eq_some_iff.mpr ⟨rfl, value, ht, rfl⟩
            exact ⟨b, left, t, hb, rfl, hahead,
              (Slots.take_eq_some_iff_of_eq hkey).mpr ⟨hfill, rfl⟩⟩
      · next hkey =>
          obtain ⟨⟨more, left⟩, hmore, hdone⟩ := bind_eq_ok_iff.mp hread
          obtain ⟨rfl, rfl⟩ := Prod.mk.inj (Except.ok.inj hdone)
          obtain ⟨b, left, t, hb, rfl, hahead, ht⟩ := ih hmore
          exact ⟨b, left, t, hb, rfl, hahead,
            (Slots.take_eq_some_iff_of_ne hkey).mpr ⟨rfl, ht⟩⟩

theorem InnerFollows.slots_complete
    (h : InnerFollows bound inner decoder) {fs : List Field}
    {slots slots' : Slots fs} {key : String} {b left rest : List Char}
    {t : Tree} (hb : Blank b) (hahead : Ahead Spells left t rest)
    (hrest : EndsNumeral rest) (hbound : left.length ≤ bound)
    (ht : Slots.take decoder fs slots (key, t) = some slots') :
    Slots.read bound inner fs slots key (b ++ ':' :: left) =
      .ok (slots', rest) := by
  have hcolon : colon (b ++ ':' :: left) = .ok left :=
    colon_eq_ok_iff.mpr ⟨b, hb, rfl⟩
  induction fs with
  | nil =>
      obtain rfl := Option.some.inj ht
      have hskip : skipValue bound left = .ok rest :=
        bind_eq_ok_iff.mpr ⟨_, value_complete hahead hrest hbound, rfl⟩
      exact bind_eq_ok_iff.mpr ⟨_, hcolon, bind_eq_ok_iff.mpr ⟨_, hskip, rfl⟩⟩
  | cons f fs ih =>
      obtain ⟨slot, slots⟩ := slots
      obtain ⟨slot', slots'⟩ := slots'
      by_cases hkey : key = f.key
      · obtain ⟨hfill, rfl⟩ := (Slots.take_eq_some_iff_of_eq hkey).mp ht
        obtain ⟨rfl, value, hvalue, rfl⟩ := Field.fill_eq_some_iff.mp hfill
        have hread := (h.field f).complete _ _ _ _ hahead hrest hbound hvalue
        refine (if_pos hkey).trans ?_
        exact bind_eq_ok_iff.mpr ⟨_, hcolon, bind_eq_ok_iff.mpr ⟨_, hread, rfl⟩⟩
      · obtain ⟨rfl, hmore⟩ := (Slots.take_eq_some_iff_of_ne hkey).mp ht
        refine (if_neg hkey).trans ?_
        exact bind_eq_ok_iff.mpr ⟨_, ih hmore, rfl⟩

theorem InnerFollows.slots
    (h : InnerFollows bound inner decoder) (fs : List Field) :
    StepFollows bound (Slots.read bound inner fs) (Slots.take decoder fs) where
  sound _ _ _ _ _ := h.slots_sound
  complete _ _ _ _ _ _ _ := h.slots_complete

theorem foldlM_cons_eq_some_iff {σ α : Type} {step : σ → α → Option σ} {x : α}
    {xs : List α} {s s' : σ} :
    (x :: xs).foldlM step s = some s' ↔
      ∃ s₁, step s x = some s₁ ∧ xs.foldlM step s₁ = some s' := by
  rw [List.foldlM_cons]
  exact Option.bind_eq_some_iff

/-- The members with a field's key go to its slot, and the others to the slots
of the other fields. -/
theorem foldlM_take_eq_some_iff
    {f : Field} {fs : List Field} {slot slot' : Option f.Val}
    {slots slots' : Slots fs} {named : List (String × Tree)} :
    named.foldlM (Slots.take decoder (f :: fs)) (slot, slots) =
        some (slot', slots') ↔
      (named.filter (·.1 = f.key)).foldlM (f.fill decoder) slot = some slot' ∧
        (named.filter (·.1 ≠ f.key)).foldlM (Slots.take decoder fs) slots =
          some slots' := by
  induction named generalizing slot slots with
  | nil =>
      simp only [List.filter_nil, List.foldlM_nil]
      constructor
      · intro h
        obtain ⟨rfl, rfl⟩ := Prod.mk.inj (Option.some.inj h)
        exact ⟨rfl, rfl⟩
      · rintro ⟨hslot, hslots⟩
        obtain rfl := Option.some.inj hslot
        obtain rfl := Option.some.inj hslots
        rfl
  | cons m named ih =>
      by_cases hkey : m.1 = f.key
      · rw [List.filter_cons_of_pos (by simpa using hkey),
          List.filter_cons_of_neg (by simpa using hkey)]
        constructor
        · intro h
          obtain ⟨⟨slot₁, slots₁⟩, htake, hmore⟩ := foldlM_cons_eq_some_iff.mp h
          obtain ⟨hfill, rfl⟩ := (Slots.take_eq_some_iff_of_eq hkey).mp htake
          obtain ⟨hslot, hslots⟩ := ih.mp hmore
          exact ⟨foldlM_cons_eq_some_iff.mpr ⟨slot₁, hfill, hslot⟩, hslots⟩
        · rintro ⟨h, hslots⟩
          obtain ⟨slot₁, hfill, hslot⟩ := foldlM_cons_eq_some_iff.mp h
          exact foldlM_cons_eq_some_iff.mpr ⟨(slot₁, slots),
            (Slots.take_eq_some_iff_of_eq hkey).mpr ⟨hfill, rfl⟩,
            ih.mpr ⟨hslot, hslots⟩⟩
      · rw [List.filter_cons_of_neg (by simpa using hkey),
          List.filter_cons_of_pos (by simpa using hkey)]
        constructor
        · intro h
          obtain ⟨⟨slot₁, slots₁⟩, htake, hmore⟩ := foldlM_cons_eq_some_iff.mp h
          obtain ⟨rfl, htaken⟩ := (Slots.take_eq_some_iff_of_ne hkey).mp htake
          obtain ⟨hslot, hslots⟩ := ih.mp hmore
          exact ⟨hslot, foldlM_cons_eq_some_iff.mpr ⟨slots₁, htaken, hslots⟩⟩
        · rintro ⟨hslot, h⟩
          obtain ⟨slots₁, htaken, hslots⟩ := foldlM_cons_eq_some_iff.mp h
          exact foldlM_cons_eq_some_iff.mpr ⟨(slot, slots₁),
            (Slots.take_eq_some_iff_of_ne hkey).mpr ⟨rfl, htaken⟩,
            ih.mpr ⟨hslot, hslots⟩⟩

theorem Field.decodeAmong_eq_some_iff
    {f : Field} {named : List (String × Tree)} {value : f.Val} :
    f.decodeAmong decoder named = some value ↔
      ∃ slot,
        (named.filter (·.1 = f.key)).foldlM (f.fill decoder) none =
          some slot ∧
        (slot <|> f.missing?) = some value := by
  unfold Field.decodeAmong
  generalize named.filter (·.1 = f.key) = found
  rcases found with _ | ⟨m, _ | ⟨m', more⟩⟩
  · simp
  · cases hdecode : f.decode decoder m.2 with
    | none => simp [Field.fill, hdecode]
    | some value' => simp [Field.fill, hdecode]
  · cases hdecode : f.decode decoder m.2 with
    | none => simp [Field.fill, hdecode]
    | some value' => simp [Field.fill, hdecode]

theorem Slots.close_cons_eq_ok_iff
    {f : Field} {fs : List Field} {slot : Option f.Val} {slots : Slots fs}
    {value : f.Val} {more : Row fs} :
    Slots.close (f :: fs) (slot, slots) = .ok (value, more) ↔
      (slot <|> f.missing?) = some value ∧ Slots.close fs slots = .ok more := by
  rw [Slots.close]
  cases slot <|> f.missing? with
  | none => simp
  | some value' =>
      constructor
      · intro h
        obtain ⟨more', hmore, hdone⟩ := bind_eq_ok_iff.mp h
        obtain ⟨rfl, rfl⟩ := Prod.mk.inj (Except.ok.inj hdone)
        exact ⟨rfl, hmore⟩
      · rintro ⟨hvalue, hmore⟩
        obtain rfl := Option.some.inj hvalue
        exact bind_eq_ok_iff.mpr ⟨more, hmore, rfl⟩

theorem rowOfMembers_filter_ne
    (decoder : InnerDecoder) {fs : List Field} {key : String}
    (hkey : key ∉ fs.map Field.key) (named : List (String × Tree)) :
    rowOfMembers decoder (named.filter (·.1 ≠ key)) fs =
      rowOfMembers decoder named fs := by
  induction fs with
  | nil => rfl
  | cons f fs ih =>
      rw [List.map_cons, List.mem_cons, not_or] at hkey
      have hfilter : (named.filter (·.1 ≠ key)).filter (·.1 = f.key) =
          named.filter (·.1 = f.key) := by
        rw [List.filter_filter]
        refine List.filter_congr ?_
        intro m _
        by_cases hm : m.1 = f.key
        · simp [hm, Ne.symm hkey.1]
        · simp [hm]
      rw [rowOfMembers, rowOfMembers, ih hkey.2, Field.decodeAmong, hfilter]
      rfl

theorem foldlM_take_nil {named : List (String × Tree)} (slots : Slots []) :
    named.foldlM (Slots.take decoder []) slots = some slots := by
  induction named with
  | nil => rfl
  | cons m named ih => exact foldlM_cons_eq_some_iff.mpr ⟨slots, rfl, ih⟩

/-- Filling slots member by member and closing them gives what looking each
field up among the members gives. -/
theorem rowOfMembers_eq_some_iff
    {fs : List Field} (hkeys : (fs.map Field.key).Nodup)
    {named : List (String × Tree)} {row : Row fs} :
    rowOfMembers decoder named fs = some row ↔
      ∃ slots,
        named.foldlM (Slots.take decoder fs) (Slots.empty fs) = some slots ∧
        Slots.close fs slots = .ok row := by
  induction fs generalizing named with
  | nil => exact iff_of_true rfl ⟨(), foldlM_take_nil (), rfl⟩
  | cons f fs ih =>
      rw [List.map_cons, List.nodup_cons] at hkeys
      obtain ⟨value, more⟩ := row
      have hfilter := rowOfMembers_filter_ne decoder hkeys.1 named
      constructor
      · intro h
        obtain ⟨hvalue, hmore⟩ := pair_eq_some_iff.mp h
        obtain ⟨slot, hslot, hclose⟩ := Field.decodeAmong_eq_some_iff.mp hvalue
        obtain ⟨slots, hslots, hcloses⟩ := (ih hkeys.2).mp (hfilter.trans hmore)
        exact ⟨(slot, slots), foldlM_take_eq_some_iff.mpr ⟨hslot, hslots⟩,
          Slots.close_cons_eq_ok_iff.mpr ⟨hclose, hcloses⟩⟩
      · rintro ⟨⟨slot, slots⟩, htake, hclose⟩
        obtain ⟨hslot, hslots⟩ := foldlM_take_eq_some_iff.mp htake
        obtain ⟨hvalue, hmore⟩ := Slots.close_cons_eq_ok_iff.mp hclose
        have hrow := (ih hkeys.2).mpr ⟨slots, hslots, hmore⟩
        exact pair_eq_some_iff.mpr
          ⟨Field.decodeAmong_eq_some_iff.mpr ⟨slot, hslot, hvalue⟩,
            hfilter.symm.trans hrow⟩

end Slots

end NativeGlue.Raw
