import NativeGlue.Json.Value
import NativeGlue.Proofs.Json.Layout

/-!
# Values of any shape and the grammar

The reader of values takes exactly the values of the grammar and gives their
trees.  Soundness and completeness both go by induction on the bound, for the
reader of values together with the readers of the items and the members that
follow.  Completeness makes the grammar unambiguous.
-/

namespace NativeGlue.Json

theorem looseKey_eq_ok_iff {cs rest : List Char} {key : List Piece} :
    looseKey cs = .ok (key, rest) ↔
      ∃ b, Blank b ∧ Ahead SpellsString cs key (b ++ ':' :: rest) := by
  constructor
  · intro h
    unfold looseKey at h
    split at h
    · cases h
    · next after hskip =>
        obtain ⟨⟨ps, left⟩, hstring, h⟩ := bind_eq_ok_iff.mp h
        obtain ⟨left', hcolon, hdone⟩ := bind_eq_ok_iff.mp h
        obtain ⟨rfl, rfl⟩ := Prod.mk.inj (Except.ok.inj hdone)
        obtain ⟨b, hb, rfl⟩ := colon_eq_ok_iff.mp hcolon
        refine ⟨b, hb, ahead_string_iff.mpr ?_⟩
        exact ahead_looseString_iff.mpr ⟨after, hskip, hstring⟩
    · cases h
  · rintro ⟨b, hb, hkey⟩
    obtain ⟨after, hskip, hstring⟩ :=
      ahead_looseString_iff.mp (ahead_string_iff.mp hkey)
    have hcolon : colon (b ++ ':' :: rest) = .ok rest :=
      colon_eq_ok_iff.mpr ⟨b, hb, rfl⟩
    simp only [looseKey, hskip]
    exact bind_eq_ok_iff.mpr ⟨_, hstring, bind_eq_ok_iff.mpr ⟨_, hcolon, rfl⟩⟩

@[simp] theorem looseKey_skipSpace (cs : List Char) :
    looseKey (skipSpace cs) = looseKey cs := by
  rw [looseKey, looseKey, skipSpace_skipSpace]

/-! ## Soundness -/

/-- What the readers take within a bound is spelled by the grammar. -/
structure SoundWithin (n : Nat) : Prop where
  value (cs : List Char) (t : Tree) (rest : List Char) :
    value n cs = .ok (t, rest) → Ahead Spells cs t rest
  items (cs : List Char) (ts : List Tree) (rest : List Char) :
    moreItems n cs = .ok (ts, rest) → Run ']' (Ahead Spells) false cs ts rest
  members (cs : List Char) (ms : List Member) (rest : List Char) :
    moreMembers n cs = .ok (ms, rest) → Run '\x7d' AheadMember false cs ms rest

theorem looseNumber_sound {cs rest : List Char} {t : Tree}
    (h : looseNumber (skipSpace cs) = .ok (t, rest)) :
    Ahead Spells cs t rest := by
  unfold looseNumber at h
  split at h
  · cases h
  · next n left hnumeral =>
      obtain ⟨rfl, rfl⟩ := Prod.mk.inj (Except.ok.inj h)
      obtain ⟨body, hbody, hcs⟩ := numeral_sound hnumeral
      exact ahead_spells_iff.mpr ⟨body, Spells.number hbody, hcs⟩

theorem SoundWithin.list {n : Nat} (hn : SoundWithin n)
    {cs left rest : List Char} {t : Tree} {ts : List Tree}
    (hvalue : Json.value n (skipSpace cs) = .ok (t, left))
    (hitems : moreItems n left = .ok (ts, rest)) :
    Run ']' (Ahead Spells) true cs (t :: ts) rest := by
  have hahead := ahead_skipSpace_iff.mp (hn.value _ _ _ hvalue)
  exact Run.first hahead (hn.items _ _ _ hitems)

theorem SoundWithin.object
    {n : Nat} (hn : SoundWithin n) {cs left left' rest : List Char}
    {key : List Piece} {t : Tree} {ms : List Member}
    (hkey : looseKey (skipSpace cs) = .ok (key, left))
    (hvalue : Json.value n left = .ok (t, left'))
    (hmembers : moreMembers n left' = .ok (ms, rest)) :
    Run '\x7d' AheadMember true cs (⟨key, t⟩ :: ms) rest := by
  rw [looseKey_skipSpace, looseKey_eq_ok_iff] at hkey
  obtain ⟨b, hb, hkey⟩ := hkey
  have hmember : AheadMember cs ⟨key, t⟩ left' :=
    ⟨b, left, hb, hkey, hn.value _ _ _ hvalue⟩
  exact Run.first hmember (hn.members _ _ _ hmembers)

theorem SoundWithin.value_succ
    {n : Nat} (hn : SoundWithin n) {cs rest : List Char} {t : Tree}
    (h : Json.value (n + 1) cs = .ok (t, rest)) :
    Ahead Spells cs t rest := by
  rw [Json.value] at h
  split at h
  · cases h
  · next after hskip =>
      obtain ⟨rfl, rfl⟩ := literal_bind_eq_ok_iff.mp h
      exact ahead_null_iff.mpr hskip
  · next after hskip =>
      obtain ⟨rfl, rfl⟩ := literal_bind_eq_ok_iff.mp h
      exact ahead_boolean_iff.mpr hskip
  · next after hskip =>
      obtain ⟨rfl, rfl⟩ := literal_bind_eq_ok_iff.mp h
      exact ahead_boolean_iff.mpr hskip
  · next after hskip =>
      obtain ⟨⟨ps, left⟩, hstring, hdone⟩ := bind_eq_ok_iff.mp h
      obtain ⟨rfl, rfl⟩ := Prod.mk.inj (Except.ok.inj hdone)
      exact ahead_looseString_iff.mpr ⟨after, hskip, hstring⟩
  · next after hskip =>
      split at h
      · cases h
      · next left hclose =>
          obtain ⟨rfl, rfl⟩ := Prod.mk.inj (Except.ok.inj h)
          obtain ⟨b, hb, rfl⟩ := exists_blank_of_skipSpace_eq hclose
          exact ahead_list_iff.mpr ⟨_, hskip, Run.stop hb⟩
      · obtain ⟨⟨item, left⟩, hvalue, h⟩ := bind_eq_ok_iff.mp h
        obtain ⟨⟨items, left'⟩, hitems, hdone⟩ := bind_eq_ok_iff.mp h
        obtain ⟨rfl, rfl⟩ := Prod.mk.inj (Except.ok.inj hdone)
        exact ahead_list_iff.mpr ⟨after, hskip, hn.list hvalue hitems⟩
  · next after hskip =>
      split at h
      · next left hclose =>
          obtain ⟨rfl, rfl⟩ := Prod.mk.inj (Except.ok.inj h)
          obtain ⟨b, hb, rfl⟩ := exists_blank_of_skipSpace_eq hclose
          exact ahead_object_iff.mpr ⟨_, hskip, Run.stop hb⟩
      · obtain ⟨⟨key, left⟩, hkey, h⟩ := bind_eq_ok_iff.mp h
        obtain ⟨⟨item, left'⟩, hvalue, h⟩ := bind_eq_ok_iff.mp h
        obtain ⟨⟨members, left''⟩, hmembers, hdone⟩ := bind_eq_ok_iff.mp h
        obtain ⟨rfl, rfl⟩ := Prod.mk.inj (Except.ok.inj hdone)
        exact ahead_object_iff.mpr
          ⟨after, hskip, hn.object hkey hvalue hmembers⟩
  · next c after _ _ _ _ _ _ hskip =>
      split at h
      · rw [← hskip] at h
        exact looseNumber_sound h
      · cases h

theorem SoundWithin.items_succ {n : Nat} (hn : SoundWithin n)
    {cs rest : List Char} {ts : List Tree}
    (h : moreItems (n + 1) cs = .ok (ts, rest)) :
    Run ']' (Ahead Spells) false cs ts rest := by
  rw [moreItems] at h
  split at h
  · cases h
  · next left hclose =>
      obtain ⟨rfl, rfl⟩ := Prod.mk.inj (Except.ok.inj h)
      obtain ⟨b, hb, rfl⟩ := exists_blank_of_skipSpace_eq hclose
      exact Run.stop hb
  · next after hcomma =>
      obtain ⟨⟨item, left⟩, hvalue, h⟩ := bind_eq_ok_iff.mp h
      obtain ⟨⟨items, left'⟩, hitems, hdone⟩ := bind_eq_ok_iff.mp h
      obtain ⟨rfl, rfl⟩ := Prod.mk.inj (Except.ok.inj hdone)
      obtain ⟨b, hb, rfl⟩ := exists_blank_of_skipSpace_eq hcomma
      exact Run.next hb (hn.value _ _ _ hvalue) (hn.items _ _ _ hitems)
  · cases h

theorem SoundWithin.members_succ {n : Nat} (hn : SoundWithin n)
    {cs rest : List Char} {ms : List Member}
    (h : moreMembers (n + 1) cs = .ok (ms, rest)) :
    Run '\x7d' AheadMember false cs ms rest := by
  rw [moreMembers] at h
  split at h
  · cases h
  · next left hclose =>
      obtain ⟨rfl, rfl⟩ := Prod.mk.inj (Except.ok.inj h)
      obtain ⟨b, hb, rfl⟩ := exists_blank_of_skipSpace_eq hclose
      exact Run.stop hb
  · next after hcomma =>
      obtain ⟨⟨key, left⟩, hkey, h⟩ := bind_eq_ok_iff.mp h
      obtain ⟨⟨item, left'⟩, hvalue, h⟩ := bind_eq_ok_iff.mp h
      obtain ⟨⟨members, left''⟩, hmembers, hdone⟩ := bind_eq_ok_iff.mp h
      obtain ⟨rfl, rfl⟩ := Prod.mk.inj (Except.ok.inj hdone)
      obtain ⟨b, hb, rfl⟩ := exists_blank_of_skipSpace_eq hcomma
      obtain ⟨b', hb', hkey⟩ := looseKey_eq_ok_iff.mp hkey
      exact Run.next hb ⟨b', left, hb', hkey, hn.value _ _ _ hvalue⟩
        (hn.members _ _ _ hmembers)
  · cases h

theorem soundWithin (n : Nat) : SoundWithin n := by
  induction n with
  | zero =>
      refine ⟨?_, ?_, ?_⟩
      · intro cs t rest h
        cases h
      · intro cs ts rest h
        cases h
      · intro cs ms rest h
        cases h
  | succ n ih =>
      exact ⟨fun _ _ _ => ih.value_succ, fun _ _ _ => ih.items_succ,
        fun _ _ _ => ih.members_succ⟩

/-- What the reader takes is a value of the grammar. -/
theorem value_sound {n : Nat} {cs rest : List Char} {t : Tree}
    (h : value n cs = .ok (t, rest)) : Ahead Spells cs t rest :=
  (soundWithin n).value cs t rest h

/-! ## Completeness -/

theorem endsNumeral_blank_append {b cs : List Char} (hb : Blank b)
    (hcs : EndsNumeral cs) : EndsNumeral (b ++ cs) := by
  cases b with
  | nil => exact hcs
  | cons c b =>
      intro d hd
      obtain rfl : c = d := by simpa using hd
      rcases hb c (by simp) with rfl | rfl | rfl | rfl
      all_goals decide

theorem Blank.endsNumeral {b : List Char} (hb : Blank b) : EndsNumeral b := by
  simpa using endsNumeral_blank_append hb
    (show EndsNumeral [] by simp [EndsNumeral])

theorem endsNumeral_comma (rest : List Char) : EndsNumeral (',' :: rest) := by
  simp [EndsNumeral, isDigit]

theorem endsNumeral_bracket (rest : List Char) : EndsNumeral (']' :: rest) := by
  simp [EndsNumeral, isDigit]

theorem endsNumeral_brace (rest : List Char) :
    EndsNumeral ('\x7d' :: rest) := by
  simp [EndsNumeral, isDigit]

theorem Run.endsNumeral
    {α : Type} {close : Char} {A : List Char → α → List Char → Prop}
    {cs rest : List Char} {xs : List α} (h : Run close A false cs xs rest)
    (hclose : ∀ rest, EndsNumeral (close :: rest)) :
    EndsNumeral cs := by
  cases h with
  | stop hb => exact endsNumeral_blank_append hb (hclose _)
  | next hb _ _ => exact endsNumeral_blank_append hb (endsNumeral_comma _)

/-- The readers take what the grammar spells, if the text has no more characters
than the bound says. -/
structure CompleteWithin (n : Nat) : Prop where
  value (cs : List Char) (t : Tree) (rest : List Char) :
    Ahead Spells cs t rest → EndsNumeral rest → cs.length ≤ n →
    value n cs = .ok (t, rest)
  items (cs : List Char) (ts : List Tree) (rest : List Char) :
    Run ']' (Ahead Spells) false cs ts rest → cs.length ≤ n →
    moreItems n cs = .ok (ts, rest)
  members (cs : List Char) (ms : List Member) (rest : List Char) :
    Run '\x7d' AheadMember false cs ms rest → cs.length ≤ n →
    moreMembers n cs = .ok (ms, rest)

theorem skipSpace_length_le (cs : List Char) :
    (skipSpace cs).length ≤ cs.length := by
  obtain ⟨a, -, hcs⟩ := exists_blank_append_skipSpace cs
  have hlen := congrArg List.length hcs
  rw [List.length_append] at hlen
  omega

theorem value_of_numeral {n : Nat} {cs more : List Char} {c : Char}
    (hskip : skipSpace cs = c :: more) (hc : c = '-' ∨ isDigit c = true) :
    value (n + 1) cs = looseNumber (c :: more) := by
  rw [value]
  split
  case h_8 c' more' _ _ _ _ _ _ heq =>
      obtain ⟨rfl, rfl⟩ := List.cons.inj (hskip.symm.trans heq)
      exact if_pos hc
  case h_1 heq => cases hskip.symm.trans heq
  all_goals
    rename_i heq
    obtain ⟨rfl, -⟩ := List.cons.inj (hskip.symm.trans heq)
    exact absurd hc (by decide)

theorem value_of_list
    {n : Nat} {cs inner rest : List Char} {items : List Tree}
    (hn : CompleteWithin n) (hskip : skipSpace cs = '[' :: inner)
    (hrun : Run ']' (Ahead Spells) true inner items rest)
    (hlen : inner.length ≤ n) :
    value (n + 1) cs = .ok (.list items, rest) := by
  simp only [value, hskip]
  cases hrun with
  | stop hb =>
      simp only [skipSpace_blank_cons hb ']' rfl]
  | @first _ left _ item items hitem hmore =>
      have hleft := (leads_ahead _).length_le hitem
      have hvalue := hn.value _ _ _ (ahead_skipSpace_iff.mpr hitem)
        (hmore.endsNumeral endsNumeral_bracket)
        ((skipSpace_length_le inner).trans hlen)
      have hitems := hn.items _ _ _ hmore (hleft.trans hlen)
      obtain ⟨body, hbody, hinner⟩ := ahead_spells_iff.mp hitem
      obtain ⟨c, more, rfl, hc⟩ := hbody.startsWith
      split
      · next heq => cases hinner.symm.trans heq
      · next heq =>
          obtain ⟨rfl, -⟩ := List.cons.inj (hinner.symm.trans heq)
          exact absurd hc.mem (by decide)
      · exact bind_eq_ok_iff.mpr
          ⟨_, hvalue, bind_eq_ok_iff.mpr ⟨_, hitems, rfl⟩⟩

theorem AheadMember.exists_quote {cs rest : List Char} {m : Member}
    (h : AheadMember cs m rest) : ∃ after, skipSpace cs = '"' :: after := by
  obtain ⟨b, left, -, hkey, -⟩ := h
  obtain ⟨after, hskip, -⟩ :=
    ahead_looseString_iff.mp (ahead_string_iff.mp hkey)
  exact ⟨after, hskip⟩

theorem CompleteWithin.member {n : Nat} (hn : CompleteWithin n)
    {cs rest : List Char} {m : Member} (h : AheadMember cs m rest)
    (hrest : EndsNumeral rest) (hlen : cs.length ≤ n) :
    ∃ left, looseKey cs = .ok (m.key, left) ∧
      Json.value n left = .ok (m.value, rest) := by
  obtain ⟨b, left, hb, hkey, hvalue⟩ := h
  have hleft := (leads_ahead _).length_le hkey
  simp only [List.length_append, List.length_cons] at hleft
  exact ⟨left, looseKey_eq_ok_iff.mpr ⟨b, hb, hkey⟩,
    hn.value _ _ _ hvalue hrest (by omega)⟩

theorem value_of_object
    {n : Nat} {cs inner rest : List Char} {members : List Member}
    (hn : CompleteWithin n) (hskip : skipSpace cs = '\x7b' :: inner)
    (hrun : Run '\x7d' AheadMember true inner members rest)
    (hlen : inner.length ≤ n) :
    value (n + 1) cs = .ok (.object members, rest) := by
  simp only [value, hskip]
  cases hrun with
  | stop hb =>
      simp only [skipSpace_blank_cons hb '\x7d' rfl]
  | @first _ left _ member members hmember hmore =>
      obtain ⟨key, t⟩ := member
      have hleft := leads_aheadMember.length_le hmember
      obtain ⟨left', hkey, hvalue⟩ := hn.member hmember
        (hmore.endsNumeral endsNumeral_brace) hlen
      rw [← looseKey_skipSpace] at hkey
      have hmembers := hn.members _ _ _ hmore (hleft.trans hlen)
      obtain ⟨after, hinner⟩ := hmember.exists_quote
      split
      · next heq => cases hinner.symm.trans heq
      · exact bind_eq_ok_iff.mpr ⟨_, hkey, bind_eq_ok_iff.mpr ⟨_, hvalue,
          bind_eq_ok_iff.mpr ⟨_, hmembers, rfl⟩⟩⟩

theorem CompleteWithin.value_succ {n : Nat} (hn : CompleteWithin n)
    {cs rest : List Char} {t : Tree} (h : Ahead Spells cs t rest)
    (hrest : EndsNumeral rest) (hlen : cs.length ≤ n + 1) :
    Json.value (n + 1) cs = .ok (t, rest) := by
  have hskipped := skipSpace_length_le cs
  cases t with
  | null =>
      have hskip := ahead_null_iff.mp h
      simp only [Json.value, hskip, List.cons_append]
      exact literal_bind_eq_ok_iff.mpr ⟨rfl, rfl⟩
  | boolean b =>
      have hskip := ahead_boolean_iff.mp h
      cases b with
      | true =>
          simp only [Json.value, hskip, if_true, List.cons_append]
          exact literal_bind_eq_ok_iff.mpr ⟨rfl, rfl⟩
      | false =>
          simp only [Json.value, hskip, Bool.false_eq_true,
            if_false, List.cons_append]
          exact literal_bind_eq_ok_iff.mpr ⟨rfl, rfl⟩
  | number numeral =>
      obtain ⟨body, hbody, hskip⟩ := ahead_spells_iff.mp h
      cases hbody with
      | number hnumeral =>
          have hread := numeral_complete hnumeral hrest
          obtain ⟨c, more, rfl, hc⟩ := hnumeral.startsWith
          rw [List.cons_append] at hskip hread
          rw [value_of_numeral hskip hc, looseNumber, hread]
  | string ps =>
      obtain ⟨after, hskip, hstring⟩ := ahead_looseString_iff.mp h
      simp only [Json.value, hskip]
      exact bind_eq_ok_iff.mpr ⟨_, hstring, rfl⟩
  | list items =>
      obtain ⟨inner, hskip, hrun⟩ := ahead_list_iff.mp h
      rw [hskip, List.length_cons] at hskipped
      exact value_of_list hn hskip hrun (by omega)
  | object members =>
      obtain ⟨inner, hskip, hrun⟩ := ahead_object_iff.mp h
      rw [hskip, List.length_cons] at hskipped
      exact value_of_object hn hskip hrun (by omega)

theorem CompleteWithin.items_succ {n : Nat} (hn : CompleteWithin n)
    {cs rest : List Char} {ts : List Tree}
    (h : Run ']' (Ahead Spells) false cs ts rest) (hlen : cs.length ≤ n + 1) :
    moreItems (n + 1) cs = .ok (ts, rest) := by
  cases h with
  | stop hb =>
      simp only [moreItems, skipSpace_blank_cons hb ']' rfl]
  | next hb hitem hmore =>
      have hleft := (leads_ahead _).length_le hitem
      simp only [List.length_append, List.length_cons] at hlen
      have hvalue :=
        hn.value _ _ _ hitem (hmore.endsNumeral endsNumeral_bracket) (by omega)
      have hitems := hn.items _ _ _ hmore (by omega)
      simp only [moreItems, skipSpace_blank_cons hb ',' rfl]
      exact bind_eq_ok_iff.mpr ⟨_, hvalue, bind_eq_ok_iff.mpr ⟨_, hitems, rfl⟩⟩

theorem CompleteWithin.members_succ {n : Nat} (hn : CompleteWithin n)
    {cs rest : List Char} {ms : List Member}
    (h : Run '\x7d' AheadMember false cs ms rest) (hlen : cs.length ≤ n + 1) :
    moreMembers (n + 1) cs = .ok (ms, rest) := by
  cases h with
  | stop hb =>
      simp only [moreMembers, skipSpace_blank_cons hb '\x7d' rfl]
  | @next b cs left _ member members hb hmember hmore =>
      obtain ⟨key, t⟩ := member
      have hleft := leads_aheadMember.length_le hmember
      simp only [List.length_append, List.length_cons] at hlen
      obtain ⟨left', hkey, hvalue⟩ := hn.member hmember
        (hmore.endsNumeral endsNumeral_brace) (by omega)
      have hmembers := hn.members _ _ _ hmore (by omega)
      simp only [moreMembers, skipSpace_blank_cons hb ',' rfl]
      exact bind_eq_ok_iff.mpr ⟨_, hkey, bind_eq_ok_iff.mpr ⟨_, hvalue,
        bind_eq_ok_iff.mpr ⟨_, hmembers, rfl⟩⟩⟩

theorem Ahead.ne_nil
    {cs rest : List Char} {t : Tree} (h : Ahead Spells cs t rest) :
    cs ≠ [] := by
  obtain ⟨a, body, -, hbody, rfl⟩ := h
  obtain ⟨c, more, rfl, -⟩ := hbody.startsWith
  simp

theorem Run.ne_nil
    {α : Type} {close : Char} {A : List Char → α → List Char → Prop}
    {cs rest : List Char} {xs : List α} (h : Run close A false cs xs rest) :
    cs ≠ [] := by
  cases h <;> simp

theorem completeWithin (n : Nat) : CompleteWithin n := by
  induction n with
  | zero =>
      refine ⟨?_, ?_, ?_⟩
      · intro cs t rest h _ hlen
        exact absurd (List.length_eq_zero_iff.mp (Nat.le_zero.mp hlen)) h.ne_nil
      · intro cs ts rest h hlen
        exact absurd (List.length_eq_zero_iff.mp (Nat.le_zero.mp hlen)) h.ne_nil
      · intro cs ms rest h hlen
        exact absurd (List.length_eq_zero_iff.mp (Nat.le_zero.mp hlen)) h.ne_nil
  | succ n ih =>
      exact ⟨fun _ _ _ => ih.value_succ, fun _ _ _ => ih.items_succ,
        fun _ _ _ => ih.members_succ⟩

/-- A value of the grammar is taken by the reader, with its tree. -/
theorem value_complete
    {n : Nat} {cs rest : List Char} {t : Tree} (h : Ahead Spells cs t rest)
    (hrest : EndsNumeral rest) (hlen : cs.length ≤ n) :
    value n cs = .ok (t, rest) :=
  (completeWithin n).value cs t rest h hrest hlen

/-- A text spells at most one value. -/
theorem SpellsText.unique {cs : List Char} {t t' : Tree}
    (h : SpellsText cs t) (h' : SpellsText cs t') : t = t' := by
  obtain ⟨b, hb, h⟩ := ((leads_ahead Spells).rule cs t).mp h
  obtain ⟨b', hb', h'⟩ := ((leads_ahead Spells).rule cs t').mp h'
  have hread := value_complete h hb.endsNumeral le_rfl
  have hread' := value_complete h' hb'.endsNumeral le_rfl
  exact (Prod.mk.inj (Except.ok.inj (hread.symm.trans hread'))).1

end NativeGlue.Json
