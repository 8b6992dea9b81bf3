import NativeGlue.Json.Walk
import NativeGlue.Proofs.Json.Layout

/-!
# Walking and the grammar

The steps of a reader that keeps what it reads, each as an equivalence with what
stands ahead in the text.
-/

namespace NativeGlue.Json

theorem startingWith_eq_ok_iff {α : Type} {start : Char} {wanted : Wanted}
    {body : Reader α} {cs rest : List Char} {v : α} :
    startingWith start wanted body cs = .ok (v, rest) ↔
      ∃ after, skipSpace cs = start :: after ∧ body after = .ok (v, rest) := by
  unfold startingWith
  cases skipSpace cs with
  | nil => simp
  | cons c after =>
      by_cases hc : c = start
      · simp [hc]
      · simp [hc]

theorem readText_eq_ok_iff {cs rest : List Char} {s : String} :
    readText cs = .ok (s, rest) ↔
      ∃ ps, Ahead Spells cs (.string ps) rest ∧
        (spelled? ps).map String.ofList = some s := by
  rw [readText, startingWith_eq_ok_iff]
  constructor
  · rintro ⟨after, hskip, hstring⟩
    obtain ⟨body, ps, hps, hafter, hs⟩ := string_eq_ok_iff.mp hstring
    refine ⟨ps, ahead_spells_iff.mpr ⟨body, Spells.string hps, ?_⟩, hs⟩
    rw [hskip, hafter]
  · rintro ⟨ps, hahead, hs⟩
    obtain ⟨body, hbody, hcs⟩ := ahead_spells_iff.mp hahead
    cases hbody with
    | string hps =>
        obtain ⟨pieces, rfl, hpieces⟩ := hps
        refine ⟨pieces ++ ['"'] ++ rest, hcs, ?_⟩
        exact string_eq_ok_iff.mpr ⟨_, ps, ⟨pieces, rfl, hpieces⟩, rfl, hs⟩

theorem readFlag_eq_ok_iff {cs rest : List Char} {b : Bool} :
    readFlag cs = .ok (b, rest) ↔ Ahead Spells cs (.boolean b) rest := by
  rw [ahead_boolean_iff]
  constructor
  · intro h
    unfold readFlag at h
    split at h
    · next after hskip =>
        obtain ⟨rfl, rfl⟩ := literal_bind_eq_ok_iff.mp h
        exact hskip
    · next after hskip =>
        obtain ⟨rfl, rfl⟩ := literal_bind_eq_ok_iff.mp h
        exact hskip
    · cases h
  · intro hskip
    cases b with
    | true =>
        simp only [readFlag, hskip, if_true, List.cons_append]
        exact literal_bind_eq_ok_iff.mpr ⟨rfl, rfl⟩
    | false =>
        simp only [readFlag, hskip, Bool.false_eq_true,
          if_false, List.cons_append]
        exact literal_bind_eq_ok_iff.mpr ⟨rfl, rfl⟩

/-! ## The next element -/

theorem nextElement_eq_false_iff {first : Bool} {cs rest : List Char} :
    nextElement first cs = .ok (false, rest) ↔
      ∃ b, Blank b ∧ cs = b ++ ']' :: rest := by
  constructor
  · intro h
    unfold nextElement at h
    split at h
    · cases h
    · next left hclose =>
        obtain ⟨-, rfl⟩ := Prod.mk.inj (Except.ok.inj h)
        exact exists_blank_of_skipSpace_eq hclose
    · split at h
      · cases h
      split at h
      · split at h <;> cases h
      · cases h
  · rintro ⟨b, hb, rfl⟩
    simp only [nextElement, skipSpace_blank_cons hb ']' rfl]

theorem nextElement_sound {first : Bool} {cs left : List Char}
    (h : nextElement first cs = .ok (true, left)) :
    ∃ after, Lead first cs after ∧ left = skipSpace after := by
  unfold nextElement at h
  split at h
  · cases h
  · cases h
  · next c rest _ hskip =>
      split at h
      · next hfirst =>
          subst hfirst
          obtain ⟨-, rfl⟩ := Prod.mk.inj (Except.ok.inj h)
          exact ⟨cs, rfl, hskip.symm⟩
      next hfirst =>
      split at h
      · next hcomma =>
          subst hcomma
          rw [Bool.not_eq_true] at hfirst
          subst hfirst
          split at h
          · cases h
          · cases h
          · obtain ⟨-, rfl⟩ := Prod.mk.inj (Except.ok.inj h)
            exact ⟨rest, exists_blank_of_skipSpace_eq hskip, rfl⟩
      · cases h

theorem nextElement_comma {b : List Char} (hb : Blank b) (after : List Char) :
    nextElement false (b ++ ',' :: after) =
      match skipSpace after with
      | [] => .error .endInValue
      | ']' :: _ => .error .trailingComma
      | rest => .ok (true, rest) := by
  unfold nextElement
  rw [skipSpace_blank_cons hb ',' rfl]
  rfl

theorem nextElement_complete
    {first : Bool} {cs after rest : List Char} {t : Tree}
    (hlead : Lead first cs after) (hahead : Ahead Spells after t rest) :
    nextElement first cs = .ok (true, skipSpace after) := by
  obtain ⟨body, hbody, hafter⟩ := ahead_spells_iff.mp hahead
  obtain ⟨c, more, rfl, hc⟩ := hbody.startsWith
  have hclose : c ≠ ']' := by
    rintro rfl
    exact absurd hc.mem (by decide)
  cases first with
  | true =>
      obtain rfl : cs = after := hlead
      unfold nextElement
      split
      · next heq => cases hafter.symm.trans heq
      · next heq =>
          obtain ⟨rfl, -⟩ := List.cons.inj (hafter.symm.trans heq)
          exact absurd rfl hclose
      · next heq => rw [if_pos rfl, heq]
  | false =>
      obtain ⟨b, hb, rfl⟩ := hlead
      rw [nextElement_comma hb]
      split
      · next heq => cases hafter.symm.trans heq
      · next heq =>
          obtain ⟨rfl, -⟩ := List.cons.inj (hafter.symm.trans heq)
          exact absurd rfl hclose
      · rfl

theorem listEnd_eq_ok_iff {cs rest : List Char} :
    listEnd cs = .ok rest ↔ ∃ b, Blank b ∧ cs = b ++ ']' :: rest := by
  constructor
  · intro h
    unfold listEnd at h
    split at h
    · cases h
    · next left hclose =>
        obtain rfl := Except.ok.inj h
        exact exists_blank_of_skipSpace_eq hclose
    · split at h <;> cases h
    · cases h
  · rintro ⟨b, hb, rfl⟩
    simp only [listEnd, skipSpace_blank_cons hb ']' rfl]

/-! ## The next key -/

theorem string_ahead_iff {cs after rest : List Char} {key : String}
    (hskip : skipSpace cs = '"' :: after) :
    string after = .ok (key, rest) ↔
      ∃ ps, Ahead SpellsString cs ps rest ∧
        (spelled? ps).map String.ofList = some key := by
  have hread :
      readText cs = .ok (key, rest) ↔ string after = .ok (key, rest) := by
    rw [readText, startingWith_eq_ok_iff, hskip]
    simp
  simp only [← hread, readText_eq_ok_iff, ahead_string_iff]

/-- The next key is one that stands where the next member starts, or there is
none and the object ends. -/
theorem nextKey_sound
    {first : Bool} {cs rest : List Char} {key? : Option String}
    (h : nextKey first cs = .ok (key?, rest)) :
    (key? = none ∧ ∃ b, Blank b ∧ cs = b ++ '\x7d' :: rest) ∨
      ∃ key after quoted, key? = some key ∧ Lead first cs after ∧
        skipSpace after = '"' :: quoted ∧ string quoted = .ok (key, rest) := by
  have hkey : ∀ quoted : List Char,
      (do let key ← string quoted; return (some key.1, key.2)) =
        Except.ok (key?, rest) →
      ∃ key, key? = some key ∧ string quoted = .ok (key, rest) := by
    intro quoted h
    obtain ⟨⟨key, left⟩, hstring, hdone⟩ := bind_eq_ok_iff.mp h
    obtain ⟨rfl, rfl⟩ := Prod.mk.inj (Except.ok.inj hdone)
    exact ⟨key, rfl, hstring⟩
  unfold nextKey at h
  split at h
  · cases h
  · next left hclose =>
      obtain ⟨rfl, rfl⟩ := Prod.mk.inj (Except.ok.inj h)
      exact Or.inl ⟨rfl, exists_blank_of_skipSpace_eq hclose⟩
  · next c after _ hskip =>
      right
      cases first with
      | true =>
          rw [if_pos rfl] at h
          split at h
          · next hquote =>
              subst hquote
              obtain ⟨key, rfl, hstring⟩ := hkey after h
              exact ⟨key, cs, after, rfl, rfl, hskip, hstring⟩
          · cases h
      | false =>
          rw [if_neg (by decide)] at h
          split at h
          · next hcomma =>
              subst hcomma
              split at h
              · cases h
              · cases h
              · next quoted hquote =>
                  obtain ⟨key, rfl, hstring⟩ := hkey quoted h
                  have hlead := exists_blank_of_skipSpace_eq hskip
                  exact ⟨key, after, quoted, rfl, hlead, hquote, hstring⟩
              · cases h
          · cases h

theorem nextKey_eq_none_iff {first : Bool} {cs rest : List Char} :
    nextKey first cs = .ok (none, rest) ↔
      ∃ b, Blank b ∧ cs = b ++ '\x7d' :: rest := by
  constructor
  · intro h
    rcases nextKey_sound h with ⟨-, hend⟩ | ⟨key, _, _, hkey, -⟩
    · exact hend
    · cases hkey
  · rintro ⟨b, hb, rfl⟩
    simp only [nextKey, skipSpace_blank_cons hb '\x7d' rfl]

theorem nextKey_of_quote
    {first : Bool} {cs after quoted rest : List Char} {key : String}
    (hlead : Lead first cs after) (hquote : skipSpace after = '"' :: quoted)
    (hstring : string quoted = .ok (key, rest)) :
    nextKey first cs = .ok (some key, rest) := by
  unfold nextKey
  cases first with
  | true =>
      obtain rfl : cs = after := hlead
      rw [hquote]
      exact bind_eq_ok_iff.mpr ⟨_, hstring, rfl⟩
  | false =>
      obtain ⟨b, hb, rfl⟩ := hlead
      rw [skipSpace_blank_cons hb ',' rfl]
      split
      · next heq => cases heq
      · next heq => exact absurd (List.cons.inj heq).1 (by decide)
      · next heq =>
          obtain ⟨rfl, rfl⟩ := List.cons.inj heq
          rw [if_neg (by decide), if_pos rfl, hquote]
          exact bind_eq_ok_iff.mpr ⟨_, hstring, rfl⟩

theorem nextKey_eq_some_iff
    {first : Bool} {cs rest : List Char} {key : String} :
    nextKey first cs = .ok (some key, rest) ↔
      ∃ after ps, Lead first cs after ∧ Ahead SpellsString after ps rest ∧
        (spelled? ps).map String.ofList = some key := by
  constructor
  · intro h
    rcases nextKey_sound h with
      ⟨hkey, -⟩ | ⟨_, after, quoted, hkey, hlead, hquote, hstring⟩
    · cases hkey
    · obtain rfl := Option.some.inj hkey
      obtain ⟨ps, hahead, hps⟩ := (string_ahead_iff hquote).mp hstring
      exact ⟨after, ps, hlead, hahead, hps⟩
  · rintro ⟨after, ps, hlead, hahead, hps⟩
    obtain ⟨quoted, hquote, -⟩ :=
      ahead_looseString_iff.mp (ahead_string_iff.mp hahead)
    exact nextKey_of_quote hlead hquote
      ((string_ahead_iff hquote).mpr ⟨ps, hahead, hps⟩)

end NativeGlue.Json
