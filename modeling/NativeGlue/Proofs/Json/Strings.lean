import NativeGlue.Json.Scan
import NativeGlue.Proofs.Json.Grammar
import NativeGlue.Proofs.Traversal
import Mathlib.Tactic.IntervalCases

/-!
# Strings and the grammar

The loose scanner of strings takes exactly the spelled strings and gives their
pieces.  The strict scanner takes those of them whose pieces spell characters,
that is, those in which every surrogate is in a pair, and gives the characters.
-/

namespace NativeGlue.Json

/-! ## Escapes -/

theorem HexDigit.lt {c : Char} {n : Nat} (h : HexDigit c n) : n < 16 := by
  rcases h with h | h
  · exact (List.getElem?_eq_some_iff.mp h).1
  · exact (List.getElem?_eq_some_iff.mp h).1

theorem HexDigit.hexValue? {c : Char} {n : Nat} (h : HexDigit c n) :
    hexValue? c = some n := by
  have hn := h.lt
  interval_cases n <;> rcases h with h | h <;>
    (obtain rfl := Option.some.inj h; decide)

theorem hexDigit_of_hexValue? {c : Char} {n : Nat} (h : hexValue? c = some n) :
    HexDigit c n := by
  have hc : c = Char.ofNat c.toNat := (Char.ofNat_toNat c).symm
  unfold Json.hexValue? at h
  split at h
  · next hrange =>
      obtain rfl := Option.some.inj h
      have hlow : 48 ≤ c.toNat := hrange.1
      have hhigh : c.toNat ≤ 57 := hrange.2
      generalize c.toNat = k at *
      subst hc
      interval_cases k <;> exact Or.inl rfl
  split at h
  · next hrange =>
      obtain rfl := Option.some.inj h
      have hlow : 97 ≤ c.toNat := hrange.1
      have hhigh : c.toNat ≤ 102 := hrange.2
      generalize c.toNat = k at *
      subst hc
      interval_cases k <;> exact Or.inl rfl
  split at h
  · next hrange =>
      obtain rfl := Option.some.inj h
      have hlow : 65 ≤ c.toNat := hrange.1
      have hhigh : c.toNat ≤ 70 := hrange.2
      generalize c.toNat = k at *
      subst hc
      interval_cases k <;> exact Or.inr rfl
  · cases h

theorem shortEscape?_eq_some_iff {l c : Char} :
    shortEscape? l = some c ↔ (l, c) ∈ escapeLetters := by
  constructor
  · intro h
    unfold shortEscape? at h
    split at h <;> cases h
    all_goals decide
  · intro h
    simp only [escapeLetters, List.mem_cons, Prod.mk.injEq, List.not_mem_nil,
      or_false] at h
    rcases h with ⟨rfl, rfl⟩ | ⟨rfl, rfl⟩ | ⟨rfl, rfl⟩ | ⟨rfl, rfl⟩ |
      ⟨rfl, rfl⟩ | ⟨rfl, rfl⟩ | ⟨rfl, rfl⟩ | ⟨rfl, rfl⟩ <;> rfl

theorem isControl_eq_false_iff {c : Char} : isControl c = false ↔ ' ' ≤ c := by
  rw [isControl, decide_eq_false_iff_not, Nat.not_lt]
  rfl

theorem hexUnit_sound {cs : List Char} {n : Nat} (h : hexUnit cs = .ok n) :
    ∃ ds rest, cs = ds ++ rest ∧ ds.length = 4 ∧
      SpellsPiece ('\\' :: 'u' :: ds) (.unit n) := by
  unfold hexUnit at h
  split at h
  · next a b c d rest =>
      split at h
      · next i j k l ha hb hc hd =>
          obtain rfl := Except.ok.inj h
          exact ⟨[a, b, c, d], rest, rfl, rfl, SpellsPiece.unit
            (hexDigit_of_hexValue? ha) (hexDigit_of_hexValue? hb)
            (hexDigit_of_hexValue? hc) (hexDigit_of_hexValue? hd)⟩
      · cases h
  · cases h

theorem SpellsPiece.unit_inv
    {p : List Char} {n : Nat} (h : SpellsPiece p (.unit n)) :
    ∃ ds, p = '\\' :: 'u' :: ds ∧ ds.length = 4 ∧
      ∀ rest, hexUnit (ds ++ rest) = .ok n := by
  cases h with
  | @unit a b c d i j k l ha hb hc hd =>
      refine ⟨[a, b, c, d], rfl, rfl, fun rest => ?_⟩
      simp [hexUnit, ha.hexValue?, hb.hexValue?, hc.hexValue?, hd.hexValue?]

theorem SpellsPiece.char_inv {p : List Char} {c : Char}
    (h : SpellsPiece p (.char c)) :
    (p = [c] ∧ c ≠ '"' ∧ c ≠ '\\' ∧ isControl c = false) ∨
      ∃ l, p = ['\\', l] ∧ l ≠ 'u' ∧ shortEscape? l = some c := by
  cases h with
  | plain hquote hslash hspace =>
      exact Or.inl ⟨rfl, hquote, hslash, isControl_eq_false_iff.mpr hspace⟩
  | letter hl =>
      refine Or.inr ⟨_, rfl, ?_, shortEscape?_eq_some_iff.mpr hl⟩
      rintro rfl
      simp [escapeLetters] at hl

theorem looseEscape_sound
    {cs : List Char} {p : Piece} {taken : Nat}
    (h : looseEscape cs = .ok (p, taken)) :
    ∃ e rest, cs = e ++ rest ∧ e.length = taken ∧
      SpellsPiece ('\\' :: e) p := by
  unfold looseEscape at h
  split at h
  · cases h
  · next rest =>
      obtain ⟨n, hunit, hdone⟩ := bind_eq_ok_iff.mp h
      obtain ⟨rfl, rfl⟩ := Prod.mk.inj (Except.ok.inj hdone)
      obtain ⟨ds, left, rfl, hlen, hds⟩ := hexUnit_sound hunit
      exact ⟨'u' :: ds, left, rfl, by simp [hlen], hds⟩
  · next l _ _ =>
      split at h
      · next d hl =>
          obtain ⟨rfl, rfl⟩ := Prod.mk.inj (Except.ok.inj h)
          exact ⟨[l], _, rfl, rfl,
            SpellsPiece.letter (shortEscape?_eq_some_iff.mp hl)⟩
      · cases h

theorem looseEscape_unit {ds : List Char} {n : Nat} {rest : List Char}
    (h : hexUnit (ds ++ rest) = .ok n) :
    looseEscape ('u' :: ds ++ rest) = .ok (.unit n, 5) := by
  simp only [List.cons_append, looseEscape, h]
  rfl

theorem looseEscape_letter
    {l c : Char} (hu : l ≠ 'u') (hl : shortEscape? l = some c)
    (rest : List Char) :
    looseEscape (l :: rest) = .ok (.char c, 1) := by
  unfold looseEscape
  split
  · next hcons => cases hcons
  · next hcons => exact absurd (List.cons.inj hcons).1 hu
  · next hcons =>
      obtain ⟨rfl, rfl⟩ := List.cons.inj hcons
      rw [hl]

/-! ## The parts of a string -/

/-- A rule whose parts are the characters that stand for themselves and the
escapes that are valued. -/
structure Scans {α : Type} (escape : List Char → Except Fault (α × Nat))
    (plain : Char → α) (R : List Char → α → Prop) : Prop where
  ofPlain {c : Char} : c ≠ '"' → c ≠ '\\' → isControl c = false →
    R [c] (plain c)
  ofEscape {cs : List Char} {x : α} {taken : Nat} : escape cs = .ok (x, taken) →
    ∃ e rest, cs = e ++ rest ∧ e.length = taken ∧ R ('\\' :: e) x
  inv {cs : List Char} {x : α} : R cs x →
    (∃ c, cs = [c] ∧ x = plain c ∧ c ≠ '"' ∧ c ≠ '\\' ∧ isControl c = false) ∨
      ∃ e, cs = '\\' :: e ∧ ∀ rest, escape (e ++ rest) = .ok (x, e.length)

section Quoted

variable {α : Type} {escape : List Char → Except Fault (α × Nat)}
    {plain : Char → α} {R : List Char → α → Prop}

theorem quoted_eq_drop (taken : Nat) (cs : List Char) :
    quoted escape plain taken cs = quoted escape plain 0 (cs.drop taken) := by
  induction cs generalizing taken with
  | nil => simp [quoted]
  | cons c cs ih =>
      cases taken with
      | zero => rfl
      | succ taken => rw [quoted, ih, List.drop_succ_cons]

theorem quoted_sound (hscan : Scans escape plain R)
    {taken : Nat} {cs rest : List Char} {xs : List α}
    (h : quoted escape plain taken cs = .ok (xs, rest)) :
    ∃ body, cs.drop taken = body ++ '"' :: rest ∧ Chained R body xs := by
  induction cs generalizing taken xs with
  | nil => simp [quoted] at h
  | cons c cs ih =>
      cases taken with
      | succ taken =>
          rw [quoted] at h
          exact ih h
      | zero =>
          rw [quoted] at h
          split at h
          · next hquote =>
              obtain ⟨rfl, rfl⟩ := Prod.mk.inj (Except.ok.inj h)
              exact ⟨[], by simp [hquote], Chained.nil⟩
          next hquote =>
          split at h
          · next hslash =>
              obtain ⟨⟨x, taken⟩, hescape, h⟩ := bind_eq_ok_iff.mp h
              obtain ⟨⟨xs, left⟩, hmore, hdone⟩ := bind_eq_ok_iff.mp h
              obtain ⟨rfl, rfl⟩ := Prod.mk.inj (Except.ok.inj hdone)
              obtain ⟨e, after, rfl, rfl, he⟩ := hscan.ofEscape hescape
              obtain ⟨body, hbody, hxs⟩ := ih hmore
              rw [List.drop_left] at hbody
              exact ⟨('\\' :: e) ++ body, by simp [hslash, hbody],
                Chained.cons he hxs⟩
          next hslash =>
          split at h
          · cases h
          · next hcontrol =>
              obtain ⟨⟨xs, left⟩, hmore, hdone⟩ := bind_eq_ok_iff.mp h
              obtain ⟨rfl, rfl⟩ := Prod.mk.inj (Except.ok.inj hdone)
              obtain ⟨body, hbody, hxs⟩ := ih hmore
              rw [List.drop_zero] at hbody
              have hplain :=
                hscan.ofPlain hquote hslash (Bool.eq_false_iff.mpr hcontrol)
              exact ⟨[c] ++ body, by simp [hbody], Chained.cons hplain hxs⟩

theorem quoted_complete
    (hscan : Scans escape plain R) {body : List Char} {xs : List α}
    (h : Chained R body xs) (rest : List Char) :
    quoted escape plain 0 (body ++ '"' :: rest) = .ok (xs, rest) := by
  induction h with
  | nil => simp [quoted]
  | @cons cs more x xs hx _ ih =>
      rw [List.append_assoc]
      rcases hscan.inv hx with
        ⟨c, rfl, rfl, hquote, hslash, hcontrol⟩ | ⟨e, rfl, he⟩
      · rw [List.singleton_append, quoted, if_neg hquote, if_neg hslash,
          hcontrol, ih]
        rfl
      · rw [List.cons_append, quoted, if_neg (by decide), if_pos rfl, he]
        refine bind_eq_ok_iff.mpr
          ⟨_, rfl, bind_eq_ok_iff.mpr ⟨(xs, rest), ?_, rfl⟩⟩
        rw [quoted_eq_drop, List.drop_left]
        exact ih

theorem quoted_eq_ok_iff (hscan : Scans escape plain R)
    {cs rest : List Char} {xs : List α} :
    quoted escape plain 0 cs = .ok (xs, rest) ↔
      ∃ body, cs = body ++ '"' :: rest ∧ Chained R body xs := by
  constructor
  · intro h
    exact quoted_sound hscan h
  · rintro ⟨body, rfl, hxs⟩
    exact quoted_complete hscan hxs rest

end Quoted

/-! ## The loose scanner -/

theorem scans_looseEscape : Scans looseEscape Piece.char SpellsPiece where
  ofPlain hquote hslash hcontrol := by
    exact SpellsPiece.plain hquote hslash (isControl_eq_false_iff.mp hcontrol)
  ofEscape := looseEscape_sound
  inv {cs x} hx := by
    cases x with
    | unit n =>
        obtain ⟨ds, rfl, hlen, hunit⟩ := hx.unit_inv
        refine Or.inr ⟨'u' :: ds, rfl, fun rest => ?_⟩
        rw [looseEscape_unit (hunit rest), List.length_cons, hlen]
    | char c =>
        rcases hx.char_inv with ⟨rfl, hplain⟩ | ⟨l, rfl, hu, hl⟩
        · exact Or.inl ⟨c, rfl, rfl, hplain⟩
        · exact Or.inr ⟨[l], rfl, looseEscape_letter hu hl⟩

theorem looseString_eq_ok_iff {cs rest : List Char} {ps : List Piece} :
    looseString cs = .ok (ps, rest) ↔
      ∃ body, SpellsString body ps ∧ '"' :: cs = body ++ rest := by
  rw [looseString, quoted_eq_ok_iff scans_looseEscape]
  constructor
  · rintro ⟨body, rfl, hps⟩
    exact ⟨_, ⟨body, rfl, hps⟩, by simp⟩
  · rintro ⟨_, ⟨body, rfl, hps⟩, hcs⟩
    exact ⟨body, by simpa using hcs, hps⟩

/-! ## The strict scanner -/

/-- The spelling of one character in a string whose surrogates are in pairs. -/
inductive SpellsChar : List Char → Char → Prop
  | char {cs : List Char} {c : Char} :
      SpellsPiece cs (.char c) → SpellsChar cs c
  | unit {cs : List Char} {n : Nat} :
      SpellsPiece cs (.unit n) → isLowSurrogate n = false →
      isHighSurrogate n = false → SpellsChar cs (Char.ofNat n)
  | pair {cs more : List Char} {high low : Nat} :
      SpellsPiece cs (.unit high) → SpellsPiece more (.unit low) →
      isHighSurrogate high = true → isLowSurrogate low = true →
      SpellsChar (cs ++ more) (pairChar high low)

theorem isLowSurrogate_of_isHighSurrogate
    {n : Nat} (h : isHighSurrogate n = true) :
    isLowSurrogate n = false := by
  simp only [isHighSurrogate, Bool.and_eq_true, decide_eq_true_eq] at h
  simp only [isLowSurrogate, Bool.and_eq_false_iff, decide_eq_false_iff_not]
  omega

theorem spelled?_unit {n : Nat} (hlow : isLowSurrogate n = false)
    (hhigh : isHighSurrogate n = false) (ps : List Piece) :
    spelled? (.unit n :: ps) = (spelled? ps).map (Char.ofNat n :: ·) := by
  rw [spelled?.eq_def]
  simp [hlow, hhigh]

theorem spelled?_pair {high low : Nat} (hhigh : isHighSurrogate high = true)
    (hlow : isLowSurrogate low = true) (ps : List Piece) :
    spelled? (.unit high :: .unit low :: ps) =
      (spelled? ps).map (pairChar high low :: ·) := by
  rw [spelled?.eq_def]
  simp [isLowSurrogate_of_isHighSurrogate hhigh, hhigh, hlow]

theorem exists_spelled?_of_chained {body cs : List Char}
    (h : Chained SpellsChar body cs) :
    ∃ ps, Chained SpellsPiece body ps ∧ spelled? ps = some cs := by
  induction h with
  | nil => exact ⟨[], Chained.nil, rfl⟩
  | cons hc _ ih =>
      obtain ⟨ps, hps, hcs⟩ := ih
      cases hc with
      | char hc =>
          exact ⟨.char _ :: ps, Chained.cons hc hps, by simp [spelled?, hcs]⟩
      | @unit _ n hn hlow hhigh =>
          refine ⟨.unit n :: ps, Chained.cons hn hps, ?_⟩
          simp [spelled?_unit hlow hhigh, hcs]
      | @pair _ _ high low hhigh hlow hisHigh hisLow =>
          refine ⟨.unit high :: .unit low :: ps, ?_, ?_⟩
          · rw [List.append_assoc]
            exact Chained.cons hhigh (Chained.cons hlow hps)
          · simp [spelled?_pair hisHigh hisLow, hcs]

theorem chained_of_spelled? {body cs : List Char} {ps : List Piece}
    (hps : Chained SpellsPiece body ps) (hcs : spelled? ps = some cs) :
    Chained SpellsChar body cs := by
  fun_induction spelled? ps generalizing body cs with
  | case1 =>
      obtain rfl := Option.some.inj hcs
      cases hps
      exact Chained.nil
  | case2 c ps ih =>
      obtain ⟨cs, hmore, rfl⟩ := Option.map_eq_some_iff.mp hcs
      cases hps with
      | cons hc hps => exact Chained.cons (SpellsChar.char hc) (ih hps hmore)
  | case3 => cases hcs
  | case4 high _ hhigh low ps hlow ih =>
      obtain ⟨cs, hmore, rfl⟩ := Option.map_eq_some_iff.mp hcs
      cases hps with
      | cons hfirst hps =>
          cases hps with
          | cons hsecond hps =>
              rw [← List.append_assoc]
              exact Chained.cons (SpellsChar.pair hfirst hsecond hhigh hlow)
                (ih hps hmore)
  | case5 => cases hcs
  | case6 => cases hcs
  | case7 n ps hlow hhigh ih =>
      obtain ⟨cs, hmore, rfl⟩ := Option.map_eq_some_iff.mp hcs
      cases hps with
      | cons hn hps =>
          have hunit := SpellsChar.unit hn (Bool.eq_false_iff.mpr hlow)
            (Bool.eq_false_iff.mpr hhigh)
          exact Chained.cons hunit (ih hps hmore)

/-- A string is spelled character by character exactly if its pieces spell the
characters. -/
theorem chained_spellsChar_iff {body cs : List Char} :
    Chained SpellsChar body cs ↔
      ∃ ps, Chained SpellsPiece body ps ∧ spelled? ps = some cs := by
  constructor
  · exact exists_spelled?_of_chained
  · rintro ⟨ps, hps, hcs⟩
    exact chained_of_spelled? hps hcs

theorem lowHalf_sound {high : Nat} {cs : List Char} {c : Char}
    (h : lowHalf high cs = .ok c) :
    ∃ e rest low, cs = e ++ rest ∧ e.length = 6 ∧ SpellsPiece e (.unit low) ∧
      isLowSurrogate low = true ∧ c = pairChar high low := by
  unfold lowHalf at h
  split at h
  · next after =>
      obtain ⟨low, hunit, htest⟩ := bind_eq_ok_iff.mp h
      obtain ⟨ds, rest, rfl, hlen, hds⟩ := hexUnit_sound hunit
      split at htest
      · next hlow =>
          obtain rfl := Except.ok.inj htest
          exact ⟨'\\' :: 'u' :: ds, rest, low, rfl, by simp [hlen], hds, hlow,
            rfl⟩
      · cases htest
  · cases h
  · cases h
  · cases h

theorem unicodeEscape_sound {cs : List Char} {c : Char} {taken : Nat}
    (h : unicodeEscape cs = .ok (c, taken)) :
    ∃ e rest, cs = e ++ rest ∧ e.length = taken ∧
      SpellsChar ('\\' :: 'u' :: e) c := by
  obtain ⟨n, hunit, h⟩ := bind_eq_ok_iff.mp h
  obtain ⟨ds, rest, rfl, hlen, hds⟩ := hexUnit_sound hunit
  split at h
  · cases h
  next hlow =>
  split at h
  · next hhigh =>
      obtain ⟨d, hhalf, hdone⟩ := bind_eq_ok_iff.mp h
      obtain ⟨rfl, rfl⟩ := Prod.mk.inj (Except.ok.inj hdone)
      rw [← hlen, List.drop_left] at hhalf
      obtain ⟨e, after, low, rfl, helen, he, hislow, hd⟩ := lowHalf_sound hhalf
      rw [hd]
      exact ⟨ds ++ e, after, by simp, by simp [hlen, helen],
        SpellsChar.pair hds he hhigh hislow⟩
  · next hhigh =>
      obtain ⟨rfl, rfl⟩ := Prod.mk.inj (Except.ok.inj h)
      exact ⟨ds, rest, rfl, hlen, SpellsChar.unit hds
        (Bool.eq_false_iff.mpr hlow) (Bool.eq_false_iff.mpr hhigh)⟩

theorem escape_sound {cs : List Char} {c : Char} {taken : Nat}
    (h : escape cs = .ok (c, taken)) :
    ∃ e rest, cs = e ++ rest ∧ e.length = taken ∧ SpellsChar ('\\' :: e) c := by
  unfold escape at h
  split at h
  · cases h
  · next after =>
      obtain ⟨⟨d, taken⟩, hunicode, hdone⟩ := bind_eq_ok_iff.mp h
      obtain ⟨rfl, rfl⟩ := Prod.mk.inj (Except.ok.inj hdone)
      obtain ⟨e, rest, rfl, rfl, he⟩ := unicodeEscape_sound hunicode
      exact ⟨'u' :: e, rest, rfl, rfl, he⟩
  · next l _ _ =>
      split at h
      · next d hl =>
          obtain ⟨rfl, rfl⟩ := Prod.mk.inj (Except.ok.inj h)
          exact ⟨[l], _, rfl, rfl, SpellsChar.char
            (SpellsPiece.letter (shortEscape?_eq_some_iff.mp hl))⟩
      · cases h

theorem escape_unit {ds rest : List Char} {n : Nat}
    (hunit : hexUnit (ds ++ rest) = .ok n) (hlow : isLowSurrogate n = false)
    (hhigh : isHighSurrogate n = false) :
    escape ('u' :: ds ++ rest) = .ok (Char.ofNat n, 5) := by
  have hunicode : unicodeEscape (ds ++ rest) = .ok (Char.ofNat n, 4) := by
    refine bind_eq_ok_iff.mpr ⟨n, hunit, ?_⟩
    simp only [hlow, hhigh]
    rfl
  simp only [List.cons_append, escape, hunicode]
  rfl

theorem escape_pair {ds ds' rest : List Char} {high low : Nat}
    (hlen : ds.length = 4)
    (hfirst : hexUnit (ds ++ '\\' :: 'u' :: ds' ++ rest) = .ok high)
    (hsecond : hexUnit (ds' ++ rest) = .ok low)
    (hhigh : isHighSurrogate high = true) (hlow : isLowSurrogate low = true) :
    escape ('u' :: ds ++ '\\' :: 'u' :: ds' ++ rest) =
      .ok (pairChar high low, 11) := by
  have hhalf : lowHalf high ('\\' :: 'u' :: (ds' ++ rest)) =
      .ok (pairChar high low) := by
    simp only [lowHalf, hsecond]
    exact if_pos hlow
  have hunicode : unicodeEscape (ds ++ '\\' :: 'u' :: ds' ++ rest) =
      .ok (pairChar high low, 10) := by
    refine bind_eq_ok_iff.mpr ⟨high, hfirst, ?_⟩
    rw [isLowSurrogate_of_isHighSurrogate hhigh, hhigh, List.append_assoc,
      ← hlen, List.drop_left]
    exact bind_eq_ok_iff.mpr ⟨_, hhalf, rfl⟩
  generalize pairChar high low = c at hunicode
  exact bind_eq_ok_iff.mpr ⟨_, hunicode, rfl⟩

theorem escape_letter {l c : Char} (hu : l ≠ 'u') (hl : shortEscape? l = some c)
    (rest : List Char) :
    escape (l :: rest) = .ok (c, 1) := by
  unfold escape
  split
  · next hcons => cases hcons
  · next hcons => exact absurd (List.cons.inj hcons).1 hu
  · next hcons =>
      obtain ⟨rfl, rfl⟩ := List.cons.inj hcons
      rw [hl]

theorem scans_escape : Scans escape id SpellsChar where
  ofPlain hquote hslash hcontrol :=
    SpellsChar.char
      (SpellsPiece.plain hquote hslash (isControl_eq_false_iff.mp hcontrol))
  ofEscape := escape_sound
  inv {cs x} hx := by
    cases hx with
    | char hc =>
        rcases hc.char_inv with ⟨rfl, hplain⟩ | ⟨l, rfl, hu, hl⟩
        · exact Or.inl ⟨x, rfl, rfl, hplain⟩
        · exact Or.inr ⟨[l], rfl, escape_letter hu hl⟩
    | unit hn hlow hhigh =>
        obtain ⟨ds, rfl, hlen, hunit⟩ := hn.unit_inv
        refine Or.inr ⟨'u' :: ds, rfl, fun rest => ?_⟩
        rw [escape_unit (hunit rest) hlow hhigh, List.length_cons, hlen]
    | pair hfirst hsecond hhigh hlow =>
        obtain ⟨ds, rfl, hlen, hunit⟩ := hfirst.unit_inv
        obtain ⟨ds', rfl, hlen', hunit'⟩ := hsecond.unit_inv
        refine Or.inr ⟨'u' :: ds ++ '\\' :: 'u' :: ds', rfl, fun rest => ?_⟩
        have hread := hunit ('\\' :: 'u' :: ds' ++ rest)
        rw [← List.append_assoc] at hread
        rw [escape_pair hlen hread (hunit' rest) hhigh hlow]
        simp [hlen, hlen']

theorem string_eq_ok_iff {cs rest : List Char} {s : String} :
    string cs = .ok (s, rest) ↔
      ∃ body ps, SpellsString body ps ∧ '"' :: cs = body ++ rest ∧
        (spelled? ps).map String.ofList = some s := by
  constructor
  · intro h
    obtain ⟨⟨chars, left⟩, hquoted, hdone⟩ := bind_eq_ok_iff.mp h
    obtain ⟨rfl, rfl⟩ := Prod.mk.inj (Except.ok.inj hdone)
    obtain ⟨body, rfl, hchars⟩ := (quoted_eq_ok_iff scans_escape).mp hquoted
    obtain ⟨ps, hps, hspelled⟩ := chained_spellsChar_iff.mp hchars
    exact ⟨_, ps, ⟨body, rfl, hps⟩, by simp, by rw [hspelled]; rfl⟩
  · rintro ⟨_, ps, ⟨body, rfl, hps⟩, hcs, hs⟩
    obtain ⟨chars, hspelled, rfl⟩ := Option.map_eq_some_iff.mp hs
    have hchars := chained_spellsChar_iff.mpr ⟨ps, hps, hspelled⟩
    have hquoted : quoted escape id 0 cs = .ok (chars, rest) :=
      (quoted_eq_ok_iff scans_escape).mpr ⟨body, by simpa using hcs, hchars⟩
    exact bind_eq_ok_iff.mpr ⟨_, hquoted, rfl⟩

end NativeGlue.Json
