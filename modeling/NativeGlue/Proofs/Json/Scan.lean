import NativeGlue.Json.Scan
import NativeGlue.Proofs.Json.Grammar
import NativeGlue.Proofs.Traversal
import Mathlib.Data.List.TakeDrop
import Mathlib.Data.List.TakeWhile
import Mathlib.Tactic.IntervalCases

/-!
# Scanners and the grammar

Each scanner is compared with the rule of the grammar it is for, in both
directions: what it takes from the front of a text is spelled by the rule, and
what the rule spells is taken.  A numeral has no closing mark, so a scanner can
only be known to stop where the text goes on with something else.
-/

namespace NativeGlue.Json

/-! ## Blanks -/

theorem isSpace_iff {c : Char} :
    isSpace c = true ↔ c = ' ' ∨ c = '\t' ∨ c = '\n' ∨ c = '\r' := by
  simp only [isSpace, Bool.or_eq_true, beq_iff_eq]
  tauto

theorem blank_iff {cs : List Char} : Blank cs ↔ ∀ c ∈ cs, isSpace c = true :=
  forall₂_congr fun _ _ => isSpace_iff.symm

theorem blank_nil : Blank [] := by simp [Blank]

theorem skipSpace_blank_append {a : List Char} (ha : Blank a) (cs : List Char) :
    skipSpace (a ++ cs) = skipSpace cs :=
  List.dropWhile_append_of_pos (blank_iff.mp ha)

theorem skipSpace_cons {c : Char} {cs : List Char} (hc : isSpace c = false) :
    skipSpace (c :: cs) = c :: cs := by
  simp [skipSpace, hc]

theorem skipSpace_blank_cons {b : List Char} (hb : Blank b) (c : Char)
    (hc : isSpace c = false) (rest : List Char) :
    skipSpace (b ++ c :: rest) = c :: rest := by
  rw [skipSpace_blank_append hb, skipSpace_cons hc]

@[simp] theorem skipSpace_eq_nil {cs : List Char} :
    skipSpace cs = [] ↔ Blank cs := by
  rw [skipSpace, List.dropWhile_eq_nil_iff, blank_iff]

/-- A text is its leading blanks and the rest. -/
theorem exists_blank_append_skipSpace (cs : List Char) :
    ∃ a, Blank a ∧ cs = a ++ skipSpace cs := by
  refine ⟨cs.takeWhile isSpace, ?_, ?_⟩
  · rw [blank_iff]
    intro c hc
    exact List.mem_takeWhile_imp hc
  · exact List.takeWhile_append_dropWhile.symm

theorem exists_blank_of_skipSpace_eq
    {cs rest : List Char} (h : skipSpace cs = rest) :
    ∃ a, Blank a ∧ cs = a ++ rest := by
  obtain ⟨a, ha, hcs⟩ := exists_blank_append_skipSpace cs
  exact ⟨a, ha, h ▸ hcs⟩

/-! ## Literals and colons -/

theorem literal_eq_ok_iff {word cs rest : List Char} :
    literal word cs = .ok rest ↔ cs = word ++ rest := by
  induction word generalizing cs with
  | nil => simp [literal]
  | cons w word ih =>
      cases cs with
      | nil => simp [literal]
      | cons c cs =>
          by_cases hwc : w = c
          · subst hwc
            simp [literal, ih]
          · have hcw : c ≠ w := Ne.symm hwc
            simp [literal, hwc, hcw]

/-- A value that is spelled by one word. -/
theorem literal_bind_eq_ok_iff {α : Type} {word cs rest : List Char} {x y : α} :
    (literal word cs >>= fun left => pure (x, left)) = .ok (y, rest) ↔
      cs = word ++ rest ∧ x = y := by
  rw [bind_eq_ok_iff]
  constructor
  · rintro ⟨left, hliteral, hdone⟩
    obtain ⟨rfl, rfl⟩ := Prod.mk.inj (Except.ok.inj hdone)
    exact ⟨literal_eq_ok_iff.mp hliteral, rfl⟩
  · rintro ⟨hcs, rfl⟩
    exact ⟨rest, literal_eq_ok_iff.mpr hcs, rfl⟩

theorem colon_eq_ok_iff {cs rest : List Char} :
    colon cs = .ok rest ↔ ∃ a, Blank a ∧ cs = a ++ ':' :: rest := by
  constructor
  · intro h
    unfold colon at h
    split at h
    · cases h
    · next after hskip =>
        obtain rfl := Except.ok.inj h
        exact exists_blank_of_skipSpace_eq hskip
    · cases h
  · rintro ⟨a, ha, rfl⟩
    simp only [colon, skipSpace_blank_cons ha ':' rfl]

/-! ## Numbers -/

/-- A text that does not go on with a part of a number. -/
def EndsNumeral (cs : List Char) : Prop :=
  ∀ c ∈ cs.head?, isDigit c = false ∧ c ≠ '.' ∧ c ≠ 'e' ∧ c ≠ 'E'

theorem isDigit_iff {c : Char} : isDigit c = true ↔ '0' ≤ c ∧ c ≤ '9' := by
  simp [isDigit]

theorem digits_iff {ds : List Char} : Digits ds ↔ ∀ d ∈ ds, isDigit d = true :=
  forall₂_congr fun _ _ => isDigit_iff.symm

theorem digits_eq_iff {cs ds rest : List Char} :
    digits cs = (ds, rest) ↔
      cs = ds ++ rest ∧ Digits ds ∧ ∀ c ∈ rest.head?, isDigit c = false := by
  rw [digits, List.span_eq_takeWhile_dropWhile, Prod.mk.injEq, digits_iff]
  constructor
  · rintro ⟨rfl, rfl⟩
    refine ⟨List.takeWhile_append_dropWhile.symm, ?_, ?_⟩
    · intro d hd
      exact List.mem_takeWhile_imp hd
    · intro c hc
      have hstop := List.head?_dropWhile_not isDigit cs
      rw [Option.mem_def.mp hc] at hstop
      exact hstop
  · rintro ⟨rfl, hds, hrest⟩
    rw [List.takeWhile_append_of_pos hds, List.dropWhile_append_of_pos hds]
    cases rest with
    | nil => simp
    | cons c rest =>
        have hc : isDigit c = false := hrest c (by simp)
        simp [hc]

theorem someDigits_eq_ok_iff {cs ds rest : List Char} :
    someDigits cs = .ok (ds, rest) ↔ digits cs = (ds, rest) ∧ ds ≠ [] := by
  unfold someDigits
  split
  · next rest' h =>
      rw [h]
      simp only [reduceCtorEq, Prod.mk.injEq, false_iff, not_and]
      rintro ⟨rfl, -⟩
      simp
  · next found hnil =>
      rw [Except.ok.injEq]
      constructor
      · intro h
        refine ⟨h, ?_⟩
        rintro rfl
        exact hnil rest h
      · exact And.left

/-- Among digits, those before the point are known by their first two. -/
theorem spellsWhole_iff {ds : List Char} (hds : Digits ds) :
    SpellsWhole ds ↔ ds ≠ [] ∧ ∀ d more, ds ≠ '0' :: d :: more := by
  constructor
  · intro h
    cases h with
    | zero => simp
    | digits hlow hhigh hmore =>
        refine ⟨by simp, ?_⟩
        intro d more heq
        obtain ⟨rfl, -⟩ := List.cons.inj heq
        exact absurd hlow (by decide)
  · rintro ⟨hne, hzero⟩
    obtain ⟨d, more, rfl⟩ := List.exists_cons_of_ne_nil hne
    obtain ⟨hlow, hhigh⟩ := hds d (by simp)
    have hmore : Digits more := fun c hc => hds c (by simp [hc])
    by_cases hd : d = '0'
    · subst hd
      cases more with
      | nil => exact SpellsWhole.zero
      | cons c more => exact absurd rfl (hzero c more)
    · refine SpellsWhole.digits ?_ hhigh hmore
      have hne : d.toNat ≠ '0'.toNat := fun h => hd (Char.toNat_inj.mp h)
      have hle : '0'.toNat ≤ d.toNat := hlow
      have hone : '1'.toNat ≤ d.toNat := by
        have h0 : '0'.toNat = 48 := rfl
        have h1 : '1'.toNat = 49 := rfl
        omega
      exact hone

theorem SpellsWhole.digits_self {ds : List Char} (h : SpellsWhole ds) :
    Digits ds := by
  cases h with
  | zero => simp [Digits]
  | @digits d more hlow hhigh hmore =>
      intro c hc
      rcases List.mem_cons.mp hc with rfl | hc
      · exact ⟨Char.le_trans (by decide) hlow, hhigh⟩
      · exact hmore c hc

theorem wholeDigits_eq_ok_iff {cs ds rest : List Char} :
    wholeDigits cs = .ok (ds, rest) ↔
      digits cs = (ds, rest) ∧ SpellsWhole ds := by
  have hwhole : digits cs = (ds, rest) → (SpellsWhole ds ↔
      ds ≠ [] ∧ ∀ d more, ds ≠ '0' :: d :: more) := fun h =>
    spellsWhole_iff (digits_eq_iff.mp h).2.1
  rw [and_congr_right_iff.mpr hwhole]
  unfold wholeDigits
  split
  · next rest' h =>
      rw [h]
      simp only [reduceCtorEq, Prod.mk.injEq, false_iff, not_and]
      rintro ⟨rfl, -⟩ hne
      exact absurd rfl hne
  · next d more rest' h =>
      rw [h]
      simp only [reduceCtorEq, Prod.mk.injEq, false_iff, not_and]
      rintro ⟨rfl, -⟩ - hzero
      exact hzero d more rfl
  · next found hnil hzero =>
      rw [Except.ok.injEq]
      constructor
      · intro h
        refine ⟨h, ?_, ?_⟩
        · rintro rfl
          exact hnil rest h
        · rintro d more rfl
          exact hzero d more rest h
      · exact And.left

theorem fractionPart_sound
    {cs rest : List Char} {fraction : Option (List Char)}
    (h : fractionPart cs = .ok (fraction, rest)) :
    ∃ f, SpellsFraction f fraction ∧ cs = f ++ rest := by
  unfold fractionPart at h
  split at h
  · next after =>
      obtain ⟨⟨ds, left⟩, hds, hdone⟩ := bind_eq_ok_iff.mp h
      obtain ⟨rfl, rfl⟩ := Prod.mk.inj (Except.ok.inj hdone)
      obtain ⟨hdigits, hne⟩ := someDigits_eq_ok_iff.mp hds
      obtain ⟨rfl, hall, -⟩ := digits_eq_iff.mp hdigits
      exact ⟨'.' :: ds, SpellsFraction.some hne hall, rfl⟩
  · obtain ⟨rfl, rfl⟩ := Prod.mk.inj (Except.ok.inj h)
    exact ⟨[], SpellsFraction.none, rfl⟩

theorem fractionPart_complete
    {f rest : List Char} {fraction : Option (List Char)}
    (hf : SpellsFraction f fraction)
    (hrest : ∀ c ∈ rest.head?, isDigit c = false ∧ c ≠ '.') :
    fractionPart (f ++ rest) = .ok (fraction, rest) := by
  cases hf with
  | none =>
      unfold fractionPart
      split
      · next hcons =>
          obtain rfl : rest = _ := hcons
          exact absurd rfl (hrest '.' (by simp)).2
      · rfl
  | @some ds hne hall =>
      have hdigits : digits (ds ++ rest) = (ds, rest) :=
        digits_eq_iff.mpr ⟨rfl, hall, fun c hc => (hrest c hc).1⟩
      have hsome := someDigits_eq_ok_iff.mpr ⟨hdigits, hne⟩
      rw [List.cons_append, fractionPart, hsome]
      rfl

theorem exponentSign_sound
    {cs rest : List Char} {negative : Bool}
    (h : exponentSign cs = (negative, rest)) :
    ∃ sign, SpellsSign sign negative ∧ cs = sign ++ rest := by
  unfold exponentSign at h
  split at h
  · obtain ⟨rfl, rfl⟩ := Prod.mk.inj h
    exact ⟨['-'], SpellsSign.minus, rfl⟩
  · obtain ⟨rfl, rfl⟩ := Prod.mk.inj h
    exact ⟨['+'], SpellsSign.plus, rfl⟩
  · obtain ⟨rfl, rfl⟩ := Prod.mk.inj h
    exact ⟨[], SpellsSign.none, rfl⟩

theorem exponentSign_complete
    {sign ds : List Char} {negative : Bool}
    (hsign : SpellsSign sign negative) (hne : ds ≠ []) (hds : Digits ds)
    (rest : List Char) :
    exponentSign (sign ++ (ds ++ rest)) = (negative, ds ++ rest) := by
  obtain ⟨d, more, rfl⟩ := List.exists_cons_of_ne_nil hne
  obtain ⟨hlow, hhigh⟩ := hds d (by simp)
  cases hsign with
  | minus => rfl
  | plus => rfl
  | none =>
      simp only [List.nil_append, List.cons_append]
      unfold exponentSign
      split
      · next heq =>
          obtain ⟨rfl, -⟩ := List.cons.inj heq
          exact absurd hlow (by decide)
      · next heq =>
          obtain ⟨rfl, -⟩ := List.cons.inj heq
          exact absurd hlow (by decide)
      · rfl

theorem exponentPart_sound
    {cs rest : List Char} {exponent : Option (Bool × List Char)}
    (h : exponentPart cs = .ok (exponent, rest)) :
    ∃ e, SpellsExponent e exponent ∧ cs = e ++ rest := by
  have hread : ∀ (letter : Char) (after : List Char),
      letter = 'e' ∨ letter = 'E' →
      (do
        let ds ← someDigits (exponentSign after).2
        return (some ((exponentSign after).1, ds.1), ds.2)) =
        Except.ok (exponent, rest) →
      ∃ e, SpellsExponent e exponent ∧ letter :: after = e ++ rest := by
    intro letter after hletter h
    obtain ⟨⟨ds, left⟩, hds, hdone⟩ := bind_eq_ok_iff.mp h
    obtain ⟨rfl, rfl⟩ := Prod.mk.inj (Except.ok.inj hdone)
    obtain ⟨hdigits, hne⟩ := someDigits_eq_ok_iff.mp hds
    obtain ⟨hsplit, hall, -⟩ := digits_eq_iff.mp hdigits
    obtain ⟨sign, hsign, hafter⟩ := exponentSign_sound
      (show exponentSign after = (_, (exponentSign after).2) from rfl)
    refine ⟨letter :: sign ++ ds,
      SpellsExponent.some hletter hsign hne hall, ?_⟩
    rw [List.append_assoc, ← hsplit, List.cons_append, ← hafter]
  unfold exponentPart at h
  split at h
  · exact hread 'e' _ (Or.inl rfl) h
  · exact hread 'E' _ (Or.inr rfl) h
  · obtain ⟨rfl, rfl⟩ := Prod.mk.inj (Except.ok.inj h)
    exact ⟨[], SpellsExponent.none, rfl⟩

theorem exponentPart_complete
    {e rest : List Char} {exponent : Option (Bool × List Char)}
    (he : SpellsExponent e exponent) (hrest : EndsNumeral rest) :
    exponentPart (e ++ rest) = .ok (exponent, rest) := by
  cases he with
  | none =>
      unfold exponentPart
      split
      · next hcons =>
          obtain rfl : rest = _ := hcons
          exact absurd rfl (hrest 'e' (by simp)).2.2.1
      · next hcons =>
          obtain rfl : rest = _ := hcons
          exact absurd rfl (hrest 'E' (by simp)).2.2.2
      · rfl
  | @some letter sign ds negative hletter hsign hne hall =>
      have hdigits : digits (ds ++ rest) = (ds, rest) :=
        digits_eq_iff.mpr ⟨rfl, hall, fun c hc => (hrest c hc).1⟩
      have hsome := someDigits_eq_ok_iff.mpr ⟨hdigits, hne⟩
      have hsigned := exponentSign_complete hsign hne hall rest
      rw [List.cons_append, List.cons_append, List.append_assoc]
      rcases hletter with rfl | rfl
      · simp only [exponentPart, hsigned, hsome]
        rfl
      · simp only [exponentPart, hsigned, hsome]
        rfl

theorem SpellsExponent.head_append
    {e rest : List Char} {exponent : Option (Bool × List Char)}
    (he : SpellsExponent e exponent) (hrest : EndsNumeral rest) :
    ∀ c ∈ (e ++ rest).head?, isDigit c = false ∧ c ≠ '.' := by
  intro c hc
  cases he with
  | none => exact ⟨(hrest c hc).1, (hrest c hc).2.1⟩
  | some hletter _ _ _ =>
      obtain rfl : _ = c := Option.some.inj hc
      rcases hletter with rfl | rfl
      · exact ⟨by decide, by decide⟩
      · exact ⟨by decide, by decide⟩

theorem SpellsFraction.head_append
    {f rest : List Char} {fraction : Option (List Char)}
    (hf : SpellsFraction f fraction)
    (hrest : ∀ c ∈ rest.head?, isDigit c = false ∧ c ≠ '.') :
    ∀ c ∈ (f ++ rest).head?, isDigit c = false := by
  intro c hc
  cases hf with
  | none => exact (hrest c hc).1
  | some _ _ =>
      obtain rfl : '.' = c := Option.some.inj hc
      decide

/-- Whether a text starts with a minus sign, and what follows the sign. -/
def leadingSign (cs : List Char) : Bool × List Char :=
  match cs with
  | '-' :: rest => (true, rest)
  | _ => (false, cs)

theorem leadingSign_eq {cs rest : List Char} {negative : Bool}
    (h : leadingSign cs = (negative, rest)) :
    cs = (if negative then ['-'] else []) ++ rest := by
  unfold leadingSign at h
  split at h
  · obtain ⟨rfl, rfl⟩ := Prod.mk.inj h
    rfl
  · obtain ⟨rfl, rfl⟩ := Prod.mk.inj h
    rfl

theorem leadingSign_whole
    {whole : List Char} (hwhole : SpellsWhole whole) (negative : Bool)
    (rest : List Char) :
    leadingSign ((if negative then ['-'] else []) ++ (whole ++ rest)) =
      (negative, whole ++ rest) := by
  cases negative with
  | true => rfl
  | false =>
      simp only [Bool.false_eq_true, if_false, List.nil_append]
      unfold leadingSign
      split
      · next heq =>
          cases hwhole with
          | zero => exact absurd (List.cons.inj heq).1 (by decide)
          | digits hlow _ _ =>
              obtain ⟨rfl, -⟩ := List.cons.inj heq
              exact absurd hlow (by decide)
      · rfl

/-- A numeral is scanned part by part. -/
theorem numeral_eq_ok_iff {cs rest : List Char} {n : Numeral} :
    numeral cs = .ok (n, rest) ↔
      ∃ after left left', leadingSign cs = (n.negative, after) ∧
        wholeDigits after = .ok (n.whole, left) ∧
        fractionPart left = .ok (n.fraction, left') ∧
        exponentPart left' = .ok (n.exponent, rest) := by
  have hopen : numeral cs = (do
      let whole ← wholeDigits (leadingSign cs).2
      let fraction ← fractionPart whole.2
      let exponent ← exponentPart fraction.2
      return (⟨(leadingSign cs).1, whole.1, fraction.1, exponent.1⟩,
        exponent.2)) := rfl
  rw [hopen]
  constructor
  · intro h
    obtain ⟨⟨whole, left⟩, hwhole, h⟩ := bind_eq_ok_iff.mp h
    obtain ⟨⟨fraction, left'⟩, hfraction, h⟩ := bind_eq_ok_iff.mp h
    obtain ⟨⟨exponent, left''⟩, hexponent, hdone⟩ := bind_eq_ok_iff.mp h
    obtain ⟨rfl, rfl⟩ := Prod.mk.inj (Except.ok.inj hdone)
    exact ⟨_, left, left', rfl, hwhole, hfraction, hexponent⟩
  · rintro ⟨after, left, left', hsign, hwhole, hfraction, hexponent⟩
    rw [hsign]
    exact bind_eq_ok_iff.mpr ⟨_, hwhole, bind_eq_ok_iff.mpr ⟨_, hfraction,
      bind_eq_ok_iff.mpr ⟨_, hexponent, rfl⟩⟩⟩

theorem numeral_sound
    {cs rest : List Char} {n : Numeral} (h : numeral cs = .ok (n, rest)) :
    ∃ body, SpellsNumeral body n ∧ cs = body ++ rest := by
  obtain ⟨after, left, left', hsign, hwhole, hfraction, hexponent⟩ :=
    numeral_eq_ok_iff.mp h
  obtain ⟨hdigits, hspells⟩ := wholeDigits_eq_ok_iff.mp hwhole
  obtain ⟨rfl, -, -⟩ := digits_eq_iff.mp hdigits
  obtain ⟨f, hf, rfl⟩ := fractionPart_sound hfraction
  obtain ⟨e, he, rfl⟩ := exponentPart_sound hexponent
  refine ⟨_, SpellsNumeral.intro n.negative hspells hf he, ?_⟩
  rw [leadingSign_eq hsign]
  simp

theorem numeral_complete
    {body rest : List Char} {n : Numeral}
    (hn : SpellsNumeral body n) (hrest : EndsNumeral rest) :
    numeral (body ++ rest) = .ok (n, rest) := by
  cases hn with
  | @intro whole f e fraction exponent negative hwhole hf he =>
      have htail := he.head_append hrest
      have hdigits : digits (whole ++ (f ++ (e ++ rest))) =
          (whole, f ++ (e ++ rest)) :=
        digits_eq_iff.mpr ⟨rfl, hwhole.digits_self, hf.head_append htail⟩
      rw [numeral_eq_ok_iff]
      refine ⟨whole ++ (f ++ (e ++ rest)), f ++ (e ++ rest), e ++ rest, ?_,
        wholeDigits_eq_ok_iff.mpr ⟨hdigits, hwhole⟩,
        fractionPart_complete hf htail, exponentPart_complete he hrest⟩
      simpa using leadingSign_whole hwhole negative (f ++ (e ++ rest))

end NativeGlue.Json
