import NativeGlue.Json.Print
import NativeGlue.Proofs.Json.Layout

/-!
# Printed text spells its tree

The plain text of a tree is one of the texts that the grammar has for it.
Escapes need an argument about digits; lists and objects are read from left to
right, which is how they are printed.
-/

namespace NativeGlue.Json

/-! ## Strings -/

theorem hexDigit_hexDigit {n : Nat} (hn : n < 16) :
    HexDigit (hexDigit n) n := by
  interval_cases n <;> exact Or.inl rfl

theorem spellsPiece_unitEscape {n : Nat} (hn : n < 0x10000) :
    SpellsPiece (unitEscape n) (.unit n) := by
  have hdigits := SpellsPiece.unit
    (hexDigit_hexDigit (show n / 4096 % 16 < 16 by omega))
    (hexDigit_hexDigit (show n / 256 % 16 < 16 by omega))
    (hexDigit_hexDigit (show n / 16 % 16 < 16 by omega))
    (hexDigit_hexDigit (show n % 16 < 16 by omega))
  have hvalue :
      ((n / 4096 % 16 * 16 + n / 256 % 16) * 16 + n / 16 % 16) * 16 + n % 16 =
        n := by
    omega
  rwa [hvalue] at hdigits

theorem spellsPiece_printChar {c : Char}
    (hc : 0x20 ≤ c.toNat ∨ c ∈ ['\x08', '\x0c', '\n', '\r', '\t']) :
    SpellsPiece (printChar c) (.char c) := by
  unfold printChar
  split
  case h_8 _ hquote hslash hb hf hn hr ht =>
    have hlow : 0x20 ≤ c.toNat := by
      refine hc.resolve_right ?_
      simp only [List.mem_cons, List.not_mem_nil, or_false, not_or]
      exact ⟨hb, hf, hn, hr, ht⟩
    rw [if_neg (Nat.not_lt.mpr hlow)]
    exact SpellsPiece.plain hquote hslash hlow
  all_goals exact SpellsPiece.letter (by decide)

theorem spellsPiece_ofChar (c : Char) :
    SpellsPiece (Piece.ofChar c).print (Piece.ofChar c) := by
  unfold Piece.ofChar
  split
  · next hc => exact spellsPiece_unitEscape (Nat.lt_trans hc.1 (by decide))
  · next hc =>
      refine spellsPiece_printChar ?_
      rwa [not_and_or, Nat.not_lt, not_not] at hc

@[simp] theorem spelled?_map_ofChar (cs : List Char) :
    spelled? (cs.map Piece.ofChar) = some cs := by
  induction cs with
  | nil => rfl
  | cons c cs ih =>
      rw [List.map_cons, Piece.ofChar]
      split
      · next hc =>
          have hlow : isLowSurrogate c.toNat = false := by
            simp only [isLowSurrogate, Bool.and_eq_false_iff,
              decide_eq_false_iff_not]
            omega
          have hhigh : isHighSurrogate c.toNat = false := by
            simp only [isHighSurrogate, Bool.and_eq_false_iff,
              decide_eq_false_iff_not]
            omega
          rw [spelled?_unit hlow hhigh, ih, Char.ofNat_toNat]
          rfl
      · rw [spelled?, ih]
        rfl

theorem spellsString_print
    {ps : List Piece} (hps : ∀ p ∈ ps, SpellsPiece p.print p) :
    SpellsString (printString ps) ps := by
  refine ⟨ps.flatMap Piece.print, rfl, ?_⟩
  induction ps with
  | nil => exact Chained.nil
  | cons p ps ih =>
      rw [List.flatMap_cons]
      exact Chained.cons (hps p List.mem_cons_self)
        (ih fun q hq => hps q (List.mem_cons_of_mem p hq))

/-! ## Lists and objects -/

theorem run_printItems {ts : List Tree} (hts : ∀ t ∈ ts, Spells t.print t) :
    Run ']' (Ahead Spells) false (printItems ts) ts [] := by
  induction ts with
  | nil => exact Run.stop blank_nil
  | cons t ts ih =>
      have hfirst : Ahead Spells (t.print ++ printItems ts) t (printItems ts) :=
        ⟨[], t.print, blank_nil, hts t List.mem_cons_self, rfl⟩
      rw [printItems]
      exact Run.next blank_nil hfirst
        (ih fun u hu => hts u (List.mem_cons_of_mem t hu))

theorem spells_print_list {ts : List Tree} (hts : ∀ t ∈ ts, Spells t.print t) :
    Spells (Tree.list ts).print (.list ts) := by
  cases ts with
  | nil => exact Spells.emptyList blank_nil
  | cons t ts =>
      have hmore := run_printItems fun u hu => hts u (List.mem_cons_of_mem t hu)
      have hrun :
          Run ']' (Ahead Spells) true (t.print ++ printItems ts) (t :: ts) [] :=
        Run.first ⟨[], t.print, blank_nil, hts t List.mem_cons_self, rfl⟩ hmore
      obtain ⟨body, hbody, hcs⟩ := run_items_iff.mp hrun
      obtain rfl := hcs.trans (List.append_nil body)
      rw [Tree.print]
      exact hbody

/-- A member is printed as it is spelled. -/
def Member.Printed (m : Member) : Prop :=
  SpellsString (printString m.key) m.key ∧ Spells m.value.print m.value

theorem Member.Printed.ahead {m : Member} (hm : m.Printed) (rest : List Char) :
    AheadMember (m.print ++ rest) m rest := by
  obtain ⟨key, value⟩ := m
  refine ⟨[], value.print ++ rest, blank_nil, ?_, ?_⟩
  · refine ⟨[], printString key, blank_nil, hm.1, ?_⟩
    simp [Member.print]
  · exact ⟨[], value.print, blank_nil, hm.2, rfl⟩

theorem run_printMembers {ms : List Member} (hms : ∀ m ∈ ms, m.Printed) :
    Run '\x7d' AheadMember false (printMembers ms) ms [] := by
  induction ms with
  | nil => exact Run.stop blank_nil
  | cons m ms ih =>
      rw [printMembers]
      exact Run.next blank_nil ((hms m List.mem_cons_self).ahead _)
        (ih fun n hn => hms n (List.mem_cons_of_mem m hn))

theorem spells_print_object {ms : List Member} (hms : ∀ m ∈ ms, m.Printed) :
    Spells (Tree.object ms).print (.object ms) := by
  cases ms with
  | nil => exact Spells.emptyObject blank_nil
  | cons m ms =>
      have hmore := run_printMembers fun n hn =>
        hms n (List.mem_cons_of_mem m hn)
      have hrun := Run.first ((hms m List.mem_cons_self).ahead _) hmore
      obtain ⟨body, hbody, hcs⟩ := run_members_iff.mp hrun
      obtain rfl := hcs.trans (List.append_nil body)
      rw [Tree.print]
      exact hbody

/-! ## Depth -/

@[simp] theorem depthOfItems_le_iff {ts : List Tree} {n : Nat} :
    depthOfItems ts ≤ n ↔ ∀ t ∈ ts, t.depth ≤ n := by
  induction ts with
  | nil => simp [depthOfItems]
  | cons t ts ih => simp [depthOfItems, ih]

@[simp] theorem depthOfMembers_le_iff {ms : List Member} {n : Nat} :
    depthOfMembers ms ≤ n ↔ ∀ m ∈ ms, m.value.depth ≤ n := by
  induction ms with
  | nil => simp [depthOfMembers]
  | cons m ms ih =>
      obtain ⟨key, value⟩ := m
      simp [depthOfMembers, Member.depth, ih]

theorem list_depth_le_iff {items : List Tree} {n : Nat} :
    (Tree.list items).depth ≤ n ↔
      ∃ k, n = k + 1 ∧ ∀ t ∈ items, t.depth ≤ k := by
  cases n with
  | zero => simp [Tree.depth]
  | succ n => simp [Tree.depth]

theorem object_depth_le_iff {members : List Member} {n : Nat} :
    (Tree.object members).depth ≤ n ↔
      ∃ k, n = k + 1 ∧ ∀ m ∈ members, m.value.depth ≤ k := by
  cases n with
  | zero => simp [Tree.depth]
  | succ n => simp [Tree.depth]

end NativeGlue.Json
