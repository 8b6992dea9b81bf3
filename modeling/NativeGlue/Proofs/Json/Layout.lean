import NativeGlue.Proofs.Json.Scan
import NativeGlue.Proofs.Json.Strings

/-!
# What stands ahead in a text

The grammar says how a whole text is spelled.  A reader goes from left to right:
it asks what stands ahead and goes on with what is left.  This file restates the
rules of lists and objects in that order and proves the two readings equal.
-/

namespace NativeGlue.Json

/-- After blanks there stands what the rule spells, and then the rest. -/
def Ahead {α : Type} (R : List Char → α → Prop)
    (cs : List Char) (x : α) (rest : List Char) : Prop :=
  ∃ a body, Blank a ∧ R body x ∧ cs = a ++ body ++ rest

/-- After blanks there stands a member of an object, and then the rest. -/
def AheadMember (cs : List Char) (m : Member) (rest : List Char) : Prop :=
  ∃ b left, Blank b ∧ Ahead SpellsString cs m.key (b ++ ':' :: left) ∧
    Ahead Spells left m.value rest

/-- A list or an object from inside its bracket on.  A comma stands before each
element but the first. -/
inductive Run {α : Type} (close : Char) (A : List Char → α → List Char → Prop) :
    Bool → List Char → List α → List Char → Prop
  | stop {first : Bool} {b rest : List Char} :
      Blank b → Run close A first (b ++ close :: rest) [] rest
  | first {cs left rest : List Char} {x : α} {xs : List α} :
      A cs x left → Run close A false left xs rest →
      Run close A true cs (x :: xs) rest
  | next {b cs left rest : List Char} {x : α} {xs : List α} :
      Blank b → A cs x left → Run close A false left xs rest →
      Run close A false (b ++ ',' :: cs) (x :: xs) rest

/-! ## Lists read from left to right -/

section Run

variable {α : Type} {close : Char} {A : List Char → α → List Char → Prop}
    {R : List Char → α → Prop}

/-- What stands ahead takes a part of the text whatever is left, and it is a
thing of the rule where only blanks are left. -/
structure Leads
    (A : List Char → α → List Char → Prop) (R : List Char → α → Prop) :
    Prop where
  front (cs : List Char) (x : α) (rest : List Char) : A cs x rest →
    ∃ p, cs = p ++ rest ∧ ∀ more, A (p ++ more) x more
  rule (cs : List Char) (x : α) : R cs x ↔ ∃ b, Blank b ∧ A cs x b

theorem Leads.length_le (hA : Leads A R)
    {cs rest : List Char} {x : α} (h : A cs x rest) :
    rest.length ≤ cs.length := by
  obtain ⟨p, rfl, -⟩ := hA.front cs x rest h
  simp

theorem Run.separated (hA : Leads A R)
    {left rest : List Char} {xs : List α} (h : Run close A false left xs rest)
    {p : List Char} {x : α} (hp : ∀ more, A (p ++ more) x more) :
    ∃ body, p ++ left = body ++ close :: rest ∧ Separated R body (x :: xs) := by
  generalize hfirst : false = first at h
  induction h generalizing p x with
  | @stop _ b rest hb =>
      exact ⟨p ++ b, by simp,
        Separated.single ((hA.rule _ _).mpr ⟨b, hb, hp b⟩)⟩
  | first => cases hfirst
  | @next b cs left rest y ys hb hy _ ih =>
      obtain ⟨q, rfl, hq⟩ := hA.front _ _ _ hy
      obtain ⟨body, hbody, hys⟩ := ih hq rfl
      refine ⟨(p ++ b) ++ ',' :: body, ?_,
        Separated.cons ((hA.rule _ _).mpr ⟨b, hb, hp b⟩) hys⟩
      simp [hbody]

theorem Separated.ne_nil
    {cs : List Char} {xs : List α} (h : Separated R cs xs) :
    xs ≠ [] := by
  cases h <;> simp

theorem Run.after_comma {cs rest b : List Char} {xs : List α}
    (h : Run close A true cs xs rest) (hxs : xs ≠ []) (hb : Blank b) :
    Run close A false (b ++ ',' :: cs) xs rest := by
  cases h with
  | stop => exact absurd rfl hxs
  | first hx hmore => exact Run.next hb hx hmore

theorem Separated.run
    (hA : Leads A R) {body : List Char} {xs : List α} (h : Separated R body xs)
    (rest : List Char) :
    Run close A true (body ++ close :: rest) xs rest := by
  induction h with
  | single hx =>
      obtain ⟨b, hb, hx⟩ := (hA.rule _ _).mp hx
      obtain ⟨p, rfl, hp⟩ := hA.front _ _ _ hx
      rw [List.append_assoc]
      exact Run.first (hp _) (Run.stop hb)
  | cons hx hmore ih =>
      obtain ⟨b, hb, hx⟩ := (hA.rule _ _).mp hx
      obtain ⟨p, rfl, hp⟩ := hA.front _ _ _ hx
      rw [List.append_assoc, List.append_assoc, List.cons_append]
      exact Run.first (hp _) (ih.after_comma hmore.ne_nil hb)

/-- Reading a list from left to right, one finds nothing but blanks in it, or
elements with commas between them. -/
theorem run_true_iff
    (hA : Leads A R) {cs rest : List Char} {xs : List α} :
    Run close A true cs xs rest ↔
      ∃ body, cs = body ++ close :: rest ∧
        (xs = [] ∧ Blank body ∨ Separated R body xs) := by
  constructor
  · intro h
    cases h with
    | @stop _ b _ hb => exact ⟨b, rfl, Or.inl ⟨rfl, hb⟩⟩
    | first hx hmore =>
        obtain ⟨p, rfl, hp⟩ := hA.front _ _ _ hx
        obtain ⟨body, hbody, hxs⟩ := hmore.separated hA hp
        exact ⟨body, hbody, Or.inr hxs⟩
  · rintro ⟨body, rfl, ⟨rfl, hb⟩ | hxs⟩
    · exact Run.stop hb
    · exact hxs.run hA rest

/-- Where the next element starts: after a comma, unless it is the first. -/
def Lead : Bool → List Char → List Char → Prop
  | true, cs, after => cs = after
  | false, cs, after => ∃ b, Blank b ∧ cs = b ++ ',' :: after

theorem Lead.length_le
    {first : Bool} {cs after : List Char} (h : Lead first cs after) :
    after.length ≤ cs.length := by
  cases first with
  | true =>
      obtain rfl : cs = after := h
      exact le_rfl
  | false =>
      obtain ⟨b, -, rfl⟩ := h
      simp only [List.length_append, List.length_cons]
      omega

theorem run_nil_iff {first : Bool} {cs rest : List Char} :
    Run close A first cs [] rest ↔ ∃ b, Blank b ∧ cs = b ++ close :: rest := by
  constructor
  · intro h
    cases h with
    | @stop _ b _ hb => exact ⟨b, hb, rfl⟩
  · rintro ⟨b, hb, rfl⟩
    exact Run.stop hb

theorem run_cons_iff
    {first : Bool} {cs rest : List Char} {x : α} {xs : List α} :
    Run close A first cs (x :: xs) rest ↔
      ∃ after left, Lead first cs after ∧ A after x left ∧
        Run close A false left xs rest := by
  constructor
  · intro h
    cases h with
    | first hx hmore => exact ⟨_, _, rfl, hx, hmore⟩
    | @next b _ _ _ _ _ hb hx hmore => exact ⟨_, _, ⟨b, hb, rfl⟩, hx, hmore⟩
  · rintro ⟨after, left, hlead, hx, hmore⟩
    cases first with
    | true =>
        obtain rfl : cs = after := hlead
        exact Run.first hx hmore
    | false =>
        obtain ⟨b, hb, rfl⟩ := hlead
        exact Run.next hb hx hmore

end Run

theorem leads_ahead {α : Type} (R : List Char → α → Prop) :
    Leads (Ahead R) (Padded R) where
  front := by
    rintro _ x rest ⟨a, body, ha, hbody, rfl⟩
    exact ⟨a ++ body, rfl, fun more => ⟨a, body, ha, hbody, rfl⟩⟩
  rule := by
    intro cs x
    constructor
    · rintro ⟨ha, hbody, hb⟩
      exact ⟨_, hb, _, _, ha, hbody, rfl⟩
    · rintro ⟨b, hb, a, body, ha, hbody, rfl⟩
      exact Padded.intro ha hbody hb

theorem leads_aheadMember : Leads AheadMember (SpellsMember Spells) where
  front := by
    rintro cs m rest ⟨b, left, hb, hkey, hvalue⟩
    obtain ⟨k, rfl, hk⟩ := (leads_ahead SpellsString).front _ _ _ hkey
    obtain ⟨v, rfl, hv⟩ := (leads_ahead Spells).front _ _ _ hvalue
    refine ⟨k ++ (b ++ ':' :: v), by simp,
      fun more => ⟨b, v ++ more, hb, ?_, hv more⟩⟩
    have hmore := hk (b ++ ':' :: (v ++ more))
    simpa using hmore
  rule := by
    intro cs m
    constructor
    · rintro ⟨hkey, hvalue⟩
      obtain ⟨b, hb, hk⟩ := ((leads_ahead _).rule _ _).mp hkey
      obtain ⟨c, hc, hv⟩ := ((leads_ahead _).rule _ _).mp hvalue
      obtain ⟨k, rfl, hfront⟩ := (leads_ahead _).front _ _ _ hk
      refine ⟨c, hc, b, _, hb, ?_, hv⟩
      rw [List.append_assoc]
      exact hfront _
    · obtain ⟨key, t⟩ := m
      rintro ⟨c, hc, b, left, hb, hkey, hvalue⟩
      obtain ⟨k, rfl, hk⟩ := (leads_ahead _).front _ _ _ hkey
      have hpadded := ((leads_ahead _).rule _ _).mpr ⟨b, hb, hk b⟩
      rw [← List.append_assoc]
      exact SpellsMember.intro hpadded
        (((leads_ahead _).rule _ _).mpr ⟨c, hc, hvalue⟩)

theorem run_items_iff {cs rest : List Char} {items : List Tree} :
    Run ']' (Ahead Spells) true cs items rest ↔
      ∃ body, Spells body (.list items) ∧ '[' :: cs = body ++ rest := by
  rw [run_true_iff (leads_ahead Spells)]
  constructor
  · rintro ⟨body, rfl, ⟨rfl, hb⟩ | hitems⟩
    · exact ⟨_, Spells.emptyList hb, by simp⟩
    · exact ⟨_, Spells.list hitems, by simp⟩
  · rintro ⟨_, hspells, hcs⟩
    cases hspells with
    | @emptyList b hb => exact ⟨b, by simpa using hcs, Or.inl ⟨rfl, hb⟩⟩
    | @list body _ hitems => exact ⟨body, by simpa using hcs, Or.inr hitems⟩

theorem run_members_iff {cs rest : List Char} {members : List Member} :
    Run '\x7d' AheadMember true cs members rest ↔
      ∃ body, Spells body (.object members) ∧ '\x7b' :: cs = body ++ rest := by
  rw [run_true_iff leads_aheadMember]
  constructor
  · rintro ⟨body, rfl, ⟨rfl, hb⟩ | hmembers⟩
    · exact ⟨_, Spells.emptyObject hb, by simp⟩
    · exact ⟨_, Spells.object hmembers, by simp⟩
  · rintro ⟨_, hspells, hcs⟩
    cases hspells with
    | @emptyObject b hb => exact ⟨b, by simpa using hcs, Or.inl ⟨rfl, hb⟩⟩
    | @object body _ hmembers =>
        exact ⟨body, by simpa using hcs, Or.inr hmembers⟩

/-! ## How values start -/

/-- The characters that a value of a kind can start with. -/
def Tree.StartsWith : Tree → Char → Prop
  | .null, c => c = 'n'
  | .boolean b, c => c = if b then 't' else 'f'
  | .number _, c => c = '-' ∨ isDigit c = true
  | .string _, c => c = '"'
  | .list _, c => c = '['
  | .object _, c => c = '\x7b'

theorem SpellsNumeral.startsWith {cs : List Char} {n : Numeral}
    (h : SpellsNumeral cs n) :
    ∃ c more, cs = c :: more ∧ (c = '-' ∨ isDigit c = true) := by
  cases h with
  | intro negative hwhole _ _ =>
      cases negative with
      | true => exact ⟨_, _, rfl, Or.inl rfl⟩
      | false =>
          cases hwhole with
          | zero => exact ⟨_, _, rfl, Or.inr (by decide)⟩
          | digits hlow hhigh _ =>
              have hzero := Char.le_trans (show '0' ≤ '1' by decide) hlow
              exact ⟨_, _, rfl, Or.inr (isDigit_iff.mpr ⟨hzero, hhigh⟩)⟩

theorem Spells.startsWith {cs : List Char} {t : Tree} (h : Spells cs t) :
    ∃ c more, cs = c :: more ∧ t.StartsWith c := by
  cases h with
  | number hn => exact hn.startsWith
  | string hs =>
      obtain ⟨body, rfl, -⟩ := hs
      exact ⟨_, _, rfl, rfl⟩
  | _ => exact ⟨_, _, rfl, rfl⟩

theorem Tree.StartsWith.mem {t : Tree} {c : Char} (h : t.StartsWith c) :
    c ∈ ['n', 't', 'f', '"', '[', '\x7b', '-'] ∨ isDigit c = true := by
  cases t with
  | boolean b =>
      obtain rfl : c = if b then 't' else 'f' := h
      cases b <;> simp
  | number n =>
      rcases h with rfl | hdigit
      · simp
      · exact Or.inr hdigit
  | _ =>
      obtain rfl : c = _ := h
      simp

theorem Tree.StartsWith.eq_null {t : Tree} (h : t.StartsWith 'n') :
    t = .null := by
  cases t with
  | null => rfl
  | boolean b => cases b <;> simp [Tree.StartsWith] at h
  | number => simp [Tree.StartsWith, isDigit] at h
  | _ => simp [Tree.StartsWith] at h

theorem Tree.StartsWith.isSpace_eq_false {t : Tree} {c : Char}
    (h : t.StartsWith c) : isSpace c = false := by
  by_contra hspace
  rw [Bool.not_eq_false, isSpace_iff] at hspace
  have hmem := h.mem
  rcases hspace with rfl | rfl | rfl | rfl
  all_goals exact absurd hmem (by decide)

theorem Spells.skipSpace_append {cs : List Char} {t : Tree} (h : Spells cs t)
    (rest : List Char) :
    skipSpace (cs ++ rest) = cs ++ rest := by
  obtain ⟨c, more, rfl, hc⟩ := h.startsWith
  exact skipSpace_cons hc.isSpace_eq_false

theorem ahead_spells_iff {cs rest : List Char} {t : Tree} :
    Ahead Spells cs t rest ↔
      ∃ body, Spells body t ∧ skipSpace cs = body ++ rest := by
  constructor
  · rintro ⟨a, body, ha, hbody, rfl⟩
    refine ⟨body, hbody, ?_⟩
    rw [List.append_assoc, skipSpace_blank_append ha, hbody.skipSpace_append]
  · rintro ⟨body, hbody, hskip⟩
    obtain ⟨a, ha, hcs⟩ := exists_blank_of_skipSpace_eq hskip
    exact ⟨a, body, ha, hbody, by rw [hcs, List.append_assoc]⟩

theorem ahead_string_iff {cs rest : List Char} {ps : List Piece} :
    Ahead SpellsString cs ps rest ↔ Ahead Spells cs (.string ps) rest := by
  constructor
  · rintro ⟨a, body, ha, hbody, rfl⟩
    exact ⟨a, body, ha, Spells.string hbody, rfl⟩
  · rintro ⟨a, body, ha, hbody, rfl⟩
    cases hbody with
    | string hbody => exact ⟨a, body, ha, hbody, rfl⟩

@[simp] theorem skipSpace_skipSpace (cs : List Char) :
    skipSpace (skipSpace cs) = skipSpace cs := by
  obtain ⟨a, ha, hcs⟩ := exists_blank_append_skipSpace cs
  have hskip := skipSpace_blank_append ha (skipSpace cs)
  rwa [← hcs, eq_comm] at hskip

@[simp] theorem ahead_skipSpace_iff {cs rest : List Char} {t : Tree} :
    Ahead Spells (skipSpace cs) t rest ↔ Ahead Spells cs t rest := by
  rw [ahead_spells_iff, ahead_spells_iff, skipSpace_skipSpace]

/-! ## What each kind of value looks like from its first character on -/

theorem ahead_null_iff {cs rest : List Char} :
    Ahead Spells cs .null rest ↔
      skipSpace cs = ['n', 'u', 'l', 'l'] ++ rest := by
  rw [ahead_spells_iff]
  constructor
  · rintro ⟨body, hbody, hcs⟩
    cases hbody
    exact hcs
  · intro hcs
    exact ⟨_, Spells.null, hcs⟩

theorem ahead_boolean_iff {cs rest : List Char} {b : Bool} :
    Ahead Spells cs (.boolean b) rest ↔
      skipSpace cs =
        (if b then ['t', 'r', 'u', 'e'] else ['f', 'a', 'l', 's', 'e']) ++
          rest := by
  rw [ahead_spells_iff]
  constructor
  · rintro ⟨body, hbody, hcs⟩
    cases hbody <;> exact hcs
  · intro hcs
    cases b with
    | true => exact ⟨_, Spells.true, hcs⟩
    | false => exact ⟨_, Spells.false, hcs⟩

theorem ahead_looseString_iff {cs rest : List Char} {ps : List Piece} :
    Ahead Spells cs (.string ps) rest ↔
      ∃ after, skipSpace cs = '"' :: after ∧
        looseString after = .ok (ps, rest) := by
  rw [ahead_spells_iff]
  constructor
  · rintro ⟨_, hbody, hcs⟩
    cases hbody with
    | string hs =>
        obtain ⟨body, rfl, hps⟩ := hs
        refine ⟨body ++ '"' :: rest, by simpa using hcs, ?_⟩
        exact looseString_eq_ok_iff.mpr ⟨_, ⟨body, rfl, hps⟩, by simp⟩
  · rintro ⟨after, hcs, hread⟩
    obtain ⟨body, hps, hafter⟩ := looseString_eq_ok_iff.mp hread
    exact ⟨body, Spells.string hps, by rw [hcs, hafter]⟩

theorem ahead_list_iff {cs rest : List Char} {items : List Tree} :
    Ahead Spells cs (.list items) rest ↔
      ∃ inner, skipSpace cs = '[' :: inner ∧
        Run ']' (Ahead Spells) true inner items rest := by
  rw [ahead_spells_iff]
  constructor
  · rintro ⟨body, hbody, hcs⟩
    obtain ⟨c, more, rfl, rfl⟩ := hbody.startsWith
    exact ⟨more ++ rest, hcs, run_items_iff.mpr ⟨_, hbody, rfl⟩⟩
  · rintro ⟨inner, hcs, hrun⟩
    obtain ⟨body, hbody, hinner⟩ := run_items_iff.mp hrun
    exact ⟨body, hbody, by rw [hcs, hinner]⟩

theorem ahead_object_iff {cs rest : List Char} {members : List Member} :
    Ahead Spells cs (.object members) rest ↔
      ∃ inner, skipSpace cs = '\x7b' :: inner ∧
        Run '\x7d' AheadMember true inner members rest := by
  rw [ahead_spells_iff]
  constructor
  · rintro ⟨body, hbody, hcs⟩
    obtain ⟨c, more, rfl, rfl⟩ := hbody.startsWith
    exact ⟨more ++ rest, hcs, run_members_iff.mpr ⟨_, hbody, rfl⟩⟩
  · rintro ⟨inner, hcs, hrun⟩
    obtain ⟨body, hbody, hinner⟩ := run_members_iff.mp hrun
    exact ⟨body, hbody, by rw [hcs, hinner]⟩

end NativeGlue.Json
