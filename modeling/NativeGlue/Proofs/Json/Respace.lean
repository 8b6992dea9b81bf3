import NativeGlue.Proofs.Json.Print

/-!
# Blanks between tokens

A text is a sequence of tokens with blanks around them: marks, strings, and
words, which are literals and numbers.  The blanks say nothing: texts with the
same tokens spell the same tree.
-/

namespace NativeGlue.Json

/-! ## Tokens -/

/-- The characters that are tokens on their own. -/
def marks : List Char := ['[', ']', '\x7b', '\x7d', ',', ':']

/-- A character of a word: no blank, no mark and no quote. -/
def WordChar (c : Char) : Prop :=
  c ∉ [' ', '\t', '\n', '\r', '[', ']', '\x7b', '\x7d', ',', ':', '"']

/-- A text that does not go on with a word. -/
def EndsWord (cs : List Char) : Prop := ∀ c ∈ cs.head?, ¬ WordChar c

/-- A token and the text after it.  A word goes on as far as it can. -/
inductive TokenBefore : List Char → List Char → Prop
  | mark {c : Char} {more : List Char} : c ∈ marks → TokenBefore [c] more
  | string {cs more : List Char} {ps : List Piece} :
      SpellsString cs ps → TokenBefore cs more
  | word {c : Char} {cs more : List Char} :
      (∀ d ∈ c :: cs, WordChar d) → EndsWord more → TokenBefore (c :: cs) more

/-- The text is the given tokens with blanks around them. -/
inductive Laid : List (List Char) → List Char → Prop
  | nil {b : List Char} : Blank b → Laid [] b
  | cons {a token more : List Char} {tokens : List (List Char)} :
      Blank a → TokenBefore token more → Laid tokens more →
      Laid (token :: tokens) (a ++ token ++ more)

/-- The texts are the same tokens with blanks around them. -/
def Respaced (cs cs' : List Char) : Prop :=
  ∃ tokens, Laid tokens cs ∧ Laid tokens cs'

theorem not_wordChar_of_mem_marks {c : Char} (hc : c ∈ marks) :
    ¬ WordChar c := by
  simp only [marks, List.mem_cons, List.not_mem_nil, or_false] at hc
  rcases hc with rfl | rfl | rfl | rfl | rfl | rfl
  all_goals simp [WordChar]

theorem isSpace_eq_false_of_mem_marks {c : Char} (hc : c ∈ marks) :
    isSpace c = false := by
  simp only [marks, List.mem_cons, List.not_mem_nil, or_false] at hc
  rcases hc with rfl | rfl | rfl | rfl | rfl | rfl
  all_goals rfl

theorem WordChar.isSpace_eq_false {c : Char} (hc : WordChar c) :
    isSpace c = false := by
  by_contra hspace
  rw [Bool.not_eq_false, isSpace_iff] at hspace
  rcases hspace with rfl | rfl | rfl | rfl
  all_goals simp [WordChar] at hc

theorem endsWord_mark {c : Char} (hc : c ∈ marks) (cs : List Char) :
    EndsWord (c :: cs) := by
  intro d hd
  obtain rfl : c = d := by simpa using hd
  exact not_wordChar_of_mem_marks hc

theorem endsWord_blank_append
    {b cs : List Char} (hb : Blank b) (hcs : EndsWord cs) :
    EndsWord (b ++ cs) := by
  cases b with
  | nil => exact hcs
  | cons c b =>
      intro d hd
      obtain rfl : c = d := by simpa using hd
      intro hc
      have hspace := blank_iff.mp hb c List.mem_cons_self
      rw [hc.isSpace_eq_false] at hspace
      cases hspace

theorem Blank.endsWord {b : List Char} (hb : Blank b) : EndsWord b := by
  have hnil : EndsWord [] := by simp [EndsWord]
  simpa using endsWord_blank_append hb hnil

/-! ## The first token of a text -/

theorem TokenBefore.startsWith
    {token more : List Char} (h : TokenBefore token more) :
    ∃ c cs, token = c :: cs ∧ isSpace c = false := by
  cases h with
  | mark hc => exact ⟨_, _, rfl, isSpace_eq_false_of_mem_marks hc⟩
  | string hs =>
      obtain ⟨body, rfl, -⟩ := hs
      exact ⟨_, _, rfl, rfl⟩
  | word hcs _ => exact ⟨_, _, rfl, (hcs _ List.mem_cons_self).isSpace_eq_false⟩

theorem TokenBefore.skipSpace_append
    {a token more : List Char} (ha : Blank a) (h : TokenBefore token more) :
    skipSpace (a ++ token ++ more) = token ++ more := by
  obtain ⟨c, cs, rfl, hc⟩ := h.startsWith
  rw [List.append_assoc]
  exact skipSpace_blank_cons ha c hc _

theorem SpellsString.eq_of_append_eq
    {cs cs' more more' : List Char} {ps ps' : List Piece}
    (h : SpellsString cs ps) (h' : SpellsString cs' ps')
    (heq : cs ++ more = cs' ++ more') :
    cs = cs' ∧ more = more' := by
  obtain ⟨body, rfl, hbody⟩ := h
  have hread : looseString (body ++ ['"'] ++ more) = .ok (ps, more) :=
    looseString_eq_ok_iff.mpr ⟨_, ⟨body, rfl, hbody⟩, by simp⟩
  have hread' : looseString (body ++ ['"'] ++ more) = .ok (ps', more') :=
    looseString_eq_ok_iff.mpr ⟨cs', h', by simpa using heq⟩
  obtain ⟨-, rfl⟩ := Prod.mk.inj (Except.ok.inj (hread.symm.trans hread'))
  exact ⟨List.append_cancel_right heq, rfl⟩

theorem word_eq_of_append_eq {cs cs' more more' : List Char}
    (hcs : ∀ c ∈ cs, WordChar c) (hmore : EndsWord more)
    (hcs' : ∀ c ∈ cs', WordChar c) (hmore' : EndsWord more')
    (heq : cs ++ more = cs' ++ more') :
    cs = cs' ∧ more = more' := by
  induction cs generalizing cs' with
  | nil =>
      cases cs' with
      | nil => exact ⟨rfl, heq⟩
      | cons c' cs' =>
          rw [List.nil_append] at heq
          exact absurd (hcs' c' List.mem_cons_self) (hmore c' (by simp [heq]))
  | cons c cs ih =>
      cases cs' with
      | nil =>
          rw [List.nil_append] at heq
          exact absurd (hcs c List.mem_cons_self) (hmore' c (by simp [← heq]))
      | cons c' cs' =>
          obtain ⟨rfl, htail⟩ := List.cons.inj heq
          obtain ⟨rfl, rfl⟩ := ih
            (fun d hd => hcs d (List.mem_cons_of_mem c hd))
            (fun d hd => hcs' d (List.mem_cons_of_mem c hd)) htail
          exact ⟨rfl, rfl⟩

theorem TokenBefore.eq_of_append_eq
    {token token' more more' : List Char} (h : TokenBefore token more)
    (h' : TokenBefore token' more') (heq : token ++ more = token' ++ more') :
    token = token' ∧ more = more' := by
  -- The first character tells the three sorts of tokens apart.
  have hquote : '"' ∉ marks ∧ ¬ WordChar '"' := by simp [marks, WordChar]
  cases h with
  | mark hc =>
      cases h' with
      | mark =>
          obtain ⟨rfl, rfl⟩ := List.cons.inj heq
          exact ⟨rfl, rfl⟩
      | string hs =>
          obtain ⟨body, rfl, -⟩ := hs
          obtain ⟨rfl, -⟩ := List.cons.inj heq
          exact absurd hc hquote.1
      | word hcs =>
          obtain ⟨rfl, -⟩ := List.cons.inj heq
          exact absurd (hcs _ List.mem_cons_self) (not_wordChar_of_mem_marks hc)
  | string hs =>
      cases h' with
      | string hs' => exact hs.eq_of_append_eq hs' heq
      | mark hc =>
          obtain ⟨body, rfl, -⟩ := hs
          obtain ⟨rfl, -⟩ := List.cons.inj heq
          exact absurd hc hquote.1
      | word hcs =>
          obtain ⟨body, rfl, -⟩ := hs
          obtain ⟨rfl, -⟩ := List.cons.inj heq
          exact absurd (hcs _ List.mem_cons_self) hquote.2
  | word hcs hmore =>
      cases h' with
      | word hcs' hmore' => exact word_eq_of_append_eq hcs hmore hcs' hmore' heq
      | mark hc =>
          obtain ⟨rfl, -⟩ := List.cons.inj heq
          exact absurd (hcs _ List.mem_cons_self) (not_wordChar_of_mem_marks hc)
      | string hs =>
          obtain ⟨body, rfl, -⟩ := hs
          obtain ⟨rfl, -⟩ := List.cons.inj heq
          exact absurd (hcs _ List.mem_cons_self) hquote.2

/-- A token that stands at the front of a text is the first of its tokens. -/
theorem Laid.uncons
    {tokens : List (List Char)} {a token more : List Char}
    (h : Laid tokens (a ++ token ++ more)) (ha : Blank a)
    (htoken : TokenBefore token more) :
    ∃ tokens', tokens = token :: tokens' ∧ Laid tokens' more := by
  have hskip := htoken.skipSpace_append ha
  generalize a ++ token ++ more = cs at h hskip
  cases h with
  | nil hb =>
      rw [skipSpace_eq_nil.mpr hb] at hskip
      obtain ⟨c, cs, rfl, -⟩ := htoken.startsWith
      cases hskip
  | cons ha' htoken' hmore =>
      rw [htoken'.skipSpace_append ha'] at hskip
      obtain ⟨rfl, rfl⟩ := htoken'.eq_of_append_eq htoken hskip
      exact ⟨_, rfl, hmore⟩

/-- Blanks may be put before a text. -/
theorem Laid.blank_append
    {tokens : List (List Char)} {b cs : List Char} (hb : Blank b)
    (h : Laid tokens cs) :
    Laid tokens (b ++ cs) := by
  cases h with
  | nil hcs => exact Laid.nil (List.forall_mem_append.mpr ⟨hb, hcs⟩)
  | @cons a token more _ ha htoken hmore =>
      rw [List.append_assoc, ← List.append_assoc, ← List.append_assoc]
      exact Laid.cons (List.forall_mem_append.mpr ⟨hb, ha⟩) htoken hmore

/-- A text has one sequence of tokens. -/
theorem Laid.unique {tokens tokens' : List (List Char)} {cs : List Char}
    (h : Laid tokens cs) (h' : Laid tokens' cs) : tokens = tokens' := by
  induction h generalizing tokens' with
  | nil hb =>
      cases h' with
      | nil => rfl
      | cons ha htoken _ =>
          have hskip := htoken.skipSpace_append ha
          rw [skipSpace_eq_nil.mpr hb] at hskip
          obtain ⟨c, cs, rfl, -⟩ := htoken.startsWith
          cases hskip
  | cons ha htoken _ ih =>
      obtain ⟨more, rfl, hmore⟩ := h'.uncons ha htoken
      rw [ih hmore]

/-! ## Reading along the tokens -/

/-- What is taken from a text is some tokens, and the same is taken from every
text that starts with these. -/
def TakesTokens (A : List Char → List Char → Prop) : Prop :=
  ∀ cs rest, A cs rest → EndsWord rest → ∃ front,
    (∀ left, Laid left rest → Laid (front ++ left) cs) ∧
    ∀ cs' left, Laid (front ++ left) cs' →
      ∃ rest', A cs' rest' ∧ Laid left rest'

theorem takesTokens_eq : TakesTokens Eq := by
  rintro cs _ rfl _
  exact ⟨[], fun left hleft => hleft, fun cs' left hleft => ⟨cs', rfl, hleft⟩⟩

/-- One token. -/
theorem takesTokens_ahead_of_token {α : Type} {R : List Char → α → Prop} {x : α}
    (h : ∀ body rest, R body x → EndsWord rest → TokenBefore body rest) :
    TakesTokens fun cs rest => Ahead R cs x rest := by
  rintro _ rest ⟨a, body, ha, hbody, rfl⟩ hrest
  have htoken := h body rest hbody hrest
  refine ⟨[body], fun left hleft => Laid.cons ha htoken hleft, ?_⟩
  intro cs' left hlaid
  cases hlaid with
  | @cons a' _ more _ ha' _ hmore =>
      exact ⟨more, ⟨a', body, ha', hbody, rfl⟩, hmore⟩

/-- A mark and what comes after it. -/
theorem TakesTokens.after_mark
    {A : List Char → List Char → Prop} (hA : TakesTokens A) {c : Char}
    (hc : c ∈ marks) :
    TakesTokens fun cs rest =>
      ∃ b after, Blank b ∧ cs = b ++ c :: after ∧ A after rest := by
  rintro _ rest ⟨b, after, hb, rfl, hafter⟩ hrest
  obtain ⟨front, hlay, hsame⟩ := hA after rest hafter hrest
  refine ⟨[c] :: front, ?_, ?_⟩
  · intro left hleft
    have hlaid := Laid.cons hb (TokenBefore.mark hc) (hlay left hleft)
    rwa [List.append_assoc] at hlaid
  · intro cs' left hlaid
    cases hlaid with
    | @cons b' _ after' _ hb' _ hmore =>
        obtain ⟨rest', hafter', hleft⟩ := hsame after' left hmore
        exact ⟨rest', ⟨b', after', hb', by simp, hafter'⟩, hleft⟩

/-- One thing after another. -/
theorem TakesTokens.then
    {A B : List Char → List Char → Prop} (hA : TakesTokens A)
    (hB : TakesTokens B) (hends : ∀ after rest, B after rest → EndsWord after) :
    TakesTokens fun cs rest => ∃ after, A cs after ∧ B after rest := by
  rintro cs rest ⟨after, hcs, hafter⟩ hrest
  obtain ⟨front, hlay, hsame⟩ := hA cs after hcs (hends after rest hafter)
  obtain ⟨front', hlay', hsame'⟩ := hB after rest hafter hrest
  refine ⟨front ++ front', ?_, ?_⟩
  · intro left hleft
    rw [List.append_assoc]
    exact hlay _ (hlay' left hleft)
  · intro cs' left hlaid
    rw [List.append_assoc] at hlaid
    obtain ⟨after', hcs', hlaid'⟩ := hsame cs' _ hlaid
    obtain ⟨rest', hafter', hleft⟩ := hsame' after' left hlaid'
    exact ⟨rest', ⟨after', hcs', hafter'⟩, hleft⟩

theorem TakesTokens.congr
    {A B : List Char → List Char → Prop} (hA : TakesTokens A)
    (h : ∀ cs rest, B cs rest ↔ A cs rest) :
    TakesTokens B := by
  have heq : B = A := funext₂ fun cs rest => propext (h cs rest)
  rwa [heq]

theorem Run.endsWord
    {α : Type} {close : Char} {A : List Char → α → List Char → Prop}
    {cs rest : List Char} {xs : List α} (hclose : close ∈ marks)
    (h : Run close A false cs xs rest) :
    EndsWord cs := by
  cases h with
  | stop hb => exact endsWord_blank_append hb (endsWord_mark hclose _)
  | next hb _ _ => exact endsWord_blank_append hb (endsWord_mark (by decide) _)

theorem takesTokens_run
    {α : Type} (close : Char) {A : List Char → α → List Char → Prop}
    {xs : List α} (hclose : close ∈ marks)
    (hxs : ∀ x ∈ xs, TakesTokens fun cs rest => A cs x rest) (first : Bool) :
    TakesTokens fun cs rest => Run close A first cs xs rest := by
  induction xs generalizing first with
  | nil =>
      refine (takesTokens_eq.after_mark hclose).congr fun cs rest => ?_
      rw [run_nil_iff]
      simp
  | cons x xs ih =>
      have hmore := ih (fun y hy => hxs y (List.mem_cons_of_mem x hy)) false
      have hboth := (hxs x List.mem_cons_self).then hmore
        fun _ _ h => h.endsWord hclose
      cases first with
      | true =>
          refine hboth.congr fun cs rest => ?_
          rw [run_cons_iff]
          constructor
          · rintro ⟨_, left, rfl, hx, hrun⟩
            exact ⟨left, hx, hrun⟩
          · rintro ⟨left, hx, hrun⟩
            exact ⟨cs, left, rfl, hx, hrun⟩
      | false =>
          have hcomma : ',' ∈ marks := by decide
          refine (hboth.after_mark hcomma).congr fun cs rest => ?_
          rw [run_cons_iff]
          constructor
          · rintro ⟨after, left, ⟨b, hb, rfl⟩, hx, hrun⟩
            exact ⟨b, after, hb, rfl, left, hx, hrun⟩
          · rintro ⟨b, after, hb, rfl, left, hx, hrun⟩
            exact ⟨after, left, ⟨b, hb, rfl⟩, hx, hrun⟩

/-! ## Values along the tokens -/

theorem Digits.wordChar
    {ds : List Char} (hds : Digits ds) {d : Char} (hd : d ∈ ds) :
    WordChar d := by
  obtain ⟨hlow, hhigh⟩ := hds d hd
  intro hmem
  simp only [List.mem_cons, List.not_mem_nil, or_false] at hmem
  rcases hmem with
    rfl | rfl | rfl | rfl | rfl | rfl | rfl | rfl | rfl | rfl | rfl
  all_goals revert hlow hhigh; decide

theorem SpellsNumeral.wordChar
    {cs : List Char} {n : Numeral} (h : SpellsNumeral cs n) {c : Char}
    (hc : c ∈ cs) :
    WordChar c := by
  have hplain : ∀ d ∈ ['-', '+', '.', 'e', 'E', '0'], WordChar d := by
    simp [WordChar]
  cases h with
  | intro negative hwhole hfraction hexponent =>
      simp only [List.mem_append] at hc
      rcases hc with ((hc | hc) | hc) | hc
      · cases negative with
        | true => exact hplain c (by simp_all)
        | false => cases hc
      · cases hwhole with
        | zero => exact hplain c (by simp_all)
        | @digits d ds hlow hhigh hds =>
            rcases List.mem_cons.mp hc with rfl | hc
            · have hdigit : Digits [c] := by
                intro e he
                obtain rfl := List.mem_singleton.mp he
                exact ⟨Char.le_trans (by decide) hlow, hhigh⟩
              exact hdigit.wordChar List.mem_cons_self
            · exact hds.wordChar hc
      · cases hfraction with
        | none => cases hc
        | some _ hds =>
            rcases List.mem_cons.mp hc with rfl | hc
            · exact hplain _ (by simp)
            · exact hds.wordChar hc
      · cases hexponent with
        | none => cases hc
        | some he hsign _ hds =>
            rcases List.mem_append.mp hc with hc | hc
            · refine hplain c ?_
              rcases List.mem_cons.mp hc with rfl | hc
              · rcases he with rfl | rfl <;> simp
              · cases hsign <;> simp_all
            · exact hds.wordChar hc

/-- A value that is no list and no object is one token. -/
theorem Spells.tokenBefore
    {body rest : List Char} {t : Tree} (h : Spells body t)
    (hdepth : t.depth = 0) (hrest : EndsWord rest) :
    TokenBefore body rest := by
  cases h with
  | null => exact TokenBefore.word (by simp [WordChar]) hrest
  | true => exact TokenBefore.word (by simp [WordChar]) hrest
  | false => exact TokenBefore.word (by simp [WordChar]) hrest
  | number hn =>
      obtain ⟨c, more, rfl, -⟩ := hn.startsWith
      exact TokenBefore.word (fun d hd => hn.wordChar hd) hrest
  | string hs => exact TokenBefore.string hs
  | _ => simp [Tree.depth] at hdepth

theorem ahead_list_iff_mark {cs rest : List Char} {items : List Tree} :
    Ahead Spells cs (.list items) rest ↔
      ∃ b inner, Blank b ∧ cs = b ++ '[' :: inner ∧
        Run ']' (Ahead Spells) true inner items rest := by
  rw [ahead_list_iff]
  constructor
  · rintro ⟨inner, hskip, hrun⟩
    obtain ⟨b, hb, rfl⟩ := exists_blank_of_skipSpace_eq hskip
    exact ⟨b, inner, hb, rfl, hrun⟩
  · rintro ⟨b, inner, hb, rfl, hrun⟩
    exact ⟨inner, skipSpace_blank_cons hb '[' rfl inner, hrun⟩

theorem ahead_object_iff_mark {cs rest : List Char} {members : List Member} :
    Ahead Spells cs (.object members) rest ↔
      ∃ b inner, Blank b ∧ cs = b ++ '\x7b' :: inner ∧
        Run '\x7d' AheadMember true inner members rest := by
  rw [ahead_object_iff]
  constructor
  · rintro ⟨inner, hskip, hrun⟩
    obtain ⟨b, hb, rfl⟩ := exists_blank_of_skipSpace_eq hskip
    exact ⟨b, inner, hb, rfl, hrun⟩
  · rintro ⟨b, inner, hb, rfl, hrun⟩
    exact ⟨inner, skipSpace_blank_cons hb '\x7b' rfl inner, hrun⟩

theorem takesTokens_aheadMember {m : Member}
    (hvalue : TakesTokens fun cs rest => Ahead Spells cs m.value rest) :
    TakesTokens fun cs rest => AheadMember cs m rest := by
  have hkey : TakesTokens fun cs rest => Ahead SpellsString cs m.key rest :=
    takesTokens_ahead_of_token fun _ _ hs _ => TokenBefore.string hs
  have hcolon : ':' ∈ marks := by decide
  refine (hkey.then (hvalue.after_mark hcolon) ?_).congr fun cs rest => ?_
  · rintro _ _ ⟨b, after, hb, rfl, -⟩
    exact endsWord_blank_append hb (endsWord_mark hcolon after)
  · constructor
    · rintro ⟨b, left, hb, hk, hv⟩
      exact ⟨_, hk, b, left, hb, rfl, hv⟩
    · rintro ⟨_, hk, b, left, hb, rfl, hv⟩
      exact ⟨b, left, hb, hk, hv⟩

theorem takesTokens_ahead (t : Tree) :
    TakesTokens fun cs rest => Ahead Spells cs t rest := by
  have hdepth : ∀ n (t : Tree), t.depth ≤ n →
      TakesTokens fun cs rest => Ahead Spells cs t rest := by
    intro n
    induction n using Nat.strong_induction_on with
    | _ n ih =>
        intro t hn
        cases t with
        | list items =>
            obtain ⟨k, rfl, hitems⟩ := list_depth_le_iff.mp hn
            have hrun := takesTokens_run ']' (by decide)
              (fun t ht => ih k (Nat.lt_succ_self k) t (hitems t ht)) true
            exact (hrun.after_mark (by decide)).congr fun _ _ =>
              ahead_list_iff_mark
        | object members =>
            obtain ⟨k, rfl, hmembers⟩ := object_depth_le_iff.mp hn
            have hrun := takesTokens_run '\x7d' (by decide)
              (fun m hm => takesTokens_aheadMember
                (ih k (Nat.lt_succ_self k) m.value (hmembers m hm))) true
            exact (hrun.after_mark (by decide)).congr fun _ _ =>
              ahead_object_iff_mark
        | _ =>
            exact takesTokens_ahead_of_token fun _ _ hbody =>
              hbody.tokenBefore rfl
  exact hdepth _ t le_rfl

@[simp] theorem laid_nil_iff {cs : List Char} : Laid [] cs ↔ Blank cs := by
  constructor
  · intro h
    cases h with
    | nil hb => exact hb
  · exact Laid.nil

/-- A text of the grammar is some tokens with blanks around them, and every text
with these tokens spells the same tree. -/
theorem SpellsText.exists_laid
    {cs : List Char} {t : Tree} (h : SpellsText cs t) :
    ∃ tokens, Laid tokens cs ∧ ∀ cs', Laid tokens cs' → SpellsText cs' t := by
  obtain ⟨b, hb, hahead⟩ := ((leads_ahead Spells).rule cs t).mp h
  obtain ⟨tokens, hlay, hsame⟩ := takesTokens_ahead t cs b hahead hb.endsWord
  have hlaid := hlay [] (Laid.nil hb)
  rw [List.append_nil] at hlaid
  refine ⟨tokens, hlaid, fun cs' hlaid' => ?_⟩
  rw [← List.append_nil tokens] at hlaid'
  obtain ⟨rest, hahead', hrest⟩ := hsame cs' [] hlaid'
  exact ((leads_ahead Spells).rule cs' t).mpr
    ⟨rest, laid_nil_iff.mp hrest, hahead'⟩

/-- Blanks between tokens do not change the tree of a text. -/
theorem SpellsText.of_respaced
    {cs cs' : List Char} {t : Tree} (h : SpellsText cs t)
    (hcs : Respaced cs cs') :
    SpellsText cs' t := by
  obtain ⟨tokens, hlaid, hlaid'⟩ := hcs
  obtain ⟨tokens', htokens', hsame⟩ := h.exists_laid
  obtain rfl := hlaid.unique htokens'
  exact hsame cs' hlaid'

/-- Blanks may be put around the mark that a text begins with. -/
theorem SpellsText.respaced_mark
    {c : Char} {rest a b : List Char} {t : Tree} (h : SpellsText (c :: rest) t)
    (hc : c ∈ marks) (ha : Blank a) (hb : Blank b) :
    Respaced (c :: rest) (a ++ [c] ++ (b ++ rest)) := by
  obtain ⟨tokens, hlaid, -⟩ := h.exists_laid
  have hmark : TokenBefore [c] rest := TokenBefore.mark hc
  obtain ⟨tokens', rfl, hrest⟩ := Laid.uncons (a := []) hlaid blank_nil hmark
  exact ⟨_, hlaid, Laid.cons ha (.mark hc) (hrest.blank_append hb)⟩

end NativeGlue.Json
