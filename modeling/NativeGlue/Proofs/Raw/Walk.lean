import NativeGlue.Proofs.Json.Value
import NativeGlue.Proofs.Json.Walk
import NativeGlue.Raw.Decode

/-!
# Reading in step with decoding

A reader goes over the text once; a decoder looks at a finished tree.  A reader
follows a decoder if it takes exactly the values whose trees the decoder
accepts, and gives what the decoder gives.  This file carries that relation from
the parts of lists and objects to the whole ones.
-/

namespace NativeGlue.Raw

open Json

/-- The reader takes the values whose trees the decoder accepts, on texts of no
more characters than the bound. -/
structure Follows
    {α : Type} (bound : Nat) (read : Reader α) (decode : Tree → Option α) :
    Prop where
  sound (cs : List Char) (v : α) (rest : List Char) :
    read cs = .ok (v, rest) → ∃ t, Ahead Spells cs t rest ∧ decode t = some v
  complete (cs : List Char) (t : Tree) (rest : List Char) (v : α) :
    Ahead Spells cs t rest → EndsNumeral rest → cs.length ≤ bound →
    decode t = some v → read cs = .ok (v, rest)

theorem mapM_cons_eq_some_iff
    {α β : Type} {f : α → Option β} {x : α} {xs : List α} {zs : List β} :
    (x :: xs).mapM f = some zs ↔
      ∃ y ys, f x = some y ∧ xs.mapM f = some ys ∧ y :: ys = zs := by
  simp [List.mapM_cons, Option.bind_eq_some_iff]

/-! ## Values that may be null -/

theorem decodeNullable_of_ne_null
    {α : Type} {decode : Tree → Option α} {t : Tree} (ht : t ≠ .null) :
    decodeNullable decode t = (decode t).map some := by
  unfold decodeNullable
  split
  · exact absurd rfl ht
  · rfl

theorem readNullable_of_ne_null
    {α : Type} {read : Reader α} {cs rest : List Char} {t : Tree}
    (h : Ahead Spells cs t rest) (ht : t ≠ .null) :
    readNullable read cs = (do
      let (value, rest) ← read (skipSpace cs)
      return (some value, rest)) := by
  obtain ⟨body, hbody, hskip⟩ := ahead_spells_iff.mp h
  obtain ⟨c, more, rfl, hc⟩ := hbody.startsWith
  unfold readNullable
  split
  · next heq =>
      obtain ⟨rfl, -⟩ := List.cons.inj (hskip.symm.trans heq)
      exact absurd hc.eq_null ht
  · rfl

theorem Follows.nullable {α : Type} {bound : Nat} {read : Reader α}
    {decode : Tree → Option α} (h : Follows bound read decode)
    (hnull : decode .null = none) :
    Follows bound (readNullable read) (decodeNullable decode) where
  sound := by
    intro cs v rest hread
    unfold readNullable at hread
    split at hread
    · next after hskip =>
        obtain ⟨rfl, rfl⟩ := literal_bind_eq_ok_iff.mp hread
        exact ⟨.null, ahead_null_iff.mpr hskip, rfl⟩
    · obtain ⟨⟨value, left⟩, hinner, hdone⟩ := bind_eq_ok_iff.mp hread
      obtain ⟨rfl, rfl⟩ := Prod.mk.inj (Except.ok.inj hdone)
      obtain ⟨t, hahead, hdecode⟩ := h.sound _ _ _ hinner
      refine ⟨t, ahead_skipSpace_iff.mp hahead, ?_⟩
      have ht : t ≠ .null := by
        rintro rfl
        rw [hnull] at hdecode
        cases hdecode
      rw [decodeNullable_of_ne_null ht, hdecode]
      rfl
  complete := by
    intro cs t rest v hahead hrest hlen hdecode
    by_cases ht : t = .null
    · subst ht
      obtain rfl := Option.some.inj hdecode
      have hskip := ahead_null_iff.mp hahead
      simp only [readNullable, hskip, List.cons_append]
      exact literal_bind_eq_ok_iff.mpr ⟨rfl, rfl⟩
    · rw [decodeNullable_of_ne_null ht] at hdecode
      obtain ⟨value, hvalue, rfl⟩ := Option.map_eq_some_iff.mp hdecode
      have hread := h.complete _ _ _ _ (ahead_skipSpace_iff.mpr hahead) hrest
        ((skipSpace_length_le cs).trans hlen) hvalue
      rw [readNullable_of_ne_null hahead ht]
      exact bind_eq_ok_iff.mpr ⟨_, hread, rfl⟩

/-! ## Lists -/

theorem length_lt_of_ahead {cs rest : List Char} {t : Tree}
    (h : Ahead Spells cs t rest) : rest.length < cs.length := by
  obtain ⟨a, body, -, hbody, rfl⟩ := h
  obtain ⟨c, more, rfl, -⟩ := hbody.startsWith
  simp only [List.length_append, List.length_cons]
  omega

section Elements

variable {α : Type} {bound : Nat} {item : Reader α} {decode : Tree → Option α}

theorem Follows.elements_sound
    (hitem : Follows bound item decode) {n : Nat} {first : Bool}
    {cs rest : List Char} {xs : List α}
    (h : elements item n first cs = .ok (xs, rest)) :
    ∃ ts, Run ']' (Ahead Spells) first cs ts rest ∧
      ts.mapM decode = some xs := by
  induction n generalizing first cs xs with
  | zero => cases h
  | succ n ih =>
      rw [elements] at h
      obtain ⟨⟨more, left⟩, hnext, h⟩ := bind_eq_ok_iff.mp h
      cases more with
      | false =>
          obtain ⟨rfl, rfl⟩ := Prod.mk.inj (Except.ok.inj h)
          exact ⟨[], run_nil_iff.mpr (nextElement_eq_false_iff.mp hnext), rfl⟩
      | true =>
          obtain ⟨after, hlead, rfl⟩ := nextElement_sound hnext
          obtain ⟨⟨x, left⟩, hx, h⟩ := bind_eq_ok_iff.mp h
          obtain ⟨⟨xs, left'⟩, hmore, hdone⟩ := bind_eq_ok_iff.mp h
          obtain ⟨rfl, rfl⟩ := Prod.mk.inj (Except.ok.inj hdone)
          obtain ⟨t, hahead, ht⟩ := hitem.sound _ _ _ hx
          obtain ⟨ts, hrun, hts⟩ := ih hmore
          refine ⟨t :: ts, run_cons_iff.mpr ⟨after, left, hlead, ?_, hrun⟩, ?_⟩
          · exact ahead_skipSpace_iff.mp hahead
          · exact mapM_cons_eq_some_iff.mpr ⟨x, xs, ht, hts, rfl⟩

theorem Follows.elements_complete
    (hitem : Follows bound item decode) {n : Nat} {first : Bool}
    {cs rest : List Char} {ts : List Tree} {xs : List α}
    (hrun : Run ']' (Ahead Spells) first cs ts rest)
    (hts : ts.mapM decode = some xs) (hn : cs.length ≤ n)
    (hbound : cs.length ≤ bound) :
    elements item n first cs = .ok (xs, rest) := by
  induction ts generalizing n first cs xs with
  | nil =>
      obtain ⟨b, hb, rfl⟩ := run_nil_iff.mp hrun
      obtain rfl : [] = xs := by simpa using hts
      obtain ⟨n, rfl⟩ : ∃ m, n = m + 1 := by
        refine Nat.exists_eq_succ_of_ne_zero ?_
        simp only [List.length_append, List.length_cons] at hn
        omega
      rw [elements]
      exact bind_eq_ok_iff.mpr
        ⟨_, nextElement_eq_false_iff.mpr ⟨b, hb, rfl⟩, rfl⟩
  | cons t ts ih =>
      obtain ⟨after, left, hlead, hahead, hmore⟩ := run_cons_iff.mp hrun
      obtain ⟨x, xs, hx, hxs, rfl⟩ := mapM_cons_eq_some_iff.mp hts
      have hafter := hlead.length_le
      have hleft := length_lt_of_ahead hahead
      obtain ⟨n, rfl⟩ : ∃ m, n = m + 1 :=
        Nat.exists_eq_succ_of_ne_zero (by omega)
      have hitemRead := hitem.complete _ _ _ _ (ahead_skipSpace_iff.mpr hahead)
        (hmore.endsNumeral endsNumeral_bracket)
        ((skipSpace_length_le after).trans (hafter.trans hbound)) hx
      have hmoreRead := ih hmore hxs (show left.length ≤ n by omega) (by omega)
      rw [elements]
      exact bind_eq_ok_iff.mpr ⟨_, nextElement_complete hlead hahead,
        bind_eq_ok_iff.mpr ⟨_, hitemRead,
          bind_eq_ok_iff.mpr ⟨_, hmoreRead, rfl⟩⟩⟩

end Elements

/-! ## Objects -/

/-- The reader of members takes a colon and a value, and goes on from one state
to the next as the step does with the value's tree. -/
structure StepFollows {σ : Type} (bound : Nat) (member : σ → String → Reader σ)
    (step : σ → String × Tree → Option σ) : Prop where
  sound (s s' : σ) (key : String) (cs rest : List Char) :
    member s key cs = .ok (s', rest) →
    ∃ b left t, Blank b ∧ cs = b ++ ':' :: left ∧ Ahead Spells left t rest ∧
      step s (key, t) = some s'
  complete (s s' : σ) (key : String) (b left : List Char) (t : Tree)
    (rest : List Char) : Blank b → Ahead Spells left t rest → EndsNumeral rest →
    left.length ≤ bound → step s (key, t) = some s' →
    member s key (b ++ ':' :: left) = .ok (s', rest)

theorem namedMembers_cons_eq_some_iff
    {key : List Piece} {t : Tree} {ms : List Member}
    {named : List (String × Tree)} :
    namedMembers (⟨key, t⟩ :: ms) = some named ↔
      ∃ name more, (spelled? key).map String.ofList = some name ∧
        namedMembers ms = some more ∧ (name, t) :: more = named := by
  unfold namedMembers
  rw [mapM_cons_eq_some_iff]
  constructor
  · rintro ⟨_, more, hkey, hmore, rfl⟩
    obtain ⟨chars, hchars, rfl⟩ := Option.map_eq_some_iff.mp hkey
    exact ⟨String.ofList chars, more, by rw [hchars]; rfl, hmore, rfl⟩
  · rintro ⟨name, more, hkey, hmore, rfl⟩
    obtain ⟨chars, hchars, rfl⟩ := Option.map_eq_some_iff.mp hkey
    exact ⟨_, more, by rw [hchars]; rfl, hmore, rfl⟩

section Members

variable {σ : Type} {bound : Nat} {member : σ → String → Reader σ}
    {step : σ → String × Tree → Option σ}

theorem StepFollows.members_sound (hstep : StepFollows bound member step)
    {n : Nat} {first : Bool} {s s' : σ} {cs rest : List Char}
    (h : members member n first s cs = .ok (s', rest)) :
    ∃ ms named, Run '\x7d' AheadMember first cs ms rest ∧
      namedMembers ms = some named ∧ named.foldlM step s = some s' := by
  induction n generalizing first s cs with
  | zero => cases h
  | succ n ih =>
      rw [members] at h
      obtain ⟨⟨key?, left⟩, hnext, h⟩ := bind_eq_ok_iff.mp h
      cases key? with
      | none =>
          obtain ⟨rfl, rfl⟩ := Prod.mk.inj (Except.ok.inj h)
          refine ⟨[], [], ?_, rfl, rfl⟩
          exact run_nil_iff.mpr (nextKey_eq_none_iff.mp hnext)
      | some key =>
          obtain ⟨⟨s₁, left'⟩, hmember, hmore⟩ := bind_eq_ok_iff.mp h
          obtain ⟨after, ps, hlead, hkey, hps⟩ := nextKey_eq_some_iff.mp hnext
          obtain ⟨b, left, t, hb, rfl, hvalue, hs₁⟩ :=
            hstep.sound _ _ _ _ _ hmember
          obtain ⟨ms, named, hrun, hnamed, hfold⟩ := ih hmore
          refine ⟨⟨ps, t⟩ :: ms, (key, t) :: named, ?_, ?_, ?_⟩
          · exact run_cons_iff.mpr
              ⟨after, left', hlead, ⟨b, left, hb, hkey, hvalue⟩, hrun⟩
          · exact namedMembers_cons_eq_some_iff.mpr
              ⟨key, named, hps, hnamed, rfl⟩
          · rw [List.foldlM_cons, hs₁]
            exact hfold

theorem StepFollows.members_complete
    (hstep : StepFollows bound member step) {n : Nat} {first : Bool} {s s' : σ}
    {cs rest : List Char} {ms : List Member} {named : List (String × Tree)}
    (hrun : Run '\x7d' AheadMember first cs ms rest)
    (hnamed : namedMembers ms = some named)
    (hfold : named.foldlM step s = some s') (hn : cs.length ≤ n)
    (hbound : cs.length ≤ bound) :
    members member n first s cs = .ok (s', rest) := by
  induction ms generalizing n first s cs named with
  | nil =>
      obtain ⟨b, hb, rfl⟩ := run_nil_iff.mp hrun
      obtain rfl : [] = named := by simpa [namedMembers] using hnamed
      obtain rfl : s = s' := by simpa using hfold
      obtain ⟨n, rfl⟩ : ∃ m, n = m + 1 := by
        refine Nat.exists_eq_succ_of_ne_zero ?_
        simp only [List.length_append, List.length_cons] at hn
        omega
      rw [members]
      exact bind_eq_ok_iff.mpr ⟨_, nextKey_eq_none_iff.mpr ⟨b, hb, rfl⟩, rfl⟩
  | cons m ms ih =>
      obtain ⟨ps, t⟩ := m
      obtain ⟨after, left, hlead, ⟨b, left', hb, hkey, hvalue⟩, hmore⟩ :=
        run_cons_iff.mp hrun
      obtain ⟨key, more, hps, hmoreNamed, rfl⟩ :=
        namedMembers_cons_eq_some_iff.mp hnamed
      rw [List.foldlM_cons] at hfold
      obtain ⟨s₁, hs₁, hfold⟩ := Option.bind_eq_some_iff.mp hfold
      have hafter := hlead.length_le
      have hcolon := (leads_ahead _).length_le hkey
      simp only [List.length_append, List.length_cons] at hcolon
      have hleft := length_lt_of_ahead hvalue
      obtain ⟨n, rfl⟩ : ∃ m, n = m + 1 :=
        Nat.exists_eq_succ_of_ne_zero (by omega)
      have hread := hstep.complete s s₁ key b left' t left hb hvalue
        (hmore.endsNumeral endsNumeral_brace) (by omega) hs₁
      have hmoreRead :=
        ih hmore hmoreNamed hfold (show left.length ≤ n by omega) (by omega)
      rw [members]
      exact bind_eq_ok_iff.mpr
        ⟨_, nextKey_eq_some_iff.mpr ⟨after, ps, hlead, hkey, hps⟩,
          bind_eq_ok_iff.mpr ⟨_, hread, hmoreRead⟩⟩

end Members

end NativeGlue.Raw
