import Mathlib.Data.List.Basic

/-!
# Texts that show where their parts end

Rendering writes names next to fixed text.  A part can be told from what
follows it when it lacks the character that the fixed text starts with, or when
it is the only open part of its line.  This module collects such facts for
texts, and the notion of a delimited code: what is written for a value can be
read off without knowing where it ends.
-/

namespace NativeGlue

/-! ## Characters that a text lacks -/

/-- A character does not occur in a text. -/
def Lacks (c : Char) (s : String) : Prop := c ∉ s.toList

section Lacks

variable {c : Char} {s t : String}

@[simp] theorem lacks_append_iff :
    Lacks c (s ++ t) ↔ Lacks c s ∧ Lacks c t := by
  simp [Lacks]

@[simp] theorem lacks_join_iff {ss : List String} :
    Lacks c (String.join ss) ↔ ∀ s ∈ ss, Lacks c s := by
  simp [Lacks]

theorem lacks_toString (hc : c.isDigit = false) (n : Nat) :
    Lacks c (toString n) := by
  intro hmem
  have hdigits : (toString n).toList = Nat.toDigits 10 n := Nat.toList_repr
  rw [hdigits] at hmem
  rw [Nat.isDigit_of_mem_toDigits (by decide) (by decide) hmem] at hc
  cases hc

theorem lacks_intercalate {ss : List String} (ht : Lacks c t)
    (hss : ∀ s ∈ ss, Lacks c s) : Lacks c (String.intercalate t ss) := by
  induction ss with
  | nil => simp [Lacks]
  | cons s ss ih =>
      rw [List.forall_mem_cons] at hss
      cases ss with
      | nil => simpa using hss.1
      | cons s' ss =>
          rw [String.intercalate_cons_cons, lacks_append_iff, lacks_append_iff]
          exact ⟨⟨hss.1, ht⟩, ih hss.2⟩

/-- A written-out text lacks what its characters are not.  The characters are
found by `rfl`, which spells the text out without decoding it. -/
theorem lacks_ofList
    {cs : List Char} (hs : s = String.ofList cs) (hc : c ∉ cs) :
    Lacks c s := by
  rw [Lacks, hs, String.toList_ofList]
  exact hc

end Lacks

/-! ## Taking texts apart -/

/-- There is one way to cut a list at the first occurrence of an entry. -/
theorem cut_inj_of_notMem
    {σ : Type} {c : σ} {xs ys rest rest' : List σ} (hxs : c ∉ xs) (hys : c ∉ ys)
    (h : xs ++ c :: rest = ys ++ c :: rest') :
    xs = ys ∧ rest = rest' := by
  induction xs generalizing ys with
  | nil =>
      cases ys with
      | nil => exact ⟨rfl, (List.cons.inj h).2⟩
      | cons y ys =>
          exact absurd (List.cons.inj h).1 (fun hy => hys (by simp [hy]))
  | cons x xs ih =>
      cases ys with
      | nil => exact absurd (List.cons.inj h).1 (fun hx => hxs (by simp [hx]))
      | cons y ys =>
          obtain ⟨rfl, htail⟩ := List.cons.inj h
          obtain ⟨rfl, hrest⟩ := ih (fun hx => hxs (List.mem_cons_of_mem _ hx))
            (fun hy => hys (List.mem_cons_of_mem _ hy)) htail
          exact ⟨rfl, hrest⟩

/-- A text ends where a separator begins if it lacks the first character of the
separator. -/
theorem Lacks.append_separator_inj
    {c : Char} {cs : List Char} {separator s s' rest rest' : String}
    (hs : Lacks c s) (hs' : Lacks c s')
    (hseparator : separator = String.ofList (c :: cs))
    (h : s ++ (separator ++ rest) = s' ++ (separator ++ rest')) :
    s = s' ∧ rest = rest' := by
  have hlist := congrArg String.toList h
  simp only [String.toList_append, hseparator, String.toList_ofList,
    List.cons_append] at hlist
  obtain ⟨hfront, hback⟩ := cut_inj_of_notMem hs hs' hlist
  exact ⟨String.toList_inj.mp hfront,
    String.toList_inj.mp (List.append_cancel_left hback)⟩

/-- A text that is written twice, around a separator, can be read off. -/
theorem append_separator_self_inj
    (separator : String) {s t : String}
    (h : s ++ (separator ++ s) = t ++ (separator ++ t)) :
    s = t := by
  have hlist := congrArg String.toList h
  simp only [String.toList_append] at hlist
  have hlength := congrArg List.length hlist
  simp only [List.length_append] at hlength
  exact String.toList_inj.mp (List.append_inj hlist (by omega)).1

/-- Texts with openings of which neither starts with the other are different. -/
theorem append_ne_append
    {p q : String} {ps qs : List Char} (hp : p = String.ofList ps)
    (hq : q = String.ofList qs) (hpq : ¬ps <+: qs) (hqp : ¬qs <+: ps)
    (s t : String) :
    p ++ s ≠ q ++ t := by
  intro h
  have hlist := congrArg String.toList h
  simp only [String.toList_append, hp, hq, String.toList_ofList] at hlist
  rcases List.append_eq_append_iff.mp hlist with ⟨gap, hqs, -⟩ | ⟨gap, hps, -⟩
  · exact hpq ⟨gap, hqs.symm⟩
  · exact hqp ⟨gap, hps.symm⟩

/-- A number can be read back from its decimal digits. -/
theorem toString_nat_inj {m n : Nat} (h : toString m = toString n) : m = n := by
  rw [Nat.toString_eq_ofList_toDigits, Nat.toString_eq_ofList_toDigits] at h
  have hdigits := congrArg (Nat.ofDigitChars 10 · 0) (String.ofList_injective h)
  simpa only [Nat.ofDigitChars_toDigits (by decide : 1 < 10) (by decide)]
    using hdigits

/-! ## Delimited codes -/

variable {α β σ : Type}

/-- What is written for a value shows where it ends and what `view` says of the
value, whatever is written after it. -/
def Delimited (P : α → Prop) (view : α → β) (code : α → List σ) : Prop :=
  ∀ a b, P a → P b → ∀ rest rest', code a ++ rest = code b ++ rest' →
    view a = view b ∧ rest = rest'

namespace Delimited

variable {P : α → Prop} {view : α → β} {code : α → List σ}

/-- Values that are written one after the other show all of them, up to an end
with which no value can begin. -/
theorem flatMap_append_inj
    (hcode : Delimited P view code) {as bs : List α} {ending ending' : List σ}
    (has : ∀ a ∈ as, P a) (hbs : ∀ b ∈ bs, P b)
    (hending : ∀ a, P a → ∀ rest, code a ++ rest ≠ ending)
    (hending' : ∀ a, P a → ∀ rest, code a ++ rest ≠ ending')
    (h : as.flatMap code ++ ending = bs.flatMap code ++ ending') :
    as.map view = bs.map view ∧ ending = ending' := by
  induction as generalizing bs with
  | nil =>
      cases bs with
      | nil => exact ⟨rfl, h⟩
      | cons b bs =>
          rw [List.flatMap_cons, List.append_assoc] at h
          exact absurd h.symm (hending b (hbs b (by simp)) _)
  | cons a as ih =>
      rw [List.flatMap_cons, List.append_assoc] at h
      cases bs with
      | nil => exact absurd h (hending' a (has a (by simp)) _)
      | cons b bs =>
          rw [List.flatMap_cons, List.append_assoc] at h
          rw [List.forall_mem_cons] at has hbs
          obtain ⟨hview, hrest⟩ := hcode a b has.1 hbs.1 _ _ h
          obtain ⟨hviews, htail⟩ := ih has.2 hbs.2 hrest
          exact ⟨by rw [List.map_cons, List.map_cons, hview, hviews], htail⟩

end Delimited

/-! ## Lines -/

/-- A text of lines that lack a line feed shows its lines. -/
theorem lines_inj
    {ls ls' : List String} (hls : ∀ l ∈ ls, Lacks '\n' l)
    (hls' : ∀ l ∈ ls', Lacks '\n' l)
    (h : String.join (ls.map (· ++ "\n")) = String.join (ls'.map (· ++ "\n"))) :
    ls = ls' := by
  have hcode :
      Delimited (Lacks '\n') id (fun l : String => l.toList ++ ['\n']) := by
    intro l l' hl hl' rest rest' heq
    simp only [List.append_assoc, List.singleton_append] at heq
    obtain ⟨hline, hrest⟩ := cut_inj_of_notMem hl hl' heq
    exact ⟨String.toList_inj.mp hline, hrest⟩
  have hfeed : "\n".toList = ['\n'] := String.toList_ofList
  have htext := congrArg String.toList h
  simp only [String.toList_join, List.flatMap_map, String.toList_append, hfeed]
    at htext
  have hviews := hcode.flatMap_append_inj hls hls' (by simp) (by simp)
    (congrArg (· ++ []) htext)
  simpa using hviews.1

end NativeGlue
