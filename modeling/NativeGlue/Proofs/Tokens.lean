import NativeGlue.Bridge.Descriptor
import NativeGlue.Proofs.Text.Delimited

/-!
# Descriptors from their texts

The tokens of a descriptor are written with nothing between them.  They can be
told apart all the same: a token is one letter, or it starts with `L` and ends
with the only semicolon in it.
-/

namespace NativeGlue.Bridge

@[simp] theorem Token.ofText?_text (t : Token) :
    Token.ofText? t.text = some t := by
  cases t <;> decide +kernel

theorem Token.text_injective : Function.Injective Token.text := by
  intro s t h
  have htext := Token.ofText?_text s
  rw [h, Token.ofText?_text] at htext
  exact (Option.some.inj htext).symm

/-- The characters of a token: one letter, or a name of the native interface. -/
inductive TokenChars : List Char → Prop where
  | letter {c : Char} (hc : c ∈ ['V', 'D', 'Z']) : TokenChars [c]
  | name {cs : List Char} (hcs : ';' ∉ cs) : TokenChars ('L' :: cs ++ [';'])

theorem tokenChars_of_ofList
    {s : String} {cs : List Char} (hs : s = String.ofList ('L' :: cs))
    (hlast : cs.getLast? = some ';') (hcs : ';' ∉ cs.dropLast) :
    TokenChars s.toList := by
  obtain ⟨name, rfl⟩ := List.getLast?_eq_some_iff.mp hlast
  rw [hs, String.toList_ofList]
  rw [List.dropLast_concat] at hcs
  exact .name hcs

theorem tokenChars_text (t : Token) : TokenChars t.text.toList := by
  have hletter :
      ∀ c ∈ ['V', 'D', 'Z'], TokenChars (String.ofList [c]).toList := by
    intro c hc
    rw [String.toList_ofList]
    exact .letter hc
  cases t with
  | void => exact hletter 'V' (by decide)
  | double => exact hletter 'D' (by decide)
  | boolean => exact hletter 'Z' (by decide)
  | boxedDouble | boxedBoolean | string | readableMap | writableMap
  | readableArray | writableArray | callback | promise | map =>
      exact tokenChars_of_ofList rfl (by decide) (by decide)

theorem TokenChars.append_inj
    {xs ys rest rest' : List Char} (hxs : TokenChars xs) (hys : TokenChars ys)
    (h : xs ++ rest = ys ++ rest') :
    xs = ys ∧ rest = rest' := by
  cases hxs with
  | letter hc =>
      cases hys with
      | letter hd => exact List.append_inj h rfl
      | name hds =>
          obtain rfl := (List.cons.inj h).1
          exact absurd hc (by decide)
  | name hcs =>
      cases hys with
      | letter hd =>
          obtain rfl := (List.cons.inj h).1
          exact absurd hd (by decide)
      | name hds =>
          simp only [List.cons_append, List.append_assoc, List.nil_append,
            List.cons.injEq, true_and] at h
          obtain ⟨rfl, hrest⟩ := cut_inj_of_notMem hcs hds h
          exact ⟨rfl, hrest⟩

/-- Tokens need nothing between them. -/
theorem delimited_token :
    Delimited (fun _ : Token => True) id (fun t => t.text.toList) := by
  intro s t _ _ rest rest' h
  obtain ⟨hst, hrest⟩ := (tokenChars_text s).append_inj (tokenChars_text t) h
  exact ⟨Token.text_injective (String.toList_inj.mp hst), hrest⟩

theorem text_append_ne_paren (t : Token) (rest rest' : List Char) :
    t.text.toList ++ rest ≠ ')' :: rest' := by
  intro h
  have hchars := tokenChars_text t
  cases ht : t.text.toList with
  | nil =>
      rw [ht] at hchars
      cases hchars
  | cons c cs =>
      rw [ht] at hchars h
      obtain rfl := (List.cons.inj h).1
      cases hchars with
      | letter hc => exact absurd hc (by decide)

theorem Descriptor.toList_text (d : Descriptor) :
    d.text.toList =
      '(' :: (d.params.flatMap (·.text.toList) ++
        ')' :: d.result.text.toList) := by
  have hopen : "(".toList = ['('] := String.toList_ofList
  have hclose : ")".toList = [')'] := String.toList_ofList
  unfold Descriptor.text
  simp only [String.toList_append, String.toList_join, List.flatMap_map, hopen,
    hclose, List.cons_append, List.nil_append, List.append_assoc]

/-- The text of a descriptor shows its parameters and its result. -/
theorem Descriptor.text_inj
    {d d' : Descriptor} (h : d.text = d'.text) :
    d.params = d'.params ∧ d.result = d'.result := by
  have hlist := congrArg String.toList h
  rw [Descriptor.toList_text, Descriptor.toList_text] at hlist
  obtain ⟨hparams, htail⟩ := delimited_token.flatMap_append_inj
    (by simp) (by simp) (fun t _ rest => text_append_ne_paren t rest _)
    (fun t _ rest => text_append_ne_paren t rest _) (List.cons.inj hlist).2
  have hresult := String.toList_inj.mp (List.cons.inj htail).2
  exact ⟨by simpa using hparams, Token.text_injective hresult⟩

end NativeGlue.Bridge
