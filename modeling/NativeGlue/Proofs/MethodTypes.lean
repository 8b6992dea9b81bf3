import Mathlib.Data.List.Basic

/-!
# Method types of the virtual machine

The virtual machine has a grammar for the types of methods.  It is stated here
without regard to what is generated, together with a reader that goes through a
text from left to right.  The reader accepts exactly the texts of the grammar,
so a text spells one method type at most.
-/

namespace NativeGlue.Jvm

/-! ## Grammar -/

/-- The characters that no name of a package or class contains. -/
def nameBreaks : List Char := ['.', ';', '[', '/']

/-- Names of packages and of a class, with slashes between them. -/
def IsClassName (cs : List Char) : Prop :=
  ∃ parts : List (List Char), parts ≠ [] ∧
    (∀ part ∈ parts, part ≠ [] ∧ ∀ c ∈ part, c ∉ nameBreaks) ∧
    cs = ['/'].intercalate parts

/-- The type of a value. -/
inductive FieldType where
  | double
  | boolean
  | object (className : List Char)
deriving Repr, DecidableEq

/-- The type of a method; one that returns nothing has no result. -/
structure MethodType where
  params : List FieldType
  result : Option FieldType
deriving Repr, DecidableEq

inductive SpellsField : List Char → FieldType → Prop where
  | double : SpellsField ['D'] .double
  | boolean : SpellsField ['Z'] .boolean
  | object {name : List Char} (hname : IsClassName name) :
      SpellsField ('L' :: (name ++ [';'])) (.object name)

inductive SpellsFields : List Char → List FieldType → Prop where
  | nil : SpellsFields [] []
  | cons {cs rest : List Char} {t : FieldType} {ts : List FieldType}
      (ht : SpellsField cs t) (hts : SpellsFields rest ts) :
      SpellsFields (cs ++ rest) (t :: ts)

inductive SpellsResult : List Char → Option FieldType → Prop where
  | void : SpellsResult ['V'] none
  | field {cs : List Char} {t : FieldType} (ht : SpellsField cs t) :
      SpellsResult cs (some t)

/-- The parameters in parentheses, then the result. -/
inductive SpellsMethod : List Char → MethodType → Prop where
  | mk {cs rs : List Char} {params : List FieldType} {result : Option FieldType}
      (hparams : SpellsFields cs params) (hresult : SpellsResult rs result) :
      SpellsMethod ('(' :: (cs ++ ')' :: rs)) ⟨params, result⟩

/-! ## Class names -/

def isClassName (cs : List Char) : Bool :=
  (cs.splitOn '/').all fun part => !part.isEmpty && part.all (· ∉ nameBreaks)

theorem isClassName_iff {cs : List Char} :
    isClassName cs = true ↔ IsClassName cs := by
  have hparts : ∀ parts : List (List Char),
      (parts.all fun part => !part.isEmpty && part.all (· ∉ nameBreaks)) =
          true ↔
        ∀ part ∈ parts, part ≠ [] ∧ ∀ c ∈ part, c ∉ nameBreaks := by
    intro parts
    simp [List.all_eq_true]
  rw [isClassName, hparts]
  constructor
  · intro hall
    exact ⟨cs.splitOn '/', List.splitOnP_ne_nil _ _, hall,
      (List.intercalate_splitOn '/').symm⟩
  · rintro ⟨parts, hne, hall, rfl⟩
    have hslash : ∀ part ∈ parts, '/' ∉ part :=
      fun part hpart hmem => (hall part hpart).2 '/' hmem (by decide)
    rw [List.splitOn_intercalate '/' hslash hne]
    exact hall

theorem IsClassName.notMem_semicolon
    {name : List Char} (hname : IsClassName name) :
    ';' ∉ name := by
  obtain ⟨parts, -, hall, rfl⟩ := hname
  have hparts : ∀ part ∈ parts, ';' ∉ part :=
    fun part hpart hmem => (hall part hpart).2 ';' hmem (by decide)
  clear hall
  induction parts with
  | nil => simp
  | cons part parts ih =>
      rw [List.forall_mem_cons] at hparts
      cases parts with
      | nil => simpa using hparts.1
      | cons part' parts =>
          have hrest := ih hparts.2
          rw [List.intercalate_cons_cons]
          simp [hparts.1, hrest]

/-! ## Reading one type -/

/-- The class name that a text starts with, up to its semicolon, and what
follows it. -/
def readClassName (cs : List Char) : Option (List Char × List Char) :=
  match cs.dropWhile (· ≠ ';') with
  | ';' :: rest =>
    if isClassName (cs.takeWhile (· ≠ ';')) then
      some (cs.takeWhile (· ≠ ';'), rest)
    else none
  | _ => none

/-- The type that a text starts with, and what follows it. -/
def readField : List Char → Option (FieldType × List Char)
  | 'D' :: rest => some (.double, rest)
  | 'Z' :: rest => some (.boolean, rest)
  | 'L' :: rest => (readClassName rest).map fun r => (.object r.1, r.2)
  | _ => none

theorem readClassName_eq_some_iff
    {cs name rest : List Char} :
    readClassName cs = some (name, rest) ↔
      IsClassName name ∧ cs = name ++ ';' :: rest := by
  constructor
  · intro h
    have hcs : cs.takeWhile (· ≠ ';') ++ cs.dropWhile (· ≠ ';') = cs :=
      List.takeWhile_append_dropWhile
    unfold readClassName at h
    split at h
    · rename_i after hafter
      split at h
      · rename_i hname
        cases h
        rw [hafter] at hcs
        exact ⟨isClassName_iff.mp hname, hcs.symm⟩
      · cases h
    · cases h
  · rintro ⟨hname, rfl⟩
    have hbefore : ∀ c ∈ name, decide (c ≠ ';') = true := by
      intro c hc
      exact decide_eq_true fun hsemicolon =>
        hname.notMem_semicolon (hsemicolon ▸ hc)
    unfold readClassName
    rw [List.dropWhile_append_of_pos hbefore,
      List.takeWhile_append_of_pos hbefore]
    simp [isClassName_iff.mpr hname]

theorem readField_sound
    {cs rest : List Char} {t : FieldType} (h : readField cs = some (t, rest)) :
    ∃ front, SpellsField front t ∧ cs = front ++ rest := by
  unfold readField at h
  split at h
  · cases h
    exact ⟨['D'], .double, rfl⟩
  · cases h
    exact ⟨['Z'], .boolean, rfl⟩
  · obtain ⟨r, hr, heq⟩ := Option.map_eq_some_iff.mp h
    cases heq
    obtain ⟨hname, rfl⟩ := readClassName_eq_some_iff.mp hr
    exact ⟨_, .object hname, by simp⟩
  · cases h

theorem readField_append
    {front : List Char} {t : FieldType} (hfront : SpellsField front t)
    (rest : List Char) :
    readField (front ++ rest) = some (t, rest) := by
  cases hfront with
  | double => rfl
  | boolean => rfl
  | @object name hname =>
      have hread : readClassName (name ++ ';' :: rest) = some (name, rest) :=
        readClassName_eq_some_iff.mpr ⟨hname, rfl⟩
      rw [List.cons_append, List.append_assoc, List.singleton_append,
        readField, hread]
      rfl

theorem SpellsField.length_pos
    {cs : List Char} {t : FieldType} (h : SpellsField cs t) :
    0 < cs.length := by
  cases h <;> simp

theorem length_lt_of_readField
    {cs rest : List Char} {t : FieldType} (h : readField cs = some (t, rest)) :
    rest.length < cs.length := by
  obtain ⟨front, hfront, rfl⟩ := readField_sound h
  have hpos := hfront.length_pos
  rw [List.length_append]
  omega

/-! ## Reading a method type -/

/-- The types that a text starts with, as many as there are, and what follows
them. -/
def readFields (cs : List Char) : List FieldType × List Char :=
  match h : readField cs with
  | none => ([], cs)
  | some (t, rest) =>
    have := length_lt_of_readField h
    (t :: (readFields rest).1, (readFields rest).2)
termination_by cs.length

/-- The result that a text is. -/
def readResult (cs : List Char) : Option (Option FieldType) :=
  if cs = ['V'] then some none
  else
    match readField cs with
    | some (t, []) => some (some t)
    | _ => none

/-- The method type that a text is. -/
def readMethod : List Char → Option MethodType
  | '(' :: cs =>
    match (readFields cs).2 with
    | ')' :: rs => (readResult rs).map (MethodType.mk (readFields cs).1)
    | _ => none
  | _ => none

theorem readFields_spec (cs : List Char) :
    ∃ front, SpellsFields front (readFields cs).1 ∧
      cs = front ++ (readFields cs).2 := by
  fun_induction readFields cs with
  | case1 cs hnone => exact ⟨[], .nil, rfl⟩
  | case2 cs t rest hsome _ ih =>
      obtain ⟨front, hfront, rfl⟩ := readField_sound hsome
      obtain ⟨next, hnext, hrest⟩ := ih
      exact ⟨front ++ next, .cons hfront hnext, by
        rw [List.append_assoc, ← hrest]⟩

/-- Reading goes on exactly as long as there are types to read. -/
theorem readFields_append
    {front rest : List Char} {ts : List FieldType}
    (hfront : SpellsFields front ts) (hrest : readField rest = none) :
    readFields (front ++ rest) = (ts, rest) := by
  induction hfront with
  | nil =>
      rw [List.nil_append, readFields]
      split
      · rfl
      · rename_i hsome
        rw [hrest] at hsome
        cases hsome
  | @cons cs next t ts ht _ ih =>
      have hread := readField_append ht (next ++ rest)
      rw [List.append_assoc, readFields]
      split
      · rename_i hnone
        rw [hread] at hnone
        cases hnone
      · rename_i t' rest' hsome
        rw [hread] at hsome
        cases hsome
        rw [ih]

theorem readResult_eq_some_iff
    {cs : List Char} {result : Option FieldType} :
    readResult cs = some result ↔ SpellsResult cs result := by
  constructor
  · intro h
    unfold readResult at h
    split at h
    · rename_i hvoid
      cases h
      rw [hvoid]
      exact .void
    · split at h
      · rename_i t hread
        cases h
        obtain ⟨front, hfront, rfl⟩ := readField_sound hread
        rw [List.append_nil]
        exact .field hfront
      · cases h
  · intro h
    cases h with
    | void => rfl
    | @field _ t ht =>
        have hread := readField_append ht []
        rw [List.append_nil] at hread
        have hvoid : cs ≠ ['V'] := by
          rintro rfl
          cases hread
        rw [readResult, if_neg hvoid, hread]

/-- The reader accepts the texts of the grammar, and only those. -/
theorem readMethod_eq_some_iff
    {cs : List Char} {type : MethodType} :
    readMethod cs = some type ↔ SpellsMethod cs type := by
  constructor
  · intro h
    unfold readMethod at h
    split at h
    · rename_i body
      split at h
      · rename_i rs hrs
        obtain ⟨result, hresult, rfl⟩ := Option.map_eq_some_iff.mp h
        obtain ⟨front, hfront, hbody⟩ := readFields_spec body
        have hmethod :=
          SpellsMethod.mk hfront (readResult_eq_some_iff.mp hresult)
        rw [hrs] at hbody
        rwa [← hbody] at hmethod
      · cases h
    · cases h
  · intro h
    cases h with
    | @mk body rs params result hparams hresult =>
        have hread : readFields (body ++ ')' :: rs) = (params, ')' :: rs) :=
          readFields_append hparams rfl
        rw [readMethod, hread]
        simp only [readResult_eq_some_iff.mpr hresult, Option.map_some]

/-- A text spells one method type at most. -/
theorem SpellsMethod.unique
    {cs : List Char} {type type' : MethodType} (h : SpellsMethod cs type)
    (h' : SpellsMethod cs type') :
    type = type' := by
  rw [← readMethod_eq_some_iff] at h h'
  exact Option.some.inj (h.symm.trans h')

end NativeGlue.Jvm
