import NativeGlue.Json.Tree
import NativeGlue.Raw.Record

/-!
# Decoding syntax trees

The values that syntax trees stand for, shape by shape: the definition of the
schema format without regard to the order of its text.  An object read as a
record may have other keys, and each of its own keys at most once; an object
read as a table may repeat a key, and the last value counts.
-/

namespace NativeGlue.Raw

open Json (Tree Member)

/-- How trees of every shape are decoded inside a bracket. -/
abbrev InnerDecoder := (s : Shape) → Tree → Option s.Val

/-- A value that may be null. -/
def decodeNullable {α : Type} (inner : Tree → Option α) :
    Tree → Option (Option α)
  | .null => some none
  | t => (inner t).map some

/-- The value of a field. -/
def Field.decode (inner : InnerDecoder) : (f : Field) → Tree → Option f.Val
  | ⟨_, s, .required⟩ => inner s
  | ⟨_, s, .defaulted⟩ => inner s
  | ⟨_, s, .optional⟩ => decodeNullable (inner s)
  | ⟨_, s, .omissible⟩ => decodeNullable (inner s)

/-- The members of an object whose keys are all texts. -/
def namedMembers (members : List Member) : Option (List (String × Tree)) :=
  members.mapM fun m =>
    (Json.spelled? m.key).map fun key => (String.ofList key, m.value)

/-- The value of a field among the members of an object. -/
def Field.decodeAmong
    (inner : InnerDecoder) (f : Field) (members : List (String × Tree)) :
    Option f.Val :=
  match members.filter (·.1 = f.key) with
  | [] => f.missing?
  | [m] => f.decode inner m.2
  | _ => none

/-- The values of fields from the members of an object. -/
def rowOfMembers (inner : InnerDecoder) (members : List (String × Tree)) :
    (fs : List Field) → Option (Row fs)
  | [] => some ()
  | f :: fs => do
    let value ← f.decodeAmong inner members
    let row ← rowOfMembers inner members fs
    return (value, row)

/-- The values of fields from the items of a list. -/
def rowOfItems (inner : InnerDecoder) :
    (fs : List Field) → List Tree → Option (Row fs)
  | [], [] => some ()
  | [], _ :: _ => none
  | f :: fs, [] => do
    let value ← f.omitted?
    let row ← rowOfItems inner fs []
    return (value, row)
  | f :: fs, t :: ts => do
    let value ← f.decode inner t
    let row ← rowOfItems inner fs ts
    return (value, row)

/-- The value of a shape, given how trees inside its bracket are decoded, if a
bracket may be opened. -/
def Shape.decodeWith (inner : Option InnerDecoder) :
    (s : Shape) → Tree → Option s.Val
  | .text, .string pieces => (Json.spelled? pieces).map String.ofList
  | .flag, .boolean b => some b
  | .list r, .list items => do
    let inner ← inner
    items.mapM (inner (.record r))
  | .table r, .object members => do
    let inner ← inner
    let members ← namedMembers members
    let entries ← members.mapM fun m =>
      (inner (.record r) m.2).map fun value => (m.1, value)
    return (Table.ofList entries : Table r.Val)
  | .record r, .list items => do
    let inner ← inner
    let row ← rowOfItems inner r.fields items
    return r.ofRow row
  | .record r, .object members => do
    let inner ← inner
    let members ← namedMembers members
    let row ← rowOfMembers inner members r.fields
    return r.ofRow row
  | _, _ => none

/-- The value of a shape in which at most `levels` brackets are nested. -/
def Shape.decode : (levels : Nat) → InnerDecoder
  | 0 => Shape.decodeWith none
  | levels + 1 => Shape.decodeWith (some (Shape.decode levels))

end NativeGlue.Raw
