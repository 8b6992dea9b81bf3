import NativeGlue.Json.Walk
import NativeGlue.Raw.Record

/-!
# Reading schema text

One pass over the text reads a value of a declared shape, and the first fault in
text order is the result.  A record is an object, or a list of its fields in
declaration order.  Every bracket that is opened for a declared shape takes one
of a limited number of levels; what is skipped takes none.
-/

namespace NativeGlue.Raw

open Json

/-- How values of every shape are read inside an opened bracket. -/
abbrev Inner := (s : Shape) → Reader s.Val

/-- Reads the value of a field. -/
def Field.read (inner : Inner) : (f : Field) → Reader f.Val
  | ⟨_, s, .required⟩ => inner s
  | ⟨_, s, .defaulted⟩ => inner s
  | ⟨_, s, .optional⟩ => readNullable (inner s)
  | ⟨_, s, .omissible⟩ => readNullable (inner s)

/-- The values of several fields as far as they have been read. -/
def Slots : List Field → Type
  | [] => Unit
  | f :: fs => Option f.Val × Slots fs

namespace Slots

/-- No field has been read. -/
def empty : (fs : List Field) → Slots fs
  | [] => ()
  | _ :: fs => (none, empty fs)

/-- Reads the member with a given key into its slot.  A key that no field has is
skipped with its value, a key whose slot is taken is refused. -/
def read (bound : Nat) (inner : Inner) :
    (fs : List Field) → Slots fs → String → Reader (Slots fs)
  | [], slots, _ => fun cs => do
    let rest ← colon cs
    let rest ← skipValue bound rest
    return (slots, rest)
  | f :: fs, (slot, slots), key => fun cs =>
    if key = f.key then
      match slot with
      | some _ => .error (.duplicateField f.key)
      | none => do
        let rest ← colon cs
        let (value, rest) ← f.read inner rest
        return ((some value, slots), rest)
    else do
      let (slots, rest) ← read bound inner fs slots key cs
      return ((slot, slots), rest)

/-- The values of the fields when the object ends. -/
def close : (fs : List Field) → Slots fs → Except Fault (Row fs)
  | [], () => .ok ()
  | f :: fs, (slot, slots) =>
    match slot <|> f.missing? with
    | none => .error (.missingField f.key)
    | some value => do
      let row ← close fs slots
      return (value, row)

end Slots

/-- The values of the fields from index `index` on when a list of fields ends
there. -/
def omittedRow (r : Record) : (fs : List Field) → Nat → Except Fault (Row fs)
  | [], _ => .ok ()
  | f :: fs, index =>
    match f.omitted? with
    | none => .error (.wrongLength index r.name r.fields.length)
    | some value => do
      let row ← omittedRow r fs (index + 1)
      return (value, row)

/-- Reads the fields of a record from index `index` on, from a list. -/
def readRow (inner : Inner) (r : Record) :
    (fs : List Field) → Nat → Reader (Row fs)
  | [], _ => fun cs => do
    let rest ← listEnd cs
    return ((), rest)
  | f :: fs, index => fun cs => do
    let (more, rest) ← nextElement (index == 0) cs
    if more then
      let (value, rest) ← f.read inner rest
      let (row, rest) ← readRow inner r fs (index + 1) rest
      return ((value, row), rest)
    else
      let row ← omittedRow r (f :: fs) index
      return (row, rest)

/-- Reads the members of a table. -/
def readEntry (inner : Inner) (r : Record) (t : Table r.Val) (key : String) :
    Reader (Table r.Val) := fun cs => do
  let rest ← colon cs
  let (value, rest) ← inner (.record r) rest
  return (t.insert key value, rest)

/-- Reads a value of a shape, given how values inside its bracket are read, or
why no bracket may be opened.  The bound is one on the number of characters
left. -/
def Shape.readWith (bound : Nat) (inner : Except Fault Inner) :
    (s : Shape) → Reader s.Val
  | .text => readText
  | .flag => readFlag
  | .list r => startingWith '[' .list fun cs => do
    let inner ← inner
    elements (inner (.record r)) bound true cs
  | .table r => startingWith '\x7b' .object fun cs => do
    let inner ← inner
    members (readEntry inner r) bound true Table.empty cs
  | .record r => fun cs =>
    match skipSpace cs with
    | '[' :: rest => do
      let inner ← inner
      let (row, rest) ← readRow inner r r.fields 0 rest
      return (r.ofRow row, rest)
    | '\x7b' :: rest => do
      let inner ← inner
      let (slots, rest) ← members (Slots.read bound inner r.fields) bound true
        (Slots.empty r.fields) rest
      let row ← Slots.close r.fields slots
      return (r.ofRow row, rest)
    | rest => .error (mismatch (.record r.name) rest)

/-- Reads a value of a shape with at most `levels` brackets open.  The bound is
one on the number of characters left. -/
def Shape.read (bound : Nat) : (levels : Nat) → Inner
  | 0 => Shape.readWith bound (.error .tooDeep)
  | levels + 1 => Shape.readWith bound (.ok (Shape.read bound levels))

/-- The number of brackets that may be open. -/
def maxLevels : Nat := 127

/-- The value of a shape that a whole text gives. -/
def Shape.parse (s : Shape) (text : String) : Except Fault s.Val := do
  let cs := text.toList
  let (value, rest) ← Shape.read cs.length maxLevels s cs
  if (skipSpace rest).isEmpty then return value else throw .trailingCharacters

/-- The raw schema that a text gives. -/
def Schema.parse (text : String) : Except Fault Schema :=
  Shape.parse (.record .schema) text

/-- The raw type that a text gives. -/
def TypeExpr.parse (text : String) : Except Fault TypeExpr :=
  Shape.parse (.record .typeExpr) text

end NativeGlue.Raw
