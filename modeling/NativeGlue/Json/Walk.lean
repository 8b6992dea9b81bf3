import NativeGlue.Json.Number
import NativeGlue.Json.Value

/-!
# Walking through lists and objects

The steps of a reader that keeps what it reads: where the next element or key
stands, how a list or an object goes on, and which fault it is when a value of
one kind stands where another is wanted.

The loops follow a bound on the number of characters left: every round takes at
least one, so at zero the text has ended.  The length of the whole text is such
a bound.
-/

namespace NativeGlue.Json

/-- Which fault it is that a wanted value is not there.  A scalar is read to its
end first, so that its own faults win. -/
def mismatch (wanted : Wanted) (cs : List Char) : Fault :=
  let ofFound : Except Fault Found → Fault
    | .ok found => .wrongType found wanted
    | .error fault => fault
  match skipSpace cs with
  | [] => .endInValue
  | 'n' :: rest => ofFound ((literal ['u', 'l', 'l'] rest).map fun _ => .null)
  | 't' :: rest =>
    ofFound ((literal ['r', 'u', 'e'] rest).map fun _ => .boolean true)
  | 'f' :: rest =>
    ofFound ((literal ['a', 'l', 's', 'e'] rest).map fun _ => .boolean false)
  | '"' :: rest => ofFound ((string rest).map fun read => .text read.1)
  | '[' :: _ => .wrongType .list wanted
  | '\x7b' :: _ => .wrongType .object wanted
  | c :: rest =>
    if c = '-' ∨ isDigit c then ofFound (foundNumber (c :: rest))
    else .expectedValue

/-- A value of the only kind that starts with a given character, which may
follow blanks; `body` reads what comes after the character. -/
def startingWith {α : Type} (start : Char) (wanted : Wanted) (body : Reader α) :
    Reader α := fun cs =>
  match skipSpace cs with
  | [] => .error (mismatch wanted [])
  | c :: rest =>
    if c = start then body rest else .error (mismatch wanted (c :: rest))

/-- A string. -/
def readText : Reader String := startingWith '"' .text string

/-- A boolean. -/
def readFlag : Reader Bool := fun cs =>
  match skipSpace cs with
  | 't' :: rest => do
    let rest ← literal ['r', 'u', 'e'] rest
    return (true, rest)
  | 'f' :: rest => do
    let rest ← literal ['a', 'l', 's', 'e'] rest
    return (false, rest)
  | rest => .error (mismatch .boolean rest)

/-- A value that may be null. -/
def readNullable {α : Type} (inner : Reader α) : Reader (Option α) := fun cs =>
  match skipSpace cs with
  | 'n' :: rest => do
    let rest ← literal ['u', 'l', 'l'] rest
    return (none, rest)
  | rest => do
    let (value, rest) ← inner rest
    return (some value, rest)

/-- Goes on to the next element of a list: whether there is one.  The text left
is where the element starts, or what follows the closing bracket. -/
def nextElement (first : Bool) : Reader Bool := fun cs =>
  match skipSpace cs with
  | [] => .error .endInList
  | ']' :: rest => .ok (false, rest)
  | c :: rest =>
    if first then .ok (true, c :: rest)
    else if c = ',' then
      match skipSpace rest with
      | [] => .error .endInValue
      | ']' :: _ => .error .trailingComma
      | rest => .ok (true, rest)
    else .error .expectedListSeparator

/-- Goes on to the next key of an object, if there is one.  The text left is
what follows the key, or what follows the closing brace. -/
def nextKey (first : Bool) : Reader (Option String) := fun cs =>
  let key (rest : List Char) : Except Fault (Option String × List Char) := do
    let (key, rest) ← string rest
    return (some key, rest)
  match skipSpace cs with
  | [] => .error .endInObject
  | '\x7d' :: rest => .ok (none, rest)
  | c :: rest =>
    if first then
      if c = '"' then key rest else .error .keyNotString
    else if c = ',' then
      match skipSpace rest with
      | [] => .error .endInValue
      | '\x7d' :: _ => .error .trailingComma
      | '"' :: rest => key rest
      | _ => .error .keyNotString
    else .error .expectedObjectSeparator

/-- The text after the closing bracket of a list that must be complete. -/
def listEnd (cs : List Char) : Except Fault (List Char) :=
  match skipSpace cs with
  | [] => .error .endInList
  | ']' :: rest => .ok rest
  | ',' :: rest =>
    match skipSpace rest with
    | ']' :: _ => .error .trailingComma
    | _ => .error .trailingCharacters
  | _ => .error .trailingCharacters

/-- The elements of a list up to its closing bracket. -/
def elements {α : Type} (item : Reader α) : Nat → Bool → Reader (List α)
  | 0, _, _ => .error .endInList
  | n + 1, first, cs => do
    let (more, rest) ← nextElement first cs
    if more then
      let (x, rest) ← item rest
      let (xs, rest) ← elements item n false rest
      return (x :: xs, rest)
    else return ([], rest)

/-- The members of an object up to its closing brace.  Each member is handed to
`member` with what the members before it came to. -/
def members {σ : Type} (member : σ → String → Reader σ) :
    Nat → Bool → σ → Reader σ
  | 0, _, _, _ => .error .endInObject
  | n + 1, first, s, cs => do
    let (key?, rest) ← nextKey first cs
    match key? with
    | none => return (s, rest)
    | some key =>
      let (s, rest) ← member s key rest
      members member n false s rest

end NativeGlue.Json
