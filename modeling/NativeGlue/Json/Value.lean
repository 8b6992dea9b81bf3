import NativeGlue.Json.Scan

/-!
# Values of any shape

Reads a JSON value as a syntax tree.  Nesting is not limited, numbers are not
valued and surrogates are not paired.  A value that nothing is kept of is read
in this way too.

The recursion follows a bound on the number of characters left: every step takes
at least one, so at zero the text has ended.  The length of the whole text is
such a bound.
-/

namespace NativeGlue.Json

/-- A number. -/
def looseNumber : Reader Tree := fun cs =>
  match numeral cs with
  | .error _ => .error .invalidNumber
  | .ok (n, rest) => .ok (.number n, rest)

/-- A key and its colon. -/
def looseKey : Reader (List Piece) := fun cs =>
  match skipSpace cs with
  | [] => .error .endInObject
  | '"' :: rest => do
    let (key, rest) ← looseString rest
    let rest ← colon rest
    return (key, rest)
  | _ => .error .keyNotString

mutual

/-- A value. -/
def value : Nat → Reader Tree
  | 0, _ => .error .endInValue
  | n + 1, cs =>
    match skipSpace cs with
    | [] => .error .endInValue
    | 'n' :: rest => do
      let rest ← literal ['u', 'l', 'l'] rest
      return (.null, rest)
    | 't' :: rest => do
      let rest ← literal ['r', 'u', 'e'] rest
      return (.boolean true, rest)
    | 'f' :: rest => do
      let rest ← literal ['a', 'l', 's', 'e'] rest
      return (.boolean false, rest)
    | '"' :: rest => do
      let (pieces, rest) ← looseString rest
      return (.string pieces, rest)
    | '[' :: rest =>
      match skipSpace rest with
      | [] => .error .endInList
      | ']' :: rest => .ok (.list [], rest)
      | rest => do
        let (item, rest) ← value n rest
        let (items, rest) ← moreItems n rest
        return (.list (item :: items), rest)
    | '\x7b' :: rest =>
      match skipSpace rest with
      | '\x7d' :: rest => .ok (.object [], rest)
      | rest => do
        let (key, rest) ← looseKey rest
        let (item, rest) ← value n rest
        let (members, rest) ← moreMembers n rest
        return (.object (⟨key, item⟩ :: members), rest)
    | c :: rest =>
      if c = '-' ∨ isDigit c then looseNumber (c :: rest)
      else .error .expectedValue

/-- The items of a list that follow an item. -/
def moreItems : Nat → Reader (List Tree)
  | 0, _ => .error .endInList
  | n + 1, cs =>
    match skipSpace cs with
    | [] => .error .endInList
    | ']' :: rest => .ok ([], rest)
    | ',' :: rest => do
      let (item, rest) ← value n rest
      let (items, rest) ← moreItems n rest
      return (item :: items, rest)
    | _ => .error .expectedListSeparator

/-- The members of an object that follow a member. -/
def moreMembers : Nat → Reader (List Member)
  | 0, _ => .error .endInObject
  | n + 1, cs =>
    match skipSpace cs with
    | [] => .error .endInObject
    | '\x7d' :: rest => .ok ([], rest)
    | ',' :: rest => do
      let (key, rest) ← looseKey rest
      let (item, rest) ← value n rest
      let (members, rest) ← moreMembers n rest
      return (⟨key, item⟩ :: members, rest)
    | _ => .error .expectedObjectSeparator

end

/-- The text after a value of which nothing is kept. -/
def skipValue (bound : Nat) (cs : List Char) : Except Fault (List Char) := do
  let (_, rest) ← value bound cs
  return rest

end NativeGlue.Json
