/-!
# Syntax trees

JSON text as a tree that keeps what the text says and drops how it is laid out.
A string is kept as its pieces, because a text may spell sixteen-bit units that
make no character.
-/

namespace NativeGlue.Json

/-- The parts of a number as written. -/
structure Numeral where
  negative : Bool
  /-- The digits before the point. -/
  whole : List Char
  /-- The digits after the point, if there is one. -/
  fraction : Option (List Char)
  /-- The sign and the digits of the exponent, if there is one. -/
  exponent : Option (Bool × List Char)
deriving Repr, DecidableEq

/-- A part of a string: a character, or a sixteen-bit unit that a numeric escape
spells. -/
inductive Piece where
  | char (c : Char)
  | unit (n : Nat)
deriving Repr, DecidableEq

mutual

/-- A JSON value. -/
inductive Tree where
  | null
  | boolean (value : Bool)
  | number (numeral : Numeral)
  | string (pieces : List Piece)
  | list (items : List Tree)
  | object (members : List Member)

/-- A member of a JSON object. -/
structure Member where
  key : List Piece
  value : Tree

end

deriving instance Repr, BEq for Tree, Member

/-- Whether a unit is the first of a surrogate pair. -/
def isHighSurrogate (n : Nat) : Bool := 0xD800 ≤ n && n ≤ 0xDBFF

/-- Whether a unit is the second of a surrogate pair. -/
def isLowSurrogate (n : Nat) : Bool := 0xDC00 ≤ n && n ≤ 0xDFFF

/-- The character of a surrogate pair. -/
def pairChar (high low : Nat) : Char :=
  Char.ofNat ((high - 0xD800) * 0x400 + (low - 0xDC00) + 0x10000)

/-- The characters that pieces spell, if every surrogate is in a pair. -/
def spelled? : List Piece → Option (List Char)
  | [] => some []
  | .char c :: ps => (spelled? ps).map (c :: ·)
  | .unit n :: ps =>
    if isLowSurrogate n then none
    else if isHighSurrogate n then
      match ps with
      | .unit m :: ps =>
        if isLowSurrogate m then (spelled? ps).map (pairChar n m :: ·) else none
      | _ => none
    else (spelled? ps).map (Char.ofNat n :: ·)

mutual

/-- How many lists and objects are nested in a tree. -/
def Tree.depth : Tree → Nat
  | .list items => depthOfItems items + 1
  | .object members => depthOfMembers members + 1
  | _ => 0
termination_by structural t => t

/-- The greatest depth of some trees. -/
def depthOfItems : List Tree → Nat
  | [] => 0
  | t :: ts => max t.depth (depthOfItems ts)
termination_by structural ts => ts

/-- The greatest depth of some members. -/
def depthOfMembers : List Member → Nat
  | [] => 0
  | m :: ms => max m.depth (depthOfMembers ms)
termination_by structural ms => ms

/-- The depth of a member's value. -/
def Member.depth : Member → Nat
  | ⟨_, value⟩ => value.depth
termination_by structural m => m

end

end NativeGlue.Json
