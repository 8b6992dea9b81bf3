import NativeGlue.Json.Tree

/-!
# Printing syntax trees

The plain text of a syntax tree: no blanks, and escapes only where a character
may not stand for itself.
-/

namespace NativeGlue.Json

/-- A hexadecimal digit. -/
def hexDigit (n : Nat) : Char :=
  if n < 10 then Char.ofNat ('0'.toNat + n)
  else Char.ofNat ('a'.toNat + (n - 10))

/-- The numeric escape of a sixteen-bit unit. -/
def unitEscape (n : Nat) : List Char :=
  ['\\', 'u', hexDigit (n / 4096 % 16), hexDigit (n / 256 % 16),
    hexDigit (n / 16 % 16), hexDigit (n % 16)]

/-- A character as it stands in a string. -/
def printChar (c : Char) : List Char :=
  match c with
  | '"' => ['\\', '"']
  | '\\' => ['\\', '\\']
  | '\x08' => ['\\', 'b']
  | '\x0c' => ['\\', 'f']
  | '\n' => ['\\', 'n']
  | '\r' => ['\\', 'r']
  | '\t' => ['\\', 't']
  | c => if c.toNat < 0x20 then unitEscape c.toNat else [c]

/-- The piece that a character is written as: a control character without a
letter of its own can only be spelled by its unit. -/
def Piece.ofChar (c : Char) : Piece :=
  if c.toNat < 0x20 ∧ c ∉ ['\x08', '\x0c', '\n', '\r', '\t'] then unit c.toNat
  else char c

/-- A piece as it stands in a string. -/
def Piece.print : Piece → List Char
  | char c => printChar c
  | unit n => unitEscape n

/-- A string between its quotes. -/
def printString (pieces : List Piece) : List Char :=
  '"' :: pieces.flatMap Piece.print ++ ['"']

/-- A number. -/
def Numeral.print (n : Numeral) : List Char :=
  (if n.negative then ['-'] else []) ++ n.whole ++
    (match n.fraction with
      | none => []
      | some ds => '.' :: ds) ++
    (match n.exponent with
      | none => []
      | some (negative, ds) => 'e' :: (if negative then '-' :: ds else ds))

mutual

/-- A value. -/
def Tree.print : Tree → List Char
  | .null => ['n', 'u', 'l', 'l']
  | .boolean true => ['t', 'r', 'u', 'e']
  | .boolean false => ['f', 'a', 'l', 's', 'e']
  | .number n => n.print
  | .string pieces => printString pieces
  | .list [] => ['[', ']']
  | .list (t :: ts) => '[' :: t.print ++ printItems ts
  | .object [] => ['\x7b', '\x7d']
  | .object (m :: ms) => '\x7b' :: m.print ++ printMembers ms
termination_by structural t => t

/-- The items of a list that follow an item, and the closing bracket. -/
def printItems : List Tree → List Char
  | [] => [']']
  | t :: ts => ',' :: t.print ++ printItems ts
termination_by structural ts => ts

/-- The members of an object that follow a member, and the closing brace. -/
def printMembers : List Member → List Char
  | [] => ['\x7d']
  | m :: ms => ',' :: m.print ++ printMembers ms
termination_by structural ms => ms

/-- A member. -/
def Member.print : Member → List Char
  | ⟨key, value⟩ => printString key ++ ':' :: value.print
termination_by structural m => m

end

end NativeGlue.Json
