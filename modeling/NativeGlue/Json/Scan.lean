import NativeGlue.Json.Fault
import NativeGlue.Json.Tree

/-!
# Scanners

The lexical parts of JSON text: blanks, the rest of a literal, digits, numerals
and strings.  A scanner takes the text that is left and gives the text that is
left after it.

A numeral is scanned before it is valued, and a string is scanned in two ways: a
strict one that wants surrogates in pairs and gives the text, and a loose one
that gives the pieces.
-/

namespace NativeGlue.Json

/-- A reader of something at the front of a text: what was read and what is
left. -/
abbrev Reader (α : Type) := List Char → Except Fault (α × List Char)

/-- The blanks that may stand between the parts of JSON text. -/
def isSpace (c : Char) : Bool := c == ' ' || c == '\n' || c == '\t' || c == '\r'

/-- The text after its leading blanks. -/
def skipSpace (cs : List Char) : List Char := cs.dropWhile isSpace

/-- The text after the remaining letters of a literal. -/
def literal : List Char → List Char → Except Fault (List Char)
  | [], cs => .ok cs
  | _ :: _, [] => .error .endInValue
  | w :: ws, c :: cs => if w = c then literal ws cs else .error .expectedLiteral

/-- The text after a colon, which may follow blanks. -/
def colon (cs : List Char) : Except Fault (List Char) :=
  match skipSpace cs with
  | [] => .error .endInObject
  | ':' :: rest => .ok rest
  | _ => .error .expectedColon

/-- Whether a character is an ASCII digit. -/
def isDigit (c : Char) : Bool := '0' ≤ c && c ≤ '9'

/-- The digits at the front of a text, and the rest. -/
def digits (cs : List Char) : List Char × List Char := cs.span isDigit

/-- The value of an ASCII digit. -/
def digitValue (c : Char) : Nat := c.toNat - '0'.toNat

/-- The digits that must stand here.  Where they are missing the text that is
left is the failure. -/
def someDigits (cs : List Char) : Except (List Char) (List Char × List Char) :=
  match digits cs with
  | ([], rest) => .error rest
  | found => .ok found

/-- The digits before the point: a zero alone, or digits that start with another
one. -/
def wholeDigits (cs : List Char) : Except (List Char) (List Char × List Char) :=
  match digits cs with
  | ([], rest) => .error rest
  | ('0' :: d :: ds, rest) => .error (d :: ds ++ rest)
  | found => .ok found

/-- The point and the digits after it, if there is a point. -/
def fractionPart (cs : List Char) :
    Except (List Char) (Option (List Char) × List Char) :=
  match cs with
  | '.' :: rest => do
    let (ds, rest) ← someDigits rest
    return (some ds, rest)
  | _ => .ok (none, cs)

/-- The sign of an exponent, negative or not. -/
def exponentSign (cs : List Char) : Bool × List Char :=
  match cs with
  | '-' :: rest => (true, rest)
  | '+' :: rest => (false, rest)
  | _ => (false, cs)

/-- The exponent, if there is one. -/
def exponentPart (cs : List Char) :
    Except (List Char) (Option (Bool × List Char) × List Char) :=
  match cs with
  | 'e' :: rest | 'E' :: rest => do
    let (negative, rest) := exponentSign rest
    let (ds, rest) ← someDigits rest
    return (some (negative, ds), rest)
  | _ => .ok (none, cs)

/-- A number at the front of a text.  The failure is the text at which the
number stops being one. -/
def numeral (cs : List Char) : Except (List Char) (Numeral × List Char) := do
  let (negative, rest) :=
    match cs with
    | '-' :: rest => (true, rest)
    | _ => (false, cs)
  let (whole, rest) ← wholeDigits rest
  let (fraction, rest) ← fractionPart rest
  let (exponent, rest) ← exponentPart rest
  return (⟨negative, whole, fraction, exponent⟩, rest)

/-- The value of a hexadecimal digit. -/
def hexValue? (c : Char) : Option Nat :=
  if '0' ≤ c ∧ c ≤ '9' then some (c.toNat - '0'.toNat)
  else if 'a' ≤ c ∧ c ≤ 'f' then some (c.toNat - 'a'.toNat + 10)
  else if 'A' ≤ c ∧ c ≤ 'F' then some (c.toNat - 'A'.toNat + 10)
  else none

/-- The number of UTF-8 bytes of a text. -/
def byteCount (cs : List Char) : Nat := cs.foldr (fun c n => c.utf8Size + n) 0

/-- The code unit of the four hexadecimal digits at the front of a text, which
must have four more bytes. -/
def hexUnit : List Char → Except Fault Nat
  | a :: b :: c :: d :: _ =>
    match hexValue? a, hexValue? b, hexValue? c, hexValue? d with
    | some a, some b, some c, some d => .ok (((a * 16 + b) * 16 + c) * 16 + d)
    | _, _, _, _ => .error .invalidEscape
  | cs => .error (if byteCount cs < 4 then .endInString else .invalidEscape)

/-- The character that a one-letter escape stands for. -/
def shortEscape? : Char → Option Char
  | '"' => some '"'
  | '\\' => some '\\'
  | '/' => some '/'
  | 'b' => some '\x08'
  | 'f' => some '\x0c'
  | 'n' => some '\n'
  | 'r' => some '\r'
  | 't' => some '\t'
  | _ => none

/-- The character of a surrogate pair whose second half must follow. -/
def lowHalf (high : Nat) : List Char → Except Fault Char
  | '\\' :: 'u' :: rest => do
    let low ← hexUnit rest
    if isLowSurrogate low then return pairChar high low
    else throw .loneSurrogate
  | [] | ['\\'] => .error .endInString
  | _ => .error .halfSurrogatePair

/-- The character of a numeric escape, from after its letter, and the number of
characters it takes from there: one unit has four, a surrogate pair has ten. -/
def unicodeEscape (cs : List Char) : Except Fault (Char × Nat) := do
  let unit ← hexUnit cs
  if isLowSurrogate unit then throw .loneSurrogate
  else if isHighSurrogate unit then
    let c ← lowHalf unit (cs.drop 4)
    return (c, 10)
  else return (Char.ofNat unit, 4)

/-- The character of an escape, from after its backslash, and the number of
characters it takes from there. -/
def escape : List Char → Except Fault (Char × Nat)
  | [] => .error .endInString
  | 'u' :: rest => do
    let (c, taken) ← unicodeEscape rest
    return (c, taken + 1)
  | c :: _ =>
    match shortEscape? c with
    | some d => .ok (d, 1)
    | none => .error .invalidEscape

/-- The piece of an escape, from after its backslash, and the number of
characters it takes from there. -/
def looseEscape : List Char → Except Fault (Piece × Nat)
  | [] => .error .endInString
  | 'u' :: rest => do
    let unit ← hexUnit rest
    return (.unit unit, 5)
  | c :: _ =>
    match shortEscape? c with
    | some d => .ok (.char d, 1)
    | none => .error .invalidEscape

/-- Whether a character may not stand in a string as itself. -/
def isControl (c : Char) : Bool := c.toNat < 0x20

/-- What the parts of a string stand for, up to its closing quote: an escape is
valued from after its backslash, with the number of characters it takes from
there.  The last number counts the characters that the last escape still
takes. -/
def quoted {α : Type} (escape : List Char → Except Fault (α × Nat))
    (plain : Char → α) : Nat → Reader (List α)
  | _, [] => .error .endInString
  | taken + 1, _ :: rest => quoted escape plain taken rest
  | 0, c :: rest =>
    if c = '"' then .ok ([], rest)
    else if c = '\\' then do
      let (a, taken) ← escape rest
      let (parts, rest) ← quoted escape plain taken rest
      return (a :: parts, rest)
    else if isControl c then .error .controlCharacter
    else do
      let (parts, rest) ← quoted escape plain 0 rest
      return (plain c :: parts, rest)

/-- A string after its opening quote. -/
def string (cs : List Char) : Except Fault (String × List Char) := do
  let (body, rest) ← quoted escape id 0 cs
  return (String.ofList body, rest)

/-- The pieces of a string, from after its opening quote. -/
def looseString : Reader (List Piece) := quoted looseEscape .char 0

end NativeGlue.Json
