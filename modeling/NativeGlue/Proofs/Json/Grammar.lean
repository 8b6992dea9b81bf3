import NativeGlue.Json.Tree

/-!
# The grammar of JSON text

Which texts spell which syntax trees.  The rules are those of the usual grammar:
a value stands between blanks, values and members are separated by commas, and a
number or a string is spelled as a whole.  Nothing here refers to a reader.
-/

namespace NativeGlue.Json

/-- Only blanks. -/
def Blank (cs : List Char) : Prop :=
  ∀ c ∈ cs, c = ' ' ∨ c = '\t' ∨ c = '\n' ∨ c = '\r'

/-- Only digits. -/
def Digits (ds : List Char) : Prop := ∀ d ∈ ds, '0' ≤ d ∧ d ≤ '9'

/-! ## Numbers -/

/-- The digits before the point: a zero alone, or digits that start with another
one. -/
inductive SpellsWhole : List Char → Prop
  | zero : SpellsWhole ['0']
  | digits {d : Char} {ds : List Char} :
      '1' ≤ d → d ≤ '9' → Digits ds → SpellsWhole (d :: ds)

/-- A point and the digits after it, or nothing. -/
inductive SpellsFraction : List Char → Option (List Char) → Prop
  | none : SpellsFraction [] none
  | some {ds : List Char} :
      ds ≠ [] → Digits ds → SpellsFraction ('.' :: ds) (some ds)

/-- The sign of an exponent, which is negative or not. -/
inductive SpellsSign : List Char → Bool → Prop
  | none : SpellsSign [] false
  | plus : SpellsSign ['+'] false
  | minus : SpellsSign ['-'] true

/-- An exponent, or nothing. -/
inductive SpellsExponent : List Char → Option (Bool × List Char) → Prop
  | none : SpellsExponent [] none
  | some {e : Char} {sign ds : List Char} {negative : Bool} :
      e = 'e' ∨ e = 'E' → SpellsSign sign negative → ds ≠ [] → Digits ds →
      SpellsExponent (e :: sign ++ ds) (some (negative, ds))

/-- A number. -/
inductive SpellsNumeral : List Char → Numeral → Prop
  | intro {whole f e : List Char} {fraction : Option (List Char)}
      {exponent : Option (Bool × List Char)} (negative : Bool) :
      SpellsWhole whole → SpellsFraction f fraction →
      SpellsExponent e exponent →
      SpellsNumeral ((if negative then ['-'] else []) ++ whole ++ f ++ e)
        ⟨negative, whole, fraction, exponent⟩

/-! ## Strings -/

/-- The letters that may follow a backslash, with what they stand for. -/
def escapeLetters : List (Char × Char) :=
  [('"', '"'), ('\\', '\\'), ('/', '/'), ('b', '\x08'), ('f', '\x0c'),
    ('n', '\n'), ('r', '\r'), ('t', '\t')]

/-- A hexadecimal digit of either case and its value. -/
def HexDigit (c : Char) (n : Nat) : Prop :=
  "0123456789abcdef".toList[n]? = some c ∨
    "0123456789ABCDEF".toList[n]? = some c

/-- A part of a string: a character that stands for itself, an escape with one
letter, or an escape with the four digits of a sixteen-bit unit. -/
inductive SpellsPiece : List Char → Piece → Prop
  | plain {c : Char} :
      c ≠ '"' → c ≠ '\\' → ' ' ≤ c → SpellsPiece [c] (.char c)
  | letter {l c : Char} :
      (l, c) ∈ escapeLetters → SpellsPiece ['\\', l] (.char c)
  | unit {a b c d : Char} {i j k l : Nat} :
      HexDigit a i → HexDigit b j → HexDigit c k → HexDigit d l →
      SpellsPiece ['\\', 'u', a, b, c, d]
        (.unit (((i * 16 + j) * 16 + k) * 16 + l))

/-- Some things one after another. -/
inductive Chained {α : Type} (R : List Char → α → Prop) :
    List Char → List α → Prop
  | nil : Chained R [] []
  | cons {cs more : List Char} {x : α} {xs : List α} :
      R cs x → Chained R more xs → Chained R (cs ++ more) (x :: xs)

/-- A string in its quotes. -/
def SpellsString (cs : List Char) (pieces : List Piece) : Prop :=
  ∃ body, cs = '"' :: body ++ ['"'] ∧ Chained SpellsPiece body pieces

/-! ## Values -/

/-- Something between blanks. -/
inductive Padded {α : Type} (R : List Char → α → Prop) : List Char → α → Prop
  | intro {a cs b : List Char} {x : α} :
      Blank a → R cs x → Blank b → Padded R (a ++ cs ++ b) x

/-- One or more things with commas between them. -/
inductive Separated {α : Type} (R : List Char → α → Prop) :
    List Char → List α → Prop
  | single {cs : List Char} {x : α} : R cs x → Separated R cs [x]
  | cons {cs more : List Char} {x : α} {xs : List α} :
      R cs x → Separated R more xs → Separated R (cs ++ ',' :: more) (x :: xs)

/-- A key, a colon and a value. -/
inductive SpellsMember (R : List Char → Tree → Prop) : List Char → Member → Prop
  | intro {k cs : List Char} {key : List Piece} {t : Tree} :
      Padded SpellsString k key → Padded R cs t →
      SpellsMember R (k ++ ':' :: cs) ⟨key, t⟩

/-- A value, without the blanks around it. -/
inductive Spells : List Char → Tree → Prop
  | null : Spells ['n', 'u', 'l', 'l'] .null
  | true : Spells ['t', 'r', 'u', 'e'] (.boolean true)
  | false : Spells ['f', 'a', 'l', 's', 'e'] (.boolean false)
  | number {cs : List Char} {n : Numeral} :
      SpellsNumeral cs n → Spells cs (.number n)
  | string {cs : List Char} {pieces : List Piece} :
      SpellsString cs pieces → Spells cs (.string pieces)
  | emptyList {ws : List Char} :
      Blank ws → Spells ('[' :: ws ++ [']']) (.list [])
  | list {cs : List Char} {items : List Tree} :
      Separated (Padded Spells) cs items →
      Spells ('[' :: cs ++ [']']) (.list items)
  | emptyObject {ws : List Char} :
      Blank ws → Spells ('\x7b' :: ws ++ ['\x7d']) (.object [])
  | object {cs : List Char} {members : List Member} :
      Separated (SpellsMember Spells) cs members →
      Spells ('\x7b' :: cs ++ ['\x7d']) (.object members)

/-- A whole text: one value between blanks. -/
def SpellsText (cs : List Char) (t : Tree) : Prop := Padded Spells cs t

end NativeGlue.Json
