import NativeGlue.Decimal.Shortest
import NativeGlue.Text.Quoted

/-!
# Faults of schema text

What can be wrong with a text that is read as JSON against a declared shape.  A
fault is a cause; its wording and its category are functions of the cause.
-/

namespace NativeGlue.Json

/-- What a reader finds where it wants something else.  A floating point number
is kept as its sign and magnitude. -/
inductive Found where
  | null
  | boolean (value : Bool)
  | integer (value : Int)
  | floating (negative : Bool) (magnitude : Decimal.Binary64)
  | text (value : String)
  | list
  | object
deriving Repr, DecidableEq

/-- What a reader wants.  A record is known by its name. -/
inductive Wanted where
  | text
  | boolean
  | object
  | list
  | record (name : String)
deriving Repr, DecidableEq

/-- Why a text is refused. -/
inductive Fault where
  /-- The text ends where a value is due. -/
  | endInValue
  /-- The text ends inside a string. -/
  | endInString
  /-- The text ends inside a list. -/
  | endInList
  /-- The text ends inside an object. -/
  | endInObject
  | expectedValue
  | expectedLiteral
  | expectedColon
  | expectedListSeparator
  | expectedObjectSeparator
  | keyNotString
  | trailingComma
  | trailingCharacters
  | invalidNumber
  | numberOutOfRange
  | invalidEscape
  | loneSurrogate
  | halfSurrogatePair
  | controlCharacter
  | tooDeep
  | wrongType (found : Found) (wanted : Wanted)
  /-- A record written as a list lacks the field at an index. -/
  | wrongLength (index : Nat) (record : String) (fieldCount : Nat)
  | missingField (key : String)
  | duplicateField (key : String)
deriving Repr, DecidableEq

/-- The broad kind of a fault. -/
inductive Category where
  /-- The text is no JSON. -/
  | grammar
  /-- The text is JSON of another shape. -/
  | data
  /-- The text ends too early. -/
  | ending
deriving Repr, DecidableEq

/-- Numbers in messages are positional from `0.00001` up to sixteen whole
digits. -/
def numberLayout : Decimal.Layout := ⟨-5, 16⟩

/-- The text of a floating point number in a message. -/
def floatingText (negative : Bool) (magnitude : Decimal.Binary64) : String :=
  let digits :=
    if magnitude.isZero then "0.0" else numberLayout.write magnitude.shortest
  if negative then "-" ++ digits else digits

/-- How a message names what was found. -/
def Found.describe : Found → String
  | .null => "null"
  | .boolean true => "boolean `true`"
  | .boolean false => "boolean `false`"
  | .integer value => s!"integer `{value}`"
  | .floating negative magnitude =>
    "floating point `" ++ floatingText negative magnitude ++ "`"
  | .text value => "string " ++ Text.quoted value
  | .list => "sequence"
  | .object => "map"

/-- How a message names what was wanted. -/
def Wanted.describe : Wanted → String
  | .text => "a string"
  | .boolean => "a boolean"
  | .object => "a map"
  | .list => "a sequence"
  | .record name => "struct " ++ name

namespace Fault

/-- The category of a fault. -/
def category : Fault → Category
  | endInValue | endInString | endInList | endInObject => .ending
  | wrongType .. | wrongLength .. | missingField _ | duplicateField _ => .data
  | _ => .grammar

/-- The wording of a fault. -/
def message : Fault → String
  | endInValue => "EOF while parsing a value"
  | endInString => "EOF while parsing a string"
  | endInList => "EOF while parsing a list"
  | endInObject => "EOF while parsing an object"
  | expectedValue => "expected value"
  | expectedLiteral => "expected ident"
  | expectedColon => "expected `:`"
  | expectedListSeparator => "expected `,` or `]`"
  | expectedObjectSeparator => "expected `,` or `\x7d`"
  | keyNotString => "key must be a string"
  | trailingComma => "trailing comma"
  | trailingCharacters => "trailing characters"
  | invalidNumber => "invalid number"
  | numberOutOfRange => "number out of range"
  | invalidEscape => "invalid escape"
  | loneSurrogate => "lone leading surrogate in hex escape"
  | halfSurrogatePair => "unexpected end of hex escape"
  | controlCharacter =>
    "control character (\\u0000-\\u001F) found while parsing a string"
  | tooDeep => "recursion limit exceeded"
  | wrongType found wanted =>
    "invalid type: " ++ found.describe ++ ", expected " ++ wanted.describe
  | wrongLength index record fieldCount =>
    let elements :=
      if fieldCount = 1 then "1 element" else s!"{fieldCount} elements"
    s!"invalid length {index}, expected struct {record} with {elements}"
  | missingField key => "missing field `" ++ key ++ "`"
  | duplicateField key => "duplicate field `" ++ key ++ "`"

end Fault

end NativeGlue.Json
