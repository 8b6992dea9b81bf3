import NativeGlue.Schema.Basic

/-!
# Bridge errors

Why a schema has no bridge.  An error that arises in a method is wrapped with
the names of its module and method.
-/

namespace NativeGlue.Bridge

/-- Where a type stands in a method. -/
inductive Position where
  | parameter
  | result
deriving Repr, DecidableEq

/-- The name of a position in messages. -/
def Position.name : Position → String
  | parameter => "parameter"
  | result => "return"

/-- Why a schema has no bridge. -/
inductive Error where
  /-- A type has no native counterpart where it stands. -/
  | unsupported (tag : Tag) (nullable : Bool) (position : Position)
  /-- A name is missing from the alias table. -/
  | unresolvedAlias (name : String)
  /-- Two modules have one name. -/
  | duplicateModule (name : String)
  /-- An error inside a method. -/
  | inMethod (moduleName method : String) (source : Error)
deriving Repr, DecidableEq

namespace Error

/-- The error without the methods it is wrapped in. -/
def root : Error → Error
  | inMethod _ _ source => source.root
  | error => error

/-- The errors that an error wraps, from the outside in. -/
def sources : Error → List Error
  | inMethod _ _ source => source :: source.sources
  | _ => []

/-- The wording of an error. -/
def message : Error → String
  | unsupported tag nullable position =>
    "unsupported type annotation: " ++ (if nullable then "nullable " else "") ++
      tag.name ++ " in " ++ position.name ++ " position"
  | unresolvedAlias name => "unresolved type alias: " ++ name
  | duplicateModule name => "duplicate native module: " ++ name
  | inMethod moduleName method source =>
    moduleName ++ "." ++ method ++ ": " ++ source.message

end Error

end NativeGlue.Bridge
