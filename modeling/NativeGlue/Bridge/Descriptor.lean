import NativeGlue.Bridge.Error

/-!
# Kinds, tokens and descriptors

How the parts of a method are carried over: its result to the kind by which the
runtime unmarshals it, each type to a token of the native interface,
and the whole method to a descriptor.
-/

namespace NativeGlue.Bridge

/-- How the runtime unmarshals a result. -/
inductive Kind where
  | void
  | string
  | boolean
  | number
  | promise
  | object
  | array
deriving Repr, DecidableEq

namespace Kind

/-- The name of a kind in generated text. -/
def name : Kind → String
  | void => "VoidKind"
  | string => "StringKind"
  | boolean => "BooleanKind"
  | number => "NumberKind"
  | promise => "PromiseKind"
  | object => "ObjectKind"
  | array => "ArrayKind"

/-- The kind of a result.  A callback has none, and a reference is not
followed. -/
def ofResult : TypeExpr → Except Error Kind
  | .void => .ok void
  | .string _ => .ok string
  | .boolean _ => .ok boolean
  | .numeric _ _ => .ok number
  | .reserved _ _ => .ok number
  | .promise _ => .ok promise
  | .object _ _ => .ok object
  | .array _ _ => .ok array
  | .callback nullable => .error (.unsupported .callback nullable .result)
  | .reference _ => .error (.unsupported .reference false .result)

end Kind

/-- A type of the native interface. -/
inductive Token where
  | void
  | double
  | boxedDouble
  | boolean
  | boxedBoolean
  | string
  | readableMap
  | writableMap
  | readableArray
  | writableArray
  | callback
  | promise
  /-- The map of constants that an accessor returns. -/
  | map
deriving Repr, DecidableEq

namespace Token

/-- The text of a token. -/
def text : Token → String
  | void => "V"
  | double => "D"
  | boxedDouble => "Ljava/lang/Double;"
  | boolean => "Z"
  | boxedBoolean => "Ljava/lang/Boolean;"
  | string => "Ljava/lang/String;"
  | readableMap => "Lcom/facebook/react/bridge/ReadableMap;"
  | writableMap => "Lcom/facebook/react/bridge/WritableMap;"
  | readableArray => "Lcom/facebook/react/bridge/ReadableArray;"
  | writableArray => "Lcom/facebook/react/bridge/WritableArray;"
  | callback => "Lcom/facebook/react/bridge/Callback;"
  | promise => "Lcom/facebook/react/bridge/Promise;"
  | map => "Ljava/util/Map;"

/-- All tokens. -/
def all : List Token :=
  [void, double, boxedDouble, boolean, boxedBoolean, string, readableMap,
    writableMap, readableArray, writableArray, callback, promise, map]

/-- The token with a given text. -/
def ofText? (text : String) : Option Token := all.find? (·.text = text)

/-- The token of a type that is no reference, if it has one at a position.
Maps, lists and callbacks have none when they admit null, and a callback has
none as a result. -/
def ofResolved? (position : Position) (nullable : Bool) :
    TypeExpr → Option Token
  | .void => some void
  | .string _ => some string
  | .boolean _ => some (if nullable then boxedBoolean else boolean)
  | .numeric _ _ => some (if nullable then boxedDouble else double)
  | .reserved _ _ => some double
  | .promise _ => some promise
  | .object _ _ =>
    match nullable, position with
    | true, _ => none
    | false, .parameter => some readableMap
    | false, .result => some writableMap
  | .array _ _ =>
    match nullable, position with
    | true, _ => none
    | false, .parameter => some readableArray
    | false, .result => some writableArray
  | .callback _ =>
    match nullable, position with
    | false, .parameter => some callback
    | _, _ => none
  | .reference _ => none

end Token

/-- The type that a type stands for: a reference stands for its entry
in the alias table, which is not followed further. -/
def resolve (aliases : AliasTable) : TypeExpr → Except Error TypeExpr
  | .reference name =>
    match aliases.get? name with
    | some type => .ok type
    | none => .error (.unresolvedAlias name)
  | type => .ok type

/-- The token of a type at a position.  It admits null if the type it stands for
does, or if it is told so. -/
def Token.ofType (aliases : AliasTable) (position : Position) (nullable : Bool)
    (type : TypeExpr) : Except Error Token := do
  let resolved ← resolve aliases type
  let nullable := nullable || resolved.isNullable
  match Token.ofResolved? position nullable resolved with
  | some token => return token
  | none => throw (.unsupported resolved.tag nullable position)

/-- The types of a method in the native interface. -/
structure Descriptor where
  /-- The declared parameters, then the promise of a method that returns one. -/
  params : List Token
  result : Token
  isPromise : Bool
deriving Repr, DecidableEq

namespace Descriptor

/-- The text of a descriptor: the parameters in parentheses, then the result. -/
def text (d : Descriptor) : String :=
  "(" ++ String.join (d.params.map Token.text) ++ ")" ++ d.result.text

/-- The result token of a method: a map for an accessor, nothing for a
promise. -/
def resultToken (aliases : AliasTable) (m : Method) : Except Error Token :=
  if m.isAccessor then .ok .map
  else if m.returnsPromise then .ok .void
  else Token.ofType aliases .result false m.result

/-- The descriptor of a method. -/
def ofMethod (aliases : AliasTable) (m : Method) : Except Error Descriptor := do
  let params ← m.params.mapM fun p =>
    Token.ofType aliases .parameter p.nullable p.type
  let result ← resultToken aliases m
  let promise := if m.returnsPromise then [Token.promise] else []
  return ⟨params ++ promise, result, m.returnsPromise⟩

end Descriptor

end NativeGlue.Bridge
