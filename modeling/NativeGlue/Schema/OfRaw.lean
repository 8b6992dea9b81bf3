import NativeGlue.Raw.Reader
import NativeGlue.Schema.Basic

/-!
# From raw schemas to schemas

Conversion of what the text gives into the closed grammar.  It walks groups,
modules, aliases, methods and types in order and stops at the first offence.
The parts that the tag of a type does not use are not looked at.
-/

namespace NativeGlue

/-- Why a schema cannot be loaded from a text. -/
inductive SchemaError where
  | json (fault : Json.Fault)
  | unsupportedType (tag : String)
  | unknownReservedScalar (name : String)
  | missingAliasName
  | notAFunction (method : String) (tag : String)
deriving Repr, DecidableEq

/-- The wording of a schema error. -/
def SchemaError.message : SchemaError → String
  | json fault => "invalid schema JSON: " ++ fault.message
  | unsupportedType tag => "unsupported type annotation: " ++ tag
  | unknownReservedScalar name => "unknown reserved type name: " ++ name
  | missingAliasName => "type alias reference without a name"
  | notAFunction method tag =>
    "method `" ++ method ++
      "` must be typed as FunctionTypeAnnotation, found " ++ tag

mutual

/-- The type that a raw type stands for. -/
def TypeExpr.ofRaw : Raw.TypeExpr → Except SchemaError TypeExpr
  | ⟨tag, nullable, name, properties, element⟩ =>
    match Tag.ofName? tag with
    | none => .error (.unsupportedType tag)
    | some .void => .ok .void
    | some .string => .ok (.string nullable)
    | some .boolean => .ok (.boolean nullable)
    | some .number => .ok (.numeric .number nullable)
    | some .double => .ok (.numeric .double nullable)
    | some .float => .ok (.numeric .float nullable)
    | some .int32 => .ok (.numeric .int32 nullable)
    | some .reserved =>
      match ReservedScalar.ofName? (name.getD "") with
      | some scalar => .ok (.reserved scalar nullable)
      | none => .error (.unknownReservedScalar (name.getD ""))
    | some .genericObject => .ok (.object .generic nullable)
    | some .object =>
      match properties with
      | none => .ok (.object (.structural []) nullable)
      | some properties => do
        let properties ← propertiesOfRaw properties
        return .object (.structural properties) nullable
    | some .array =>
      match element with
      | none => .ok (.array none nullable)
      | some element => do
        let element ← TypeExpr.ofRaw element
        return .array (some element) nullable
    | some .callback => .ok (.callback nullable)
    | some .promise => .ok (.promise nullable)
    | some .reference =>
      match name with
      | none => .error .missingAliasName
      | some name => .ok (.reference name)
termination_by structural raw => raw

/-- The member that a raw member stands for. -/
def Property.ofRaw : Raw.Property → Except SchemaError Property
  | ⟨name, optional, type⟩ => do
    let type ← TypeExpr.ofRaw type
    return ⟨name, optional, type⟩
termination_by structural raw => raw

/-- The members that raw members stand for. -/
def propertiesOfRaw : List Raw.Property → Except SchemaError (List Property)
  | [] => .ok []
  | p :: ps => do
    let p ← Property.ofRaw p
    let ps ← propertiesOfRaw ps
    return p :: ps
termination_by structural raw => raw

end

/-- The parameter that a raw parameter stands for. -/
def Param.ofRaw (raw : Raw.Param) : Except SchemaError Param := do
  let type ← TypeExpr.ofRaw raw.type
  return ⟨raw.name, raw.nullable, type⟩

/-- The method that a raw method stands for.  It must be typed as a function. -/
def Method.ofRaw (raw : Raw.Method) : Except SchemaError Method :=
  if raw.type.tag = "FunctionTypeAnnotation" then do
    let params ← raw.type.params.mapM Param.ofRaw
    let result ← TypeExpr.ofRaw raw.type.result
    return Method.declare raw.name params result
  else .error (.notAFunction raw.name raw.type.tag)

/-- The module that a raw module stands for. -/
def NativeModule.ofRaw (name : String) (raw : Raw.NativeModule) :
    Except SchemaError NativeModule := do
  let aliases ← raw.aliases.mapM TypeExpr.ofRaw
  let methods ← raw.methods.mapM Method.ofRaw
  return ⟨name, methods, aliases⟩

/-- The groups of a raw schema that declare native modules. -/
def Raw.Schema.declaredGroups (raw : Raw.Schema) :
    List (String × Table Raw.NativeModule) :=
  raw.groups.entries.filterMap fun e =>
    e.2.nativeModules.map fun modules => (e.1, modules)

/-- The modules of one group. -/
def modulesOfRaw (raw : Table Raw.NativeModule) :
    Except SchemaError (List NativeModule) :=
  raw.entries.mapM fun e => NativeModule.ofRaw e.1 e.2

namespace Schema

/-- The schema that a raw schema stands for. -/
def ofRaw (raw : Raw.Schema) : Except SchemaError Schema := do
  let groups ← raw.declaredGroups.mapM fun e => do
    let modules ← modulesOfRaw e.2
    return (e.1, modules)
  return ⟨⟨groups⟩⟩

/-- The schema that a text gives. -/
def parse (text : String) : Except SchemaError Schema := do
  let raw ← (Raw.Schema.parse text).mapError .json
  ofRaw raw

end Schema

end NativeGlue
