import NativeGlue.Table

/-!
# Schemas

The closed grammar of types, and the methods, modules and groups that
are declared with them.
-/

namespace NativeGlue

/-- The tags by which a schema names its types. -/
inductive Tag where
  | void
  | string
  | boolean
  | number
  | double
  | float
  | int32
  | reserved
  | genericObject
  | object
  | array
  | callback
  | promise
  | reference
deriving Repr, DecidableEq

namespace Tag

/-- The name of a tag in a schema. -/
def name : Tag → String
  | void => "VoidTypeAnnotation"
  | string => "StringTypeAnnotation"
  | boolean => "BooleanTypeAnnotation"
  | number => "NumberTypeAnnotation"
  | double => "DoubleTypeAnnotation"
  | float => "FloatTypeAnnotation"
  | int32 => "Int32TypeAnnotation"
  | reserved => "ReservedFunctionValueTypeAnnotation"
  | genericObject => "GenericObjectTypeAnnotation"
  | object => "ObjectTypeAnnotation"
  | array => "ArrayTypeAnnotation"
  | callback => "FunctionTypeAnnotation"
  | promise => "GenericPromiseTypeAnnotation"
  | reference => "TypeAliasTypeAnnotation"

/-- All tags. -/
def all : List Tag :=
  [void, string, boolean, number, double, float, int32, reserved, genericObject,
    object, array, callback, promise, reference]

/-- The tag with a given name. -/
def ofName? : String → Option Tag
  | "VoidTypeAnnotation" => some void
  | "StringTypeAnnotation" => some string
  | "BooleanTypeAnnotation" => some boolean
  | "NumberTypeAnnotation" => some number
  | "DoubleTypeAnnotation" => some double
  | "FloatTypeAnnotation" => some float
  | "Int32TypeAnnotation" => some int32
  | "ReservedFunctionValueTypeAnnotation" => some reserved
  | "GenericObjectTypeAnnotation" => some genericObject
  | "ObjectTypeAnnotation" => some object
  | "ArrayTypeAnnotation" => some array
  | "FunctionTypeAnnotation" => some callback
  | "GenericPromiseTypeAnnotation" => some promise
  | "TypeAliasTypeAnnotation" => some reference
  | _ => none

@[simp] theorem ofName?_name (tag : Tag) : ofName? tag.name = some tag := by
  cases tag <;> rfl

/-- The two tables of names are inverse to each other. -/
theorem ofName?_eq_some_iff {name : String} {tag : Tag} :
    ofName? name = some tag ↔ name = tag.name := by
  constructor
  · intro h
    unfold ofName? at h
    split at h <;> cases h <;> rfl
  · rintro rfl
    exact ofName?_name tag

end Tag

/-- The flavours of numbers; all have one native representation. -/
inductive Flavour where
  | number
  | double
  | float
  | int32
deriving Repr, DecidableEq

/-- The tag of a number type. -/
def Flavour.tag : Flavour → Tag
  | number => .number
  | double => .double
  | float => .float
  | int32 => .int32

/-- Scalars that the runtime owns. -/
inductive ReservedScalar where
  | rootTag
deriving Repr, DecidableEq

namespace ReservedScalar

/-- The name of a reserved scalar. -/
def name : ReservedScalar → String
  | rootTag => "RootTag"

/-- The reserved scalar with a given name. -/
def ofName? : String → Option ReservedScalar
  | "RootTag" => some rootTag
  | _ => none

/-- The two tables of names are inverse to each other. -/
theorem ofName?_eq_some_iff {name : String} {scalar : ReservedScalar} :
    ofName? name = some scalar ↔ name = scalar.name := by
  constructor
  · intro h
    unfold ofName? at h
    split at h <;> cases h
    rfl
  · rintro rfl
    cases scalar
    rfl

end ReservedScalar

mutual

/-- A type of the closed grammar. -/
inductive TypeExpr where
  | void
  | string (nullable : Bool)
  | boolean (nullable : Bool)
  | numeric (flavour : Flavour) (nullable : Bool)
  | reserved (scalar : ReservedScalar) (nullable : Bool)
  | object (shape : ObjectShape) (nullable : Bool)
  | array (element : Option TypeExpr) (nullable : Bool)
  | callback (nullable : Bool)
  | promise (nullable : Bool)
  /-- A reference to an entry of the module's alias table. -/
  | reference (name : String)

/-- Which members an object type declares. -/
inductive ObjectShape where
  | generic
  | structural (properties : List Property)

/-- A member of an object type. -/
structure Property where
  name : String
  optional : Bool
  type : TypeExpr

end

deriving instance Repr, BEq for TypeExpr, ObjectShape, Property

instance : Inhabited TypeExpr := ⟨.void⟩

namespace TypeExpr

/-- The tag of a type. -/
def tag : TypeExpr → Tag
  | void => .void
  | string _ => .string
  | boolean _ => .boolean
  | numeric flavour _ => flavour.tag
  | reserved _ _ => .reserved
  | object .generic _ => .genericObject
  | object (.structural _) _ => .object
  | array _ _ => .array
  | callback _ => .callback
  | promise _ => .promise
  | reference _ => .reference

/-- Whether a type admits null. -/
def isNullable : TypeExpr → Bool
  | void | reference _ => false
  | string nullable | boolean nullable | numeric _ nullable
  | reserved _ nullable | object _ nullable | array _ nullable
  | callback nullable | promise nullable => nullable

/-- The type that admits null; nothing and a reference stay as they are. -/
def asNullable : TypeExpr → TypeExpr
  | void => void
  | string _ => string true
  | boolean _ => boolean true
  | numeric flavour _ => numeric flavour true
  | reserved scalar _ => reserved scalar true
  | object shape _ => object shape true
  | array element _ => array element true
  | callback _ => callback true
  | promise _ => promise true
  | reference name => reference name

/-- Whether a type is a promise. -/
def isPromise : TypeExpr → Bool
  | promise _ => true
  | _ => false

/-- Whether a type is an object that declares its members and has none. -/
def isEmptyObject : TypeExpr → Bool
  | object (.structural properties) _ => properties.isEmpty
  | _ => false

end TypeExpr

/-- A method parameter. -/
structure Param where
  name : String
  nullable : Bool
  type : TypeExpr
deriving Repr, BEq

/-- A method. -/
structure Method where
  name : String
  params : List Param
  result : TypeExpr
  /-- Whether the method gives the constants of its module. -/
  isAccessor : Bool
deriving Repr, BEq

namespace Method

/-- The name of the method that gives the constants of a module. -/
def accessorName : String := "getConstants"

/-- The method with a given name, parameters and result. -/
def declare (name : String) (params : List Param) (result : TypeExpr) :
    Method :=
  ⟨name, params, result, name = accessorName⟩

/-- Whether a method gives its result through a promise. -/
def returnsPromise (m : Method) : Bool := m.result.isPromise

end Method

/-- The types that a module names. -/
abbrev AliasTable := Table TypeExpr

/-- A native module. -/
structure NativeModule where
  name : String
  methods : List Method
  aliases : AliasTable
deriving Repr, BEq

/-- A schema: groups of modules by key. -/
structure Schema where
  groups : Table (List NativeModule)
deriving Repr, BEq

namespace Schema

/-- The schema without groups. -/
def empty : Schema := ⟨Table.empty⟩

/-- All modules of all groups in order of declaration; names may repeat. -/
def modules (s : Schema) : List NativeModule := s.groups.values.flatten

/-- The schema with a group written under a key. -/
def withGroup (s : Schema) (key : String) (modules : List NativeModule) :
    Schema :=
  ⟨s.groups.insert key modules⟩

end Schema

end NativeGlue
