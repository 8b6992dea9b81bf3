import NativeGlue.Table

/-!
# Raw schemas

A module schema as its text gives it: types with a free tag and with every
part that any tag may use.
-/

namespace NativeGlue.Raw

mutual

/-- A type as written. -/
structure TypeExpr where
  tag : String
  nullable : Bool
  name : Option String
  properties : Option (List Property)
  element : Option TypeExpr

/-- A member of an object type as written. -/
structure Property where
  name : String
  optional : Bool
  type : TypeExpr

end

deriving instance Repr, BEq for TypeExpr, Property

/-- A method parameter as written. -/
structure Param where
  name : String
  nullable : Bool
  type : TypeExpr
deriving Repr, BEq

/-- The type of a method as written. -/
structure FunctionType where
  tag : String
  params : List Param
  result : TypeExpr
deriving Repr, BEq

/-- A method as written. -/
structure Method where
  name : String
  type : FunctionType
deriving Repr, BEq

/-- A native module as written, without its name. -/
structure NativeModule where
  aliases : Table TypeExpr
  methods : List Method
deriving Repr, BEq

/-- A group of modules as written; a group may declare no native modules at
all. -/
structure Group where
  nativeModules : Option (Table NativeModule)
deriving Repr, BEq

/-- A schema as written. -/
structure Schema where
  groups : Table Group
deriving Repr, BEq

end NativeGlue.Raw
