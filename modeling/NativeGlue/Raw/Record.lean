import NativeGlue.Raw.Basic

/-!
# Record declarations

Which fields the records of a schema have: their keys, their shapes, and what
happens when one is left out.  Readers and writers of schema text follow these
declarations, so each rule of the format is stated once.
-/

namespace NativeGlue.Raw

/-- The records of the schema format. -/
inductive Record where
  | schema
  | group
  | nativeModule
  | method
  | functionType
  | param
  | typeExpr
  | property
deriving Repr, DecidableEq

/-- The shapes of values in the schema format. -/
inductive Shape where
  | text
  | flag
  | record (r : Record)
  | list (of : Record)
  | table (of : Record)
deriving Repr, DecidableEq

/-- What happens when a field is left out. -/
inductive Presence where
  /-- The field must be given. -/
  | required
  /-- The field may be left out and is empty then. -/
  | defaulted
  /-- The field may be null, or left out of an object. -/
  | optional
  /-- The field may be null or left out. -/
  | omissible
deriving Repr, DecidableEq

/-- The declaration of a field. -/
structure Field where
  key : String
  shape : Shape
  presence : Presence
deriving Repr, DecidableEq

/-- The values that a record code stands for. -/
def Record.Val : Record → Type
  | schema => Schema
  | group => Group
  | nativeModule => NativeModule
  | method => Method
  | functionType => FunctionType
  | param => Param
  | typeExpr => TypeExpr
  | property => Property

/-- The values that a shape stands for. -/
def Shape.Val : Shape → Type
  | text => String
  | flag => Bool
  | record r => r.Val
  | list r => List r.Val
  | table r => Table r.Val

/-- The values of a field whose shape has the values `α`. -/
def Presence.Val (α : Type) : Presence → Type
  | required | defaulted => α
  | optional | omissible => Option α

/-- The values of a field. -/
def Field.Val (f : Field) : Type := f.presence.Val f.shape.Val

/-- The empty value of a shape; a record has none. -/
def Shape.empty? : (s : Shape) → Option s.Val
  | text => some ""
  | flag => some false
  | record _ => none
  | list _ => some []
  | table _ => some Table.empty

namespace Field

/-- The value of a field that an object does not give. -/
def missing? : (f : Field) → Option f.Val
  | ⟨_, _, .required⟩ => none
  | ⟨_, s, .defaulted⟩ => s.empty?
  | ⟨_, _, .optional⟩ => some none
  | ⟨_, _, .omissible⟩ => some none

/-- The value of a field before which a list of fields ends. -/
def omitted? : (f : Field) → Option f.Val
  | ⟨_, _, .required⟩ => none
  | ⟨_, s, .defaulted⟩ => s.empty?
  | ⟨_, _, .optional⟩ => none
  | ⟨_, _, .omissible⟩ => some none

end Field

/-- The values of several fields, in order. -/
def Row : List Field → Type
  | [] => Unit
  | f :: fs => f.Val × Row fs

namespace Record

/-- The name of a record in messages. -/
def name : Record → String
  | schema => "RawSchema"
  | group => "RawModuleGroup"
  | nativeModule => "RawNativeModule"
  | method => "RawMethod"
  | functionType => "RawFunctionType"
  | param => "RawParam"
  | typeExpr => "RawTypeAnnotation"
  | property => "RawProperty"

/-- The fields of a record, in the order of a record written as a list. -/
def fields : Record → List Field
  | schema => [⟨"modules", .table .group, .defaulted⟩]
  | group => [⟨"nativeModules", .table .nativeModule, .omissible⟩]
  | nativeModule =>
    [⟨"aliases", .table .typeExpr, .defaulted⟩,
      ⟨"properties", .list .method, .defaulted⟩]
  | method =>
    [⟨"name", .text, .required⟩,
      ⟨"typeAnnotation", .record .functionType, .required⟩]
  | functionType =>
    [⟨"type", .text, .required⟩, ⟨"params", .list .param, .defaulted⟩,
      ⟨"returnTypeAnnotation", .record .typeExpr, .required⟩]
  | param =>
    [⟨"name", .text, .required⟩, ⟨"nullable", .flag, .defaulted⟩,
      ⟨"typeAnnotation", .record .typeExpr, .required⟩]
  | typeExpr =>
    [⟨"type", .text, .required⟩, ⟨"nullable", .flag, .defaulted⟩,
      ⟨"name", .text, .optional⟩, ⟨"properties", .list .property, .optional⟩,
      ⟨"elementType", .record .typeExpr, .optional⟩]
  | property =>
    [⟨"name", .text, .required⟩, ⟨"optional", .flag, .defaulted⟩,
      ⟨"typeAnnotation", .record .typeExpr, .required⟩]

/-- The record with the given values of its fields. -/
def ofRow : (r : Record) → Row r.fields → r.Val
  | schema, (groups, ()) => Schema.mk groups
  | group, (modules, ()) => Group.mk modules
  | nativeModule, (aliases, methods, ()) => NativeModule.mk aliases methods
  | method, (name, type, ()) => Method.mk name type
  | functionType, (tag, params, result, ()) => FunctionType.mk tag params result
  | param, (name, nullable, type, ()) => Param.mk name nullable type
  | typeExpr, (tag, nullable, name, properties, element, ()) =>
    TypeExpr.mk tag nullable name properties element
  | property, (name, optional, type, ()) => Property.mk name optional type

/-- The values of a record's fields. -/
def toRow : (r : Record) → r.Val → Row r.fields
  | schema, (v : Schema) => (v.groups, ())
  | group, (v : Group) => (v.nativeModules, ())
  | nativeModule, (v : NativeModule) => (v.aliases, v.methods, ())
  | method, (v : Method) => (v.name, v.type, ())
  | functionType, (v : FunctionType) => (v.tag, v.params, v.result, ())
  | param, (v : Param) => (v.name, v.nullable, v.type, ())
  | typeExpr, (v : TypeExpr) =>
    (v.tag, v.nullable, v.name, v.properties, v.element, ())
  | property, (v : Property) => (v.name, v.optional, v.type, ())

@[simp] theorem ofRow_toRow :
    (r : Record) → (v : r.Val) → r.ofRow (r.toRow v) = v
  | schema, _ | group, _ | nativeModule, _ | method, _ => rfl
  | functionType, _ | param, _ => rfl
  | typeExpr, TypeExpr.mk _ _ _ _ _ => rfl
  | property, Property.mk _ _ _ => rfl

@[simp] theorem toRow_ofRow (r : Record) (row : Row r.fields) :
    r.toRow (r.ofRow row) = row := by
  cases r <;> rfl

end Record

end NativeGlue.Raw
