import NativeGlue.Json.Print
import NativeGlue.Raw.Basic

/-!
# Encoding raw schemas

The syntax tree of a raw schema: every record is an object with all its keys,
less the optional fields that are absent.
-/

namespace NativeGlue.Raw

open Json (Tree Member Piece)

/-- The pieces of a text. -/
def pieces (s : String) : List Piece := s.toList.map Piece.ofChar

/-- The tree of a text. -/
def textTree (s : String) : Tree := .string (pieces s)

/-- A member that is always there. -/
def member (key : String) (value : Tree) : Member := ⟨pieces key, value⟩

/-- The tree of a table. -/
def tableTree {α : Type} (tree : α → Tree) (t : Table α) : Tree :=
  .object (t.entries.map fun e => member e.1 (tree e.2))

mutual

/-- The tree of a type. -/
def TypeExpr.tree : TypeExpr → Tree
  | ⟨tag, nullable, name, properties, element⟩ =>
    .object
      ([member "type" (textTree tag), member "nullable" (.boolean nullable)] ++
        (match name with
          | none => []
          | some name => [member "name" (textTree name)]) ++
        (match properties with
          | none => []
          | some properties =>
            [member "properties" (.list (propertyTrees properties))]) ++
        (match element with
          | none => []
          | some element => [member "elementType" element.tree]))
termination_by structural t => t

/-- The tree of a member of an object type. -/
def Property.tree : Property → Tree
  | ⟨name, optional, type⟩ =>
    .object [member "name" (textTree name),
      member "optional" (.boolean optional), member "typeAnnotation" type.tree]
termination_by structural p => p

/-- The trees of the members of an object type. -/
def propertyTrees : List Property → List Tree
  | [] => []
  | p :: ps => p.tree :: propertyTrees ps
termination_by structural ps => ps

end

/-- The tree of a parameter. -/
def Param.tree (p : Param) : Tree :=
  .object [member "name" (textTree p.name),
    member "nullable" (.boolean p.nullable),
    member "typeAnnotation" p.type.tree]

/-- The tree of the type of a method. -/
def FunctionType.tree (t : FunctionType) : Tree :=
  .object [member "type" (textTree t.tag),
    member "params" (.list (t.params.map Param.tree)),
    member "returnTypeAnnotation" t.result.tree]

/-- The tree of a method. -/
def Method.tree (m : Method) : Tree :=
  .object [member "name" (textTree m.name), member "typeAnnotation" m.type.tree]

/-- The tree of a module. -/
def NativeModule.tree (m : NativeModule) : Tree :=
  .object [member "aliases" (tableTree TypeExpr.tree m.aliases),
    member "properties" (.list (m.methods.map Method.tree))]

/-- The tree of a group. -/
def Group.tree (g : Group) : Tree :=
  .object
    (match g.nativeModules with
      | none => []
      | some modules =>
        [member "nativeModules" (tableTree NativeModule.tree modules)])

namespace Schema

/-- The tree of a schema. -/
def tree (s : Schema) : Tree :=
  .object [member "modules" (tableTree Group.tree s.groups)]

/-- The plain text of a schema. -/
def print (s : Schema) : String := String.ofList s.tree.print

end Schema

end NativeGlue.Raw
