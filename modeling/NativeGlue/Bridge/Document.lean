import NativeGlue.Bridge.Descriptor
import NativeGlue.Text.Blank

/-!
# Documents

A generated source file as data, and its text.  Names are written into the text
as they are, and nothing in a name is escaped.
-/

namespace NativeGlue.Bridge

/-- A host function that forwards a call to one method. -/
structure Thunk where
  name : String
  kind : Kind
  method : String
  descriptor : Descriptor
  /-- The names of the declared parameters, then that of the promise. -/
  argNames : List String
deriving Repr, DecidableEq

/-- The registration of one method. -/
structure Entry where
  method : String
  /-- The number of declared parameters. -/
  arity : Nat
  thunk : String
deriving Repr, DecidableEq

/-- The class that registers the methods of a module. -/
structure BridgeClass where
  name : String
  entries : List Entry
deriving Repr, DecidableEq

/-- A module and the class that serves it. -/
structure ProviderCase where
  moduleName : String
  className : String
deriving Repr, DecidableEq

/-- The function that finds the class of a module; its first matching case
wins. -/
structure Provider where
  name : String
  cases : List ProviderCase
deriving Repr, DecidableEq

/-- A declaration of a generated file. -/
inductive Item where
  | thunk (thunk : Thunk)
  | bridgeClass (bridgeClass : BridgeClass)
  | provider (provider : Provider)
deriving Repr, DecidableEq

/-- A generated file. -/
structure Document where
  header : String
  /-- The name of the file that is included. -/
  included : String
  /-- The enclosing namespaces, outermost first. -/
  namespaces : List String
  items : List Item
  /-- Whether argument names are written as comments. -/
  argComments : Bool
deriving Repr, DecidableEq

namespace Thunk

/-- The comment that lists the argument names, if there is one. -/
def commentLines (t : Thunk) (argComments : Bool) : List String :=
  if argComments && !t.argNames.isEmpty then
    ["  // args: " ++ String.intercalate ", " t.argNames]
  else []

/-- The lines of a host function. -/
def lines (t : Thunk) (argComments : Bool) : List String :=
  ["static facebook::jsi::Value " ++ t.name ++
      "(facebook::jsi::Runtime& rt, TurboModule &turboModule, " ++
      "const facebook::jsi::Value* args, size_t count) \x7b"] ++
    t.commentLines argComments ++
    ["  return static_cast<JavaTurboModule &>(turboModule).invokeJavaMethod(rt, " ++
      t.kind.name ++ ", \"" ++ t.method ++ "\", \"" ++ t.descriptor.text ++
      "\", args, count);",
      "\x7d"]

end Thunk

/-- The line that registers a method. -/
def Entry.line (e : Entry) : String :=
  "  methodMap_[\"" ++ e.method ++ "\"] = MethodMetadata \x7b" ++
    toString e.arity ++ ", " ++ e.thunk ++ "\x7d;"

/-- The lines of a class. -/
def BridgeClass.lines (c : BridgeClass) : List String :=
  [c.name ++ "::" ++ c.name ++ "(const JavaTurboModule::InitParams &params)",
    "  : JavaTurboModule(params) \x7b"] ++
    c.entries.map Entry.line ++
    ["\x7d"]

/-- The lines of a case. -/
def ProviderCase.lines (c : ProviderCase) : List String :=
  ["  if (moduleName == \"" ++ c.moduleName ++ "\") \x7b",
    "    return std::make_shared<" ++ c.className ++ ">(params);",
    "  \x7d"]

/-- The lines of a provider. -/
def Provider.lines (p : Provider) : List String :=
  ["std::shared_ptr<TurboModule> " ++ p.name ++
      "(const std::string moduleName, " ++
      "const JavaTurboModule::InitParams &params) \x7b"] ++
    p.cases.flatMap ProviderCase.lines ++
    ["  return nullptr;", "\x7d"]

namespace Item

/-- The lines of a declaration. -/
def lines (argComments : Bool) : Item → List String
  | thunk t => t.lines argComments
  | bridgeClass c => c.lines
  | provider p => p.lines

/-- The host function that a declaration is. -/
def thunk? : Item → Option Thunk
  | thunk t => some t
  | _ => none

/-- The class that a declaration is. -/
def bridgeClass? : Item → Option BridgeClass
  | bridgeClass c => some c
  | _ => none

/-- The provider that a declaration is. -/
def provider? : Item → Option Provider
  | provider p => some p
  | _ => none

end Item

namespace Document

/-- The lines of a document. -/
def lines (d : Document) : List String :=
  [Text.trimEnd d.header, "", "#include \"" ++ d.included ++ "\"", ""] ++
    d.namespaces.map (fun ns => "namespace " ++ ns ++ " \x7b") ++
    d.items.flatMap (fun item => "" :: item.lines d.argComments) ++
    [""] ++
    d.namespaces.reverse.map (fun ns => "\x7d // namespace " ++ ns)

/-- The text of a document. -/
def render (d : Document) : String :=
  String.join (d.lines.map (· ++ "\n"))

/-- The host functions of a document. -/
def thunks (d : Document) : List Thunk := d.items.filterMap Item.thunk?

/-- The classes of a document. -/
def bridgeClasses (d : Document) : List BridgeClass :=
  d.items.filterMap Item.bridgeClass?

/-- The first provider of a document. -/
def provider? (d : Document) : Option Provider :=
  d.items.findSome? Item.provider?

end Document

end NativeGlue.Bridge
