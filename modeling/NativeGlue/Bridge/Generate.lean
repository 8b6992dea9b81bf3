import NativeGlue.Bridge.Document

/-!
# Generation

Flattens the modules of a schema into one namespace, emits a host function and a
registration for each of their methods, and assembles the document.  The listing
of signatures goes through the same emission of a method.
-/

namespace NativeGlue.Bridge

/-- What happens when two modules have one name. -/
inductive DuplicatePolicy where
  /-- The later module takes the place of the earlier one. -/
  | overwrite
  /-- The schema is refused. -/
  | reject
deriving Repr, DecidableEq

/-- The notice at the head of a generated file. -/
def defaultHeader : String :=
  "/**\n * This file is generated by jnibridge. Do not edit it by hand.\n" ++
    " *\n * @generated\n */"

/-- The choices of a generation run. -/
structure Config where
  duplicates : DuplicatePolicy := .overwrite
  argComments : Bool := true
  header : String := defaultHeader
deriving Repr, DecidableEq

/-- The class of a module. -/
def className (moduleName : String) : String :=
  "Native" ++ moduleName ++ "SpecJSI"

/-- The host function of a method. -/
def thunkName (moduleName method : String) : String :=
  "__hostFunction_" ++ className moduleName ++ "_" ++ method

/-- The provider of a library. -/
def providerName (library : String) : String := library ++ "_ModuleProvider"

/-- The extension of included files. -/
def headerExtension : String := "h"

/-- The extension of generated files. -/
def sourceExtension : String := "cpp"

/-- The file that a generated file includes. -/
def includedName (spec : String) : String := spec ++ "." ++ headerExtension

/-- The name of a generated file. -/
def artifactName (spec : String) : String :=
  spec ++ "-generated." ++ sourceExtension

/-- The name of the argument that carries the promise. -/
def promiseArgName : String := "promise"

/-- The two declarations of a method. -/
structure Emitted where
  thunk : Thunk
  entry : Entry
deriving Repr, DecidableEq

/-- Emits a method.  An accessor that declares no constants is left out. -/
def emitMethod (moduleName : String) (aliases : AliasTable) (m : Method) :
    Except Error (Option Emitted) :=
  if m.isAccessor && m.result.isEmptyObject then .ok none
  else do
    let kind ← Kind.ofResult m.result
    let descriptor ← Descriptor.ofMethod aliases m
    let promise := if descriptor.isPromise then [promiseArgName] else []
    let name := thunkName moduleName m.name
    return some
      { thunk :=
          ⟨name, kind, m.name, descriptor, m.params.map (·.name) ++ promise⟩
        entry := ⟨m.name, m.params.length, name⟩ }

/-- Emits a method of a module; an error names both. -/
def emitWithin (m : NativeModule) (method : Method) :
    Except Error (Option Emitted) :=
  (emitMethod m.name m.aliases method).mapError (.inMethod m.name method.name)

/-- The declarations of a module. -/
structure Block where
  moduleName : String
  methods : List Emitted
deriving Repr, DecidableEq

namespace Block

/-- The class of a block. -/
def bridgeClass (b : Block) : BridgeClass :=
  ⟨className b.moduleName, b.methods.map (·.entry)⟩

/-- The host functions of a block, then its class. -/
def items (b : Block) : List Item :=
  b.methods.map (fun e => Item.thunk e.thunk) ++ [.bridgeClass b.bridgeClass]

/-- The case of a block in the provider. -/
def providerCase (b : Block) : ProviderCase :=
  ⟨b.moduleName, className b.moduleName⟩

/-- The declarations of a module. -/
def ofModule (m : NativeModule) : Except Error Block := do
  let methods ← m.methods.mapM (emitWithin m)
  return ⟨m.name, methods.filterMap id⟩

end Block

/-- Adds a module to the modules by name. -/
def addModule
    (policy : DuplicatePolicy) (flat : Table NativeModule) (m : NativeModule) :
    Except Error (Table NativeModule) :=
  if policy = .reject ∧ flat.contains m.name then
    .error (.duplicateModule m.name)
  else .ok (flat.insert m.name m)

/-- The modules of a schema by name, in order of first appearance. -/
def flatten (policy : DuplicatePolicy) (s : Schema) :
    Except Error (Table NativeModule) :=
  s.modules.foldlM (addModule policy) Table.empty

/-- The namespaces around the generated declarations. -/
def enclosingNamespaces : List String := ["facebook", "react"]

/-- The document of some blocks. -/
def Document.ofBlocks
    (library spec : String) (config : Config) (blocks : List Block) :
    Document :=
  { header := config.header
    included := includedName spec
    namespaces := enclosingNamespaces
    items := blocks.flatMap Block.items ++
      [.provider ⟨providerName library, blocks.map Block.providerCase⟩]
    argComments := config.argComments }

/-- The document of modules by name. -/
def assemble
    (library spec : String) (config : Config) (modules : Table NativeModule) :
    Except Error Document := do
  let blocks ← modules.values.mapM Block.ofModule
  return Document.ofBlocks library spec config blocks

/-- A generated file. -/
structure Artifact where
  name : String
  contents : String
deriving Repr, DecidableEq

/-- Generates the bridge of a schema. -/
def generate (library spec : String) (config : Config) (s : Schema) :
    Except Error Artifact := do
  let modules ← flatten config.duplicates s
  let document ← assemble library spec config modules
  return ⟨artifactName spec, document.render⟩

/-- The line of a method in the listing of signatures. -/
def signatureLine (moduleName method : String) : Option Emitted → String
  | some e =>
    moduleName ++ "." ++ method ++ " " ++ e.thunk.kind.name ++ " " ++
      e.thunk.descriptor.text ++ " " ++ toString e.entry.arity ++ "\n"
  | none => moduleName ++ "." ++ method ++ " skipped\n"

/-- The lines of a module in the listing of signatures. -/
def moduleSignatures (m : NativeModule) : Except Error (List String) :=
  m.methods.mapM fun method => do
    let emitted ← emitWithin m method
    return signatureLine m.name method.name emitted

/-- The listing of signatures of a schema. -/
def signatures (s : Schema) : Except Error String := do
  let modules ← flatten .overwrite s
  let lines ← modules.values.mapM moduleSignatures
  return String.join lines.flatten

end NativeGlue.Bridge
