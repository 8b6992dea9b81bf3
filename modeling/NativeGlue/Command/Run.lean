import NativeGlue.Bridge.Generate
import NativeGlue.Command.Arguments
import NativeGlue.Disk.Basic
import NativeGlue.Schema.OfRaw

/-!
# Runs

What a run of the program does: where the schema text comes from, what is made
of it, and where the result goes.  Everything is decided before anything is
written, so a run that fails to load or to bridge the schema leaves no trace.
The program is written against the operations it needs of a system; a file tree
offers them, and so do the real files.
-/

namespace NativeGlue.Command

open Bridge Disk

/-- Why a schema cannot be loaded. -/
inductive LoadError where
  | unreadableFile (path : String) (cause : OsError)
  | unreadableInput (cause : OsError)
  | invalid (cause : SchemaError)
deriving Repr, DecidableEq

/-- The wording of a load error. -/
def LoadError.message : LoadError → String
  | unreadableFile path cause =>
    "failed to read schema file " ++ path ++ ": " ++ cause.message
  | unreadableInput cause => "failed to read stdin: " ++ cause.message
  | invalid cause => "invalid schema: " ++ cause.message

/-- Why a run fails. -/
inductive Failure where
  | load (cause : LoadError)
  | bridge (cause : Bridge.Error)
  | write (directory : String) (cause : OsError)
deriving Repr, DecidableEq

/-- The wording of a failure. -/
def Failure.message : Failure → String
  | load cause => cause.message
  | bridge cause => cause.message
  | write directory cause =>
    "failed to write " ++ directory ++ ": " ++ cause.message

/-- The path that stands for standard input. -/
def inputPath : String := "-"

/-- The choices of a generation run. -/
structure GenerateArgs where
  schemaPath : String
  library : String
  specName : String
  outputDir : Option String
  duplicates : DuplicatePolicy
  argComments : Bool
deriving Repr, DecidableEq

namespace GenerateArgs

/-- The choices that arguments stand for.  The spec has the name of the library
unless it is given another one. -/
def ofParams (p : GenerateParams) : GenerateArgs where
  schemaPath := p.schemaPath
  library := p.library
  specName := p.specName.getD p.library
  outputDir := p.outputDir
  duplicates := if p.rejectDuplicates then .reject else .overwrite
  argComments := !p.noArgComments

/-- The configuration of the run. -/
def config (a : GenerateArgs) : Config where
  duplicates := a.duplicates
  argComments := a.argComments

/-- Generates the artifact of a schema. -/
def artifact (a : GenerateArgs) (s : Schema) : Except Bridge.Error Artifact :=
  generate a.library a.specName a.config s

end GenerateArgs

/-- The path of an artifact in a directory. -/
def artifactPath (directory : String) (a : Artifact) : String :=
  join directory a.name

/-- What a run makes of a schema. -/
inductive Product where
  /-- A text for standard output. -/
  | printed (text : String)
  /-- An artifact for a directory. -/
  | saved (directory : String) (artifact : Artifact)
deriving Repr, DecidableEq

namespace Invocation

/-- The path of the schema. -/
def schemaPath : Invocation → String
  | generate params => params.schemaPath
  | signatures params => params.schemaPath

/-- What a command makes of a schema. -/
def product (i : Invocation) (s : Schema) : Except Bridge.Error Product :=
  match i with
  | generate params => do
    let args := GenerateArgs.ofParams params
    let artifact ← args.artifact s
    match args.outputDir with
    | some directory => return .saved directory artifact
    | none => return .printed artifact.contents
  | signatures _ => do
    let text ← Bridge.signatures s
    return .printed text

end Invocation

/-- What a run says: its status and what it prints. -/
structure Report where
  exit : Nat
  stdout : String
  stderr : String
deriving Repr, DecidableEq

namespace Report

/-- The report on a command: a text to print, or why the command fails. -/
def ofResult : Except Failure String → Report
  | .ok text => ⟨0, text, ""⟩
  | .error f => ⟨1, "", "error: " ++ f.message ++ "\n"⟩

/-- The report on arguments that are refused, or answered with help.  The status
and the help are those of the program; the other texts only name the kind of
refusal, in words of their own. -/
def ofUsage : UsageError → Report
  | .helpRequested topic => ⟨0, topic.text, ""⟩
  | .nothingGiven => ⟨2, "", Topic.program.text⟩
  | .unknownArgument => ⟨2, "", "error: unknown argument\n"⟩
  | .unknownCommand => ⟨2, "", "error: unknown command\n"⟩
  | .invalidValue => ⟨2, "", "error: invalid value\n"⟩
  | .unexpectedValue => ⟨2, "", "error: unexpected value\n"⟩
  | .repeatedOption => ⟨2, "", "error: repeated option\n"⟩
  | .missingRequired => ⟨2, "", "error: missing required argument\n"⟩

end Report

/-! ## The program -/

/-- What the program is written with: the files and standard input. -/
structure System (m : Type → Type) extends Access m where
  /-- The bytes of standard input. -/
  input : ExceptT OsError m ByteArray

section Program

variable {m : Type → Type} [Monad m]

/-- Saves an artifact in a directory, which is made if needed. -/
def saveArtifact (files : Access m) (directory : String) (a : Artifact) :
    ExceptT OsError m Unit := do
  files.makeDirectories directory
  files.write (artifactPath directory a) a.contents.toUTF8

namespace System

/-- The text of a schema. -/
def readText (sys : System m) (path : String) : ExceptT LoadError m String :=
  if path = inputPath then
    ExceptT.adapt .unreadableInput do textOf (← sys.input)
  else
    ExceptT.adapt (.unreadableFile path) do textOf (← sys.read path)

/-- The schema at a path. -/
def loadSchema (sys : System m) (path : String) :
    ExceptT LoadError m Schema := do
  let text ← sys.readText path
  (Schema.parse text).mapError LoadError.invalid

/-- What a command makes of its schema.  Nothing is written yet. -/
def prepare (sys : System m) (i : Invocation) : ExceptT Failure m Product := do
  let schema ← ExceptT.adapt .load (sys.loadSchema i.schemaPath)
  (i.product schema).mapError Failure.bridge

/-- Puts what a command made where it belongs, and gives the text to print. -/
def deliver (sys : System m) : Product → ExceptT Failure m String
  | .printed text => return text
  | .saved directory artifact => do
    ExceptT.adapt (.write directory)
      (saveArtifact sys.toAccess directory artifact)
    return ""

/-- Carries out a command. -/
def perform (sys : System m) (i : Invocation) : ExceptT Failure m String := do
  let product ← sys.prepare i
  sys.deliver product

/-- Runs the program on its arguments. -/
def run (sys : System m) (args : List String) : m Report :=
  match Invocation.ofArguments args with
  | .error e => return .ofUsage e
  | .ok i => return .ofResult (← (sys.perform i).run)

end System

end Program

/-! ## Runs on a file tree -/

/-- What a run finds: the file tree and standard input. -/
structure World where
  tree : Tree
  input : ByteArray

namespace World

/-- The files of a world, which change, and its standard input. -/
def system (w : World) : System (StateM Tree) where
  toAccess := Tree.access
  input := return w.input

/-- The text of a schema. -/
def readText (w : World) (path : String) : Except LoadError String :=
  (w.tree.eval (w.system.readText path)).1

/-- The schema at a path. -/
def loadSchema (w : World) (path : String) : Except LoadError Schema :=
  (w.tree.eval (w.system.loadSchema path)).1

end World

/-- Writes an artifact into a directory of a tree. -/
def writeArtifact (t : Tree) (directory : String) (a : Artifact) : Tree.Edit :=
  .ofProgram t (saveArtifact Tree.access directory a)

/-- What a run leaves behind. -/
structure Outcome extends Report where
  tree : Tree

/-- The outcome of a run whose arguments are refused, or answered with help. -/
def Outcome.ofUsage (tree : Tree) (e : UsageError) : Outcome :=
  ⟨.ofUsage e, tree⟩

/-- Runs the program in a world. -/
def run (w : World) (args : List String) : Outcome :=
  match (w.system.run args).run w.tree with
  | (report, tree) => ⟨report, tree⟩

end NativeGlue.Command
