import NativeGlue.Command.Help

/-!
# Command lines

The commands and how a list of arguments is read as one.  Arguments are taken
from left to right.  A value that stands apart from its option, and the schema
path, are held back until the next known option, the next fitting argument or
the end, and only then checked; an argument that fits nowhere is refused at
once, whatever is held back.
-/

namespace NativeGlue.Command

/-- Why a command line is refused, or answered with help. -/
inductive UsageError where
  | helpRequested (topic : Topic)
  /-- No command is given, which asks for help too. -/
  | nothingGiven
  | unknownArgument
  | unknownCommand
  /-- A value is missing, or empty where it may not be. -/
  | invalidValue
  /-- A flag is given a value. -/
  | unexpectedValue
  | repeatedOption
  | missingRequired
deriving Repr, DecidableEq

/-- The options that take a value. -/
inductive ValueOption where
  | library
  | specName
  | outputDir
deriving Repr, DecidableEq

/-- The options of all commands. -/
inductive Opt where
  | value (option : ValueOption)
  | rejectDuplicates
  | noArgComments
  | verbose
  | help
deriving Repr, DecidableEq

/-- The options that a command knows. -/
structure Grammar where
  topic : Topic
  longNames : List (String × Opt)
  shortNames : List (Char × Opt)
deriving Repr

/-- The options of the command that generates. -/
def Grammar.generate : Grammar where
  topic := .generate
  longNames :=
    [("library", .value .library), ("spec-name", .value .specName),
      ("output-dir", .value .outputDir),
      ("reject-duplicates", .rejectDuplicates),
      ("no-arg-comments", .noArgComments), ("verbose", .verbose),
      ("help", .help)]
  shortNames :=
    [('l', .value .library), ('o', .value .outputDir), ('v', .verbose),
      ('h', .help)]

/-- The options of the command that lists signatures. -/
def Grammar.signatures : Grammar where
  topic := .signatures
  longNames := [("verbose", .verbose), ("help", .help)]
  shortNames := [('v', .verbose), ('h', .help)]

/-- How an argument is spelled. -/
inductive Word where
  /-- Two dashes alone: all that follows is positional. -/
  | terminator
  /-- A long option, perhaps with a value joined to it. -/
  | long (name : String) (value : Option String)
  /-- Letters of short options. -/
  | short (letters : List Char)
  | plain
deriving Repr, DecidableEq

/-- A long option as spelled after its dashes. -/
def Word.ofLong (cs : List Char) : Word :=
  let (name, rest) := cs.span (· != '=')
  .long (String.ofList name)
    (match rest with
      | [] => none
      | _ :: value => some (String.ofList value))

/-- How an argument is spelled. -/
def Word.ofText (text : String) : Word :=
  match text.toList with
  | ['-', '-'] => .terminator
  | '-' :: '-' :: cs => .ofLong cs
  | '-' :: c :: cs => .short (c :: cs)
  | _ => .plain

/-- What the arguments of a command have given. -/
structure Given where
  schema : Option String := none
  library : Option String := none
  specName : Option String := none
  outputDir : Option String := none
  rejectDuplicates : Bool := false
  noArgComments : Bool := false
  verbose : Nat := 0
deriving Repr, DecidableEq

/-- The greatest verbosity. -/
def maxVerbose : Nat := 255

/-- A value for an option that takes one at most once.  An empty value is
refused where it may not be. -/
def once (before : Option String) (mayBeEmpty : Bool) (value : String) :
    Except UsageError (Option String) :=
  if before.isSome then .error .repeatedOption
  else if value.isEmpty && !mayBeEmpty then .error .invalidValue
  else .ok (some value)

namespace Given

/-- Gives an option its value. -/
def setValue (g : Given) (value : String) :
    ValueOption → Except UsageError Given
  | .library => do
    let library ← once g.library true value
    return { g with library }
  | .specName => do
    let specName ← once g.specName true value
    return { g with specName }
  | .outputDir => do
    let outputDir ← once g.outputDir false value
    return { g with outputDir }

/-- Gives the schema path. -/
def setSchema (g : Given) (value : String) : Except UsageError Given := do
  let schema ← once g.schema false value
  return { g with schema }

/-- Gives an option that takes no value. -/
def setFlag (g : Given) (topic : Topic) : Opt → Except UsageError Given
  | .rejectDuplicates =>
    if g.rejectDuplicates then .error .repeatedOption
    else .ok { g with rejectDuplicates := true }
  | .noArgComments =>
    if g.noArgComments then .error .repeatedOption
    else .ok { g with noArgComments := true }
  | .verbose => .ok { g with verbose := min (g.verbose + 1) maxVerbose }
  | .help => .error (.helpRequested topic)
  | .value _ => .error .invalidValue

end Given

/-- What is held back until it can be checked. -/
inductive Pending where
  | nothing
  /-- An option that waits for its value. -/
  | waiting (option : ValueOption)
  | value (option : ValueOption) (value : String)
  | schema (value : String)
deriving Repr, DecidableEq

/-- How far the arguments of a command have been read. -/
structure State where
  given : Given := {}
  pending : Pending := .nothing
  /-- Whether the schema path has been met. -/
  schemaMet : Bool := false
  /-- Whether all arguments that follow are positional. -/
  terminated : Bool := false
deriving Repr, DecidableEq

namespace State

/-- Checks what is held back. -/
def settle (s : State) : Except UsageError Given :=
  match s.pending with
  | .nothing => .ok s.given
  | .waiting _ => .error .invalidValue
  | .value option value => s.given.setValue value option
  | .schema value => s.given.setSchema value

/-- Takes an option with a value that is joined to it, or that is still to
come. -/
def takeValue (s : State) (option : ValueOption) (value : Option String) :
    Except UsageError State := do
  let given ← s.settle
  match value with
  | none => return { s with given, pending := .waiting option }
  | some value =>
    let given ← given.setValue value option
    return { s with given, pending := .nothing }

/-- Takes an option without a value. -/
def takeFlag (s : State) (topic : Topic) (opt : Opt) :
    Except UsageError State := do
  let given ← s.settle
  let given ← given.setFlag topic opt
  return { s with given, pending := .nothing }

/-- Takes a positional argument: the schema path, and no second one. -/
def takePositional (s : State) (text : String) : Except UsageError State :=
  if s.schemaMet then .error .unknownArgument
  else do
    let given ← s.settle
    return { s with given, pending := .schema text, schemaMet := true }

/-- Takes a long option. -/
def takeLong
    (grammar : Grammar) (s : State) (name : String) (value : Option String) :
    Except UsageError State :=
  match grammar.longNames.lookup name with
  | none => .error .unknownArgument
  | some (.value option) => s.takeValue option value
  | some opt =>
    if value.isSome then .error .unexpectedValue
    else s.takeFlag grammar.topic opt

/-- Takes letters of short options.  The letters after an option that takes a
value are its value, less one leading equals sign. -/
def takeShort (grammar : Grammar) (s : State) :
    List Char → Except UsageError State
  | [] => .ok s
  | letter :: letters =>
    match grammar.shortNames.lookup letter with
    | none => .error .unknownArgument
    | some (.value option) =>
      match letters with
      | [] => s.takeValue option none
      | '=' :: value => s.takeValue option (some (String.ofList value))
      | value => s.takeValue option (some (String.ofList value))
    | some opt => do
      let s ← s.takeFlag grammar.topic opt
      takeShort grammar s letters

/-- Takes an argument that is no option: the value that an option waits for, or
a positional argument. -/
def takePlain (s : State) (text : String) : Except UsageError State :=
  match s.pending with
  | .waiting option => .ok { s with pending := .value option text }
  | _ => s.takePositional text

/-- Takes an argument. -/
def take (grammar : Grammar) (s : State) (text : String) :
    Except UsageError State :=
  if s.terminated then s.takePositional text
  else
    match Word.ofText text with
    | .terminator => .ok { s with terminated := true }
    | .long name value => takeLong grammar s name value
    | .short letters => takeShort grammar s letters
    | .plain => s.takePlain text

end State

/-- What the arguments of a command give. -/
def Given.ofArguments (grammar : Grammar) (args : List String) :
    Except UsageError Given := do
  let s ← args.foldlM (State.take grammar) {}
  s.settle

/-- The arguments of the command that generates. -/
structure GenerateParams where
  schemaPath : String
  library : String
  specName : Option String
  outputDir : Option String
  rejectDuplicates : Bool
  noArgComments : Bool
  verbose : Nat
deriving Repr, DecidableEq

/-- The arguments of the command that lists signatures. -/
structure SignaturesParams where
  schemaPath : String
  verbose : Nat
deriving Repr, DecidableEq

/-- A command line. -/
inductive Invocation where
  | generate (params : GenerateParams)
  | signatures (params : SignaturesParams)
deriving Repr, DecidableEq

/-- A value that must have been given. -/
def require {α : Type} (value : Option α) : Except UsageError α :=
  match value with
  | some value => .ok value
  | none => .error .missingRequired

namespace GenerateParams

/-- Reads the arguments of the command that generates. -/
def ofArguments (args : List String) : Except UsageError GenerateParams := do
  let g ← Given.ofArguments .generate args
  let schemaPath ← require g.schema
  let library ← require g.library
  return ⟨schemaPath, library, g.specName, g.outputDir, g.rejectDuplicates,
    g.noArgComments, g.verbose⟩

end GenerateParams

namespace SignaturesParams

/-- Reads the arguments of the command that lists signatures. -/
def ofArguments (args : List String) : Except UsageError SignaturesParams := do
  let g ← Given.ofArguments .signatures args
  let schemaPath ← require g.schema
  return ⟨schemaPath, g.verbose⟩

end SignaturesParams

/-- The command that a name asks help for. -/
def Topic.ofName? : String → Option Topic
  | "generate" => some .generate
  | "signatures" => some .signatures
  | "help" => some .help
  | _ => none

/-- What help is asked for by the names after `help`.  No command has commands
of its own. -/
def Topic.ofNames : List String → Except UsageError Topic
  | [] => .ok .program
  | [name] =>
    match Topic.ofName? name with
    | some topic => .ok topic
    | none => .error .unknownCommand
  | _ => .error .unknownCommand

/-- Reads the arguments after the name of a command. -/
def Invocation.ofCommand (name : String) (args : List String) :
    Except UsageError Invocation :=
  match name with
  | "generate" => do
    let params ← GenerateParams.ofArguments args
    return .generate params
  | "signatures" => do
    let params ← SignaturesParams.ofArguments args
    return .signatures params
  | "help" => do
    let topic ← Topic.ofNames args
    throw (.helpRequested topic)
  | _ => .error .unknownCommand

/-- Why no command can follow two dashes.  The name of a command is refused as
an argument, any other word as a command. -/
def afterTerminator : List String → UsageError
  | [] => .nothingGiven
  | name :: _ =>
    if (Topic.ofName? name).isSome then .unknownArgument else .unknownCommand

/-- Reads the arguments of the program. -/
def Invocation.ofArguments : List String → Except UsageError Invocation
  | [] => .error .nothingGiven
  | arg :: args =>
    match Word.ofText arg with
    | .terminator => .error (afterTerminator args)
    | .long name value =>
      if name = "help" then
        if value.isSome then .error .unexpectedValue
        else .error (.helpRequested .program)
      else .error .unknownArgument
    | .short letters =>
      if letters.head? = some 'h' then .error (.helpRequested .program)
      else .error .unknownArgument
    | .plain => Invocation.ofCommand arg args

end NativeGlue.Command
