/-!
# Help

The help texts of the program and its commands.
-/

namespace NativeGlue.Command

/-- What help is about. -/
inductive Topic where
  | program
  | generate
  | signatures
  | help
deriving Repr, DecidableEq

/-- The lines of a help text. -/
def Topic.lines : Topic → List String
  | program =>
    ["Generate JNI bridge sources from native module schemas",
      "",
      "Usage: jnibridge <COMMAND>",
      "",
      "Commands:",
      "  generate    Generate the JNI bridge source for a schema",
      "  signatures  Show dispatch kind, JNI descriptor and arity of every method",
      "  help        Print this message or the help of the given subcommand(s)",
      "",
      "Options:",
      "  -h, --help  Print help"]
  | generate =>
    ["Generate the JNI bridge source for a schema",
      "",
      "Usage: jnibridge generate <SCHEMA> -l <NAME> [--spec-name <NAME>] [-o <DIR>]",
      "",
      "Arguments:",
      "  <SCHEMA>  Module schema JSON file (use \"-\" for stdin)",
      "",
      "Options:",
      "  -l, --library <NAME>     Library name, used for the module provider function",
      "      --spec-name <NAME>   Spec name for the include and output file " ++
        "(defaults to the library name)",
      "  -o, --output-dir <DIR>   Write the generated file into DIR instead of stdout",
      "      --reject-duplicates  Fail when two schema groups declare the same module name",
      "      --no-arg-comments    Do not annotate host functions with their argument names",
      "  -v, --verbose...         Log progress to stderr (-vv for more)",
      "  -h, --help               Print help",
      "",
      "EXAMPLES:",
      "  jnibridge generate schema.json -l AppSpecs              # print to stdout",
      "  jnibridge generate schema.json -l AppSpecs -o jni/      " ++
        "# writes jni/AppSpecs-generated.cpp",
      "  cat schema.json | jnibridge generate - -l AppSpecs --spec-name AppSpecsJni"]
  | signatures =>
    ["Show dispatch kind, JNI descriptor and arity of every method",
      "",
      "Usage: jnibridge signatures [OPTIONS] <SCHEMA>",
      "",
      "Arguments:",
      "  <SCHEMA>  Module schema JSON file (use \"-\" for stdin)",
      "",
      "Options:",
      "  -v, --verbose...  Log progress to stderr (-vv for more)",
      "  -h, --help        Print help",
      "",
      "EXAMPLES:",
      "  jnibridge signatures schema.json"]
  | help =>
    ["Print this message or the help of the given subcommand(s)",
      "",
      "Usage: jnibridge help [COMMAND]...",
      "",
      "Arguments:",
      "  [COMMAND]...  Print help for the subcommand(s)"]

/-- A help text. -/
def Topic.text (topic : Topic) : String :=
  String.join (topic.lines.map (· ++ "\n"))

end NativeGlue.Command
