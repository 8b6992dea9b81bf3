import NativeGlue.Main
import NativeGlue.Proofs.Lookup
import NativeGlue.Proofs.Occurrences
import NativeGlue.Proofs.Symbols
import NativeGlue.Proofs.Extension
import NativeGlue.Proofs.Offences
import NativeGlue.Proofs.Outline
import NativeGlue.Proofs.Rendering
import NativeGlue.Proofs.Inlining
import NativeGlue.Proofs.Descriptors
import NativeGlue.Proofs.Translation
import NativeGlue.Proofs.Conformance
import NativeGlue.Proofs.Mirror
import NativeGlue.Proofs.Runs
import NativeGlue.Proofs.Json.Grammar
import NativeGlue.Raw.Decode
import NativeGlue.Raw.Encode
import NativeGlue.Proofs.Json.Scan
import NativeGlue.Proofs.Json.Strings
import NativeGlue.Proofs.Json.Layout
import NativeGlue.Proofs.Json.Value
import NativeGlue.Proofs.Json.Walk
import NativeGlue.Proofs.Raw.Walk
import NativeGlue.Proofs.Raw.Rows
import NativeGlue.Proofs.Raw.Reader
import NativeGlue.Proofs.Json.Print
import NativeGlue.Proofs.Json.Respace
import NativeGlue.Proofs.Raw.Encode
import NativeGlue.Proofs.Raw.Depth
import NativeGlue.Proofs.Raw.Edits
import NativeGlue.Proofs.Raw.Repeats
import NativeGlue.Proofs.Loading
import NativeGlue.Proofs.Comments
import NativeGlue.Proofs.CommandLine
