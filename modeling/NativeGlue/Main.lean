import NativeGlue.Command.Run

/-!
# The program on the real files

The operations that a run is made of, carried out by the operating system, and
the program that is run with them.
-/

namespace NativeGlue.Main

open Command Disk

/-- The number of an error of the system, which some calls give negated. -/
def errorNumber (code : UInt32) : UInt32 :=
  if code < 0x80000000 then code else 0 - code

/-- The error that an error of the system is. -/
def osError : IO.Error → OsError
  | .noFileOrDirectory .. => .notFound
  | .alreadyExists .. => .alreadyExists
  | .inappropriateType _ code _ =>
    if errorNumber code = 20 then .notADirectory else .isADirectory
  | .invalidArgument file code details =>
    if errorNumber code = 36 then .nameTooLong
    else .other (toString (IO.Error.invalidArgument file code details))
  | e => .other (toString e)

/-- An operation of the system, with its error as a value. -/
def attempt {α : Type} (operation : IO α) : ExceptT OsError IO α :=
  ExceptT.mk do
    try return .ok (← operation)
    catch e => return .error (osError e)

/-- Makes a directory with all directories above it.  What is above is only made
when it is missing, so that a file in the way is reported as such. -/
def createDirectories (directory : String) : IO Unit := do
  try IO.FS.createDir directory
  catch
    | .noFileOrDirectory .. | .alreadyExists .. => IO.FS.createDirAll directory
    | e => throw e

/-- The files and the standard input of the operating system. -/
def system : System IO where
  read path := attempt (IO.FS.readBinFile path)
  write path contents := attempt (IO.FS.writeBinFile path contents)
  makeDirectories path :=
    if path.isEmpty then return () else attempt (createDirectories path)
  input := attempt do (← IO.getStdin).readBinToEnd

end NativeGlue.Main

/-- Runs the program. -/
def main (args : List String) : IO UInt32 := do
  let report ← NativeGlue.Main.system.run args
  IO.print report.stdout
  IO.eprint report.stderr
  return UInt32.ofNat report.exit
