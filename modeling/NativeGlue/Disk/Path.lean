/-!
# Paths

A path is a text; its pieces are what stands between its slashes.  Pieces lead
from place to place: a place is a list of names from the working directory down.
The directories above the working directory are places too, spelled with `..`,
and so is the root of all places, spelled with `/`.
-/

namespace NativeGlue.Disk

/-- The pieces of a path: the maximal runs of characters other than a slash.
The first argument is the run that has been started, backwards. -/
def piecesFrom : List Char → List Char → List (List Char)
  | run, [] => if run.isEmpty then [] else [run.reverse]
  | run, c :: cs =>
    if c = '/' then
      if run.isEmpty then piecesFrom [] cs else run.reverse :: piecesFrom [] cs
    else piecesFrom (c :: run) cs

/-- The pieces of a path. -/
def pieces (path : String) : List String :=
  (piecesFrom [] path.toList).map String.ofList

/-- Whether a path starts at the root. -/
def isAbsolute (path : String) : Bool := path.toList.head? == some '/'

/-- Whether a path ends in a slash. -/
def endsInSlash (path : String) : Bool := path.toList.getLast? == some '/'

/-- The path of a name inside a directory.  A slash stands between the two
unless the directory is empty or ends in one; an absolute name stands alone. -/
def join (directory name : String) : String :=
  if isAbsolute name then name
  else if directory.isEmpty || endsInSlash directory then directory ++ name
  else directory ++ "/" ++ name

/-- A place in the file tree: names from the working directory down. -/
abbrev Place := List String

namespace Place

/-- The root of all places. -/
def root : Place := ["/"]

/-- Where a path starts. -/
def start (path : String) : Place := if isAbsolute path then root else []

/-- Whether a place is the working directory, a directory above it, or the
root. -/
def isAncestor (p : Place) : Bool := p == root || p.all (· == "..")

/-- Whether a place is inside the working directory. -/
def isInside (p : Place) : Bool :=
  match p.head? with
  | none => true
  | some name => name != ".." && name != "/"

/-- The directory that a place is in. -/
def parent (p : Place) : Place :=
  if p == root then root else if p.isAncestor then ".." :: p else p.dropLast

/-- The path of a place. -/
def path (p : Place) : String := String.intercalate "/" p

end Place

end NativeGlue.Disk
