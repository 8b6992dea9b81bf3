import NativeGlue.Disk.Path

/-!
# File trees

A small file tree as data: which places hold a file or a directory.  Reading,
writing and making directories fail for the reasons an operating system gives.
Above the working directory and under the root nothing is known but the
directories that lead there.
-/

namespace NativeGlue.Disk

/-- What a place holds. -/
inductive Node where
  | file (contents : ByteArray)
  | directory

/-- Why an operation on files fails. -/
inductive OsError where
  | notFound
  | alreadyExists
  | notADirectory
  | isADirectory
  | nameTooLong
  /-- A path holds a character that ends names. -/
  | nulInPath
  /-- The bytes that were read are no text. -/
  | notText
  /-- Any other reason, in the words of the system. -/
  | other (wording : String)
deriving Repr, DecidableEq

/-- The wording of an error. -/
def OsError.message : OsError → String
  | notFound => "No such file or directory (os error 2)"
  | alreadyExists => "File exists (os error 17)"
  | notADirectory => "Not a directory (os error 20)"
  | isADirectory => "Is a directory (os error 21)"
  | nameTooLong => "File name too long (os error 36)"
  | nulInPath => "file name contained an unexpected NUL byte"
  | notText => "stream did not contain valid UTF-8"
  | other wording => wording

/-- The text of some bytes. -/
def textOf (bytes : ByteArray) : Except OsError String :=
  match String.fromUTF8? bytes with
  | some text => .ok text
  | none => .error .notText

/-- The operations on files that a program is written with. -/
structure Access (m : Type → Type) where
  /-- The bytes of the file at a path. -/
  read (path : String) : ExceptT OsError m ByteArray
  /-- Writes a file at a path. -/
  write (path : String) (contents : ByteArray) : ExceptT OsError m Unit
  /-- Makes the directory at a path with all directories above it.  The empty
  path is the working directory. -/
  makeDirectories (path : String) : ExceptT OsError m Unit

/-- A file tree: the places that hold something. -/
structure Tree where
  nodes : List (Place × Node)

namespace Tree

/-- The tree in which nothing is known. -/
def empty : Tree := ⟨[]⟩

/-- What a place holds. -/
def node? (t : Tree) (p : Place) : Option Node :=
  if p.isAncestor then some .directory else t.nodes.lookup p

/-- The tree in which a place holds something else. -/
def put (t : Tree) (p : Place) (node : Node) : Tree :=
  ⟨(p, node) :: t.nodes.filter (·.1 ≠ p)⟩

/-- The most bytes that a name may have. -/
def maxNameBytes : Nat := 255

/-- What a name leads to from a directory. -/
def child? (t : Tree) (p : Place) (name : String) :
    Except OsError (Option Node) :=
  if maxNameBytes < name.utf8ByteSize then .error .nameTooLong
  else .ok (t.node? (p ++ [name]))

/-- The directory that pieces lead to from a directory. -/
def walk (t : Tree) : Place → List String → Except OsError Place
  | p, [] => .ok p
  | p, piece :: rest =>
    if piece = "." then walk t p rest
    else if piece = ".." then walk t p.parent rest
    else do
      match ← t.child? p piece with
      | none => throw .notFound
      | some (.file _) => throw .notADirectory
      | some .directory => walk t (p ++ [piece]) rest

/-- What a path leads to: a directory and the name in it, or a directory
alone. -/
inductive Target where
  | child (directory : Place) (name : String)
  | directory (place : Place)
deriving Repr, DecidableEq

/-- Follows pieces from a place, all but the last one, which may be missing. -/
def target (t : Tree) (start : Place) (pieces : List String) :
    Except OsError Target :=
  match pieces.getLast? with
  | none => .ok (.directory start)
  | some last =>
    if last = "." ∨ last = ".." then do
      let place ← t.walk start pieces
      return .directory place
    else do
      let directory ← t.walk start pieces.dropLast
      return .child directory last

/-- The most bytes that a path may have. -/
def maxPathBytes : Nat := 4095

/-- Refuses a path that is no name of anything. -/
def checkPath (path : String) : Except OsError Unit :=
  if path.toList.contains '\x00' then .error .nulInPath
  else if path.isEmpty then .error .notFound
  else if maxPathBytes < path.utf8ByteSize then .error .nameTooLong
  else .ok ()

/-- The bytes of the file at a path. -/
def read (t : Tree) (path : String) : Except OsError ByteArray := do
  checkPath path
  match ← t.target (Place.start path) (pieces path) with
  | .directory _ => throw .isADirectory
  | .child directory name =>
    match ← t.child? directory name with
    | none => throw .notFound
    | some .directory => throw .isADirectory
    | some (.file contents) =>
      if endsInSlash path then throw .notADirectory else return contents

/-- Writes a file at a path. -/
def write (t : Tree) (path : String) (contents : ByteArray) :
    Except OsError Tree := do
  checkPath path
  match ← t.target (Place.start path) (pieces path) with
  | .directory _ => throw .isADirectory
  | .child directory name =>
    match ← t.child? directory name with
    | some .directory => throw .isADirectory
    | none =>
      if endsInSlash path then throw .isADirectory
      else return t.put (directory ++ [name]) (.file contents)
    | some (.file _) =>
      if endsInSlash path then throw .notADirectory
      else return t.put (directory ++ [name]) (.file contents)

/-- Makes the directory that pieces lead to from a place. -/
def makeDirectory (t : Tree) (start : Place) (pieces : List String) :
    Except OsError Tree := do
  match ← t.target start pieces with
  | .directory _ => throw .alreadyExists
  | .child directory name =>
    match ← t.child? directory name with
    | some _ => throw .alreadyExists
    | none => return t.put (directory ++ [name]) .directory

/-- Whether pieces lead from a place to a directory. -/
def isDirectory (t : Tree) (start : Place) (pieces : List String) : Bool :=
  match t.walk start pieces with
  | .ok _ => true
  | .error _ => false

/-- Makes a directory, or finds it made. -/
def ensureDirectory (t : Tree) (start : Place) (pieces : List String) :
    Except OsError Tree :=
  match t.makeDirectory start pieces with
  | .ok made => .ok made
  | .error e => if t.isDirectory start pieces then .ok t else .error e

/-- What a sequence of changes comes to: the tree it leaves, and why it stopped
if it did not come to its end. -/
structure Edit where
  tree : Tree
  failure : Option OsError

namespace Edit

/-- One change of a tree, which leaves the tree as it was if it fails. -/
def ofExcept (t : Tree) : Except OsError Tree → Edit
  | .ok changed => ⟨changed, none⟩
  | .error e => ⟨t, some e⟩

/-- Whether the changes have come to their end. -/
def outcome (e : Edit) : Except OsError Unit :=
  match e.failure with
  | none => .ok ()
  | some cause => .error cause

/-- Goes on after changes that have come to their end. -/
def andThen (e : Edit) (next : Tree → Edit) : Edit :=
  match e.failure with
  | none => next e.tree
  | some _ => e

end Edit

/-- Makes the directories that pieces, given backwards, lead through from a
place. -/
def makeAncestors (start : Place) : List String → Tree → Edit
  | [], t => ⟨t, none⟩
  | piece :: above, t =>
    match t.ensureDirectory start (piece :: above).reverse with
    | .error .notFound =>
      (makeAncestors start above t).andThen fun t =>
        .ofExcept t (t.ensureDirectory start (piece :: above).reverse)
    | outcome => .ofExcept t outcome

/-- Makes the directory at a path with all directories above it.  The empty path
is the working directory. -/
def makeDirectories (t : Tree) (path : String) : Edit :=
  if path.isEmpty then ⟨t, none⟩
  else
    match checkPath path with
    | .error e => ⟨t, some e⟩
    | .ok () =>
      let start := Place.start path
      let all := pieces path
      match t.ensureDirectory start all with
      | .error .notFound =>
        (makeAncestors start (all.filter (· ≠ ".")).dropLast.reverse t).andThen
          fun t => .ofExcept t (t.ensureDirectory start all)
      | outcome => .ofExcept t outcome

/-- What a program that works on a tree gives, and the tree it leaves. -/
def eval {ε α : Type} (t : Tree) (program : ExceptT ε (StateM Tree) α) :
    Except ε α × Tree :=
  program.run.run t

/-- The program that makes a sequence of changes. -/
def change (edit : Tree → Edit) : ExceptT OsError (StateM Tree) Unit :=
  ExceptT.mk fun t => ((edit t).outcome, (edit t).tree)

/-- What the changes that a program makes come to. -/
def Edit.ofProgram (t : Tree) (program : ExceptT OsError (StateM Tree) Unit) :
    Edit :=
  match t.eval program with
  | (.ok (), changed) => ⟨changed, none⟩
  | (.error e, changed) => ⟨changed, some e⟩

/-- The operations on the files of a tree. -/
def access : Access (StateM Tree) where
  read path := ExceptT.mk fun t => (t.read path, t)
  write path contents := change fun t => .ofExcept t (t.write path contents)
  makeDirectories path := change fun t => t.makeDirectories path

/-- Lays out a file at a path with all directories above it. -/
def layOut (t : Tree) (path : String) (contents : ByteArray) : Tree :=
  let place := pieces path
  let made := (List.range place.length).foldl
    (fun t n => if n = 0 then t else t.put (place.take n) .directory) t
  made.put place (.file contents)

/-- The files inside the working directory, with their paths. -/
def files (t : Tree) : List (String × ByteArray) :=
  t.nodes.filterMap fun (place, node) =>
    match node with
    | .file contents =>
      if place.isInside then some (place.path, contents) else none
    | .directory => none

/-- The files of a tree that another tree does not hold in the same way. -/
def changedFrom (t before : Tree) : List (String × ByteArray) :=
  (t.files.filter fun f => !before.files.contains f).mergeSort
    (fun a b => a.1 ≤ b.1)

end Tree

end NativeGlue.Disk
