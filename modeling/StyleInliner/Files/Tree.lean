/-
Files kept in memory, and how a path leads to one.

A path is followed part by part, from the root if it begins with a slash and from
the home directory if it does not.  Only a directory leads further, even to
itself, so a file that is not at the end of a path is a fault.  A slash at the end
asks for a directory, and a directory can be neither read nor written.
-/
import StyleInliner.Files
import StyleInliner.Text.Blank

namespace StyleInliner

/-- Files by the parts that lead to them from the root.  A directory is there as long as a file is
below it; the home directory is always there. -/
structure FileTree where
  home : List String
  files : List (List String × ByteArray)
  deriving Inhabited

/-- What a path leads to, with the parts that lead there from the root. -/
inductive Place where
  | directory (parts : List String)
  | file (parts : List String) (bytes : ByteArray)
  deriving Inhabited

namespace FileTree

/-! ### Paths -/

/-- How many bytes a part of a path may have. -/
def partLimit : Nat := 255

/-- How many bytes a path may have. -/
def pathLimit : Nat := 4095

/-- The parts of a path: what stands between its slashes, unless nothing does. -/
def partsOf (path : String) : List String :=
  ((Text.splitAt '/' path.toList).filter (!·.isEmpty)).map String.ofList

/-- Whether a path begins at the root. -/
def isAbsolute (path : String) : Bool :=
  path.toList.head? == some '/'

/-- Whether a path asks for a directory. -/
def endsInSlash (path : String) : Bool :=
  path.toList.getLast? == some '/'

/-- Refuses a path that cannot lead anywhere. -/
def checkPath (path : String) : Except FileError Unit :=
  if path.isEmpty then .error .notFound
  else if pathLimit < path.utf8ByteSize then .error .nameTooLong
  else .ok ()

/-! ### Following a path -/

/-- Whether parts lead to a directory. -/
def isDirectory (t : FileTree) (parts : List String) : Bool :=
  parts.isPrefixOf t.home ||
    t.files.any fun (file, _) => parts.isPrefixOf file && parts.length < file.length

/-- What parts lead to, if they lead anywhere. -/
def place? (t : FileTree) (parts : List String) : Option Place :=
  match t.files.lookup parts with
  | some bytes => some (.file parts bytes)
  | none => if t.isDirectory parts then some (.directory parts) else none

/-- Goes one part further. -/
def enter (t : FileTree) (part : String) : Place → Except FileError Place
  | .file .. => .error .notDirectory
  | .directory parts =>
    if part = "." then .ok (.directory parts)
    else if part = ".." then .ok (.directory parts.dropLast)
    else if partLimit < part.utf8ByteSize then .error .nameTooLong
    else
      match t.place? (parts ++ [part]) with
      | some place => .ok place
      | none => .error .notFound

/-- Follows parts of a path from where it begins. -/
def follow (t : FileTree) (path : String) (parts : List String) : Except FileError Place :=
  let start := Place.directory (if isAbsolute path then [] else t.home)
  parts.foldlM (fun place part => t.enter part place) start

/-! ### Reading and writing -/

/-- Reads a file. -/
def read (t : FileTree) (path : String) : Except FileError ByteArray := do
  checkPath path
  match ← t.follow path (partsOf path) with
  | .directory _ => throw .isDirectory
  | .file _ bytes => if endsInSlash path then throw .notDirectory else return bytes

/-- Gives a file its bytes, whether it is there or not. -/
def put (t : FileTree) (parts : List String) (bytes : ByteArray) : FileTree :=
  { t with files := (parts, bytes) :: t.files.filter (·.1 != parts) }

/-- Writes a file, which need not be there; the directory that it is in has to be. -/
def write (t : FileTree) (path : String) (bytes : ByteArray) : Except FileError FileTree := do
  checkPath path
  match (partsOf path).reverse with
  | [] => throw .isDirectory
  | part :: before =>
    match ← t.follow path before.reverse with
    | .file .. => throw .notDirectory
    | .directory parts =>
      if part = "." ∨ part = ".." ∨ endsInSlash path then throw .isDirectory
      if partLimit < part.utf8ByteSize then throw .nameTooLong
      if t.isDirectory (parts ++ [part]) then throw .isDirectory
      return t.put (parts ++ [part]) bytes

/-- The files of a tree that is the state of the run. -/
def access : Files (StateM FileTree) where
  read path := do return (← get).read path
  write path text := do
    match (← get).write path text.toUTF8 with
    | .ok t => set t; return .ok ()
    | .error e => return .error e

end FileTree

end StyleInliner
