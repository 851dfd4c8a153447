import SqlDialect.Text.Path

set_option autoImplicit false

/-! # Files

The files that a run can see, by their place under the root. A path is followed name by name, so a
path through a directory that does not exist leads nowhere even if `..` comes back out of it. -/

namespace SqlDialect

/-- Why a path leads to no file. -/
inductive FileFault where
  | noSuchFile
  | notDirectory
  | isDirectory
  | invalidPath
  | nameTooLong
deriving Repr, DecidableEq

/-- A path that leads to no file, and why. -/
structure FileError where
  path : Bytes
  fault : FileFault
deriving Repr, DecidableEq

namespace FileError

/-- The wording of an error. A directory can be opened but not read. -/
def message (e : FileError) : Bytes :=
  match e.fault with
  | .noSuchFile => ascii "open " ++ e.path ++ ascii ": no such file or directory"
  | .notDirectory => ascii "open " ++ e.path ++ ascii ": not a directory"
  | .isDirectory => ascii "read " ++ e.path ++ ascii ": is a directory"
  | .invalidPath => ascii "open " ++ e.path ++ ascii ": invalid argument"
  | .nameTooLong => ascii "open " ++ e.path ++ ascii ": file name too long"

end FileError

/-- Files by the names on the way from the root, and directories that exist even if they are empty. -/
structure FileTree where
  files : List (List Bytes × Bytes) := []
  directories : List (List Bytes) := []
deriving Repr, DecidableEq

namespace FileTree

/-- The names of an absolute path. -/
def place (path : Bytes) : List Bytes :=
  (Bytes.splitOnByte Path.slash (Path.clean path)).filter fun name => !name.isEmpty

/-- Whether a directory is at the place. -/
def hasDirectory (t : FileTree) (place : List Bytes) : Bool :=
  t.directories.any place.isPrefixOf ||
    t.files.any fun f => place.isPrefixOf f.1 && place != f.1

/-- How many bytes a name may have. -/
def nameLimit : Nat := 255

/-- How many bytes a path may have. -/
def pathLimit : Nat := 4095

/-- Follows names from a directory. -/
def follow (t : FileTree) (dir : List Bytes) : List Bytes → Except FileFault Bytes
  | [] => .error .isDirectory
  | name :: names =>
    if name.isEmpty || name == ascii "." then t.follow dir names
    else if name == ascii ".." then t.follow dir.dropLast names
    else if nameLimit < name.length then .error .nameTooLong
    else
      let inner := dir ++ [name]
      match t.files.lookup inner with
      | some content => if names.isEmpty then .ok content else .error .notDirectory
      | none => if t.hasDirectory inner then t.follow inner names else .error .noSuchFile

/-- Reads the file at a path, as seen from a directory. -/
def read (t : FileTree) (directory path : Bytes) : Except FileError Bytes :=
  let start := if Path.isAbsolute path then [] else place directory
  let found :=
    if path.isEmpty then .error .noSuchFile
    else if path.contains 0 then .error .invalidPath
    else if pathLimit < path.length then .error .nameTooLong
    else t.follow start (Bytes.splitOnByte Path.slash path)
  found.mapError (FileError.mk path)

/-- Adds a file at an absolute path. -/
def insert (t : FileTree) (path content : Bytes) : FileTree :=
  let names := place path
  { t with files := (names, content) :: t.files.filter (·.1 != names) }

end FileTree

end SqlDialect
