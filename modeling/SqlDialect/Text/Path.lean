import SqlDialect.Text.Bytes

set_option autoImplicit false

/-! # Paths

Paths with slashes, cleaned by their text alone: empty parts and `.` disappear and `..` takes the
part before it away. -/

namespace SqlDialect

namespace Path

/-- The slash. -/
def slash : UInt8 := 47

/-- Whether the path starts at the root. -/
def isAbsolute (p : Bytes) : Bool :=
  p.head? == some slash

/-- Adds a part to the cleaned parts so far, the last of which comes first. -/
def push (rooted : Bool) (parts : List Bytes) (part : Bytes) : List Bytes :=
  if part.isEmpty || part == ascii "." then parts
  else if part == ascii ".." then
    match parts with
    | [] => if rooted then [] else [part]
    | last :: before => if last == ascii ".." then part :: parts else before
  else part :: parts

/-- The shortest path with the same meaning. -/
def clean (p : Bytes) : Bytes :=
  let rooted := isAbsolute p
  let parts := ((Bytes.splitOnByte slash p).foldl (push rooted) []).reverse
  let body := Bytes.join [slash] parts
  if rooted then slash :: body else if body.isEmpty then ascii "." else body

/-- The path inside a directory; empty if both are. -/
def join (dir p : Bytes) : Bytes :=
  if dir.isEmpty && p.isEmpty then []
  else if dir.isEmpty then clean p
  else clean (dir ++ slash :: p)

/-- A path as seen from a directory. -/
def resolve (dir p : Bytes) : Bytes :=
  if isAbsolute p then p else join dir p

/-- The directory that holds the path. -/
def parent (p : Bytes) : Bytes :=
  clean (((Bytes.cutLast? slash p).map fun (dir, _) => dir ++ [slash]).getD [])

end Path

end SqlDialect
