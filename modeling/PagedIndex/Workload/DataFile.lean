import PagedIndex.Store.Backing

namespace PagedIndex.Workload

inductive Node
  | directory
  | nullDevice
deriving DecidableEq, Repr

-- The names that lead from the root to a node, the last one first.
abbrev Place := List String

-- What exists before the data file, and the current directory.
structure FileSystem where
  node? : Place → Option Node
  current : Place

namespace FileSystem

-- in bytes
def maxNameLength : Nat := 255

def maxPathLength : Nat := 4095

def lookUp (fs : FileSystem) (place : Place) (name : String) : Except IoError (Option Node) :=
  if name.utf8ByteSize ≤ maxNameLength then .ok (fs.node? (name :: place))
  else .error .nameTooLong

-- Follow a name that must lead to a directory.
def enter (fs : FileSystem) (place : Place) (name : String) : Except IoError Place := do
  if name = "." then return place
  if name = ".." then return place.tail
  match ← fs.lookUp place name with
  | some .directory => return name :: place
  | some .nullDevice => throw .notDirectory
  | none => throw .notFound

-- Create a file under a name, or empty the one that is there.
def createAt (fs : FileSystem) (place : Place) (name : String) : Except IoError Backing := do
  if name = "." ∨ name = ".." then throw .isDirectory
  match ← fs.lookUp place name with
  | some .directory => throw .isDirectory
  | some .nullDevice => return .null .device
  | none => return .file .empty

-- A path that ends in a slash names a directory, even one that is not there.
def create (fs : FileSystem) (path : String) : Except IoError Backing := do
  if maxPathLength < path.utf8ByteSize then throw .nameTooLong
  if path = "" then throw .notFound
  let names := (path.splitOn "/").filter fun name => name ≠ ""
  let start := if path.startsWith "/" then [] else fs.current
  let place ← names.dropLast.foldlM fs.enter start
  match names.getLast? with
  | some name => if path.endsWith "/" then throw .isDirectory else fs.createAt place name
  | none => throw .isDirectory

end FileSystem

end PagedIndex.Workload
