import DepthGauge.Storage.NormalPath
import Std.Data.HashMap

/-!
# Files

Programs of this library read files through a `FileReader`. A `FileTree` is a plain value that gives
one.

## Main definitions

* `FileFault`: why a file cannot be read.
* `FileReader`: the contents of the files at all paths.
* `FileTree`: the files and directories below a working directory.
* `FileTree.put`: puts a file or a directory at a path.
* `FileTree.read`: the reader of a tree.
-/

namespace DepthGauge

/-- Why there is no file to read at a path. -/
inductive FileFault where
  /-- Nothing is there. -/
  | missing
  /-- A name on the way belongs to a file. -/
  | notDirectory
  /-- A directory is there. -/
  | isDirectory
  /-- A name or the whole path has too many bytes. -/
  | tooLong
  /-- The path holds a NUL character. -/
  | nulInPath
  /-- Anything else, in the words of the system. -/
  | other (text : String)
deriving DecidableEq, Repr

/-- The wording of a file fault. -/
def FileFault.message : FileFault → String
  | missing => "No such file or directory (os error 2)"
  | notDirectory => "Not a directory (os error 20)"
  | isDirectory => "Is a directory (os error 21)"
  | tooLong => "File name too long (os error 36)"
  | nulInPath => "file name contained an unexpected NUL byte"
  | other text => text

/-- What reading gives for each path. -/
abbrev FileReader := String → Except FileFault (List UInt8)

/-- What a name stands for. -/
inductive FileNode where
  | file (bytes : List UInt8)
  | directory
deriving DecidableEq, Repr

/-- Files and directories by their names from the working directory on. -/
structure FileTree where
  nodes : Std.HashMap (List String) FileNode

/-- A place that a path leads to: one in the tree, or a directory outside it. Nothing is known of
what lies outside, so only other such directories are found from there. -/
inductive Place where
  | inside (names : List String)
  | outside
deriving DecidableEq, Repr

namespace Place

/-- Where a path starts. -/
def start (path : String) : Place := if isAbsolutePath path then outside else inside []

/-- The directory around a place. -/
def parent : Place → Place
  | inside [] => outside
  | inside names => inside names.dropLast
  | outside => outside

end Place

/-- The greatest number of bytes of a name. -/
def maxNameLength : Nat := 255

/-- The greatest number of bytes of a path. -/
def maxPathLength : Nat := 4095

namespace FileTree

/-- The working directory without files. -/
def empty : FileTree := ⟨∅⟩

/-- What stands at a place. -/
def find? (tree : FileTree) (names : List String) : Option FileNode :=
  if names = [] then some .directory else tree.nodes[names]?

/-- Makes a node stand at a place, in the stead of what stood there. -/
def insert (tree : FileTree) (names : List String) (node : FileNode) : FileTree :=
  ⟨tree.nodes.insert names node⟩

/-! ## Writing -/

/-- Goes to a name, and makes a directory of it if nothing is there. -/
def makeDirectory (state : FileTree × Place) (name : String) : FileTree × Place :=
  let (tree, place) := state
  if name = "" ∨ name = "." then state
  else if name = ".." then (tree, place.parent)
  else match place with
    | .outside => state
    | .inside names =>
      let names := names ++ [name]
      if (tree.find? names).isSome then (tree, .inside names)
      else (tree.insert names .directory, .inside names)

/-- Puts a node at a path, and the directories on the way to it where they are missing. -/
def put (tree : FileTree) (path : String) (node : FileNode) : FileTree :=
  let names := pathNames path
  match node with
  | .directory => (names.foldl makeDirectory (tree, .start path)).1
  | .file _ =>
    match names.dropLast.foldl makeDirectory (tree, .start path), names.getLast? with
    | (tree, .inside directory), some name => tree.insert (directory ++ [name]) node
    | (tree, _), _ => tree

/-- The tree with nodes put at some paths, one after the other. -/
def ofList (nodes : List (String × FileNode)) : FileTree :=
  nodes.foldl (fun tree (path, node) => tree.put path node) empty

/-! ## Reading -/

/-- Where a name leads from a place, which has to be a directory. -/
def enter (tree : FileTree) (place : Place) (name : String) : Except FileFault Place :=
  let node? := match place with
    | .inside names => tree.find? names
    | .outside => some .directory
  match node? with
  | none => .error .missing
  | some (.file _) => .error .notDirectory
  | some .directory =>
    if name = "" ∨ name = "." then .ok place
    else if name = ".." then .ok place.parent
    else if maxNameLength < name.utf8ByteSize then .error .tooLong
    else match place with
      | .outside => .error .missing
      | .inside names =>
        if (tree.find? (names ++ [name])).isSome then .ok (.inside (names ++ [name]))
        else .error .missing

/-- The bytes of the file at a path. The path as a whole is checked before it is followed. -/
def read (tree : FileTree) : FileReader := fun path =>
  if '\x00' ∈ path.toList then .error .nulInPath
  else if path = "" then .error .missing
  else if maxPathLength < path.utf8ByteSize then .error .tooLong
  else do
    match ← (pathNames path).foldlM tree.enter (.start path) with
    | .outside => .error .isDirectory
    | .inside names =>
      match tree.find? names with
      | none => .error .missing
      | some (.file bytes) => .ok bytes
      | some .directory => .error .isDirectory

end FileTree

end DepthGauge
