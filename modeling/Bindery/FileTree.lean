import Bindery.FileError
import Bindery.FilePath
import Bindery.Keyed
/-!
# Trees of files

A tree says what stands at each place: a file with its bytes, or a directory. The root is always a
directory, and paths start from it. A path leads on from a directory only, and two dots lead back.
Operations that change a tree give a new one, or fail and give none.
-/

namespace Bindery

/-- The names that lead from the root of a tree to a place in it. -/
abbrev Place := List String

/-- What stands at a place. -/
inductive FileNode where
  | file (bytes : ByteArray)
  | directory

/-- Whether something is a directory. -/
def FileNode.isDirectory : FileNode → Bool
  | file _ => false
  | directory => true

/-- A tree of files. -/
structure FileTree where
  /-- What stands at the places below the root. -/
  nodes : List (Place × FileNode)
  /-- The paths under which files have been written, the latest last. -/
  written : List String

namespace FileTree

/-- The tree with nothing below its root. -/
def empty : FileTree :=
  ⟨[], []⟩

/-- What stands at a place. -/
def node? (tree : FileTree) (place : Place) : Option FileNode :=
  if place = [] then some .directory else Keyed.find? tree.nodes place

/-- Puts something at a place. -/
def put (tree : FileTree) (place : Place) (node : FileNode) : FileTree :=
  { tree with nodes := Keyed.insert tree.nodes place node }

/-! ## Following a path -/

/-- The place that a part of a path leads to from a directory. -/
def step (place : Place) (part : String) : Place :=
  if part = "" ∨ part = "." then place
  else if part = ".." then place.dropLast
  else place ++ [part]

/-- Fails unless a directory stands at a place. -/
def enter (tree : FileTree) (place : Place) : Except FileError Unit :=
  match tree.node? place with
  | some .directory => .ok ()
  | some (.file _) => .error .notDirectory
  | none => .error .missing

/-- The place that parts of a path lead to. All places on the way have to be directories. -/
def follow (tree : FileTree) (place : Place) : List String → Except FileError Place
  | [] => .ok place
  | part :: rest => do
    tree.enter place
    tree.follow (step place part) rest

/-- The place that a path leads to, and what stands there. -/
def find (tree : FileTree) (path : String) : Except FileError (Place × FileNode) := do
  if path.isEmpty then throw .missing
  let place ← tree.follow [] (FilePath.parts path)
  match tree.node? place with
  | some node => return (place, node)
  | none => throw .missing

/-! ## Looking -/

/-- Whether a path leads to a file. -/
def isFile (tree : FileTree) (path : String) : Bool :=
  match tree.find path with
  | .ok (_, .file _) => true
  | _ => false

/-- The text of the file that a path leads to. -/
def read (tree : FileTree) (path : String) : Except FileError String := do
  match ← tree.find path with
  | (_, .directory) => throw .isDirectory
  | (_, .file bytes) =>
    match String.fromUTF8? bytes with
    | some text => return text
    | none => throw .notText

/-- Whether a path leads to a file that holds a text. -/
def holds (tree : FileTree) (path text : String) : Bool :=
  match tree.read path with
  | .ok found => found == text
  | .error _ => false

/-- What stands below the directory that a path leads to, with the names that lead there. -/
def below (tree : FileTree) (path : String) : List (Place × FileNode) :=
  match tree.find path with
  | .ok (place, .directory) =>
    (tree.nodes.filter fun (other, _) => place.isPrefixOf other && place != other).map
      fun (other, node) => (other.drop place.length, node)
  | _ => []

/-! ## Changing -/

/-- The place of a file to write. Its directory has to be there, and it must not be one itself. -/
def writable (tree : FileTree) (path : String) : Except FileError Place :=
  let parts := (FilePath.parts path).reverse
  match parts.dropWhile (·.isEmpty) with
  | [] => .error (if path.isEmpty then .missing else .isDirectory)
  | name :: before => do
    let directory ← tree.follow [] before.reverse
    tree.enter directory
    let place := directory ++ [name]
    if parts.head? == some "" || name == "." || name == ".." ||
        (tree.node? place).any (·.isDirectory) then throw .isDirectory
    return place

/-- Writes a file, over an earlier one. -/
def write (tree : FileTree) (path text : String) : Except FileError FileTree := do
  let place ← tree.writable path
  let tree := tree.put place (.file text.toUTF8)
  return { tree with written := tree.written ++ [path] }

/-- Makes the directories that parts of a path lead through, as far as they are missing. -/
def makeAlong (tree : FileTree) (place : Place) : List String → Except FileError FileTree
  | [] => .ok tree
  | part :: rest =>
    let next := step place part
    match tree.node? next with
    | some .directory => tree.makeAlong next rest
    | some (.file _) => .error (if rest.all (·.isEmpty) then .alreadyThere else .notDirectory)
    | none => (tree.put next .directory).makeAlong next rest

/-- Makes a directory, and before it those that it lies in, as far as they are missing. -/
def makeDirectory (tree : FileTree) (path : String) : Except FileError FileTree :=
  tree.makeAlong [] (FilePath.parts path)

/-- Puts something at the end of a path, and makes the directories that it lies in. -/
def plant (tree : FileTree) (path : String) (node : FileNode) : Except FileError FileTree := do
  let place := (FilePath.parts path).foldl step []
  return (← tree.makeAlong [] place.dropLast).put place node

/-- Takes away what a path leads to, with all that is below it. -/
def remove (tree : FileTree) (path : String) : Except FileError FileTree := do
  let (place, _) ← tree.find path
  return { tree with nodes := tree.nodes.filter fun (other, _) => !place.isPrefixOf other }

end FileTree

end Bindery
