import Bindery.CommandLine
/-!
# The program

The paths that a command may look at come from the standard input, one a line; a slash at the end of
a line makes a directory of it. What the command writes is written once it is done.
-/

namespace Bindery.Program

/-- The lines of the standard input. -/
partial def readLines (lines : List String) : IO (List String) := do
  let line ← (← IO.getStdin).getLine
  if line.isEmpty then return lines.reverse
  let path := String.ofList (line.toList.filter (· ≠ '\n'))
  readLines (if path.isEmpty then lines else path :: lines)

/-- What a line stands for. -/
def readNode (path : String) : IO FileNode :=
  if path.toList.getLast? = some '/' then return .directory
  else return .file (← IO.FS.readBinFile path)

/-- The tree of the paths. -/
def readTree (paths : List String) : IO FileTree :=
  paths.foldlM (fun tree path => do
    match tree.plant path (← readNode path) with
    | .ok tree => return tree
    | .error cause => throw (IO.userError (path ++ ": " ++ cause.reason))) FileTree.empty

/-- Writes the file that a path leads to. -/
def writeNode (tree : FileTree) (path : String) : IO Unit :=
  match tree.find path with
  | .ok (_, .file bytes) => do
    match FilePath.parent? path with
    | some "" | none => pure ()
    | some directory => IO.FS.createDirAll directory
    IO.FS.writeBinFile path bytes
  | _ => pure ()

end Bindery.Program

open Bindery in
/-- Runs a command on the tree of the paths that are given. -/
def main (arguments : List String) : IO UInt32 := do
  let tree ← Program.readTree (← Program.readLines [])
  let (after, outcome) := runProgram arguments tree
  after.written.forM (Program.writeNode after)
  outcome.errors.forM IO.eprintln
  outcome.output.forM IO.println
  return outcome.exitCode.toUInt32
