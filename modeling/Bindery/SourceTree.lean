import Bindery.FileTree
import Bindery.Survey
import Bindery.Survey.ModulePath
/-!
# Sources in a tree

Which files below a source root belong to the crate, in the order of their paths, and what a survey
of them finds. A survey ends at the first file that it cannot read or understand.
-/

namespace Bindery

namespace FileTree

/-- The paths that a walk meets: that of its root and those of all that is below it. -/
def walk (tree : FileTree) (root : String) : List String :=
  match tree.find root with
  | .ok _ =>
    root :: (tree.below root).map fun (names, _) =>
      FilePath.join root (String.intercalate "/" names)
  | .error _ => []

/-- The paths with an extension that a walk meets, in their order. -/
def withExtension (tree : FileTree) (root extension : String) : List String :=
  ((tree.walk root).filter (FilePath.extension? · == some extension)).mergeSort FilePath.precedes

/-- Whether a file below a source root belongs to the crate. Those in `bin` do not, and the main
file does so only in the absence of a library file. -/
def isSource (tree : FileTree) (root file : String) : Bool :=
  match FilePath.relative? root file with
  | some ("bin" :: _) => false
  | some ["main.rs"] => !tree.isFile (FilePath.join root "lib.rs")
  | _ => true

/-- The source files of the crate below a root, in their order. -/
def sources (tree : FileTree) (root : String) : List String :=
  (tree.withExtension root "rs").filter (tree.isSource root)

end FileTree

/-- Surveys the files of a tree one after the other. A file that has no module is passed over. -/
def Survey.ofFiles (tree : FileTree) (root crateRoot : String) :
    List String → Except SurveyError Survey
  | [] => .ok empty
  | file :: rest =>
    match modulePath? root file crateRoot with
    | none => ofFiles tree root crateRoot rest
    | some module => do
      let text ← (tree.read file).mapError (.unreadable file)
      let first ← ofSource ⟨file, module, text⟩
      return first ++ (← ofFiles tree root crateRoot rest)

/-- The manifest of the crate below a source root. -/
def Manifest.ofTree (tree : FileTree) (root crateRoot : String) : Except SurveyError Manifest :=
  (Survey.ofFiles tree root crateRoot (tree.sources root)).map Survey.manifest

end Bindery
