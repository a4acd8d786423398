import Bindery.FileTree
import Bindery.Round
import Bindery.SourceTree
/-!
# Destinations

Where generated files go: a directory of a tree, or a keyed list of texts. Files are written in
order, and the first failure ends the writing; what was written until then stays.
-/

namespace Bindery

/-- Where generated files go. -/
structure Destination (State : Type) where
  write : Artifact → State → State × Except RoundError Unit

namespace Destination

/-- Writes files in order, up to the first failure. -/
def writeAll {State : Type} (destination : Destination State) :
    List Artifact → State → State × Except RoundError Unit
  | [], state => (state, .ok ())
  | artifact :: rest, state =>
    match destination.write artifact state with
    | (state, .ok ()) => destination.writeAll rest state
    | (state, .error error) => (state, .error error)

/-- A directory of a tree, made when it is first needed. A file that holds its text already is left
alone. -/
def directory (path : String) : Destination FileTree where
  write artifact tree :=
    let file := FilePath.join path artifact.name
    if tree.holds file artifact.contents then (tree, .ok ())
    else
      match tree.makeDirectory path with
      | .error cause => (tree, .error (.unwritable path cause))
      | .ok tree =>
        match tree.write file artifact.contents with
        | .error cause => (tree, .error (.unwritable file cause))
        | .ok tree => (tree, .ok ())

/-- A keyed list, which holds the texts of files by their names. -/
def memory : Destination (List (String × String)) where
  write artifact files := (Keyed.insert files artifact.name artifact.contents, .ok ())

end Destination

/-- Surveys the sources below a root, generates, and writes. Nothing is written unless all files
could be generated. -/
def Generator.run {State : Type} (generator : Generator) (tree : FileTree) (root : String)
    (destination : Destination State) (state : State) (report : Report) :
    State × Report × Except RoundError (List Artifact) :=
  match Manifest.ofTree tree root generator.config.crateRoot with
  | .error error => (state, report, .error (.survey error))
  | .ok manifest =>
    match generator.generate manifest report with
    | (report, .error error) => (state, report, .error error)
    | (report, .ok artifacts) =>
      let (state, outcome) := destination.writeAll artifacts state
      (state, report, outcome.map fun _ => artifacts)

end Bindery
