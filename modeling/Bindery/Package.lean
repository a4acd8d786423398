import Bindery.Config.File
import Bindery.Destination
/-!
# Packages

A package is built from its source directory and its configuration file into an output directory.
The build tool is told of every path that the build depends on, and then of every finding.
-/

namespace Bindery

/-- A package that is built. -/
structure Package where
  /-- The directory with the configuration file. -/
  directory : String
  /-- The directory that files are generated into. -/
  output : String
  deriving DecidableEq, Repr

namespace Package

/-- The package that the environment names. -/
def ofEnvironment (environment : List (String × String)) : Except RoundError Package := do
  let value (name : String) : Except RoundError String :=
    match Keyed.find? environment name with
    | some value => .ok value
    | none => .error (.environment name)
  let directory ← value "CARGO_MANIFEST_DIR"
  let output ← value "OUT_DIR"
  return ⟨directory, output⟩

/-- The source root of a package. -/
def sourceRoot (package : Package) : String :=
  FilePath.join package.directory "src"

/-- The path of the configuration file of a package. -/
def configPath (package : Package) : String :=
  FilePath.join package.directory Config.fileName

/-- The paths that a build depends on. -/
def watched (package : Package) (tree : FileTree) : List String :=
  package.sourceRoot :: tree.withExtension package.sourceRoot "rs" ++ [package.configPath]

/-- Reads the configuration, generates, and writes into the output directory. -/
def generate (package : Package) (tree : FileTree) (report : Report) :
    FileTree × Report × Except RoundError (List Artifact) :=
  match Config.ofFileOrDefault tree package.configPath >>= Generator.ofConfig with
  | .error error => (tree, report, .error (.config error))
  | .ok generator =>
    generator.run tree package.sourceRoot (.directory package.output) tree report

/-- The line that has the build tool watch a path. -/
def watchLine (path : String) : String :=
  "cargo:rerun-if-changed=" ++ path

/-- Generates as a build script does, with the lines for the build tool. -/
def build (package : Package) (tree : FileTree) :
    FileTree × List String × Except RoundError (List Artifact) :=
  let (after, report, outcome) := package.generate tree Report.empty
  (after, (package.watched tree).map watchLine ++ report.buildLines, outcome)

end Package

end Bindery
