import Bindery.CommandLine.Arguments
import Bindery.Config.File
import Bindery.Destination
/-!
# The command line

What a command does to a tree of files and says about it. Findings come before the failure that they
may have led to, and a failure names what lies behind it.
-/

namespace Bindery

/-- What a command says, and whether it succeeds. -/
structure Outcome where
  exitCode : UInt8
  /-- The lines of its output. -/
  output : List String
  /-- The lines on its side. -/
  errors : List String
  deriving DecidableEq, Repr

/-- A failure with what lies behind it, the outermost first. -/
structure Failure where
  message : String
  causes : List String
  deriving DecidableEq, Repr

namespace Failure

/-- What lies behind a failure to get a configuration. -/
def ofConfig (error : ConfigError) : Failure :=
  ⟨error.message, match error with
    | .unreadable _ cause => [cause.reason]
    | _ => []⟩

/-- What lies behind a failure to survey. -/
def ofSurvey (error : SurveyError) : Failure :=
  ⟨error.message, match error with
    | .unreadable _ cause => [cause.reason]
    | _ => []⟩

/-- What lies behind a failure of a round. -/
def ofRound : RoundError → Failure
  | .config error => ofConfig error
  | .survey error => ofSurvey error
  | error@(.unwritable _ cause) => ⟨error.message, [cause.reason]⟩
  | error => ⟨error.message, []⟩

/-- A failure of something larger. -/
def within (context : String) (failure : Failure) : Failure :=
  ⟨context, failure.message :: failure.causes⟩

/-- The lines about a failure. Several causes are numbered. -/
def lines (failure : Failure) : List String :=
  ("Error: " ++ failure.message) :: match failure.causes with
    | [] => []
    | [cause] => ["", "Caused by:", "    " ++ cause]
    | causes =>
      "" :: "Caused by:" :: causes.mapIdx fun i cause => "    " ++ toString i ++ ": " ++ cause

/-- What a command that fails says. -/
def outcome (failure : Failure) (report : Report) : Outcome :=
  ⟨1, [], report.texts ++ failure.lines⟩

end Failure

namespace Command

/-- The configuration of a command: from the file that it names, or from the one beside the source
root if there is one. -/
def config (tree : FileTree) (source : String) : Option String → Except Failure Config
  | some path =>
    (Config.ofFile tree path).mapError fun error =>
      (Failure.ofConfig error).within ("loading " ++ path)
  | none =>
    let directory := (FilePath.parent? source).getD source
    (Config.ofFileOrDefault tree (FilePath.join directory Config.fileName)).mapError .ofConfig

/-- The generator of a command. -/
def generator (tree : FileTree) (source : String) (path : Option String) :
    Except Failure Generator := do
  (Generator.ofConfig (← config tree source path)).mapError .ofConfig

/-- Lists what would be bound. -/
def runScan (tree : FileTree) (source : String) (path : Option String) : Outcome :=
  match generator tree source path with
  | .error failure => failure.outcome Report.empty
  | .ok generator =>
    match Manifest.ofTree tree source generator.config.crateRoot with
    | .error error => (Failure.ofSurvey error).outcome Report.empty
    | .ok manifest =>
      match generator.accept manifest Report.empty with
      | (report, .error error) => (Failure.ofRound error).outcome report
      | (report, .ok accepted) =>
        ⟨0, (accepted.providers ++ accepted.gateway.toList).map Declaration.text, report.texts⟩

/-- Writes the generated files into a directory and lists them. -/
def runGenerate (tree : FileTree) (source output : String) (path : Option String) :
    FileTree × Outcome :=
  match generator tree source path with
  | .error failure => (tree, failure.outcome Report.empty)
  | .ok generator =>
    match generator.run tree source (.directory output) tree Report.empty with
    | (tree, report, .error error) => (tree, (Failure.ofRound error).outcome report)
    | (tree, report, .ok artifacts) =>
      (tree, ⟨0, artifacts.map fun artifact => FilePath.join output artifact.name, report.texts⟩)

/-- Runs a command. -/
def run (command : Command) (tree : FileTree) : FileTree × Outcome :=
  match command with
  | .scan source path => (tree, runScan tree source path)
  | .generate source output path => runGenerate tree source output path

end Command

/-- How the program is called. -/
def usageLines : List String :=
  ["Usage: tether [-v] scan SRC [-c FILE]",
    "       tether [-v] generate SRC --out DIR [-c FILE]"]

/-- Runs the program with arguments on a tree. -/
def runProgram (arguments : List String) (tree : FileTree) : FileTree × Outcome :=
  match Request.ofArguments arguments with
  | .command command => command.run tree
  | .help => (tree, ⟨0, usageLines, []⟩)
  | .misuse => (tree, ⟨2, [], usageLines⟩)

end Bindery
