import Bindery.Declaration
/-!
# Reports

What is found on the way without stopping it: warnings and errors, each with the place it is about,
in the order in which they came up.
-/

namespace Bindery

/-- How serious a finding is. -/
inductive Level where
  | warning
  | error
  deriving DecidableEq, Repr

/-- The word for a level. -/
def Level.word : Level → String
  | warning => "warning"
  | error => "error"

/-- Something that is to be reported. -/
structure Finding where
  level : Level
  location : Option Location
  message : String
  deriving DecidableEq, Repr

/-- The printed form of a finding. -/
def Finding.text (finding : Finding) : String :=
  finding.level.word ++ ": " ++
    (match finding.location with
      | some location => location.text ++ ": "
      | none => "") ++
    finding.message

/-- The findings so far, the earliest first. -/
structure Report where
  findings : List Finding
  deriving DecidableEq, Repr

namespace Report

/-- Nothing is reported. -/
def empty : Report :=
  ⟨[]⟩

/-- A report with one finding more. -/
def push (report : Report) (finding : Finding) : Report :=
  ⟨report.findings ++ [finding]⟩

/-- Adds a warning about a place. -/
def warn (report : Report) (location : Location) (message : String) : Report :=
  report.push ⟨.warning, some location, message⟩

/-- Adds an error about a place. -/
def error (report : Report) (location : Location) (message : String) : Report :=
  report.push ⟨.error, some location, message⟩

/-- Whether a report holds an error. -/
def hasErrors (report : Report) : Bool :=
  report.findings.any (·.level = .error)

/-- The printed findings. -/
def texts (report : Report) : List String :=
  report.findings.map Finding.text

/-- The findings as lines for the build tool, which takes them all for warnings. -/
def buildLines (report : Report) : List String :=
  report.findings.map fun finding => "cargo:warning=" ++ finding.text

end Report

end Bindery
