import Bindery.Artifact
import Bindery.ShapeRule
import Bindery.Survey
/-!
# Rounds of generation

A round takes a manifest to generated files. Misuse of markers stops it, and nothing is generated;
a declaration that breaks a rule for shapes is reported and left out.
-/

namespace Bindery

open Source (Path)

/-- Why a round fails. -/
inductive RoundError where
  /-- The sources cannot be surveyed. -/
  | survey (error : SurveyError)
  /-- There is no configuration. -/
  | config (error : ConfigError)
  /-- Markers are misused. -/
  | aborted (causes : List Fatal)
  /-- A file cannot be written. -/
  | unwritable (path : String) (cause : FileError)
  /-- A variable of the environment is not set. -/
  | environment (name : String)

/-- The text for a round that misuse of markers has stopped. -/
def abortedMessage (causes : List Fatal) : String :=
  "generation aborted: " ++ String.intercalate "; " (causes.map Fatal.message)

/-- The text of a failure of a round. -/
def RoundError.message : RoundError → String
  | survey error => error.message
  | config error => error.message
  | aborted causes => abortedMessage causes
  | unwritable path cause => "failed to write " ++ path ++ ": " ++ cause.reason
  | environment name =>
    "environment variable `" ++ name ++ "` is not set; is this running from a build script?"

/-- What is to be bound: the declarations that passed the rules, in the order of discovery. -/
structure Accepted where
  providers : List Declaration
  gateway : Option Declaration
  deriving DecidableEq, Repr

/-- The settings of a round, read once. -/
structure Generator where
  config : Config
  rules : ShapeRules
  runtime : Path

namespace Generator

/-- The generator of a configuration. The types of the parameters are read first. -/
def ofConfig (config : Config) : Except ConfigError Generator := do
  let rules ← ShapeRules.ofConfig config
  match Source.readPath config.runtime with
  | .ok runtime => return ⟨config, rules, runtime⟩
  | .error _ => throw (.invalid "runtime" .path config.runtime)

/-- What the generated code of a round depends on. -/
def target (generator : Generator) : Target :=
  ⟨generator.runtime, generator.config.output⟩

/-- The warning about a tag that names no alias. -/
def unresolvedMessage (entry : Entry) (tag : String) : String :=
  "`" ++ entry.path ++ "` is tagged with `" ++ tag ++
    "`, which is not declared with #[marker_alias]"

/-- Reports the tags that name no alias. -/
def reportUnresolved (manifest : Manifest) (report : Report) : Report :=
  manifest.unresolvedTags.foldl
    (fun report (entry, tag) => report.warn entry.location (unresolvedMessage entry tag)) report

/-- The error about a declaration that is left out. -/
def violationMessage (violation : Violation) : String :=
  violation.message ++ " (" ++ violation.rule.name ++ " rule); binding skipped"

/-- The declarations that pass the rules; the others are reported. -/
def validate (rules : ShapeRules) : List Declaration → Report → Report × List Declaration
  | [], report => (report, [])
  | declaration :: rest, report =>
    match rules.check declaration with
    | .ok warnings =>
      let report := warnings.foldl (·.warn declaration.location ·) report
      let (report, passed) := validate rules rest report
      (report, declaration :: passed)
    | .error violation =>
      validate rules rest (report.error declaration.location (violationMessage violation))

/-- The misuses that stop a round, from what was discovered for both roles. -/
def misuses (providers gateways : Except Fatal (List Declaration)) : List Fatal :=
  let causes (discovered : Except Fatal (List Declaration)) : List Fatal :=
    match discovered with
    | .error fatal => [fatal]
    | .ok _ => []
  let several := match gateways with
    | .ok declarations =>
      if declarations.length > 1 then [.multipleGateways (declarations.map (·.path))] else []
    | .error _ => []
  causes providers ++ causes gateways ++ several

/-- Discovers the declarations of a manifest and holds them to the rules. -/
def accept (generator : Generator) (manifest : Manifest) (report : Report) :
    Report × Except RoundError Accepted :=
  let report := reportUnresolved manifest report
  let (report, providers) := manifest.discover .provider report
  let (report, gateways) := manifest.discover .gateway report
  match providers, gateways, misuses providers gateways with
  | .ok providers, .ok gateways, [] =>
    let (report, providers) := validate generator.rules providers report
    let (report, gateways) := validate generator.rules gateways report
    (report, .ok ⟨providers, gateways.head?⟩)
  | _, _, causes => (report, .error (.aborted causes))

/-- The statements of declarations, and the causes that keep any of them from being written. -/
def fragments (runtime : Path) (declarations : List Declaration) : List Fragment × List Fatal :=
  let results := declarations.map (·.fragment runtime)
  (results.filterMap fun result => match result with
    | .ok fragment => some fragment
    | .error _ => none,
  results.filterMap fun result => match result with
    | .ok _ => none
    | .error fatal => some fatal)

/-- The generated files for what is to be bound. -/
def assemble (generator : Generator) (accepted : Accepted) : Except RoundError (List Artifact) :=
  let (providers, providerCauses) := fragments generator.runtime accepted.providers
  let (gateways, gatewayCauses) := fragments generator.runtime accepted.gateway.toList
  let causes := providerCauses ++ gatewayCauses
  if causes.isEmpty then
    (generator.target.emit providers gateways).mapError fun fatal => .aborted [fatal]
  else .error (.aborted causes)

/-- The generated files for a manifest. -/
def generate (generator : Generator) (manifest : Manifest) (report : Report) :
    Report × Except RoundError (List Artifact) :=
  let (report, accepted) := generator.accept manifest report
  (report, accepted.bind generator.assemble)

end Generator

end Bindery
