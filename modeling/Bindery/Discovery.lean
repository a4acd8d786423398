import Bindery.Manifest
import Bindery.Report
/-!
# Discovery

Discovery turns the entries of a manifest into declarations for one role, in manifest order. An
alias is replaced, where it stands, by every entry that is tagged with its name. Aliases are not
followed any further: one that is reached through another is reported and left out.
-/

namespace Bindery

/-- A misuse of markers that stops a round of generation. -/
inductive Fatal where
  /-- More than one declaration is the interceptor. -/
  | multipleGateways (paths : List String)
  /-- A mark is on something that is neither a type nor a function. -/
  | unsupportedCategory (role : Role) (word name : String) (location : Location)
  /-- What is to be bound has a path that cannot be written. -/
  | invalidPath (name : String) (location : Location) (reason : String)
  deriving DecidableEq, Repr

/-- The text of a misuse. -/
def Fatal.message : Fatal → String
  | multipleGateways paths =>
    "only one #[gateway] may exist, found " ++ toString paths.length ++ ": " ++
      String.intercalate ", " paths
  | unsupportedCategory role word name location =>
    location.text ++ ": #[" ++ role.name ++ "] is not supported on " ++ word ++ " `" ++ name ++ "`"
  | invalidPath name location reason =>
    location.text ++ ": `" ++ name ++ "` is not a valid path: " ++ reason

/-- What a mark leads to. -/
inductive Reach where
  /-- An entry that is to be declared. -/
  | entry (entry : Entry) (carrier : Carrier)
  /-- An alias that is reached through another one. -/
  | nested (inner outer : Entry)

namespace Manifest

/-- What the marks of an entry lead to. -/
def reachOf (manifest : Manifest) (role : Role) (entry : Entry) : List Reach :=
  (entry.marks role).flatMap fun mark =>
    if entry.isAlias then
      (manifest.taggedWith entry).map fun target =>
        if target.isAlias then .nested target entry else .entry target ⟨mark, some entry.path⟩
    else [.entry entry ⟨mark, none⟩]

/-- What all marks for a role lead to. -/
def reach (manifest : Manifest) (role : Role) : List Reach :=
  manifest.entries.flatMap (manifest.reachOf role)

/-- The shape of an entry, if it is a type or a function. -/
def shape? (manifest : Manifest) (entry : Entry) : Option Shape :=
  match entry.category with
  | .function shape => some (.function shape)
  | _ => (manifest.typeShape? entry).map .type

/-- The declaration of an entry. -/
def declare (manifest : Manifest) (entry : Entry) (carrier : Carrier) :
    Except Fatal Declaration :=
  match manifest.shape? entry with
  | some shape => .ok ⟨entry.path, entry.scope, shape, carrier, entry.location⟩
  | none =>
    .error (.unsupportedCategory carrier.role entry.category.word entry.path entry.location)

/-- The warning about an alias that is reached through another one. -/
def nestedAliasMessage (inner outer : Entry) : String :=
  "marker alias `" ++ inner.path ++ "` reached through alias `" ++ outer.path ++
    "` is not expanded further"

/-- Declares what is reached, in order, up to the first entry that cannot be declared. What was
reported until then stays. -/
def declareAll (manifest : Manifest) :
    List Reach → Report → Report × Except Fatal (List Declaration)
  | [], report => (report, .ok [])
  | .nested inner outer :: rest, report =>
    manifest.declareAll rest (report.warn inner.location (nestedAliasMessage inner outer))
  | .entry entry carrier :: rest, report =>
    match manifest.declare entry carrier with
    | .error fatal => (report, .error fatal)
    | .ok declaration =>
      let (report, declarations) := manifest.declareAll rest report
      (report, declarations.map (declaration :: ·))

/-- The declarations for a role. -/
def discover (manifest : Manifest) (role : Role) (report : Report) :
    Report × Except Fatal (List Declaration) :=
  manifest.declareAll (manifest.reach role) report

end Manifest

end Bindery
