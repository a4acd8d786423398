import Bindery.FileError
import Bindery.Manifest
import Bindery.Source.Reading
import Bindery.Source.Type.Erasure
/-!
# Surveys of sources

A survey goes over the items of a source and notes those that carry a marker, the trait
implementations, and the modules that are compiled for tests only. What lies in such a module is
dropped when the manifest is made. An attribute is known by the last name of its path.
-/

namespace Bindery

open Source (Attribute AttributeBody Fault Item Member Signature Ty Path readFile)

/-! ## Markers of an item -/

/-- Why an attribute is no marker although it has the name of one. -/
inductive MalformedMarker where
  /-- Nothing follows the path of the attribute. -/
  | noArguments (inner : Bool) (path : Path)
  /-- An equals sign follows the path. -/
  | notParenthesized (inner : Bool) (path : Path)
  | unreadable (fault : Fault)
  | keyEmpty
  | hasArguments
  | notUnitStruct (ident : String)

/-- A path as it is shown, without generic arguments. -/
def shownPath (path : Path) : String :=
  (if path.absolute then "::" else "") ++ String.intercalate "::" path.names

/-- The text of a fault in a marker. -/
def MalformedMarker.message : MalformedMarker → String
  | noArguments inner path =>
    "expected attribute arguments in parentheses: " ++ opening inner ++ shownPath path ++ "(...)]"
  | notParenthesized inner path =>
    "expected parentheses: " ++ opening inner ++ shownPath path ++ "(...)]"
  | unreadable fault => fault.message
  | keyEmpty => "key must not be empty"
  | hasArguments => "unexpected token in attribute"
  | notUnitStruct ident => "`" ++ ident ++ "` is not a unit struct"
where
  /-- The opening of an attribute. -/
  opening (inner : Bool) : String :=
    if inner then "#![" else "#["

/-- Reads the arguments of an attribute. -/
def readArguments {α : Type} (attr : Attribute)
    (grammar : Source.Grammar.Rules → Source.Grammar α) : Except MalformedMarker α :=
  match attr.body with
  | .nothing => .error (.noArguments attr.inner attr.path)
  | .value => .error (.notParenthesized attr.inner attr.path)
  | .list _ args => (Source.readTrees grammar args).mapError .unreadable

/-- An attribute that takes no arguments has none. -/
def checkBare (attr : Attribute) : Except MalformedMarker Unit :=
  match attr.body with
  | .nothing => .ok ()
  | _ => .error .hasArguments

/-- What an attribute says about its item. -/
inductive Saying where
  | marker (marker : Marker)
  /-- The item is an alias. -/
  | isAlias
  /-- The attribute is of another kind. -/
  | nothing
  deriving DecidableEq

/-- What an attribute says about its item. -/
def Saying.ofAttribute (attr : Attribute) : Except MalformedMarker Saying := do
  match attr.path.lastName with
  | "provider" =>
    let key ← readArguments attr fun _ => Source.Grammar.string
    if key.isEmpty then throw .keyEmpty else return .marker (.provider key)
  | "gateway" =>
    checkBare attr
    return .marker .gateway
  | "tagged" =>
    let path ← readArguments attr Source.Grammar.anyPath
    return .marker (.tagged path.lastName)
  | "marker_alias" =>
    checkBare attr
    return .isAlias
  | _ => return .nothing

/-! ## Conditions -/

/-- Whether an attribute puts its item into the tests alone. -/
def isTestCondition (attr : Attribute) : Bool :=
  attr.path.isName "cfg" &&
    match readArguments attr fun _ => Source.Grammar.ident with
    | .ok name => name.text == "test"
    | .error _ => false

/-- Whether an attribute derives a trait. -/
def isDerivation (interface : String) (attr : Attribute) : Bool :=
  attr.path.isName "derive" &&
    match readArguments attr fun rules =>
        Source.Grammar.terminated (Source.Grammar.anyPath rules) with
    | .ok (paths, _) => paths.any (·.lastName == interface)
    | .error _ => false

/-! ## Shapes -/

/-- The shape of a function. The unit type is no return type. -/
def FunctionShape.ofSignature (visibility : Visibility) (signature : Signature) :
    FunctionShape where
  visibility := visibility
  receiver := signature.receiver
  params := signature.params.map Ty.canonical
  output := (signature.output.map Ty.canonical).filter (· != "()")

/-- The last name of a type that is a path. -/
def typeName? : Ty → Option String
  | .path none path => some path.lastName
  | _ => none

/-! ## Going over the items -/

/-- Why a source cannot be surveyed. -/
inductive SurveyError where
  /-- The file at a path cannot be read. -/
  | unreadable (path : String) (cause : FileError)
  /-- The file at a path is no source text. -/
  | unparsable (path : String)
  /-- The attribute of this name is malformed. -/
  | malformed (name : String) (location : Location) (cause : MalformedMarker)

/-- The text of a failure to survey. -/
def SurveyError.message : SurveyError → String
  | unreadable path cause => "failed to read " ++ path ++ ": " ++ cause.reason
  | unparsable path => "failed to parse " ++ path
  | malformed name location cause =>
    location.text ++ ": malformed #[" ++ name ++ "]: " ++ cause.message

/-- What a survey has noted. -/
structure Survey where
  entries : List Entry
  /-- The trait implementations, each with the path of its module. -/
  implementations : List (String × Implementation)
  /-- The paths of the modules for tests. -/
  testModules : List String

namespace Survey

/-- Nothing is noted. -/
def empty : Survey :=
  ⟨[], [], []⟩

/-- What two surveys have noted, one after the other. -/
def append (first second : Survey) : Survey :=
  ⟨first.entries ++ second.entries, first.implementations ++ second.implementations,
    first.testModules ++ second.testModules⟩

instance : Append Survey := ⟨append⟩

/-- An item as it is met: its attributes, its name, the path of what it belongs to, and what it is
to a binding. -/
structure Sighting where
  attributes : List Attribute
  name : Source.Name
  /-- The path of the module, or of the type that a member belongs to. -/
  container : String
  isMember : Bool
  category : Category

/-- The place of an item that is met in a file. -/
def Sighting.location (sighting : Sighting) (file : String) : Location :=
  ⟨file, sighting.name.line⟩

/-- The sayings of the attributes of an item. -/
def sayings (file : String) (sighting : Sighting) : Except SurveyError (List Saying) :=
  sighting.attributes.mapM fun attr =>
    (Saying.ofAttribute attr).mapError fun cause =>
      .malformed attr.path.lastName (sighting.location file) cause

/-- Notes an item if it carries a marker. Only a unit struct can be an alias. -/
def note (file : String) (sighting : Sighting) : Except SurveyError Survey := do
  let sayings ← sayings file sighting
  let markers := sayings.filterMap fun saying => match saying with
    | .marker marker => some marker
    | _ => none
  let isAlias := sayings.contains .isAlias
  if markers.isEmpty && !isAlias then return empty
  let isUnit := match sighting.category with
    | .type _ unit _ => unit
    | _ => false
  if isAlias && !isUnit then
    throw (.malformed "marker_alias" (sighting.location file)
      (.notUnitStruct sighting.name.text))
  return { empty with entries := [{
    path := sighting.container ++ "::" ++ sighting.name.text
    ident := sighting.name.text
    scope := if sighting.isMember then some sighting.container else none
    category := sighting.category
    markers := markers
    isAlias := isAlias
    location := sighting.location file }] }

/-- Notes the marked members of an implementation. -/
def noteMembers (file scope : String) (ofTrait : Bool) :
    List Member → Except SurveyError Survey
  | [] => .ok empty
  | .function attributes visibility signature :: rest => do
    let visibility := if ofTrait then .public else visibility
    let first ← note file ⟨attributes, signature.name, scope, true,
      .function (.ofSignature visibility signature)⟩
    return first ++ (← noteMembers file scope ofTrait rest)
  | .constant attributes name :: rest => do
    let first ← note file ⟨attributes, name, scope, true, .unsupported "associated const"⟩
    return first ++ (← noteMembers file scope ofTrait rest)
  | .other _ :: rest => noteMembers file scope ofTrait rest

/-- Notes an implementation and its marked members. One whose self type is no path is passed
over. -/
def noteImplementation (file module : String) (interface : Option Path) (self : Ty)
    (members : List Member) : Except SurveyError Survey :=
  match typeName? self with
  | none => .ok empty
  | some owner => do
    let implementations := match interface with
      | some path => [(module, ⟨path.lastName, owner⟩)]
      | none => []
    let members ← noteMembers file (module ++ "::" ++ owner) interface.isSome members
    return { empty with implementations } ++ members

mutual

/-- Goes over an item of a module. A module for tests is not entered. -/
def ofItem (file module : String) : Item → Except SurveyError Survey
  | .module attributes name content => do
    let path := module ++ "::" ++ name.text
    if attributes.any isTestCondition then return { empty with testModules := [path] }
    let first ← note file ⟨attributes, name, module, false, .unsupported "mod"⟩
    return first ++ (← ofContent file path content)
  | .struct attributes visibility name unit =>
    note file ⟨attributes, name, module, false,
      .type visibility unit (attributes.any (isDerivation "Default"))⟩
  | .enumeration attributes visibility name =>
    note file ⟨attributes, name, module, false,
      .type visibility false (attributes.any (isDerivation "Default"))⟩
  | .union attributes visibility name =>
    note file ⟨attributes, name, module, false, .type visibility false false⟩
  | .function attributes visibility signature =>
    note file ⟨attributes, signature.name, module, false,
      .function (.ofSignature visibility signature)⟩
  | .implementation _ interface self members =>
    noteImplementation file module interface self members
  | .constant attributes name => note file ⟨attributes, name, module, false, .unsupported "const"⟩
  | .static attributes name => note file ⟨attributes, name, module, false, .unsupported "static"⟩
  | .trait attributes name _ => note file ⟨attributes, name, module, false, .unsupported "trait"⟩
  | .typeAlias attributes name =>
    note file ⟨attributes, name, module, false, .unsupported "type alias"⟩
  | .foreign _ _ => .ok empty
  | .other _ => .ok empty

/-- Goes over the items of a module that are written inline. -/
def ofContent (file module : String) : Option (List Item) → Except SurveyError Survey
  | none => .ok empty
  | some items => ofItems file module items

/-- Goes over the items of a module. -/
def ofItems (file module : String) : List Item → Except SurveyError Survey
  | [] => .ok empty
  | item :: rest => do
    let first ← ofItem file module item
    return first ++ (← ofItems file module rest)

end

end Survey

/-- A source text with the file it stands in and the path of its module. -/
structure SourceText where
  file : String
  module : String
  text : String

namespace Survey

/-- Surveys a source. -/
def ofSource (source : SourceText) : Except SurveyError Survey :=
  match readFile source.text with
  | .ok items => ofItems source.file source.module items
  | .error _ => .error (.unparsable source.file)

/-- Surveys sources one after the other. -/
def ofSources : List SourceText → Except SurveyError Survey
  | [] => .ok empty
  | source :: rest => do
    let first ← ofSource source
    return first ++ (← ofSources rest)

/-- Whether a path is that of a module or of something in it. -/
def isInside (module path : String) : Bool :=
  path == module || (module.toList ++ [':', ':']).isPrefixOf path.toList

/-- Whether a path lies in a module for tests. -/
def isTest (survey : Survey) (path : String) : Bool :=
  survey.testModules.any (isInside · path)

/-- The manifest of what was noted outside of the modules for tests. -/
def manifest (survey : Survey) : Manifest where
  entries := survey.entries.filter fun entry => !survey.isTest (entry.scope.getD entry.path)
  implementations :=
    (survey.implementations.filter fun (module, _) => !survey.isTest module).map (·.2)

end Survey

/-- The manifest of sources that are scanned together. -/
def Manifest.ofSources (sources : List SourceText) : Except SurveyError Manifest :=
  (Survey.ofSources sources).map Survey.manifest

end Bindery
