import Bindery.FileError
import Bindery.Source.Reading
import Bindery.Toml.Reading
/-!
# Configuration

What generated code refers to, and how its files are called. A document gives some of the settings;
the others keep their defaults. A document with any other setting is refused, and so is one whose
settings are not the paths, names and types that they have to be.
-/

namespace Bindery

/-- The types of the four parameters of a delegate, in the order of a call. -/
structure Params where
  context : String
  method : String
  arguments : String
  handler : String
  deriving DecidableEq, Repr

/-- The names of the generated files. -/
structure Output where
  providers : String
  interceptor : String
  bindings : String
  deriving DecidableEq, Repr

/-- The settings of a generation. -/
structure Config where
  /-- The path of the runtime, as generated code sees it. -/
  runtime : String
  /-- The path that names the scanned crate from inside. -/
  crateRoot : String
  /-- The name of the trait that a bound type has to implement. -/
  contract : String
  params : Params
  output : Output
  deriving DecidableEq, Repr

/-- The parameters with their names, in the order of a call. -/
def Params.named (params : Params) : List (String × String) :=
  [("context", params.context), ("method", params.method), ("arguments", params.arguments),
    ("handler", params.handler)]

/-- The types that a delegate takes unless others are set. -/
def Params.default : Params where
  context := "Option<&Context>"
  method := "&str"
  arguments := "Option<&Value>"
  handler := "Option<&Handler>"

/-- The names that generated files have unless others are set. -/
def Output.default : Output where
  providers := "tether_providers.rs"
  interceptor := "tether_interceptor.rs"
  bindings := "tether_bindings.rs"

/-- The settings where nothing is set. -/
def Config.default : Config where
  runtime := "::tether_registry"
  crateRoot := "crate"
  contract := "Delegate"
  params := Params.default
  output := Output.default

/-- The name of the file that settings are read from. -/
def Config.fileName : String :=
  "Tether.toml"

/-- What a setting has to be. -/
inductive Expected where
  | path
  | identifier
  | type
  deriving DecidableEq, Repr

/-- The word for what a setting has to be. -/
def Expected.word : Expected → String
  | path => "path"
  | identifier => "identifier"
  | type => "type"

/-- Why there is no configuration. -/
inductive ConfigError where
  /-- The file at a path cannot be read. -/
  | unreadable (path : String) (cause : FileError)
  /-- The text is no document, or one with other settings. -/
  | malformed
  /-- A setting is not what it has to be. -/
  | invalid (field : String) (expected : Expected) (value : String)
  deriving DecidableEq, Repr

/-- The text of a failure to get a configuration. -/
def ConfigError.message : ConfigError → String
  | unreadable path cause => "failed to read " ++ path ++ ": " ++ cause.reason
  | malformed => "invalid config"
  | invalid field expected value =>
    "config field `" ++ field ++ "` is not a valid " ++ expected.word ++ ": `" ++ value ++ "`"

/-- Whether a text is what it has to be. -/
def Expected.admits : Expected → String → Bool
  | path, text => (Source.readPath text).isOk
  | identifier, text => (Source.readIdent text).isOk
  | type, text => (Source.readType text).isOk

/-! ## Decoding -/

/-- The setters of the parts of a group of settings, by their names. -/
abbrev Setters (α : Type) := List (String × (Toml.Value → α → Option α))

/-- Sets a text. -/
def setText {α : Type} (update : String → α → α) (value : Toml.Value) (group : α) : Option α :=
  match value with
  | .text text => some (update text group)
  | _ => none

/-- Sets each of the named parts of a group; none if a name or a value is not one of the group. -/
def Setters.setAll {α : Type} (setters : Setters α) :
    List (String × Toml.Value) → α → Option α
  | [], group => some group
  | (name, value) :: rest, group => do
    let (_, set) ← setters.find? (·.1 == name)
    setters.setAll rest (← set value group)

/-- Sets the parts of a group in their order, for as long as there are values. -/
def Setters.setInOrder {α : Type} : Setters α → List Toml.Value → α → Option α
  | (_, set) :: setters, value :: values, group => do
    Setters.setInOrder setters values (← set value group)
  | _, _, group => some group

/-- Sets a group from a table of its parts, or from a list of them in their order. -/
def Setters.setGroup {α : Type} (setters : Setters α) (value : Toml.Value) (group : α) :
    Option α :=
  match value with
  | .table entries => setters.setAll entries group
  | .array values => setters.setInOrder values group
  | _ => none

/-- The settings of the parameters. -/
def Params.setters : Setters Params :=
  [("context", setText fun text params => { params with context := text }),
    ("method", setText fun text params => { params with method := text }),
    ("arguments", setText fun text params => { params with arguments := text }),
    ("handler", setText fun text params => { params with handler := text })]

/-- The settings of the generated files. -/
def Output.setters : Setters Output :=
  [("providers", setText fun text output => { output with providers := text }),
    ("interceptor", setText fun text output => { output with interceptor := text }),
    ("bindings", setText fun text output => { output with bindings := text })]

/-- All settings. -/
def Config.setters : Setters Config :=
  [("runtime", setText fun text config => { config with runtime := text }),
    ("crate_root", setText fun text config => { config with crateRoot := text }),
    ("contract", setText fun text config => { config with contract := text }),
    ("params", fun value config => do
      return { config with params := ← Params.setters.setGroup value Params.default }),
    ("output", fun value config => do
      return { config with output := ← Output.setters.setGroup value Output.default })]

namespace Config

/-- The settings of a table, over the defaults. -/
def ofEntries? (entries : List (String × Toml.Value)) : Option Config :=
  setters.setAll entries default

/-- What each setting has to be, in the order in which the settings are checked. -/
def requirements (config : Config) : List (String × Expected × String) :=
  [("runtime", .path, config.runtime), ("crate_root", .path, config.crateRoot),
    ("contract", .identifier, config.contract)] ++
    config.params.named.map fun (name, type) => (name, .type, type)

/-- Fails for the first setting that is not what it has to be. -/
def check (config : Config) : Except ConfigError Unit :=
  config.requirements.forM fun (field, expected, value) =>
    if expected.admits value then .ok () else .error (.invalid field expected value)

/-- The settings of a document. -/
def ofText (text : String) : Except ConfigError Config :=
  match Toml.read? text with
  | none => .error .malformed
  | some entries =>
    match ofEntries? entries with
    | none => .error .malformed
    | some config => do
      config.check
      return config

end Config

end Bindery
