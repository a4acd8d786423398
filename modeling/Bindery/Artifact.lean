import Bindery.Config
import Bindery.Registration
/-!
# Generated files

The statements of each role make up a unit, a file with one function. A role without statements has
no unit. The index is always there: it includes the units and says which functions exist.
-/

namespace Bindery

open Source (Path operator word)

/-- A generated file. -/
structure Artifact where
  name : String
  contents : String
  deriving DecidableEq, Repr

/-- The first line of every generated file. -/
def Artifact.header : String :=
  "// @generated by tether-gen. Do not edit."

/-- The function that a unit defines. -/
def Role.entryPoint : Role → String
  | provider => "register_providers"
  | gateway => "register_interceptor"

/-- The file of a unit. -/
def Output.unitName (output : Output) : Role → String
  | .provider => output.providers
  | .gateway => output.interceptor

/-- What generated code depends on: the path of the runtime and the names of the files. -/
structure Target where
  runtime : Path
  output : Output

namespace Target

/-- The head of the function of a unit. -/
def signature (target : Target) (role : Role) : List (TokenTree Token) :=
  word "pub" ++ word "fn" ++ word role.entryPoint ++
    [.group .paren (word "registry" ++ operator ":" ++ operator "&" ++ target.runtime.tokens ++
      absoluteName ["Registry"])]

/-- The line of a statement. -/
def statementLine (fragment : Fragment) : String :=
  "\t" ++ Token.spaced fragment.tokens ++ ";\n"

/-- The unit of a role. -/
def unit (target : Target) (role : Role) (fragments : List Fragment) : Artifact where
  name := target.output.unitName role
  contents := Artifact.header ++ "\n\n" ++ Token.spaced (target.signature role) ++ " \x7b\n" ++
    String.join (fragments.map statementLine) ++ "\x7d\n"

/-- The unit of a role, if there is anything in it. -/
def unit? (target : Target) (role : Role) (fragments : List Fragment) : Option Artifact :=
  if fragments.isEmpty then none else some (target.unit role fragments)

/-- The tokens that include the file of a unit. -/
def inclusion (unit : Artifact) : List (TokenTree Token) :=
  let macroCall (name : String) (arguments : List (TokenTree Token)) : List (TokenTree Token) :=
    word name ++ operator "!" ++ [.group .paren arguments]
  let literal (text : String) : List (TokenTree Token) := [.leaf (.literal (Text.quote text))]
  macroCall "include" (macroCall "concat"
    (macroCall "env" (literal "OUT_DIR") ++ operator "," ++ literal ("/" ++ unit.name))) ++
    operator ";"

/-- The line that includes the file of a unit, if there is one. -/
def inclusionLine : Option Artifact → String
  | some unit => Token.spaced (inclusion unit) ++ "\n"
  | none => ""

/-- The tokens that say whether the function of a role exists. -/
def slot (role : Role) (unit : Option Artifact) : List (TokenTree Token) :=
  match unit with
  | some _ =>
    absoluteName ["core", "option", "Option", "Some"] ++ [.group .paren (word role.entryPoint)]
  | none => absoluteName ["core", "option", "Option", "None"]

/-- The tokens of the index. -/
def indexTokens (target : Target) (providers interceptor : Option Artifact) :
    List (TokenTree Token) :=
  let type := target.runtime.tokens ++ absoluteName ["Bindings"]
  let field (name : String) (value : List (TokenTree Token)) : List (TokenTree Token) :=
    word name ++ operator ":" ++ value ++ operator ","
  word "pub" ++ word "static" ++ word "TETHER_BINDINGS" ++ operator ":" ++ type ++
    operator "=" ++ type ++
    [.group .brace (field "providers" (slot .provider providers) ++
      field "interceptor" (slot .gateway interceptor))] ++ operator ";"

/-- The index of the units that exist. -/
def index (target : Target) (providers interceptor : Option Artifact) : Artifact where
  name := target.output.bindings
  contents := Artifact.header ++ "\n\n" ++ inclusionLine providers ++ inclusionLine interceptor ++
    "\n" ++ Token.spaced (target.indexTokens providers interceptor) ++ "\n"

/-- The generated files for the statements of both roles. There may be one interceptor. -/
def emit (target : Target) (providers gateways : List Fragment) : Except Fatal (List Artifact) :=
  if gateways.length > 1 then .error (.multipleGateways (gateways.map (·.path)))
  else
    let providerUnit := target.unit? .provider providers
    let interceptorUnit := target.unit? .gateway gateways
    .ok (providerUnit.toList ++ interceptorUnit.toList ++
      [target.index providerUnit interceptorUnit])

end Target

end Bindery
