import Bindery.Config
import Bindery.Declaration
import Bindery.Source.Type.Erasure
/-!
# The rules for shapes

What a type or function must be before it is bound. The rules are checked in a fixed order, and the
first one that is broken is named. A type that cannot be seen from everywhere is bound all the
same, with a warning.
-/

namespace Bindery

/-- The rules. -/
inductive Rule where
  | contract
  | constructible
  | visibility
  | storageClass
  | arity
  | parameterType
  | returnType
  deriving DecidableEq, Repr

/-- The name of a rule. -/
def Rule.name : Rule → String
  | contract => "contract"
  | constructible => "constructible"
  | visibility => "visibility"
  | storageClass => "storage class"
  | arity => "arity"
  | parameterType => "parameter type"
  | returnType => "return type"

/-- How a declaration breaks a rule. -/
inductive Violation where
  | missingContract (path contract : String)
  | notConstructible (path : String)
  | notPublic (path : String)
  | receiver (path : String)
  | arity (path : String) (expected found : Nat)
  | parameterType (path : String) (index : Nat) (name found expected : String)
  | returnType (path found : String)
  deriving DecidableEq, Repr

/-- The rule that is broken. -/
def Violation.rule : Violation → Rule
  | missingContract _ _ => .contract
  | notConstructible _ => .constructible
  | notPublic _ => .visibility
  | receiver _ => .storageClass
  | arity _ _ _ => .arity
  | parameterType _ _ _ _ _ => .parameterType
  | returnType _ _ => .returnType

/-- The text of a violation. -/
def Violation.message : Violation → String
  | missingContract path contract =>
    "type `" ++ path ++ "` does not implement `" ++ contract ++ "`"
  | notConstructible path =>
    "type `" ++ path ++ "` cannot be built without arguments; use a unit struct, derive " ++
      "`Default`, or implement it"
  | notPublic path => "function `" ++ path ++ "` must be `pub`"
  | receiver path =>
    "function `" ++ path ++ "` takes `self`; it must be callable without an instance"
  | arity path expected found =>
    "function `" ++ path ++ "` takes " ++ toString found ++ " parameters, expected " ++
      toString expected
  | parameterType path index name found expected =>
    "function `" ++ path ++ "` parameter " ++ toString index ++ " (`" ++ name ++ "`) is `" ++
      found ++ "`, expected `" ++ expected ++ "`"
  | returnType path found =>
    "function `" ++ path ++ "` returns `" ++ found ++ "`, expected no return value"

/-- What the rules compare with: the name of the contract, and the parameters of a function, each
with its type in canonical form. -/
structure ShapeRules where
  contract : String
  params : List (String × String)

namespace ShapeRules

/-- The rules that settings give; fails for the first parameter that is no type. -/
def ofConfig (config : Config) : Except ConfigError ShapeRules := do
  let params ← config.params.named.mapM fun (name, text) =>
    match Source.readType text with
    | .ok type => .ok (name, type.canonical)
    | .error _ => .error (.invalid name .type text)
  return ⟨config.contract, params⟩

/-- The warning about a type that is not public. -/
def notPublicWarning (path : String) : String :=
  "type `" ++ path ++ "` is not `pub`; generated code may not be able to name it"

/-- Checks a type and yields the warnings about it. -/
def checkType (rules : ShapeRules) (path : String) (shape : TypeShape) :
    Except Violation (List String) :=
  if !shape.implements.contains rules.contract then
    .error (.missingContract path rules.contract)
  else if shape.construction.isNone then .error (.notConstructible path)
  else .ok (if shape.visibility = .public then [] else [notPublicWarning path])

/-- The first parameter, counted from `index`, whose type is not the expected one. -/
def firstMismatch? (path : String) (index : Nat) :
    List String → List (String × String) → Option Violation
  | found :: params, (name, expected) :: rest =>
    if found = expected then firstMismatch? path (index + 1) params rest
    else some (.parameterType path index name found expected)
  | _, _ => none

/-- Checks a function. -/
def checkFunction (rules : ShapeRules) (path : String) (shape : FunctionShape) :
    Except Violation Unit :=
  if shape.visibility ≠ .public then .error (.notPublic path)
  else if shape.receiver then .error (.receiver path)
  else if shape.params.length ≠ rules.params.length then
    .error (.arity path rules.params.length shape.params.length)
  else match firstMismatch? path 0 shape.params rules.params with
    | some violation => .error violation
    | none =>
      match shape.output with
      | some found => .error (.returnType path found)
      | none => .ok ()

/-- Checks a declaration and yields the warnings about it. -/
def check (rules : ShapeRules) (declaration : Declaration) : Except Violation (List String) :=
  match declaration.shape with
  | .type shape => rules.checkType declaration.path shape
  | .function shape => (rules.checkFunction declaration.path shape).map fun _ => []

end ShapeRules

end Bindery
