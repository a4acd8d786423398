import Bindery.Discovery
import Bindery.Source.Reading
import Bindery.Source.Type.Printer
/-!
# Registrations

A registration is a statement of generated code that makes a delegate and hands it to the registry:
under a key, or as the interceptor.
-/

namespace Bindery

open Source (Path operator word separated)

/-- How generated code makes a delegate. -/
inductive Making where
  /-- A unit struct is named by its path. -/
  | named
  /-- A value of a type is its default. -/
  | default
  /-- A function is wrapped, so that it is called with all that the delegate is given. -/
  | adapted
  deriving DecidableEq, Repr

/-- How the delegate of a shape is made. -/
def Making.ofShape : Shape → Making
  | .function _ => .adapted
  | .type shape => if shape.construction = some .unit then .named else .default

/-- What is registered, and how. -/
structure Registration where
  mark : Mark
  making : Making
  path : Path

/-- The registration of a declaration, whose path has to be one. -/
def Declaration.registration (declaration : Declaration) : Except Fatal Registration :=
  match Source.readPath declaration.path with
  | .ok path => .ok ⟨declaration.carrier.mark, .ofShape declaration.shape, path⟩
  | .error fault => .error (.invalidPath declaration.path declaration.location fault.message)

/-- The names of an absolute path as tokens. -/
def absoluteName (names : List String) : List (TokenTree Token) :=
  names.flatMap fun name => operator "::" ++ word name

/-- A call with its arguments. -/
def callTokens (arguments : List (List (TokenTree Token))) : List (TokenTree Token) :=
  [.group .paren (separated (operator ",") false arguments)]

/-- The names of the parameters that a delegate hands on. -/
def parameterNames : List (List (TokenTree Token)) :=
  ["context", "method", "arguments", "handler"].map word

/-- The tokens that make a delegate. -/
def Making.tokens (making : Making) (runtime path : Path) : List (TokenTree Token) :=
  match making with
  | named => path.tokens
  | default =>
    operator "<" ++ path.tokens ++ word "as" ++ absoluteName ["core", "default", "Default"] ++
      operator ">" ++ operator "::" ++ word "default" ++ callTokens []
  | adapted =>
    runtime.tokens ++ absoluteName ["FnDelegate", "new"] ++
      callTokens [operator "|" ++ separated (operator ",") false parameterNames ++ operator "|" ++
        path.tokens ++ callTokens parameterNames]

/-- The tokens that hand a delegate to the registry. -/
def Mark.tokens (mark : Mark) (delegate : List (TokenTree Token)) : List (TokenTree Token) :=
  let shared := absoluteName ["std", "sync", "Arc", "new"] ++ callTokens [delegate]
  word "registry" ++ operator "." ++ match mark with
    | provider key => word "define" ++ callTokens [[.leaf (.literal (Text.quote key))], shared]
    | gateway => word "set_interceptor" ++ callTokens [shared]

/-- The statement of a registration, without its semicolon. -/
def Registration.tokens (registration : Registration) (runtime : Path) : List (TokenTree Token) :=
  registration.mark.tokens (registration.making.tokens runtime registration.path)

/-- A statement of generated code, with the mark and path that it is for. -/
structure Fragment where
  mark : Mark
  path : String
  tokens : List (TokenTree Token)

/-- The statement that registers a declaration. -/
def Declaration.fragment (declaration : Declaration) (runtime : Path) : Except Fatal Fragment :=
  declaration.registration.map fun registration =>
    ⟨registration.mark, declaration.path, registration.tokens runtime⟩

end Bindery
