import Bindery.Source.Item
/-!
# Declarations

What is to be bound: a type or a function, the part it plays, and how it came to play it. The shape
of a declaration is all that the rules for it look at.
-/

namespace Bindery

export Source (Visibility)

/-- The part that a binding plays. -/
inductive Role where
  /-- Answers to a key; any number may exist. -/
  | provider
  /-- Answers where no provider does; at most one may exist. -/
  | gateway
  deriving DecidableEq, Repr

/-- The name of a role, which its attribute is written with. -/
def Role.name : Role → String
  | provider => "provider"
  | gateway => "gateway"

/-- A role with the key that a provider answers to. -/
inductive Mark where
  | provider (key : String)
  | gateway
  deriving DecidableEq, Repr

namespace Mark

/-- The role that a mark gives. -/
def role : Mark → Role
  | provider _ => .provider
  | gateway => .gateway

/-- The key of a provider. -/
def key? : Mark → Option String
  | provider key => some key
  | gateway => none

/-- The mark of a role; a provider without a key gets the empty one. -/
def ofRole (role : Role) (key : Option String) : Mark :=
  match role with
  | .provider => .provider (key.getD "")
  | .gateway => .gateway

end Mark

/-- How a mark reached a declaration: directly, or through the alias at a path. -/
structure Carrier where
  mark : Mark
  via : Option String
  deriving DecidableEq, Repr

/-- The role that a carrier gives. -/
def Carrier.role (carrier : Carrier) : Role :=
  carrier.mark.role

/-- The key of a provider's carrier. -/
def Carrier.key? (carrier : Carrier) : Option String :=
  carrier.mark.key?

/-- A place in the sources. -/
structure Location where
  file : String
  line : Nat
  deriving DecidableEq, Repr

/-- The written form of a place. -/
def Location.text (location : Location) : String :=
  location.file ++ ":" ++ toString location.line

/-- The ways to build a value of a type without arguments. -/
inductive Construction where
  /-- A unit struct is named by its path. -/
  | unit
  /-- The type has a default value. -/
  | default
  deriving DecidableEq, Repr

/-- What the rules look at in a type. -/
structure TypeShape where
  visibility : Visibility
  /-- The names of the traits that are implemented for the type anywhere in the sources. -/
  implements : List String
  /-- How a value is built, if it can be. -/
  construction : Option Construction
  deriving DecidableEq, Repr

/-- What the rules look at in a function; its types are in canonical form. -/
structure FunctionShape where
  visibility : Visibility
  /-- Whether the function takes `self`. -/
  receiver : Bool
  params : List String
  /-- The return type, none if it is the unit type. -/
  output : Option String
  deriving DecidableEq, Repr

/-- What the rules look at in a declaration. -/
inductive Shape where
  | type (shape : TypeShape)
  | function (shape : FunctionShape)
  deriving DecidableEq, Repr

/-- The word for a shape. -/
def Shape.word : Shape → String
  | type _ => "type"
  | function _ => "function"

/-- Something that is to be bound in one role. -/
structure Declaration where
  /-- The path from the root of the crate. -/
  path : String
  /-- The path of the type that an associated function belongs to. -/
  scope : Option String
  shape : Shape
  carrier : Carrier
  location : Location
  deriving DecidableEq, Repr

namespace Declaration

/-- The role of a declaration. -/
def role (declaration : Declaration) : Role :=
  declaration.carrier.role

/-- The key of a provider. -/
def key? (declaration : Declaration) : Option String :=
  declaration.carrier.key?

/-- The written form of a declaration: its attribute, what it is, its path, the alias that it was
reached through, and its place. -/
def text (declaration : Declaration) : String :=
  "#[" ++ declaration.role.name ++
    (match declaration.key? with
      | some key => "(\"" ++ key ++ "\")"
      | none => "") ++
    "] " ++ declaration.shape.word ++ " `" ++ declaration.path ++ "`" ++
    (match declaration.carrier.via with
      | some path => " via `" ++ path ++ "`"
      | none => "") ++
    " (" ++ declaration.location.text ++ ")"

end Declaration

end Bindery
