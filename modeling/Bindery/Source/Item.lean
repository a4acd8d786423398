import Bindery.Source.Type
import Bindery.Token.Lexer
/-!
# Items

The declarations of a source file, with what is looked at later: attributes, names with their
lines, visibilities, signatures and the members of blocks. Bodies are not kept.
-/

namespace Bindery.Source

/-- An identifier and the line it stands on. -/
structure Name where
  text : String
  line : Nat
  isIdent : Token.isIdent text = true
  deriving DecidableEq, Repr

/-- How far an item can be seen. -/
inductive Visibility where
  | «public»
  /-- Within a part of the crate. -/
  | restricted
  | «private»
  deriving DecidableEq, Repr

/-- What follows the path of an attribute. -/
inductive AttributeBody where
  | nothing
  | list (delimiter : Delimiter) (args : Trees)
  | value

/-- An attribute; an `inner` one stands inside of what it belongs to. -/
structure Attribute where
  inner : Bool
  path : Path
  body : AttributeBody

/-- The head of a function. -/
structure Signature where
  name : Name
  isAsync : Bool
  isUnsafe : Bool
  isVariadic : Bool
  /-- Whether the function takes `self`. -/
  receiver : Bool
  /-- The types of the parameters other than `self`. -/
  params : List Ty
  /-- The return type, if one is written. -/
  output : Option Ty

/-- A member of a block of associated items. -/
inductive Member where
  | function (attributes : List Attribute) (visibility : Visibility) (signature : Signature)
  | constant (attributes : List Attribute) (name : Name)
  | other (attributes : List Attribute)

/-- A declaration. -/
inductive Item where
  /-- A module, with its items if they are written inline. -/
  | module (attributes : List Attribute) (name : Name) (content : Option (List Item))
  | struct (attributes : List Attribute) (visibility : Visibility) (name : Name) (unit : Bool)
  | enumeration (attributes : List Attribute) (visibility : Visibility) (name : Name)
  | union (attributes : List Attribute) (visibility : Visibility) (name : Name)
  | function (attributes : List Attribute) (visibility : Visibility) (signature : Signature)
  /-- An implementation block, of a trait or of the type itself. -/
  | implementation (attributes : List Attribute) (interface : Option Path) (self : Ty)
      (members : List Member)
  | constant (attributes : List Attribute) (name : Name)
  | static (attributes : List Attribute) (name : Name)
  | trait (attributes : List Attribute) (name : Name) (members : List Member)
  | typeAlias (attributes : List Attribute) (name : Name)
  /-- A block of foreign declarations. -/
  | foreign (attributes : List Attribute) (members : List Member)
  /-- Imports, macros and declarations in no other form. -/
  | other (attributes : List Attribute)

/-- The attributes of a member. -/
def Member.attributes : Member → List Attribute
  | function attributes _ _ => attributes
  | constant attributes _ => attributes
  | other attributes => attributes

/-- The attributes of an item. -/
def Item.attributes : Item → List Attribute
  | module attributes _ _ => attributes
  | struct attributes _ _ _ => attributes
  | enumeration attributes _ _ => attributes
  | union attributes _ _ => attributes
  | function attributes _ _ => attributes
  | implementation attributes _ _ _ => attributes
  | constant attributes _ => attributes
  | static attributes _ => attributes
  | trait attributes _ _ => attributes
  | typeAlias attributes _ => attributes
  | foreign attributes _ => attributes
  | other attributes => attributes

/-- Puts attributes in front of those of an item. -/
def Item.addAttributes (more : List Attribute) : Item → Item
  | module attributes name content => .module (more ++ attributes) name content
  | struct attributes visibility name unit => .struct (more ++ attributes) visibility name unit
  | enumeration attributes visibility name => .enumeration (more ++ attributes) visibility name
  | union attributes visibility name => .union (more ++ attributes) visibility name
  | function attributes visibility signature =>
    .function (more ++ attributes) visibility signature
  | implementation attributes interface self members =>
    .implementation (more ++ attributes) interface self members
  | constant attributes name => .constant (more ++ attributes) name
  | static attributes name => .static (more ++ attributes) name
  | trait attributes name members => .trait (more ++ attributes) name members
  | typeAlias attributes name => .typeAlias (more ++ attributes) name
  | foreign attributes members => .foreign (more ++ attributes) members
  | other attributes => .other (more ++ attributes)

end Bindery.Source
