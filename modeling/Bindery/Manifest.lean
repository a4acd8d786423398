import Bindery.Declaration
/-!
# The manifest of a crate

Every marked item of the scanned sources in scan order, and the trait implementations that decide
the shapes of types. Tags and implementations refer to items by their last name alone.
-/

namespace Bindery

/-- A marker on an item. -/
inductive Marker where
  /-- Binds the item under a key. -/
  | provider (key : String)
  /-- Makes the item the interceptor. -/
  | gateway
  /-- Applies the markers of the alias of this name. -/
  | tagged (name : String)
  deriving DecidableEq, Repr

/-- What kind of item carries a marker. -/
inductive Category where
  | type (visibility : Visibility) (unit derivesDefault : Bool)
  | function (shape : FunctionShape)
  /-- Anything that cannot be bound, with the word for it. -/
  | unsupported (word : String)
  deriving DecidableEq, Repr

/-- The word for a category. -/
def Category.word : Category → String
  | type _ _ _ => "type"
  | function _ => "function"
  | unsupported word => word

/-- A marked item. -/
structure Entry where
  /-- The path from the root of the crate. -/
  path : String
  /-- The last name of the path. -/
  ident : String
  /-- The path of the type that a member of an implementation belongs to. -/
  scope : Option String
  category : Category
  markers : List Marker
  /-- Whether the item stands for its markers. -/
  isAlias : Bool
  location : Location
  deriving DecidableEq, Repr

namespace Entry

/-- The keys that an entry is bound under, in the order of its attributes. -/
def keys (entry : Entry) : List String :=
  entry.markers.filterMap fun marker => match marker with
    | .provider key => some key
    | _ => none

/-- Whether an entry is marked as the interceptor. -/
def isGateway (entry : Entry) : Bool :=
  entry.markers.contains .gateway

/-- The names of the aliases that an entry is tagged with. -/
def tags (entry : Entry) : List String :=
  entry.markers.filterMap fun marker => match marker with
    | .tagged name => some name
    | _ => none

/-- Whether an entry is tagged with an alias of this name. -/
def isTagged (entry : Entry) (name : String) : Bool :=
  entry.tags.any (· == name)

/-- The marks of an entry for a role: one for each key, or a single one however often it is marked
as the interceptor. -/
def marks (entry : Entry) : Role → List Mark
  | .provider => entry.keys.map .provider
  | .gateway => if entry.isGateway then [.gateway] else []

end Entry

/-- A trait implementation, both sides reduced to their last names. -/
structure Implementation where
  interface : String
  self : String
  deriving DecidableEq, Repr

/-- The marked items of a crate and its trait implementations. -/
structure Manifest where
  entries : List Entry
  implementations : List Implementation
  deriving DecidableEq, Repr

namespace Manifest

/-- The entries that are tagged with the name of an alias. -/
def taggedWith (manifest : Manifest) (target : Entry) : List Entry :=
  manifest.entries.filter (·.isTagged target.ident)

/-- The traits that are implemented for the types of a name. -/
def traitsOf (manifest : Manifest) (ident : String) : List String :=
  (manifest.implementations.filter (·.self == ident)).map (·.interface)

/-- How a value of a type is built, from what is known of it. -/
def construction? (unit derivesDefault : Bool) (implements : List String) : Option Construction :=
  if unit then some .unit
  else if derivesDefault || implements.contains "Default" then some .default
  else none

/-- The shape of an entry that is a type. -/
def typeShape? (manifest : Manifest) (entry : Entry) : Option TypeShape :=
  match entry.category with
  | .type visibility unit derivesDefault =>
    let implements := manifest.traitsOf entry.ident
    some ⟨visibility, implements, construction? unit derivesDefault implements⟩
  | _ => none

/-- Whether an alias of this name exists. -/
def hasAlias (manifest : Manifest) (name : String) : Bool :=
  manifest.entries.any fun entry => entry.isAlias && entry.ident == name

/-- The tags that name no alias, each with the entry that carries it. -/
def unresolvedTags (manifest : Manifest) : List (Entry × String) :=
  (manifest.entries.flatMap fun entry => entry.tags.map (entry, ·)).filter
    fun (_, tag) => !manifest.hasAlias tag

end Manifest

end Bindery
