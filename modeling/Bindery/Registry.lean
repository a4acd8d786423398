import Bindery.Keyed
import Bindery.Text.Quoted
/-!
# The registry

A table of delegates by name, and at most one interceptor for the names that are not in it. A later
delegate takes the place of an earlier one of the same name. The registry counts the dispatches that
neither could take.
-/

namespace Bindery

/-- Delegates that are registered together. The names and the interceptor may be lacking. -/
structure Bindings (δ : Type) where
  /-- The delegates to define, in order. -/
  providers : Option (List (String × δ))
  interceptor : Option δ

/-- A registry of delegates. -/
structure Registry (δ : Type) where
  delegates : List (String × δ)
  interceptor : Option δ
  /-- How many dispatches have been dropped. -/
  dropped : UInt64

/-- What became of a dispatch. -/
inductive Route where
  /-- The delegate of the name took it. -/
  | delegated
  /-- The interceptor took it. -/
  | intercepted
  /-- Nothing took it. -/
  | dropped
  deriving DecidableEq, Repr

/-- A change of a registry. -/
inductive Change (δ : Type) where
  | define (name : String) (delegate : δ)
  | remove (name : String)
  | setInterceptor (delegate : δ)
  | clearInterceptor
  | install (bindings : Bindings δ)
  /-- Counts a dispatch that is dropped. -/
  | drop

/-- A truth value as a listing shows it. -/
def listedBool (value : Bool) : String :=
  if value then "true" else "false"

namespace Bindings

variable {δ : Type}

/-- There is nothing to register. -/
def empty : Bindings δ :=
  ⟨none, none⟩

/-- Whether there is nothing to register. -/
def isEmpty (bindings : Bindings δ) : Bool :=
  bindings.providers.isNone && bindings.interceptor.isNone

/-- How a listing shows bindings. -/
def listing (bindings : Bindings δ) : String :=
  "Bindings \x7b providers: " ++ listedBool bindings.providers.isSome ++ ", interceptor: " ++
    listedBool bindings.interceptor.isSome ++ " \x7d"

end Bindings

namespace Registry

variable {δ : Type}

/-- Nothing is registered. -/
def empty : Registry δ :=
  ⟨[], none, 0⟩

/-! ## Looking -/

/-- The delegate of a name. -/
def get? (registry : Registry δ) (name : String) : Option δ :=
  Keyed.find? registry.delegates name

/-- Whether a name has a delegate. -/
def contains (registry : Registry δ) (name : String) : Bool :=
  (registry.get? name).isSome

/-- How many names have a delegate. -/
def size (registry : Registry δ) : Nat :=
  registry.delegates.length

/-- Whether no name has a delegate. -/
def isEmpty (registry : Registry δ) : Bool :=
  registry.delegates.isEmpty

/-- The names that have a delegate, in ascending order. -/
def names (registry : Registry δ) : List String :=
  (Keyed.keys registry.delegates).mergeSort fun first second => first ≤ second

/-- What takes a dispatch to a name: its delegate, else the interceptor. -/
def resolve? (registry : Registry δ) (name : String) : Option (δ × Route) :=
  match registry.get? name with
  | some delegate => some (delegate, .delegated)
  | none => registry.interceptor.map (·, .intercepted)

/-- How a listing shows a registry. -/
def listing (registry : Registry δ) : String :=
  "Registry \x7b names: [" ++ String.intercalate ", " (registry.names.map Text.listed) ++
    "], interceptor: " ++ listedBool registry.interceptor.isSome ++ ", dropped: " ++
    toString registry.dropped.toNat ++ " \x7d"

/-! ## Changing -/

/-- Gives a name a delegate. -/
def define (registry : Registry δ) (name : String) (delegate : δ) : Registry δ :=
  { registry with delegates := Keyed.insert registry.delegates name delegate }

/-- Takes the delegate of a name away. -/
def remove (registry : Registry δ) (name : String) : Registry δ :=
  { registry with delegates := Keyed.erase registry.delegates name }

/-- Makes a delegate the interceptor. -/
def setInterceptor (registry : Registry δ) (delegate : δ) : Registry δ :=
  { registry with interceptor := some delegate }

/-- Takes the interceptor away. -/
def clearInterceptor (registry : Registry δ) : Registry δ :=
  { registry with interceptor := none }

/-- Counts a dispatch that is dropped. -/
def drop (registry : Registry δ) : Registry δ :=
  { registry with dropped := registry.dropped + 1 }

/-- Gives names their delegates in order. -/
def defineAll (registry : Registry δ) (delegates : List (String × δ)) : Registry δ :=
  delegates.foldl (fun registry (name, delegate) => registry.define name delegate) registry

/-- Registers delegates. What is lacking among them leaves the registry as it is. -/
def install (registry : Registry δ) (bindings : Bindings δ) : Registry δ :=
  let registry := registry.defineAll (bindings.providers.getD [])
  match bindings.interceptor with
  | some delegate => registry.setInterceptor delegate
  | none => registry

/-- Makes a change. -/
def apply (registry : Registry δ) : Change δ → Registry δ
  | .define name delegate => registry.define name delegate
  | .remove name => registry.remove name
  | .setInterceptor delegate => registry.setInterceptor delegate
  | .clearInterceptor => registry.clearInterceptor
  | .install bindings => registry.install bindings
  | .drop => registry.drop

/-- The delegate that a change puts out of its place and hands back. -/
def displaced? (registry : Registry δ) : Change δ → Option δ
  | .define name _ | .remove name => registry.get? name
  | .setInterceptor _ | .clearInterceptor => registry.interceptor
  | .install _ | .drop => none

end Registry

end Bindery
