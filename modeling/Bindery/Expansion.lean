import Bindery.Source.Reading
import Bindery.Source.Type.Printer
/-!
# What a marker attribute makes of its item

A marker attribute changes nothing: it checks its arguments and leaves the item as it is. On misuse
a compilation error is put in front of the item, which still stays.
-/

namespace Bindery

/-- The attributes that mark items. -/
inductive MarkerAttribute where
  /-- `#[provider("key")]` binds an item under a key. -/
  | provider
  /-- `#[gateway]` makes an item the interceptor. -/
  | gateway
  /-- `#[marker_alias]` lets a unit struct stand for the markers it carries. -/
  | markerAlias
  /-- `#[tagged(Alias)]` applies the markers of an alias. -/
  | tagged
  deriving DecidableEq, Repr

/-- The name that a marker attribute is written with. -/
def MarkerAttribute.name : MarkerAttribute → String
  | provider => "provider"
  | gateway => "gateway"
  | markerAlias => "marker_alias"
  | tagged => "tagged"

/-- The marker attribute of a name. -/
def MarkerAttribute.ofName? (name : String) : Option MarkerAttribute :=
  [provider, gateway, markerAlias, tagged].find? fun marker => marker.name == name

/-- How a marker attribute can be misused. -/
inductive Misuse where
  | keyExpected
  | keyEmpty
  | argumentsGiven (marker : MarkerAttribute)
  | unitStructRequired
  | aliasExpected
  deriving DecidableEq, Repr

/-- The text of the compilation error for a misuse. -/
def Misuse.message : Misuse → String
  | keyExpected => "expected a string key: #[provider(\"name\")]"
  | keyEmpty => "provider key must not be empty"
  | argumentsGiven marker => "#[" ++ marker.name ++ "] takes no arguments"
  | unitStructRequired => "#[marker_alias] requires a unit struct"
  | aliasExpected => "expected a marker alias: #[tagged(Alias)]"

namespace MarkerAttribute

open Source

/-- Whether an item is a unit struct. -/
def isUnitStruct (item : Trees) : Bool :=
  match readTrees Grammar.structOnly item with
  | .ok (.struct _ _ _ unit) => unit
  | _ => false

/-- How an attribute with these arguments is misused on an item, if it is. -/
def misuse? (marker : MarkerAttribute) (args item : Trees) : Option Misuse :=
  match marker with
  | provider =>
    match readTrees (fun _ => Grammar.string) args with
    | .ok key => if key.isEmpty then some .keyEmpty else none
    | .error _ => some .keyExpected
  | gateway => if args.isEmpty then none else some (.argumentsGiven gateway)
  | markerAlias =>
    if !args.isEmpty then some (.argumentsGiven markerAlias)
    else if isUnitStruct item then none
    else some .unitStructRequired
  | tagged =>
    match readTrees Grammar.anyPath args with
    | .ok _ => none
    | .error _ => some .aliasExpected

/-- The tokens of a compilation error. -/
def compileError (message : String) : List (TokenTree Token) :=
  operator "::" ++ word "core" ++ operator "::" ++ word "compile_error" ++ operator "!" ++
    [.group .brace [.leaf (.literal (Text.quote message))]]

/-- The item after an attribute with these arguments has been applied to it. -/
def expand (marker : MarkerAttribute) (args item : Trees) : List (TokenTree Token) :=
  match marker.misuse? args item with
  | some misuse => compileError misuse.message ++ item.tokens
  | none => item.tokens

end MarkerAttribute

end Bindery
