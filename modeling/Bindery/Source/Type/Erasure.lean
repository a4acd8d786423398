import Bindery.Source.Type.Printer
/-!
# Canonical types

Two types are compared in their canonical form: every path is reduced to its last segment,
lifetimes are erased and parentheses are dropped, and what is left is written without blanks. What
the code inside a type holds is treated in the same way.

Lifetimes that are not written on a reference, among the arguments of a path or as a bound of a
trait object stay: those of binders, of anonymous types and of the arguments of a binding.
-/

namespace Bindery.Source

/-- Whether a bound is a lifetime. -/
def Bound.isLifetime : Bound → Bool
  | lifetime _ => true
  | trait _ _ _ => false
  | verbatim _ => false

mutual

/-- A type with reduced paths, without lifetimes and parentheses. -/
def Ty.erase : Ty → Ty
  | .path owner path => .path (eraseOwner owner) path.erase
  | .reference _ mutable target => .reference none mutable target.erase
  | .pointer mutable target => .pointer mutable target.erase
  | .slice element => .slice element.erase
  | .array element length => .array element.erase (eraseCode length)
  | .tuple elements trailing => .tuple (eraseTypes elements) trailing
  | .paren inner => inner.erase
  | .never => .never
  | .inferred => .inferred
  | .object keyword bounds _ => .object keyword (eraseBounds false bounds) false
  | .anonymous bounds trailing => .anonymous (eraseBounds true bounds) trailing
  | .function head params trailing tail output =>
    .function (eraseCode head) (eraseParams params) trailing (eraseCode tail) (eraseOutput output)
  | .invocation path delimiter body => .invocation path.erase delimiter body
  | .verbatim tokens => .verbatim tokens

/-- Erases each type of a list. -/
def eraseTypes : List Ty → List Ty
  | [] => []
  | type :: rest => type.erase :: eraseTypes rest

/-- Erases a return type. -/
def eraseOutput : Option Ty → Option Ty
  | none => none
  | some type => some type.erase

/-- Erases a self type. -/
def eraseOwner : Option Owner → Option Owner
  | none => none
  | some (.mk type position) => some (.mk type.erase position)

/-- Reduces a path to its last segment. -/
def Path.erase : Path → Path
  | .mk _ segments => .mk false (eraseSegments segments)

/-- Keeps the last segment of a path. -/
def eraseSegments : List Segment → List Segment
  | [] => []
  | [.mk name args] => [.mk name (eraseArgs args)]
  | _ :: rest => eraseSegments rest

/-- Drops the lifetimes among the arguments of a segment, and the list if none is left. -/
def eraseArgs : Args → Args
  | .none => .none
  | .angle (.mk _ args _) =>
    let args := eraseArgList false args
    if args.isEmpty then .none else .angle (.mk false args false)
  | .call inputs trailing output => .call (eraseTypes inputs) trailing (eraseOutput output)

/-- Erases each generic argument; lifetimes stay only if they are to be kept. -/
def eraseArgList (keep : Bool) : List Arg → List Arg
  | [] => []
  | .lifetime name :: rest =>
    if keep then .lifetime name :: eraseArgList keep rest else eraseArgList keep rest
  | .type type :: rest => .type type.erase :: eraseArgList keep rest
  | .value code :: rest => .value (eraseCode code) :: eraseArgList keep rest
  | .typeBinding name args type :: rest =>
    .typeBinding name (eraseInner args) type.erase :: eraseArgList keep rest
  | .valueBinding name args code :: rest =>
    .valueBinding name (eraseInner args) (eraseCode code) :: eraseArgList keep rest
  | .constraint name args bounds trailing :: rest =>
    .constraint name (eraseInner args) (eraseBounds true bounds) trailing ::
      eraseArgList keep rest

/-- Erases inside the arguments of a binding, which keep their lifetimes. -/
def eraseInner : Option AngleArgs → Option AngleArgs
  | none => none
  | some (.mk colons args trailing) => some (.mk colons (eraseArgList true args) trailing)

/-- Erases inside a bound. -/
def Bound.erase : Bound → Bound
  | .lifetime name => .lifetime name
  | .trait parens head path => .trait parens (eraseCode head) path.erase
  | .verbatim pieces => .verbatim pieces

/-- Erases inside each bound; lifetimes stay only if they are to be kept. -/
def eraseBounds (keep : Bool) : List Bound → List Bound
  | [] => []
  | bound :: rest =>
    if keep || !bound.isLifetime then bound.erase :: eraseBounds keep rest
    else eraseBounds keep rest

/-- Erases each parameter of a function pointer. -/
def eraseParams : List Param → List Param
  | [] => []
  | .mk head type :: rest => .mk (eraseCode head) type.erase :: eraseParams rest

/-- Erases the types and paths of code. -/
def eraseCode : List Piece → List Piece
  | [] => []
  | .token token :: rest => .token token :: eraseCode rest
  | .group delimiter body :: rest => .group delimiter (eraseCode body) :: eraseCode rest
  | .type type :: rest => .type type.erase :: eraseCode rest
  | .path owner path style :: rest =>
    .path (eraseOwner owner) path.erase style :: eraseCode rest
  | .args (.mk colons args trailing) :: rest =>
    .args (.mk colons (eraseArgList true args) trailing) :: eraseCode rest
  | .bound bound :: rest => .bound bound.erase :: eraseCode rest

end

/-- The canonical form of a type. -/
def Ty.canonical (type : Ty) : String :=
  Token.compact type.erase.tokens

end Bindery.Source
