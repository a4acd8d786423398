import Bindery.Proofs.Source.Rereading.Apart
import Bindery.Proofs.Source.Rereading.Functions
/-!
# Stable types

The canonical form of a type may lack what it needs to be read again: the parentheses around several
bounds behind a reference, the blank between two marks, or a first bound without a lifetime. A type
is stable where nothing of that kind is lacking.

Only types are looked into. What else a type holds is asked to be read back by itself: the length of
an array, a value among the arguments, what `for` binds, attributes, and what is kept as it stands.
-/

namespace Bindery.Source

/-- Whether arguments are written like those of a call. -/
def Args.isCall : Args → Bool
  | call _ _ _ => true
  | _ => false

/-- Whether the end of a path may be a type by itself. The word `try` may be part of a path, but no
type begins with it, and only a bound takes the arguments of a call. -/
def Path.isType (path : Path) : Bool :=
  path.segments.getLast?.all fun segment => segment.name != "try" && !segment.args.isCall

namespace Grammar

open Token (isIdent)

/-! ## What is read back by itself -/

/-- A property of the rules that are deep enough for the tokens. -/
def DeepEnough (tokens : List (TokenTree Token)) (property : Rules → Prop) : Prop :=
  ∀ depth, 8 * (TokenTree.sizeList tokens + 1) ≤ depth → property (.upTo depth)

/-- The code that is the length of an array is read back. -/
structure StableLength (code : List Piece) : Prop where
  apart : Token.apart (codeTokens (eraseCode code)) = true
  reads : DeepEnough (codeTokens (eraseCode code)) (CodeRereads · code)

/-- The code of a generic argument is read back. -/
structure StableValue (code : List Piece) : Prop where
  apart : ∀ rest, ArgEnds rest → Token.apart rest = true →
    Token.apart (codeTokens (eraseCode code) ++ rest) = true
  reads : DeepEnough (codeTokens (eraseCode code)) (ValueRereads · code)

/-- The parameters that `for` binds are read back. -/
structure StableBinder (tokens : List (TokenTree Token)) : Prop where
  joins : Joins tokens
  reads : DeepEnough tokens (BinderRereads · tokens)

/-- Attributes are read back. -/
structure StableAttributes (tokens : List (TokenTree Token)) : Prop where
  joins : Joins tokens
  reads : DeepEnough tokens (AttributesReread · tokens)

/-- A bound that is kept as it stands is read back. -/
structure StableBound (context : BoundContext) (pieces : List Piece) : Prop where
  joins : Joins (codeTokens pieces)
  reads : DeepEnough (codeTokens pieces) fun rules =>
    BoundRereads (boundWith rules context) context (.verbatim pieces)

/-- A type that is kept as it stands is read back. -/
structure StableVerbatim (tokens : List (TokenTree Token)) : Prop where
  opens : opensType tokens = true
  joins : Joins tokens
  reads : ∀ plus, DeepEnough tokens (TypeRereads · plus (.verbatim tokens))

/-- The parameter of a function pointer that is kept as it stands, `mut self`, is read back. -/
structure StableSelf (first : Bool) (param : Param) : Prop where
  joins : Joins param.erasedTokens
  reads : DeepEnough param.erasedTokens (ParamRereads · first param)

/-! ## Heads -/

/-- What stands in front of the path of a trait is read back. -/
inductive StableHead : List (TokenTree Token) → Prop where
  | nothing : StableHead []
  | relaxed : StableHead (operator "?")
  | binder {tokens : List (TokenTree Token)} (h : StableBinder tokens) : StableHead tokens

/-- What stands in front of the parameters of a function pointer is read back. -/
inductive StableQualifiers : List (TokenTree Token) → Prop where
  | mk {binder : List (TokenTree Token)} (isUnsafe : Bool) {convention : Option (Option String)}
      (hbinder : binder = [] ∨ StableBinder binder)
      (hconvention : ∀ literal ∈ convention, ∀ text ∈ literal,
        IsLiteral text ∧ (Token.stringValue? text).isSome = true) :
      StableQualifiers (binder ++ qualifierTokens isUnsafe convention)

/-- What stands in front of the type of a parameter is read back: attributes, and a name. -/
inductive StableName (first : Bool) : List (TokenTree Token) → Prop where
  | mk {attributes : List (TokenTree Token)} {name : Option String}
      (hattributes : StableAttributes attributes) (hname : ∀ text ∈ name, IsParamName first text) :
      StableName first (attributes ++ paramName name)

/-- What stands for further arguments of a function pointer is read back. -/
inductive StableTail : List (TokenTree Token) → Prop where
  | nothing : StableTail []
  | dots {attributes : List (TokenTree Token)} {name : Option String}
      (hattributes : StableAttributes attributes) (hname : ∀ text ∈ name, IsParamName false text)
      (comma : Bool) : StableTail (attributes ++ dotsTokens name comma)

/-! ## Sums of bounds -/

/-- Whether bounds are those of a trait object without its keyword: the first of them leads the
others as a path does, or is a parenthesized bound that no type is. -/
def LeadsSum : List Bound → Prop
  | .trait false head path :: _ => path.isType = true ∧ codeTokens (eraseCode head) ≠ operator "?"
  | .trait true head path :: more =>
    codeTokens (eraseCode head) = operator "?" ∨ more ≠ [] ∧ path.isType = true
  | _ => False

end Grammar

open Grammar (kept)

/-- Whether bounds are a single one, which is not between parentheses unless a keyword
precedes it. -/
def isSingle (keyword : Bool) : List Bound → Bool
  | [.trait parens _ _] => keyword || !parens
  | [_] => keyword
  | _ => false

/-- Whether a type may stand without parentheses where a plus sign would belong to something
else. -/
def Ty.isTight : Ty → Bool
  | .paren inner => inner.isTight
  | .object keyword bounds _ => isSingle keyword (kept bounds)
  | .anonymous bounds trailing => !trailing && bounds.length == 1
  | .verbatim _ => false
  | _ => true

/-! ## Stable types -/

open Token (isIdent)
open Grammar

mutual

/-- Whether the canonical form of a type lacks nothing that it needs to be read again. -/
def Ty.Stable : Ty → Prop
  | .path none path => path.Stable ∧ path.isType = true
  | .path (some _) _ => False
  | .reference _ _ target => target.Stable ∧ target.isTight = true
  | .pointer _ target => target.Stable ∧ target.isTight = true
  | .slice element => element.Stable
  | .array element length => element.Stable ∧ StableLength length
  | .tuple elements _ => StableTypes elements
  | .paren inner => inner.Stable
  | .never => True
  | .inferred => True
  | .object keyword bounds _ => StableBounds objectContext bounds ∧ kept bounds ≠ [] ∧
    (keyword = true ∨ LeadsSum (kept bounds))
  | .anonymous bounds _ => StableBounds anonymousContext bounds ∧ bounds.any Bound.isTrait = true
  | .function head params trailing tail output =>
    StableQualifiers (codeTokens (eraseCode head)) ∧ StableParams true params ∧
      StableTail (codeTokens (eraseCode tail)) ∧
      (codeTokens (eraseCode tail) ≠ [] → trailing = true ∨ params = []) ∧ StableOutput output
  | .invocation path _ body =>
    (path.Stable ∧ path.isType = true ∧ path.isPlain = true) ∧ Token.apart body = true
  | .verbatim tokens => StableVerbatim tokens

/-- Whether each type of a list is stable. -/
def StableTypes : List Ty → Prop
  | [] => True
  | type :: rest => type.Stable ∧ StableTypes rest

/-- Whether a return type is stable where it stands. -/
def StableOutput : Option Ty → Prop
  | none => True
  | some type => type.Stable ∧ type.isTight = true

/-- Whether the end of a path is stable. -/
def Path.Stable : Path → Prop
  | .mk _ segments => StableSegments segments

/-- Whether the last segment of a path is stable. -/
def StableSegments : List Segment → Prop
  | [] => False
  | [.mk name args] => IsPathName name ∧ args.Stable name
  | _ :: rest => StableSegments rest

/-- Whether the arguments of a segment are stable. -/
def Args.Stable (name : String) : Args → Prop
  | .none => True
  | .angle (.mk _ args _) => (name = "Self" ∨ name ∉ pathWords) ∧ StableArgs args
  | .call inputs _ output => StableTypes inputs ∧ StableOutput output

/-- Whether each generic argument of a list is stable. -/
def StableArgs : List Arg → Prop
  | [] => True
  | .lifetime name :: rest => isIdent name = true ∧ StableArgs rest
  | .type type :: rest => type.Stable ∧ StableArgs rest
  | .value code :: rest => StableValue code ∧ StableArgs rest
  | .typeBinding name args type :: rest => (StableInner name args ∧ type.Stable) ∧ StableArgs rest
  | .valueBinding name args code :: rest => (StableInner name args ∧ StableValue code) ∧ StableArgs rest
  | .constraint name args bounds _ :: rest =>
    (StableInner name args ∧ StableBounds parameterContext bounds) ∧ StableArgs rest

/-- Whether the name of a binding is stable with its arguments. -/
def StableInner (name : String) : Option AngleArgs → Prop
  | none => IsPathName name ∧ name ≠ "try"
  | some (.mk _ args _) =>
    (IsPathName name ∧ name ≠ "try") ∧ (name = "Self" ∨ name ∉ pathWords) ∧ StableArgs args

/-- Whether a bound is stable. -/
def Bound.Stable (context : BoundContext) : Bound → Prop
  | .lifetime name => isIdent name = true
  | .trait _ head path => StableHead (codeTokens (eraseCode head)) ∧ path.Stable
  | .verbatim pieces => StableBound context pieces

/-- Whether each bound of a list is stable. -/
def StableBounds (context : BoundContext) : List Bound → Prop
  | [] => True
  | bound :: rest => bound.Stable context ∧ StableBounds context rest

/-- Whether each parameter of a function pointer is stable; only the first of them stands first. -/
def StableParams (first : Bool) : List Param → Prop
  | [] => True
  | .mk head type :: rest =>
    (StableName first (codeTokens (eraseCode head)) ∧ type.Stable ∨ StableSelf first (.mk head type)) ∧
      StableParams false rest

end

end Bindery.Source
