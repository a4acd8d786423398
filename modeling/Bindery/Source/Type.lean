import Bindery.Token
/-!
# Types and paths

The types of the source language as they are written: paths with their generic arguments,
references, pointers, slices, arrays, tuples, function pointers and trait objects. An expression
inside a type, such as the length of an array, is kept as the tokens it consists of, with the types
and paths among them.
-/

namespace Bindery.Source

/-- How the generic arguments of a path are written: with the double colon that the source has, as
in an expression, where the double colon is always there, or not at all. -/
inductive PathStyle where
  | asWritten
  | expression
  | bare
  deriving DecidableEq, Repr

mutual

/-- A type. -/
inductive Ty where
  /-- A path, which a qualified self type may precede. -/
  | path (owner : Option Owner) (path : Path)
  | reference (lifetime : Option String) (mutable : Bool) (target : Ty)
  | pointer (mutable : Bool) (target : Ty)
  | slice (element : Ty)
  | array (element : Ty) (length : List Piece)
  | tuple (elements : List Ty) (trailing : Bool)
  | paren (inner : Ty)
  | never
  | inferred
  /-- A trait object; `trailing` if a plus stands at its end. -/
  | object (keyword : Bool) (bounds : List Bound) (trailing : Bool)
  | anonymous (bounds : List Bound) (trailing : Bool)
  /-- A function pointer. The head holds its binder and qualifiers; the tail is what stands for
  further arguments. -/
  | function (head : List Piece) (params : List Param) (trailing : Bool) (tail : List Piece)
      (output : Option Ty)
  | invocation (path : Path) (delimiter : Delimiter) (body : List (TokenTree Token))
  /-- Tokens that form a type of no other kind. -/
  | verbatim (tokens : List (TokenTree Token))

/-- The self type of a qualified path, and how many segments belong to the trait it is cast to. -/
inductive Owner where
  | mk (type : Ty) (position : Nat)

/-- A path; `absolute` if a double colon leads it. -/
inductive Path where
  | mk (absolute : Bool) (segments : List Segment)

/-- One name of a path with its arguments. -/
inductive Segment where
  | mk (name : String) (args : Args)

/-- The arguments of a path segment. -/
inductive Args where
  | none
  | angle (args : AngleArgs)
  | call (inputs : List Ty) (trailing : Bool) (output : Option Ty)

/-- Arguments between angle brackets; `colons` if a double colon precedes them. -/
inductive AngleArgs where
  | mk (colons : Bool) (args : List Arg) (trailing : Bool)

/-- A generic argument. -/
inductive Arg where
  | lifetime (name : String)
  | type (type : Ty)
  | value (code : List Piece)
  | typeBinding (name : String) (args : Option AngleArgs) (type : Ty)
  | valueBinding (name : String) (args : Option AngleArgs) (code : List Piece)
  | constraint (name : String) (args : Option AngleArgs) (bounds : List Bound) (trailing : Bool)

/-- A bound of a trait object or of a constraint. -/
inductive Bound where
  | lifetime (name : String)
  /-- A trait, with its modifiers and binder in the head. -/
  | trait (parens : Bool) (head : List Piece) (path : Path)
  | verbatim (pieces : List Piece)

/-- A parameter of a function pointer. -/
inductive Param where
  | mk (head : List Piece) (type : Ty)

/-- A part of code: a token, a group, or a type or path among the tokens. -/
inductive Piece where
  | token (token : Token)
  | group (delimiter : Delimiter) (body : List Piece)
  | type (type : Ty)
  | path (owner : Option Owner) (path : Path) (style : PathStyle)
  /-- The generic arguments of a method call. -/
  | args (args : AngleArgs)
  | bound (bound : Bound)

end

namespace Path

/-- Whether a double colon leads the path. -/
def absolute : Path → Bool
  | mk absolute _ => absolute

/-- The segments of a path. -/
def segments : Path → List Segment
  | mk _ segments => segments

end Path

/-- The name of a segment. -/
def Segment.name : Segment → String
  | mk name _ => name

/-- The arguments of a segment. -/
def Segment.args : Segment → Args
  | mk _ args => args

namespace Path

/-- The names of the segments. -/
def names (path : Path) : List String :=
  path.segments.map Segment.name

/-- The last name of a path; a path that was read has one. -/
def lastName (path : Path) : String :=
  (path.segments.getLast?.map Segment.name).getD ""

/-- Whether no segment has arguments. -/
def isPlain (path : Path) : Bool :=
  path.segments.all fun segment => match segment.args with
    | .none => true
    | _ => false

/-- Whether the path is a single name without arguments. -/
def isName (path : Path) (name : String) : Bool :=
  !path.absolute && path.isPlain && path.names == [name]

end Path

end Bindery.Source
