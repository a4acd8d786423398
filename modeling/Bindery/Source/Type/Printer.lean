import Bindery.Source.Type
import Bindery.Token.Printer
/-!
# The tokens of a type

Types, paths and the code inside them, written out as token trees. Lifetime arguments come before
the other arguments of a path, whatever their order was.
-/

namespace Bindery.Source

/-- The characters of an operator as punctuation, each joined to the next. -/
def operatorChars : List Char → List (TokenTree Token)
  | [] => []
  | [c] => [.leaf (.punct c false)]
  | c :: rest => .leaf (.punct c true) :: operatorChars rest

/-- An operator. -/
def operator (text : String) : List (TokenTree Token) :=
  operatorChars text.toList

/-- A word. -/
def word (name : String) : List (TokenTree Token) :=
  [.leaf (.ident name)]

/-- A lifetime, whose quote is a token of its own. -/
def lifetimeTokens (name : String) : List (TokenTree Token) :=
  .leaf (.punct '\x27' true) :: word name

/-- Lists of tokens with a separator between them, and one at the end if it is `trailing`. -/
def separated (separator : List (TokenTree Token)) (trailing : Bool) :
    List (List (TokenTree Token)) → List (TokenTree Token)
  | [] => []
  | [item] => if trailing then item ++ separator else item
  | item :: rest => item ++ separator ++ separated separator trailing rest

/-- The items of a list separated by commas, where the lifetimes come first. A separator that is
lacking between the last lifetime and the first other item is put in. -/
def lifetimesFirst (trailing : Bool) (items : List (Bool × List (TokenTree Token))) :
    List (TokenTree Token) :=
  let lifetimes := items.filter (·.1)
  let others := items.filter (!·.1)
  let lastIsLifetime := (items.getLast?.map (·.1)).getD false
  let front := separated (operator ",") (trailing || !lastIsLifetime) (lifetimes.map (·.2))
  let back := separated (operator ",") (trailing || lastIsLifetime) (others.map (·.2))
  let gap := !lifetimes.isEmpty && !others.isEmpty && lastIsLifetime && !trailing
  front ++ (if gap then operator "," else []) ++ back

/-- The tokens of a path from those of its self type and its segments. The bracket around the self
type closes after the segments of the trait. -/
def qualify (owner : Option (List (TokenTree Token) × Nat))
    (path : Bool × List (List (TokenTree Token))) : List (TokenTree Token) :=
  let lead := if path.1 then operator "::" else []
  let join := separated (operator "::") false
  match owner with
  | none => lead ++ join path.2
  | some (type, position) =>
    let front := path.2.take position
    let back := path.2.drop position
    if front.isEmpty then operator "<" ++ type ++ operator ">" ++ lead ++ join back
    else
      operator "<" ++ type ++ word "as" ++ lead ++ join front ++ operator ">" ++
        (if back.isEmpty then [] else operator "::" ++ join back)

mutual

/-- The tokens of a type. -/
def Ty.tokens : Ty → List (TokenTree Token)
  | .path owner path => qualify (ownerTokens owner) (nameTokens .asWritten path)
  | .reference name mutable target =>
    operator "&" ++ (name.map lifetimeTokens).getD [] ++ (if mutable then word "mut" else []) ++
      target.tokens
  | .pointer mutable target =>
    operator "*" ++ word (if mutable then "mut" else "const") ++ target.tokens
  | .slice element => [.group .bracket element.tokens]
  | .array element length =>
    [.group .bracket (element.tokens ++ operator ";" ++ codeTokens length)]
  | .tuple elements trailing =>
    [.group .paren (separated (operator ",") (trailing || elements.length == 1)
      (tyListTokens elements))]
  | .paren inner => [.group .paren inner.tokens]
  | .never => operator "!"
  | .inferred => word "_"
  | .object keyword bounds trailing =>
    (if keyword then word "dyn" else []) ++ separated (operator "+") trailing (boundTokens bounds)
  | .anonymous bounds trailing =>
    word "impl" ++ separated (operator "+") trailing (boundTokens bounds)
  | .function head params trailing tail output =>
    codeTokens head ++
      [.group .paren (separated (operator ",") trailing (paramTokens params) ++ codeTokens tail)] ++
      outputTokens output
  | .invocation path delimiter body =>
    qualify none (nameTokens .bare path) ++ operator "!" ++ [.group delimiter body]
  | .verbatim tokens => tokens

/-- The tokens of each type of a list. -/
def tyListTokens : List Ty → List (List (TokenTree Token))
  | [] => []
  | type :: rest => type.tokens :: tyListTokens rest

/-- The tokens of a return type. -/
def outputTokens : Option Ty → List (TokenTree Token)
  | none => []
  | some type => operator "->" ++ type.tokens

/-- Whether a path is absolute, and the tokens of each of its segments. -/
def nameTokens (style : PathStyle) : Path → Bool × List (List (TokenTree Token))
  | .mk absolute segments => (absolute, segmentTokens style segments)

/-- The tokens of a self type, and how many segments its bracket encloses. -/
def ownerTokens : Option Owner → Option (List (TokenTree Token) × Nat)
  | none => none
  | some (.mk type position) => some (type.tokens, position)

/-- The tokens of each segment. -/
def segmentTokens (style : PathStyle) : List Segment → List (List (TokenTree Token))
  | [] => []
  | .mk name args :: rest => (word name ++ argsTokens style args) :: segmentTokens style rest

/-- The tokens of the arguments of a segment. -/
def argsTokens (style : PathStyle) : Args → List (TokenTree Token)
  | .none => []
  | .angle args => angleTokens style args
  | .call inputs trailing output =>
    [.group .paren (separated (operator ",") trailing (tyListTokens inputs))] ++
      outputTokens output

/-- The tokens of arguments between angle brackets. -/
def angleTokens (style : PathStyle) : AngleArgs → List (TokenTree Token)
  | .mk colons args trailing =>
    match style with
    | .bare => []
    | .asWritten =>
      (if colons then operator "::" else []) ++ operator "<" ++
        lifetimesFirst trailing (argTokens args) ++ operator ">"
    | .expression =>
      operator "::" ++ operator "<" ++ lifetimesFirst trailing (argTokens args) ++ operator ">"

/-- The tokens of optional arguments between angle brackets. -/
def optionalAngleTokens : Option AngleArgs → List (TokenTree Token)
  | none => []
  | some args => angleTokens .asWritten args

/-- The tokens of each generic argument, and whether it is a lifetime. -/
def argTokens : List Arg → List (Bool × List (TokenTree Token))
  | [] => []
  | .lifetime name :: rest => (true, lifetimeTokens name) :: argTokens rest
  | .type type :: rest => (false, type.tokens) :: argTokens rest
  | .value code :: rest => (false, codeTokens code) :: argTokens rest
  | .typeBinding name args type :: rest =>
    (false, word name ++ optionalAngleTokens args ++ operator "=" ++ type.tokens) ::
      argTokens rest
  | .valueBinding name args code :: rest =>
    (false, word name ++ optionalAngleTokens args ++ operator "=" ++ codeTokens code) ::
      argTokens rest
  | .constraint name args bounds trailing :: rest =>
    (false, word name ++ optionalAngleTokens args ++ operator ":" ++
      separated (operator "+") trailing (boundTokens bounds)) :: argTokens rest

/-- The tokens of a bound. -/
def Bound.tokens : Bound → List (TokenTree Token)
  | .lifetime name => lifetimeTokens name
  | .trait parens head path =>
    let inside := codeTokens head ++ qualify none (nameTokens .asWritten path)
    if parens then [.group .paren inside] else inside
  | .verbatim pieces => codeTokens pieces

/-- The tokens of each bound of a list. -/
def boundTokens : List Bound → List (List (TokenTree Token))
  | [] => []
  | bound :: rest => bound.tokens :: boundTokens rest

/-- The tokens of each parameter of a function pointer. -/
def paramTokens : List Param → List (List (TokenTree Token))
  | [] => []
  | .mk head type :: rest => (codeTokens head ++ type.tokens) :: paramTokens rest

/-- The tokens of a piece of code. -/
def Piece.tokens : Piece → List (TokenTree Token)
  | .token token => [.leaf token]
  | .group delimiter body => [.group delimiter (codeTokens body)]
  | .type type => type.tokens
  | .path owner path style => qualify (ownerTokens owner) (nameTokens style path)
  | .args args => angleTokens .expression args
  | .bound bound => bound.tokens

/-- The tokens of code. -/
def codeTokens : List Piece → List (TokenTree Token)
  | [] => []
  | piece :: rest => piece.tokens ++ codeTokens rest

end

/-- The tokens of a path. -/
def Path.tokens (path : Path) : List (TokenTree Token) :=
  qualify none (nameTokens .asWritten path)

end Bindery.Source
