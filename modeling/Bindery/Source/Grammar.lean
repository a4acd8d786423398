import Bindery.Source.Item
import Bindery.Token.Lexer
import Bindery.Token.Printer
/-!
# Reading token trees

A grammar takes token trees from the front of a stream and yields what they form, or says why they
do not form it. On the way it records what it took, so that code can be kept as pieces. A grammar
that fails leaves nothing behind: an alternative starts again where the first one began.
-/

namespace Bindery.Source

/-- Why token trees do not form what was asked for. -/
inductive Fault where
  /-- The text has no token trees. -/
  | unlexable
  /-- Something is left over, at the end of a text or before a closing bracket. -/
  | leftover (enclosing : Option Delimiter)
  /-- Something else was expected, `atEnd` if nothing stands there. -/
  | expected (what : String) (atEnd : Bool)
  /-- A keyword stands where an identifier was expected. -/
  | keyword (name : String)
  /-- The form is known, and not allowed here. -/
  | refused
  /-- The nesting is deeper than the reading was prepared for. -/
  | exhausted
  deriving DecidableEq, Repr

/-- The text of a fault. -/
def Fault.message : Fault → String
  | unlexable => "cannot parse string into token stream"
  | leftover none => "unexpected token"
  | leftover (some delimiter) =>
    "unexpected token, expected `" ++ String.ofList [delimiter.closing] ++ "`"
  | expected what atEnd =>
    (if atEnd then "unexpected end of input, " else "") ++ "expected " ++ what
  | keyword name => "expected identifier, found keyword `" ++ name ++ "`"
  | refused => "not allowed here"
  | exhausted => "nested too deeply"

/-- The trees still to be read, and the pieces that were taken, the last one first. -/
structure Stream where
  rest : Trees
  taken : List Piece

/-- A rule that reads a value from a stream. -/
abbrev Grammar := StateT Stream (Except Fault)

namespace Grammar

/-! ## Looking ahead -/

namespace Ahead

/-- Whether the characters of an operator stand at the head, each joined to the next. -/
def opChars : List Char → Trees → Bool
  | [c], .leaf ⟨.punct d _, _⟩ :: _ => c == d && c != '\x27'
  | c :: more, .leaf ⟨.punct d true, _⟩ :: rest => c == d && c != '\x27' && opChars more rest
  | _, _ => false

/-- Whether an operator stands at the head; a longer one may begin there as well. -/
def op (text : String) (trees : Trees) : Bool :=
  opChars text.toList trees

/-- Whether one of the operators stands at the head. -/
def anyOp (texts : List String) (trees : Trees) : Bool :=
  texts.any fun text => op text trees

/-- Whether a keyword stands at the head. -/
def word (name : String) : Trees → Bool
  | .leaf ⟨.ident found, _⟩ :: _ => found == name
  | _ => false

/-- Whether one of the keywords stands at the head. -/
def anyWord (names : List String) (trees : Trees) : Bool :=
  names.any fun name => word name trees

/-- The words that are no identifiers. -/
def keywords : List String :=
  ["_", "abstract", "as", "async", "await", "become", "box", "break", "const", "continue",
    "crate", "do", "dyn", "else", "enum", "extern", "false", "final", "fn", "for", "if", "impl",
    "in", "let", "loop", "macro", "match", "mod", "move", "mut", "override", "priv", "pub", "ref",
    "return", "Self", "self", "static", "struct", "super", "trait", "true", "try", "type",
    "typeof", "unsafe", "unsized", "use", "virtual", "where", "while", "yield"]

/-- Whether a word stands at the head, keyword or not. -/
def anyIdent : Trees → Bool
  | .leaf ⟨.ident _, _⟩ :: _ => true
  | _ => false

/-- Whether an identifier stands at the head. -/
def ident : Trees → Bool
  | .leaf ⟨.ident name, _⟩ :: _ => !keywords.contains name
  | _ => false

/-- Whether a lifetime stands at the head. -/
def lifetime : Trees → Bool
  | .leaf ⟨.punct '\x27' true, _⟩ :: .leaf ⟨.ident _, _⟩ :: _ => true
  | _ => false

/-- Whether a group in the brackets stands at the head. -/
def group (delimiter : Delimiter) : Trees → Bool
  | .group found _ :: _ => found == delimiter
  | _ => false

/-- Whether the text of a literal is that of a number. -/
def isNumber (text : String) : Bool :=
  (text.toList.head?.any Text.isDigit)

/-- Whether a literal stands at the head: one token, a truth value, or a negated number. -/
def literal : Trees → Bool
  | .leaf ⟨.literal _, _⟩ :: _ => true
  | .leaf ⟨.ident name, _⟩ :: _ => name == "true" || name == "false"
  | .leaf ⟨.punct '-' _, _⟩ :: .leaf ⟨.literal text, _⟩ :: _ => isNumber text
  | _ => false

/-- Whether a string literal stands at the head. -/
def string : Trees → Bool
  | .leaf ⟨.literal text, _⟩ :: _ => (Token.stringValue? text).isSome
  | _ => false

/-- What follows the first tree; a lifetime counts as one. -/
def skip : Trees → Trees
  | .leaf ⟨.punct '\x27' true, _⟩ :: .leaf ⟨.ident _, _⟩ :: rest => rest
  | _ :: rest => rest
  | [] => []

end Ahead

/-- The trees that stand ahead. -/
def look : Grammar Trees :=
  return (← get).rest

/-- Whether what stands ahead has a property. -/
def ahead (p : Trees → Bool) : Grammar Bool :=
  return p (← get).rest

/-- Fails for want of something. -/
def expected {α : Type} (what : String) : Grammar α := do
  throw (.expected what (← get).rest.isEmpty)

/-! ## Taking trees -/

/-- Leaves `rest` in the stream and records a piece. -/
def advance (rest : Trees) (pieces : List Piece) : Grammar Unit :=
  modify fun stream => ⟨rest, pieces ++ stream.taken⟩

/-- The pieces of an operator, the last character first. -/
def opPieces (text : String) : List Piece :=
  (go text.toList).reverse
where
  /-- One piece for each character, joined to the next. -/
  go : List Char → List Piece
    | [] => []
    | [c] => [.token (.punct c false)]
    | c :: rest => .token (.punct c true) :: go rest

/-- Takes an operator. -/
def op (text : String) : Grammar Unit := do
  let trees ← look
  if Ahead.op text trees then advance (trees.drop text.length) (opPieces text)
  else expected ("`" ++ text ++ "`")

/-- Takes an operator if it stands ahead. -/
def op? (text : String) : Grammar Bool := do
  if ← ahead (Ahead.op text) then
    op text
    return true
  else return false

/-- Takes any word. A token that was lexed as one is an identifier. -/
def anyIdent : Grammar Name := do
  match ← look with
  | .leaf ⟨.ident name, line⟩ :: rest =>
    if h : Token.isIdent name then
      advance rest [.token (.ident name)]
      return ⟨name, line, h⟩
    else expected "ident"
  | _ => expected "ident"

/-- Takes a keyword. -/
def keyword (name : String) : Grammar Unit := do
  if ← ahead (Ahead.word name) then
    let _ ← anyIdent
  else expected ("`" ++ name ++ "`")

/-- Takes a keyword if it stands ahead. -/
def keyword? (name : String) : Grammar Bool := do
  if ← ahead (Ahead.word name) then
    let _ ← anyIdent
    return true
  else return false

/-- Takes an identifier. -/
def ident : Grammar Name := do
  match ← look with
  | .leaf ⟨.ident name, _⟩ :: _ =>
    if Ahead.keywords.contains name then throw (.keyword name) else anyIdent
  | _ => expected "identifier"

/-- Takes a lifetime and yields its name. -/
def lifetime : Grammar String := do
  match ← look with
  | .leaf ⟨.punct '\x27' true, _⟩ :: .leaf ⟨.ident name, _⟩ :: rest =>
    advance rest [.token (.ident name), .token (.punct '\x27' true)]
    return name
  | _ => expected "lifetime"

/-- Takes a lifetime if one stands ahead. -/
def lifetime? : Grammar (Option String) := do
  if ← ahead Ahead.lifetime then return some (← lifetime) else return none

/-- Takes a literal and yields its text, without a sign. -/
def literal : Grammar String := do
  let trees ← look
  match trees with
  | .leaf ⟨.literal text, _⟩ :: rest =>
    advance rest [.token (.literal text)]
    return text
  | .leaf ⟨.ident name, _⟩ :: rest =>
    if name == "true" || name == "false" then
      advance rest [.token (.ident name)]
      return name
    else expected "literal"
  | .leaf ⟨.punct '-' _, _⟩ :: .leaf ⟨.literal text, _⟩ :: rest =>
    if Ahead.isNumber text then
      advance rest [.token (.literal text), .token (.punct '-' false)]
      return text
    else expected "literal"
  | _ => expected "literal"

/-- Takes a string literal and yields the text it stands for. -/
def string : Grammar String := do
  match ← look with
  | .leaf ⟨.literal text, _⟩ :: rest =>
    match Token.stringValue? text with
    | some value =>
      advance rest [.token (.literal text)]
      return value
    | none => expected "string literal"
  | _ => expected "string literal"

mutual

/-- A token tree as a piece, with nothing inside it recognized. -/
def Piece.ofTree : TokenTree Lexeme → Piece
  | .leaf lexeme => .token lexeme.token
  | .group delimiter body => .group delimiter (Piece.ofTrees body)

/-- Token trees as pieces. -/
def Piece.ofTrees : Trees → List Piece
  | [] => []
  | tree :: rest => Piece.ofTree tree :: Piece.ofTrees rest

end

/-- Takes a group in any brackets without looking inside. -/
def anyGroup : Grammar (Delimiter × Trees) := do
  match ← look with
  | .group delimiter body :: rest =>
    advance rest [.group delimiter (Piece.ofTrees body)]
    return (delimiter, body)
  | _ => expected "delimiter"

/-- The name of the opening bracket in messages. -/
def Delimiter.description : Delimiter → String
  | .paren => "parentheses"
  | .bracket => "square brackets"
  | .brace => "curly braces"

/-- Reads all of a stream of its own, in which nothing may be left over. -/
def whole {α : Type} (enclosing : Option Delimiter) (grammar : Grammar α) (trees : Trees) :
    Except Fault (α × List Piece) := do
  let (value, stream) ← grammar.run ⟨trees, []⟩
  if stream.rest.isEmpty then return (value, stream.taken.reverse)
  else throw (.leftover enclosing)

/-- Takes a group in the brackets and reads all of its inside. -/
def within {α : Type} (delimiter : Delimiter) (grammar : Grammar α) : Grammar α := do
  match ← look with
  | .group found body :: rest =>
    if found = delimiter then
      let (value, pieces) ← whole (some delimiter) grammar body
      advance rest [.group delimiter pieces]
      return value
    else expected (Delimiter.description delimiter)
  | _ => expected (Delimiter.description delimiter)

/-- The pieces that a grammar takes, with its value; nothing is recorded. -/
def recording {α : Type} (grammar : Grammar α) : Grammar (α × List Piece) := do
  let outer := (← get).taken
  modify fun stream => { stream with taken := [] }
  let value ← grammar
  let inner := (← get).taken
  modify fun stream => { stream with taken := outer }
  return (value, inner.reverse)

/-- The trees that a grammar takes, with its value; nothing is recorded. -/
def spanning {α : Type} (grammar : Grammar α) : Grammar (α × Trees) := do
  let before ← look
  let (value, _) ← recording grammar
  let after ← look
  return (value, before.take (before.length - after.length))

/-- Records what a grammar takes as it stands, with nothing inside it recognized. -/
def verbatim {α : Type} (grammar : Grammar α) : Grammar α := do
  let (value, trees) ← spanning grammar
  modify fun stream => { stream with taken := (Piece.ofTrees trees).reverse ++ stream.taken }
  return value

/-- Records what a grammar takes as one piece that its value determines. -/
def piece {α : Type} (grammar : Grammar α) (form : α → Piece) : Grammar α := do
  let (value, _) ← recording grammar
  modify fun stream => { stream with taken := form value :: stream.taken }
  return value

/-- What a grammar yields ahead, if it succeeds; nothing is taken. -/
def glimpse {α : Type} (grammar : Grammar α) : Grammar (Option (α × Stream)) := do
  match grammar.run (← get) with
  | .ok result => return some result
  | .error _ => return none

/-- Takes what a grammar reads, if it succeeds. -/
def attempt {α : Type} (grammar : Grammar α) : Grammar (Option α) := do
  match ← glimpse grammar with
  | some (value, stream) =>
    set stream
    return some value
  | none => return none

/-! ## Repetition -/

/-- Repeats a step that says what comes next until it says nothing, at most `fuel` times. -/
def iterate {σ : Type} (step : σ → Grammar (Option σ)) : Nat → σ → Grammar σ
  | 0, _ => throw .exhausted
  | fuel + 1, state => do
    match ← step state with
    | some next => iterate step fuel next
    | none => return state

/-- Repeats a step for as long as it goes on. Each of its steps takes at least one tree. -/
def loop {σ : Type} (start : σ) (step : σ → Grammar (Option σ)) : Grammar σ := do
  iterate step ((← look).length + 1) start

/-- The values of a step, for as long as it yields one. -/
def many {α : Type} (step : Grammar (Option α)) : Grammar (List α) := do
  let values ← loop [] fun values => do
    return (← step).map (· :: values)
  return values.reverse

/-- Values separated by an operator, until `stop` holds; says whether a separator ends the list. -/
def separatedBy {α : Type} (separator : String) (stop : Trees → Bool) (item : Grammar α) :
    Grammar (List α × Bool) := do
  let (values, closed) ← loop ([], true) fun (values, more) => do
    if !more || (← ahead stop) then return none
    let value ← item
    if ← ahead stop then return some (value :: values, false)
    op separator
    return some (value :: values, true)
  return (values.reverse, closed && !values.isEmpty)

/-- Values separated by commas up to the end of the stream; says whether a comma ends the list. -/
def terminated {α : Type} (item : Grammar α) : Grammar (List α × Bool) :=
  separatedBy "," List.isEmpty item

/-! ## Rules that refer to each other -/

/-- What is known of an expression that was read. -/
inductive Form where
  | range
  | comparison
  /-- Ends with a block and needs no semicolon as a statement. -/
  | blockLike
  /-- The use of a macro, in braces or not. -/
  | invocation (braces : Bool)
  | other
  deriving DecidableEq, Repr

/-- The binding strengths of operators, the weakest first. -/
inductive Precedence where
  | jump
  | assign
  | range
  | or
  | and
  | binding
  | compare
  | bitOr
  | bitXor
  | bitAnd
  | shift
  | sum
  | product
  | cast
  deriving DecidableEq, Repr, Ord

/-- The place of a binding strength in their order. -/
def Precedence.rank : Precedence → Nat
  | jump => 0
  | assign => 1
  | range => 2
  | or => 3
  | and => 4
  | binding => 5
  | compare => 6
  | bitOr => 7
  | bitXor => 8
  | bitAnd => 9
  | shift => 10
  | sum => 11
  | product => 12
  | cast => 13

/-- The rules of the language that others refer to before they are defined. -/
structure Rules where
  /-- A type, which may be a sum of bounds only if `plus`. -/
  type : (plus : Bool) → Grammar Ty
  /-- A bound of a parameter or of a constraint. -/
  bound : Grammar Bound
  /-- An expression without binary operators; a path may begin a struct only if `struct`. -/
  unary : (struct : Bool) → Grammar Form
  /-- An expression that ends with its block if it begins with one, as a statement does. -/
  standing : Grammar Form
  /-- The operators that follow an operand and bind at least as strongly as `base`. -/
  climb : (struct : Bool) → Form → (base : Precedence) → Grammar Form
  /-- A pattern without alternatives; says whether it is a range that lacks an end. -/
  pattern : Grammar Bool
  /-- The statements of a block, up to the end of the stream. -/
  statements : Grammar Unit
  /-- An item. -/
  item : Grammar Item
  /-- A tree of imports, in which a path from the root may stand only if `rooted`. -/
  imports : (rooted : Bool) → Grammar Unit

/-- Rules that fail for want of depth. -/
def Rules.exhausted : Rules where
  type _ := throw .exhausted
  bound := throw .exhausted
  unary _ := throw .exhausted
  standing := throw .exhausted
  climb _ _ _ := throw .exhausted
  pattern := throw .exhausted
  statements := throw .exhausted
  item := throw .exhausted
  imports _ := throw .exhausted

/-- An expression. -/
def Rules.expression (rules : Rules) (struct : Bool) : Grammar Form := do
  rules.climb struct (← rules.unary struct) .jump

/-- A bound among code. -/
def Rules.boundPiece (rules : Rules) : Grammar Unit := do
  let _ ← piece rules.bound .bound

/-- A type among code. -/
def Rules.typePiece (rules : Rules) (plus : Bool) : Grammar Unit := do
  let _ ← piece (rules.type plus) .type

end Grammar

end Bindery.Source
