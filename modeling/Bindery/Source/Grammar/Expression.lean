import Bindery.Source.Grammar.Generics
import Bindery.Source.Grammar.Pattern
import Bindery.Text.Split
/-!
# Expressions

An expression is an operand with the operators that follow it. An operand is a prefix operator with
an operand, or an atom with calls, fields and indices after it. Where a block is to follow, a path
may not begin a struct.
-/

namespace Bindery.Source.Grammar

/-- Whether an expression may begin here. -/
def Ahead.expression (trees : Trees) : Bool :=
  Ahead.anyIdent trees || Ahead.literal trees || Ahead.lifetime trees ||
    Ahead.group .paren trees || Ahead.group .bracket trees || Ahead.group .brace trees ||
    Ahead.op "!" trees && !Ahead.op "!=" trees ||
    Ahead.op "-" trees && !Ahead.anyOp ["-=", "->"] trees ||
    Ahead.op "*" trees && !Ahead.op "*=" trees ||
    Ahead.op "|" trees && !Ahead.op "|=" trees ||
    Ahead.op "&" trees && !Ahead.op "&=" trees ||
    Ahead.op "<" trees && !Ahead.anyOp ["<=", "<<="] trees ||
    Ahead.anyOp ["..", "::", "#"] trees

/-! ## Operators -/

/-- The operators of two operands with their strengths; a longer one comes before its beginning. -/
def binaryOperators : List (String × Precedence) :=
  [("+=", .assign), ("-=", .assign), ("*=", .assign), ("/=", .assign), ("%=", .assign),
    ("^=", .assign), ("&=", .assign), ("|=", .assign), ("<<=", .assign), (">>=", .assign),
    ("&&", .and), ("||", .or), ("<<", .shift), (">>", .shift), ("==", .compare),
    ("<=", .compare), ("!=", .compare), (">=", .compare), ("+", .sum), ("-", .sum),
    ("*", .product), ("/", .product), ("%", .product), ("^", .bitXor), ("&", .bitAnd),
    ("|", .bitOr), ("<", .compare), (">", .compare)]

/-- The operator of two operands that stands ahead. -/
def Ahead.binary? (trees : Trees) : Option (String × Precedence) :=
  binaryOperators.find? fun (text, _) => Ahead.op text trees

/-- Whether an assignment stands ahead, and not the arrow of a match. -/
def Ahead.assignment (trees : Trees) : Bool :=
  Ahead.op "=" trees && !Ahead.op "=>" trees

/-- The strength of the operator that stands ahead; the least one if there is none. -/
def Ahead.strength (trees : Trees) : Precedence :=
  match Ahead.binary? trees with
  | some (_, strength) => strength
  | none =>
    if Ahead.assignment trees then .assign
    else if Ahead.op ".." trees then .range
    else if Ahead.word "as" trees then .cast
    else .jump

/-- The right operand of an operator, with all operators that bind more strongly. -/
def operand (rules : Rules) (struct : Bool) (strength : Precedence) : Grammar Unit := do
  let _ ← loop (← rules.unary struct) fun form => do
    let before ← look
    let next := Ahead.strength before
    if strength.rank < next.rank || next = .assign && strength = .assign then
      let form ← rules.climb struct form next
      if (← look).length < before.length then return some form else return none
    else return none

/-- Whether a range without an end stops here. -/
def Ahead.endsOpenRange (struct : Bool) (trees : Trees) : Bool :=
  trees.isEmpty || Ahead.anyOp [",", ";", "?", "=>", "=", "+", "/", "%", "^", ">", "<=", "!=",
      "-=", "*=", "&=", "|=", "<<="] trees ||
    Ahead.op "." trees && !Ahead.op ".." trees || !struct && Ahead.group .brace trees ||
    Ahead.word "as" trees

/-- The dots of a range and what follows them. -/
def rangeExpression (rules : Rules) (struct : Bool) : Grammar Unit := do
  if ← op? "..=" then operand rules struct .range
  else if ← ahead (Ahead.op "...") then expected "`..` or `..=`"
  else
    op ".."
    if !(← ahead (Ahead.endsOpenRange struct)) then operand rules struct .range

/-- A cast binds more strongly than what stands after its type. -/
def Ahead.afterCast (trees : Trees) : Bool :=
  Ahead.op "." trees && !Ahead.op ".." trees || Ahead.op "?" trees ||
    Ahead.group .bracket trees || Ahead.group .paren trees

/-- The operators that follow an operand and bind at least as strongly as `base`. A range is no
left operand, and comparisons are not chained. -/
def climbWith (rules : Rules) (struct : Bool) (start : Form) (base : Precedence) : Grammar Form :=
  loop start fun form => do
    if form = .range then return none
    let trees ← look
    match Ahead.binary? trees with
    | some (text, strength) =>
      if strength.rank < base.rank then return none
      if strength = .compare && form = .comparison then throw .refused
      op text
      operand rules struct strength
      return some (if strength = .compare then .comparison else .other)
    | none =>
      if base.rank ≤ Precedence.assign.rank && Ahead.assignment trees then
        op "="
        operand rules struct .assign
        return some .other
      else if base.rank ≤ Precedence.range.rank && Ahead.op ".." trees then
        rangeExpression rules struct
        return some .range
      else if base.rank ≤ Precedence.cast.rank && Ahead.word "as" trees then
        keyword "as"
        rules.typePiece false
        if ← ahead Ahead.afterCast then throw .refused
        return some .other
      else return none

/-! ## Calls, fields and indices -/

/-- Expressions separated by commas, up to the end of the stream. -/
def expressions (rules : Rules) : Grammar Unit := do
  let _ ← terminated (rules.expression true)

/-- A field, a method call or the word `await` after a dot. The fields of nested tuples may look
like one number with a point. -/
def member (rules : Rules) : Grammar Unit := do
  op "."
  let nested ← match ← look with
    | .leaf ⟨.literal text, _⟩ :: _ =>
      if text.toList.contains '.' then nestedFields text else pure false
    | _ => pure false
  if nested then return
  if ← keyword? "await" then return
  if ← fieldName then
    if ← ahead (Ahead.op "::") then
      let _ ← piece (angleArgs rules) .args
      within .paren (expressions rules)
where
  /-- Takes a number with points for fields; says whether no dot is left at its end. -/
  nestedFields (text : String) : Grammar Bool := do
    let parts := Text.splitAt '.' text.toList
    let dangling := parts.getLast? == some []
    let numbers := if dangling then parts.dropLast else parts
    if numbers.all fun part => Token.isIndex (String.ofList part) then
      let _ ← literal
      return !dangling
    else throw .refused

/-- What follows an atom. -/
def trailers (rules : Rules) (start : Form) : Grammar Form :=
  loop start fun form => do
    let trees ← look
    if Ahead.group .paren trees then
      within .paren (expressions rules)
      return some .other
    else if Ahead.op "." trees && !Ahead.op ".." trees && form ≠ .range then
      member rules
      return some .other
    else if Ahead.group .bracket trees then
      let _ ← within .bracket (rules.expression true)
      return some .other
    else if Ahead.op "?" trees && form ≠ .range then
      op "?"
      return some .other
    else return none

/-! ## Atoms -/

/-- A block without attributes of its own. -/
def plainBlock (rules : Rules) : Grammar Unit :=
  within .brace rules.statements

/-- A parameter of a closure. -/
def closureParam (rules : Rules) : Grammar Unit := do
  let _ ← outerAttributes rules
  let _ ← rules.pattern
  if ← op? ":" then rules.typePiece true

/-- A closure. -/
def closure (rules : Rules) (struct : Bool) : Grammar Unit := do
  let _ ← binder? rules
  let _ ← keyword? "const"
  let _ ← keyword? "static"
  let _ ← keyword? "async"
  let _ ← keyword? "move"
  op "|"
  let _ ← separatedBy "," (Ahead.op "|") (closureParam rules)
  op "|"
  if ← op? "->" then
    rules.typePiece true
    plainBlock rules
  else
    let _ ← rules.expression struct

/-- The fields of a struct; the rest of them may be taken from another value. -/
def structFields (rules : Rules) : Grammar Unit := do
  let _ ← loop true fun more => do
    if !more || (← look).isEmpty then return none
    if ← op? ".." then
      if !(← look).isEmpty then
        let _ ← rules.expression true
      return some false
    let _ ← outerAttributes rules
    let named ← fieldName
    if !named || (← ahead (Ahead.op ":")) then
      op ":"
      let _ ← rules.expression true
    if (← look).isEmpty then return some false
    op ","
    return some true

/-- A path, the use of a macro, or a struct. -/
def pathExpression (rules : Rules) (struct : Bool) : Grammar Form := do
  let (owner, path) ← piece (qualifiedPath rules true)
    fun (owner, path) => .path owner path .expression
  let trees ← look
  if owner.isNone && Ahead.op "!" trees && !Ahead.op "!=" trees && path.isPlain then
    let (delimiter, _) ← macroBody
    return .invocation (delimiter = .brace)
  else if struct && Ahead.group .brace trees then
    within .brace (structFields rules)
    return .other
  else return .other

/-- The inside of brackets: elements, or one element and how often it is repeated. -/
def arrayElements (rules : Rules) : Grammar Unit := do
  if (← look).isEmpty then return
  let _ ← rules.expression true
  if ← op? ";" then
    let _ ← rules.expression true
  else if !(← look).isEmpty then
    op ","
    expressions rules

/-- The value that a jump carries, if one stands ahead. -/
def jumpValue (rules : Rules) : Grammar Unit := do
  if ← ahead Ahead.expression then
    let _ ← rules.expression true

/-- A jump out of a loop or a labeled block. -/
def breakExpression (rules : Rules) (struct : Bool) : Grammar Unit := do
  keyword "break"
  let label ← lifetime?
  if label.isSome && (← ahead (Ahead.op ":")) then throw .refused
  if struct || !(← ahead (Ahead.group .brace)) then jumpValue rules

/-- A condition that binds a pattern. -/
def letExpression (rules : Rules) (struct : Bool) : Grammar Unit := do
  keyword "let"
  let _ ← pattern rules
  op "="
  let _ ← rules.climb struct (← rules.unary struct) .compare

/-- A conditional with its alternatives. -/
def conditional (rules : Rules) : Grammar Unit := do
  let _ ← loop true fun more => do
    if !more then return none
    keyword "if"
    let _ ← rules.expression false
    plainBlock rules
    if ← keyword? "else" then
      if ← ahead (Ahead.word "if") then return some true
      plainBlock rules
    return some false

/-- Whether an arm that ends with the expression needs no comma. -/
def Form.isBlockLike (form : Form) : Bool :=
  form = .blockLike

/-- Whether a statement that is the expression needs no semicolon. -/
def Form.isStatement : Form → Bool
  | .blockLike => true
  | .invocation braces => braces
  | _ => false

/-- A loop or a block after its label. -/
def labeled (rules : Rules) : Grammar Unit := do
  let trees ← look
  if Ahead.word "while" trees then
    keyword "while"
    let _ ← rules.expression false
    let _ ← block rules
  else if Ahead.word "for" trees then
    keyword "for"
    let _ ← pattern rules
    keyword "in"
    let _ ← rules.expression false
    let _ ← block rules
  else if Ahead.word "loop" trees then
    keyword "loop"
    let _ ← block rules
  else
    let _ ← block rules

/-- An arm of a choice. -/
def arm (rules : Rules) : Grammar Unit := do
  let _ ← outerAttributes rules
  let _ ← pattern rules
  if ← keyword? "if" then
    let _ ← rules.expression true
  op "=>"
  let form ← rules.standing
  if form = .blockLike || (← look).isEmpty then
    let _ ← op? ","
  else op ","

/-- A choice with its arms. -/
def choice (rules : Rules) : Grammar Unit := do
  keyword "match"
  let _ ← rules.expression false
  within .brace do
    let _ ← innerAttributes rules
    let _ ← many do
      if (← look).isEmpty then return none else return some (← arm rules)

/-- Whether an expression that ends with its block stands ahead, wherever an expression may. -/
def Ahead.blockLike (trees : Trees) : Bool :=
  let next := Ahead.skip trees
  Ahead.anyWord ["if", "while", "loop", "match", "unsafe"] trees ||
    Ahead.word "for" trees && !Ahead.generics next ||
    Ahead.anyWord ["try", "const"] trees && Ahead.group .brace next ||
    Ahead.group .brace trees || Ahead.lifetime trees

/-- An expression that ends with its block. -/
def blockLike (rules : Rules) : Grammar Form := do
  let trees ← look
  if Ahead.word "if" trees then conditional rules
  else if Ahead.word "match" trees then choice rules
  else if Ahead.word "try" trees then
    keyword "try"
    plainBlock rules
  else if Ahead.anyWord ["unsafe", "const"] trees then
    let _ ← anyIdent
    let _ ← block rules
  else if Ahead.lifetime trees then
    let _ ← lifetime
    op ":"
    labeled rules
  else labeled rules
  return .blockLike

/-- Whether an asynchronous block stands ahead. -/
def Ahead.asyncBlock (trees : Trees) : Bool :=
  let next := Ahead.skip trees
  Ahead.word "async" trees && (Ahead.group .brace next ||
    Ahead.word "move" next && Ahead.group .brace (Ahead.skip next))

/-- Whether a closure stands ahead. -/
def Ahead.closure (trees : Trees) : Bool :=
  let next := Ahead.skip trees
  Ahead.op "|" trees || Ahead.anyWord ["move", "static"] trees ||
    Ahead.word "for" trees && Ahead.generics next ||
    Ahead.word "const" trees && !Ahead.group .brace next ||
    Ahead.word "async" trees && (Ahead.op "|" next || Ahead.word "move" next)

/-- Whether a path stands ahead in an expression. -/
def Ahead.expressionPath (trees : Trees) : Bool :=
  Ahead.path trees || Ahead.word "try" trees && Ahead.anyOp ["!", "::"] (Ahead.skip trees)

/-- An atom that begins with a keyword of its own, if one stands ahead. -/
def keywordAtom (rules : Rules) (struct : Bool) : Grammar Form := do
  let trees ← look
  if Ahead.word "break" trees then breakExpression rules struct
  else if Ahead.word "continue" trees then
    keyword "continue"
    let _ ← lifetime?
  else if Ahead.anyWord ["return", "yield"] trees then
    let _ ← anyIdent
    jumpValue rules
  else if Ahead.word "become" trees then
    keyword "become"
    let _ ← rules.expression true
  else if Ahead.word "let" trees then letExpression rules struct
  else if Ahead.word "_" trees then keyword "_"
  else expected "an expression"
  return .other

/-- An atom. -/
def atom (rules : Rules) (struct : Bool) : Grammar Form := do
  let trees ← look
  if Ahead.literal trees then
    let _ ← literal
    return .other
  else if Ahead.asyncBlock trees then
    keyword "async"
    let _ ← keyword? "move"
    plainBlock rules
    return .other
  else if Ahead.closure trees then
    closure rules struct
    return .other
  else if Ahead.word "builtin" trees && Ahead.op "#" (Ahead.skip trees) then
    keyword "builtin"
    op "#"
    let _ ← ident
    if ← ahead (Ahead.group .paren) then
      let _ ← anyGroup
      return .other
    else expected "parentheses"
  else if Ahead.expressionPath trees then pathExpression rules struct
  else if Ahead.group .paren trees then
    within .paren (expressions rules)
    return .other
  else if Ahead.group .bracket trees then
    within .bracket (arrayElements rules)
    return .other
  else if Ahead.blockLike trees then blockLike rules
  else if Ahead.op ".." trees then
    rangeExpression rules struct
    return .range
  else keywordAtom rules struct

/-- An expression without binary operators. Attributes may not stand before a range. -/
def unaryWith (rules : Rules) (struct : Bool) : Grammar Form := do
  let attributes ← outerAttributes rules
  let trees ← look
  if Ahead.op "&" trees then
    op "&"
    let trees ← look
    let raw := Ahead.word "raw" trees && Ahead.anyWord ["mut", "const"] (Ahead.skip trees)
    if raw then keyword "raw"
    let mutable ← keyword? "mut"
    if raw && !mutable then keyword "const"
    let _ ← rules.unary struct
    return .other
  else if Ahead.anyOp ["*", "!", "-"] trees then
    let _ ← anyPunct
    let _ ← rules.unary struct
    return .other
  else
    let form ← trailers rules (← atom rules struct)
    if form = .range && !attributes.isEmpty then throw .refused
    return form
where
  /-- Takes a prefix operator. -/
  anyPunct : Grammar Unit := do
    if ← op? "*" then return
    if ← op? "!" then return
    op "-"

/-! ## Expressions that stand alone -/

/-- An expression that ends with its block if it begins with one, unless a dot or a question mark
follows. -/
def standingWith (rules : Rules) : Grammar Form := do
  let _ ← outerAttributes rules
  let form ← if ← ahead Ahead.blockLike then blockLike rules else rules.unary true
  if form ≠ .blockLike then rules.climb true form .jump
  else
    let trees ← look
    if Ahead.op "." trees && !Ahead.op ".." trees || Ahead.op "?" trees then
      rules.climb true (← trailers rules form) .jump
    else return form

end Bindery.Source.Grammar
