import Bindery.Source.Grammar.Expression
/-!
# Statements

A block holds bindings, items, macros and expressions. An expression that is not the last one of
its block needs a semicolon, unless it ends with a block of its own.
-/

namespace Bindery.Source.Grammar

/-- Whether an item stands ahead among statements. -/
def Ahead.item (trees : Trees) : Bool :=
  let next := Ahead.skip trees
  let third := Ahead.skip next
  Ahead.anyWord ["pub", "extern", "use", "fn", "mod", "type", "struct", "enum", "trait", "impl",
      "macro"] trees ||
    Ahead.word "crate" trees && !Ahead.op "::" next ||
    Ahead.word "static" trees && (Ahead.word "mut" next || Ahead.ident next) ||
    Ahead.word "const" trees && !(Ahead.group .brace next ||
      Ahead.anyWord ["static", "move"] next || Ahead.op "|" next ||
      Ahead.word "async" next && !Ahead.anyWord ["unsafe", "extern", "fn"] third) ||
    Ahead.word "unsafe" trees && !Ahead.group .brace next ||
    Ahead.word "async" trees && Ahead.anyWord ["unsafe", "extern", "fn"] next ||
    Ahead.word "union" trees && Ahead.ident next ||
    Ahead.word "auto" trees && Ahead.word "trait" next ||
    Ahead.word "default" trees && Ahead.anyWord ["unsafe", "impl"] next

/-- Whether the last tree that was taken between two places is a group in braces. -/
def endsWithBrace (before after : Trees) : Bool :=
  match (before.take (before.length - after.length)).getLast? with
  | some (.group .brace _) => true
  | _ => false

/-- A binding. What is to be done if its pattern does not match may follow a value that does not
end with a brace. -/
def localBinding (rules : Rules) : Grammar Unit := do
  keyword "let"
  let _ ← rules.pattern
  if ← op? ":" then rules.typePiece true
  if ← op? "=" then
    let before ← look
    let _ ← rules.expression true
    if !endsWithBrace before (← look) then
      if ← keyword? "else" then plainBlock rules
  op ";"

/-- What the use of a macro at the beginning of a statement makes of it. -/
inductive MacroUse where
  /-- The macro declares an item. -/
  | item
  /-- The macro is the whole statement. -/
  | statement
  /-- The macro, if it is one, belongs to an expression. -/
  | expression
  deriving DecidableEq

/-- How a macro is used, from what follows its path. -/
def MacroUse.ofTrees (trees : Trees) : MacroUse :=
  let second := Ahead.skip trees
  let third := Ahead.skip second
  if !Ahead.op "!" trees then .expression
  else if Ahead.ident second || Ahead.word "try" second then .item
  else if Ahead.group .brace second &&
      !(Ahead.op "." third && !Ahead.op ".." third || Ahead.op "?" third) then .statement
  else .expression

/-- A statement; says whether a semicolon is lacking, without which it has to be the last one. -/
def statement (rules : Rules) : Grammar Bool := do
  let _ ← outerAttributes rules
  let use := match ← glimpse plainPath with
    | some (_, stream) => MacroUse.ofTrees stream.rest
    | none => .expression
  let trees ← look
  if use = .statement then
    let _ ← plainPathPiece
    let _ ← macroBody
    let _ ← op? ";"
    return false
  else if Ahead.word "let" trees then
    localBinding rules
    return false
  else if use = .item || Ahead.item trees then
    let _ ← rules.item
    return false
  else
    let form ← rules.standing
    return !(← op? ";") && !form.isStatement

/-- The statements of a block, up to the end of the stream. -/
def statementsWith (rules : Rules) : Grammar Unit := do
  let _ ← loop true fun complete => do
    if ← op? ";" then return some true
    if (← look).isEmpty then return none
    if !complete then expected "`;`"
    return some !(← statement rules)

end Bindery.Source.Grammar
