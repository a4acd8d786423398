import Bindery.Source.Grammar.Path
/-!
# Patterns

What a pattern is, is decided by its first trees. A range in which an end is lacking is told apart,
for it may not be an element of a slice.
-/

namespace Bindery.Source.Grammar

/-- Alternatives after the bar that may lead them; says whether they are one range that lacks an
end. -/
def pattern (rules : Rules) : Grammar Bool := do
  let leading ← op? "|"
  let first ← rules.pattern
  loop (first && !leading) fun _ => do
    let trees ← look
    if Ahead.op "|" trees && !Ahead.anyOp ["||", "|="] trees then
      op "|"
      let _ ← rules.pattern
      return some false
    else return none

/-- The number of a tuple field. -/
def fieldNumber : Grammar Unit := do
  match ← look with
  | .leaf ⟨.literal text, _⟩ :: _ =>
    if Token.isIndex text then
      let _ ← literal
    else throw .refused
  | _ => expected "identifier or integer"

/-- The name or number of a field; says whether it is a name. -/
def fieldName : Grammar Bool := do
  if ← ahead Ahead.ident then
    let _ ← ident
    return true
  else
    fieldNumber
    return false

/-! ## Ranges -/

/-- The two or three dots, or two dots and an equals sign, of a range; says whether an end is
needed after them. -/
def patternLimits : Grammar Bool := do
  if ← op? "..=" then return true
  if ← op? "..." then return true
  op ".."
  return false

/-- Whether nothing that could end a range stands ahead. -/
def Ahead.endsRange (trees : Trees) : Bool :=
  trees.isEmpty || Ahead.anyOp ["|", "=", ",", ";"] trees || Ahead.word "if" trees ||
    Ahead.op ":" trees && !Ahead.op "::" trees

/-- A literal, a path or a constant block at an end of a range. -/
def rangeEnd (rules : Rules) : Grammar Unit := do
  let trees ← look
  if Ahead.literal trees then
    let _ ← literal
  else if Ahead.path trees then
    let _ ← piece (qualifiedPath rules true) fun (owner, path) => .path owner path .expression
  else if Ahead.word "const" trees then
    keyword "const"
    let _ ← block rules
  else expected "end of range"

/-- The end of a range, if one stands ahead. -/
def rangeEnd? (rules : Rules) : Grammar Bool := do
  if ← ahead Ahead.endsRange then return false
  rangeEnd rules
  return true

/-- What follows the beginning of a range; says whether the range lacks its end. -/
def rangeTail (rules : Rules) : Grammar Bool := do
  let closed ← patternLimits
  let ended ← rangeEnd? rules
  if closed && !ended then expected "range upper bound"
  return !ended

/-! ## Kinds of patterns -/

/-- A literal or a constant block, or a range that begins with one. -/
def literalPattern (rules : Rules) : Grammar Bool := do
  rangeEnd rules
  if ← ahead (Ahead.op "..") then rangeTail rules else return false

/-- A range without a beginning, or the dots that stand for all that is left. -/
def restPattern (rules : Rules) : Grammar Bool := do
  let closed ← op? "..="
  if !closed then op ".."
  let ended ← rangeEnd? rules
  if closed && !ended then expected "range upper bound"
  return ended

/-- The binding of a name. -/
def bindingPattern (rules : Rules) : Grammar Unit := do
  let _ ← keyword? "ref"
  let _ ← keyword? "mut"
  if !(← keyword? "self") then
    let _ ← ident
  if ← op? "@" then
    let _ ← rules.pattern

/-- A field of a struct pattern. -/
def fieldPattern (rules : Rules) : Grammar Unit := do
  let boxed ← keyword? "box"
  let byRef ← keyword? "ref"
  let mutable ← keyword? "mut"
  if boxed || byRef || mutable then
    let _ ← ident
  else
    let named ← fieldName
    if !named || (← ahead (Ahead.op ":")) then
      op ":"
      let _ ← pattern rules

/-- The fields of a struct pattern; two dots may end them. -/
def fieldPatterns (rules : Rules) : Grammar Unit := do
  let _ ← loop true fun more => do
    if !more || (← look).isEmpty then return none
    let _ ← outerAttributes rules
    if ← op? ".." then return some false
    fieldPattern rules
    if (← look).isEmpty then return some false
    op ","
    return some true

/-- A pattern that begins with a path. -/
def pathPattern (rules : Rules) : Grammar Bool := do
  let (owner, path) ← piece (qualifiedPath rules true)
    fun (owner, path) => .path owner path .expression
  let trees ← look
  if owner.isNone && Ahead.op "!" trees && !Ahead.op "!=" trees && path.isPlain then
    let _ ← macroBody
    return false
  else if Ahead.group .brace trees then
    within .brace (fieldPatterns rules)
    return false
  else if Ahead.group .paren trees then
    let _ ← within .paren (terminated (pattern rules))
    return false
  else if Ahead.op ".." trees then rangeTail rules
  else return false

/-- An element of a slice, which may not be a range that lacks an end. -/
def elementPattern (rules : Rules) : Grammar Unit := do
  if ← pattern rules then throw .refused

/-- Whether a path stands ahead in a pattern, and no binding. -/
def Ahead.patternPath (trees : Trees) : Bool :=
  let next := Ahead.skip trees
  Ahead.ident trees &&
      (Ahead.anyOp ["::", "!", ".."] next || Ahead.group .brace next || Ahead.group .paren next) ||
    Ahead.word "self" trees && Ahead.op "::" next ||
    Ahead.anyOp ["::", "<"] trees || Ahead.anyWord ["Self", "super", "crate"] trees

/-- A pattern without alternatives; says whether it is a range that lacks an end. -/
def patternWith (rules : Rules) : Grammar Bool := do
  let trees ← look
  if Ahead.patternPath trees then pathPattern rules
  else if Ahead.word "_" trees then
    keyword "_"
    return false
  else if Ahead.word "box" trees then
    keyword "box"
    let _ ← rules.pattern
    return false
  else if Ahead.op "-" trees || Ahead.literal trees || Ahead.word "const" trees then
    literalPattern rules
  else if Ahead.anyWord ["ref", "mut", "self"] trees || Ahead.ident trees then
    bindingPattern rules
    return false
  else if Ahead.op "&" trees then
    op "&"
    let _ ← keyword? "mut"
    let _ ← rules.pattern
    return false
  else if Ahead.group .paren trees then
    let _ ← within .paren (terminated (pattern rules))
    return false
  else if Ahead.group .bracket trees then
    let _ ← within .bracket (terminated (elementPattern rules))
    return false
  else if Ahead.op ".." trees && !Ahead.op "..." trees then restPattern rules
  else expected "pattern"

end Bindery.Source.Grammar
