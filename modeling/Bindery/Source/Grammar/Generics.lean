import Bindery.Source.Grammar.Path
/-!
# Generic parameters and constraints of items

The parameters that an item declares between angle brackets, and the constraints after `where`.
-/

namespace Bindery.Source.Grammar

/-- A generic parameter of an item, which may go without a name. -/
def itemParam (rules : Rules) : Grammar Unit := do
  let _ ← outerAttributes rules
  let trees ← look
  if Ahead.lifetime trees then lifetimeParam
  else if Ahead.ident trees then typeParam rules
  else if Ahead.word "const" trees then valueParam rules
  else if Ahead.word "_" trees then
    let _ ← anyIdent
  else expected "generic parameter"

/-- The generic parameters of an item; says whether there are any brackets. -/
def generics (rules : Rules) : Grammar Bool := do
  if ← op? "<" then
    let _ ← separatedBy "," (Ahead.op ">") (itemParam rules)
    op ">"
    return true
  else return false

/-- Whether generic parameters stand ahead, and not a path that begins with a self type. -/
def Ahead.generics (trees : Trees) : Bool :=
  let second := Ahead.skip trees
  let third := Ahead.skip second
  Ahead.op "<" trees &&
    (Ahead.anyOp [">", "#"] second || Ahead.word "const" second ||
      (Ahead.lifetime second || Ahead.ident second) &&
        (Ahead.anyOp [">", ",", "="] third || Ahead.op ":" third && !Ahead.op "::" third))

/-- Whether the constraints of an item end. -/
def Ahead.endsConstraints (trees : Trees) : Bool :=
  trees.isEmpty || Ahead.group .brace trees || Ahead.anyOp [",", ";", "="] trees ||
    Ahead.op ":" trees && !Ahead.op "::" trees

/-- One constraint: what a lifetime outlives, or the bounds of a type. -/
def constraint (rules : Rules) : Grammar Unit := do
  let trees ← look
  if Ahead.lifetime trees && Ahead.op ":" (Ahead.skip trees) then
    let _ ← lifetime
    op ":"
    let _ ← boundList Ahead.endsConstraints lifetime
  else
    let _ ← binder? rules
    rules.typePiece true
    op ":"
    let _ ← boundList Ahead.endsConstraints rules.boundPiece

/-- The constraints of an item, if any; says whether `where` is written. -/
def constraints (rules : Rules) : Grammar Bool := do
  if ← keyword? "where" then
    if ← ahead Ahead.generics then throw .refused
    let _ ← loop true fun more => do
      if !more || (← ahead Ahead.endsConstraints) then return none
      constraint rules
      return some (← op? ",")
    return true
  else return false

end Bindery.Source.Grammar
