import Bindery.Source.Grammar.Attribute
/-!
# Paths, their arguments, and bounds

In a type a path takes generic arguments directly; in an expression it takes them only after a
double colon. Call arguments such as those of `Fn(A) -> B` belong to the paths of bounds alone.
-/

namespace Bindery.Source.Grammar

/-- The code of a generic argument that is a value: a literal, a name or a block. -/
def valueArgument (rules : Rules) : Grammar (List Piece) := do
  let (_, pieces) ← recording do
    let trees ← look
    if Ahead.literal trees then
      let _ ← literal
    else if Ahead.ident trees then
      let _ ← ident
    else
      let _ ← block rules
  return pieces

/-- Whether a value stands ahead as a generic argument, where a name would be a type. -/
def Ahead.valueArgument (trees : Trees) : Bool :=
  Ahead.literal trees || Ahead.group .brace trees

/-! ## Generic parameters -/

/-- A bound list after a colon: bounds separated by plus signs, until `stop` holds. A plus sign may
end it. -/
def boundList {α : Type} (stop : Trees → Bool) (bound : Grammar α) : Grammar (List α × Bool) := do
  let (bounds, more) ← loop (([] : List α), true) fun (bounds, more) => do
    if !more || (← ahead stop) then return none
    let bound ← bound
    return some (bound :: bounds, ← op? "+")
  return (bounds.reverse, more && !bounds.isEmpty)

/-- Whether the bounds of a lifetime end. -/
def Ahead.endsLifetimeBounds (trees : Trees) : Bool :=
  trees.isEmpty || Ahead.anyOp [",", ">"] trees

/-- A generic lifetime with its bounds. -/
def lifetimeParam : Grammar Unit := do
  let _ ← lifetime
  if ← op? ":" then
    let _ ← boundList Ahead.endsLifetimeBounds lifetime

/-- Whether the bounds of a type parameter end. -/
def Ahead.endsTypeBounds (trees : Trees) : Bool :=
  trees.isEmpty || Ahead.anyOp [",", ">", "="] trees

/-- A generic type parameter. -/
def typeParam (rules : Rules) : Grammar Unit := do
  let _ ← ident
  if ← op? ":" then
    let _ ← boundList Ahead.endsTypeBounds rules.boundPiece
  if ← op? "=" then rules.typePiece true

/-- A generic value parameter. -/
def valueParam (rules : Rules) : Grammar Unit := do
  keyword "const"
  let _ ← ident
  op ":"
  rules.typePiece true
  if ← op? "=" then
    let pieces ← valueArgument rules
    modify fun stream => { stream with taken := pieces.reverse ++ stream.taken }

/-- A generic parameter. -/
def genericParam (rules : Rules) : Grammar Unit := do
  let _ ← outerAttributes rules
  let trees ← look
  if Ahead.ident trees then typeParam rules
  else if Ahead.lifetime trees then lifetimeParam
  else if Ahead.word "const" trees then valueParam rules
  else expected "generic parameter"

/-- The parameters that `for` binds. -/
def binder (rules : Rules) : Grammar Unit := do
  keyword "for"
  op "<"
  let _ ← separatedBy "," (Ahead.op ">") (genericParam rules)
  op ">"

/-- The parameters that `for` binds, if it stands ahead. -/
def binder? (rules : Rules) : Grammar Bool := do
  if ← ahead (Ahead.word "for") then
    binder rules
    return true
  else return false

/-! ## Paths -/

/-- Whether generic arguments stand ahead after a name. -/
def Ahead.angleArgs (expression : Bool) (trees : Trees) : Bool :=
  (!expression && Ahead.op "<" trees && !Ahead.op "<=" trees && !Ahead.op "<<=" trees) ||
    (Ahead.op "::" trees && Ahead.op "<" (Ahead.skip (Ahead.skip trees)))

/-- A path that is read from the value of a path type with one segment and no self type. -/
def Ty.asBinding? : Ty → Option (String × Option AngleArgs)
  | .path none (.mk false [.mk name .none]) => some (name, none)
  | .path none (.mk false [.mk name (.angle args)]) => some (name, some args)
  | _ => none

/-- Whether the bounds of a constraint among generic arguments end. -/
def Ahead.endsConstraint (trees : Trees) : Bool :=
  Ahead.anyOp [",", ">"] trees

/-- A generic argument. -/
def genericArgument (rules : Rules) : Grammar Arg := do
  let trees ← look
  if Ahead.lifetime trees && !Ahead.op "+" (Ahead.skip trees) then return .lifetime (← lifetime)
  if Ahead.valueArgument trees then return .value (← valueArgument rules)
  let type ← rules.type true
  match Ty.asBinding? type with
  | none => return .type type
  | some (name, args) =>
    if ← op? "=" then
      if ← ahead Ahead.valueArgument then
        return .valueBinding name args (← valueArgument rules)
      else return .typeBinding name args (← rules.type true)
    else if ← op? ":" then
      let (bounds, trailing) ← boundList Ahead.endsConstraint rules.bound
      return .constraint name args bounds trailing
    else return .type type

/-- Generic arguments between angle brackets, after a double colon or not. -/
def angleArgs (rules : Rules) : Grammar AngleArgs := do
  let colons ← op? "::"
  op "<"
  let (args, trailing) ← separatedBy "," (Ahead.op ">") (genericArgument rules)
  op ">"
  return .mk colons args trailing

/-- Whether a path stands ahead, which a self type may lead. -/
def Ahead.path (trees : Trees) : Bool :=
  Ahead.ident trees || Ahead.anyWord ["super", "self", "Self", "crate"] trees ||
    Ahead.anyOp ["::", "<"] trees

/-- A segment of a path. -/
def pathSegment (rules : Rules) (expression : Bool) :
    Grammar Segment := do
  if ← ahead (Ahead.anyWord ["super", "self", "crate", "try"]) then
    return .mk (← anyIdent).text .none
  let name ← if ← ahead (Ahead.word "Self") then anyIdent else ident
  if ← ahead (Ahead.angleArgs expression) then
    return .mk name.text (.angle (← angleArgs rules))
  else return .mk name.text .none

/-- Whether another segment of a path stands ahead. -/
def Ahead.moreSegments (trees : Trees) : Bool :=
  Ahead.op "::" trees && !Ahead.group .paren (Ahead.skip (Ahead.skip trees))

/-- A path, as a type or as an expression has it. -/
def pathWith (rules : Rules) (expression : Bool) : Grammar Path := do
  let absolute ← op? "::"
  let first ← pathSegment rules expression
  let more ← many do
    if ← ahead Ahead.moreSegments then
      op "::"
      return some (← pathSegment rules expression)
    else return none
  return .mk absolute (first :: more)

/-- A path that a qualified self type may precede. -/
def qualifiedPath (rules : Rules) (expression : Bool) :
    Grammar (Option Owner × Path) := do
  if !(← ahead (Ahead.op "<")) then return (none, ← pathWith rules expression)
  op "<"
  let type ← rules.type true
  let cast ← if ← keyword? "as" then some <$> pathWith rules false else pure none
  op ">"
  op "::"
  let first ← pathSegment rules expression
  let more ← many do
    if ← op? "::" then return some (← pathSegment rules expression) else return none
  match cast with
  | none => return (some (.mk type 0), .mk true (first :: more))
  | some (.mk absolute segments) =>
    return (some (.mk type segments.length), .mk absolute (segments ++ first :: more))

/-! ## Bounds -/

/-- The return type after an arrow, which may be a sum of bounds only if `plus`. -/
def returnType (rules : Rules) (plus : Bool) : Grammar (Option Ty) := do
  if ← op? "->" then return some (← rules.type plus) else return none

/-- The arguments of a trait that is written like a call. -/
def callArgs (rules : Rules) : Grammar Args := do
  let (inputs, trailing) ← within .paren (terminated (rules.type true))
  return .call inputs trailing (← returnType rules false)

/-- Puts call arguments on the last segment of a path. -/
def Path.withCall (args : Args) : Path → Path
  | .mk absolute segments =>
    .mk absolute (match segments.reverse with
      | [] => []
      | last :: before => (.mk last.name args :: before).reverse)

/-- Whether the last segment of a path has no arguments, or none between its brackets. -/
def Path.takesCall (path : Path) : Bool :=
  match path.segments.getLast? with
  | some (.mk _ .none) => true
  | some (.mk _ (.angle (.mk _ [] _))) => true
  | _ => false

/-- Where a trait bound stands decides whether it may be constant, or a capture list. -/
structure BoundContext where
  constant : Bool
  capture : Bool

/-- A trait with its modifiers; `verbatim` if it is kept as it stands. The head that was recorded
is that in front of the path. -/
def traitBound (rules : Rules) (context : BoundContext) :
    Grammar (Bool × List Piece × Path) := do
  let (verbatim, head) ← recording do
    let binds ← binder? rules
    let conditional ← ahead (Ahead.group .bracket)
    let constant ← ahead (Ahead.word "const")
    if conditional then
      within .bracket (keyword "const")
      if !context.constant then throw .refused
    else if constant then
      keyword "const"
      if !context.constant then throw .refused
    let relaxed ← op? "?"
    if binds && relaxed then throw .refused
    return conditional || constant
  let path ← pathWith rules false
  let trees ← look
  if Path.takesCall path && (Ahead.group .paren trees ||
      Ahead.op "::" trees && Ahead.group .paren (Ahead.skip (Ahead.skip trees))) then
    let _ ← op? "::"
    return (verbatim, head, Path.withCall (← callArgs rules) path)
  else return (verbatim, head, path)

/-- The names that an anonymous type captures. -/
def captureList : Grammar Unit := do
  keyword "use"
  op "<"
  let _ ← separatedBy "," (Ahead.op ">") do
    let trees ← look
    if Ahead.lifetime trees then
      let _ ← lifetime
    else if Ahead.ident trees || Ahead.word "Self" trees then
      let _ ← anyIdent
    else expected "captured name"
  op ">"

/-- A bound. -/
def boundWith (rules : Rules) (context : BoundContext) :
    Grammar Bound := do
  let trees ← look
  if Ahead.lifetime trees then return .lifetime (← lifetime)
  if Ahead.word "use" trees then
    let (_, pieces) ← recording captureList
    if context.capture then return .verbatim pieces else throw .refused
  let parens := Ahead.group .paren trees
  let ((verbatim, head, path), taken) ← spanning do
    if parens then within .paren (traitBound rules context)
    else traitBound rules context
  if verbatim then return .verbatim (Piece.ofTrees taken)
  else return .trait parens head path

/-- Whether a plus sign is followed by another bound. -/
def Ahead.bound (context : BoundContext) (trees : Trees) : Bool :=
  Ahead.anyIdent trees || Ahead.op "::" trees || Ahead.op "?" trees || Ahead.lifetime trees ||
    Ahead.group .paren trees ||
    context.constant && (Ahead.group .bracket trees || Ahead.word "const" trees)

/-- The bounds of a type: one, or several with plus signs between them if `plus`. -/
def boundsWith (rules : Rules) (context : BoundContext) (plus : Bool) :
    Grammar (List Bound × Bool) := do
  let (bounds, more) ← loop (([] : List Bound), true) fun (bounds, more) => do
    if !more then return none
    if !bounds.isEmpty && !(← ahead (Ahead.bound context)) then return none
    let bound ← boundWith rules context
    let more ← if plus then op? "+" else pure false
    return some (bound :: bounds, more)
  return (bounds.reverse, more)

end Bindery.Source.Grammar
