import Bindery.Source.Grammar.Path
/-!
# Types

What the first tree of a type is decides its kind. A sum of bounds without a keyword is a trait
object; it may stand only where a plus sign cannot belong to something else.
-/

namespace Bindery.Source.Grammar

/-- Bounds of trait objects are neither constant nor capture lists. -/
def objectContext : BoundContext := ⟨false, false⟩

/-- Bounds of anonymous types may be constant or capture lists. -/
def anonymousContext : BoundContext := ⟨true, true⟩

/-- The bounds of a trait object, one of which has to be a trait. -/
def objectBounds (rules : Rules) (plus : Bool) : Grammar (List Bound × Bool) := do
  let (bounds, trailing) ← boundsWith rules objectContext plus
  let isTrait (bound : Bound) : Bool := match bound with
    | .lifetime _ => false
    | _ => true
  if bounds.any isTrait then return (bounds, trailing) else throw .refused

/-- Further bounds of a trait object after its first one, each after a plus sign. -/
def moreBounds (rules : Rules) (strict : Bool) (first : Bound) : Grammar Ty := do
  let (bounds, more) ← loop ([first], true) fun (bounds, more) => do
    if !more then return none
    if !(← op? "+") then return none
    if !strict && !(← ahead (Ahead.bound objectContext)) then return some (bounds, false)
    return some ((← boundWith rules objectContext) :: bounds, true)
  return .object false bounds.reverse (!more)

/-! ## Function pointers -/

/-- What may stand before the parameters of a function pointer: whether it is unsafe, and its
calling convention. -/
def functionQualifiers : Grammar Unit := do
  let _ ← keyword? "unsafe"
  if ← keyword? "extern" then
    if ← ahead Ahead.string then
      let _ ← string
  keyword "fn"

/-- Whether dots for further arguments stand ahead, which may have a name. -/
def Ahead.variadic (trees : Trees) : Bool :=
  Ahead.op "..." trees ||
    (Ahead.ident trees || Ahead.word "_" trees) && Ahead.op ":" (Ahead.skip trees) &&
      Ahead.op "..." (Ahead.skip (Ahead.skip trees))

/-- Whether a parameter name and its colon stand ahead. -/
def Ahead.paramName (mayBeSelf : Bool) (trees : Trees) : Bool :=
  (Ahead.ident trees || Ahead.word "_" trees || mayBeSelf && Ahead.word "self" trees) &&
    Ahead.op ":" (Ahead.skip trees) && !Ahead.op "::" (Ahead.skip trees)

/-- A parameter of a function pointer; only the first one may be `self`. -/
def functionParam (rules : Rules) (first : Bool) : Grammar Param := do
  let (_, attributes) ← recording (outerAttributes rules)
  let ((type, head), trees) ← spanning do
    let trees ← look
    let mutSelf := first && Ahead.word "mut" trees && Ahead.word "self" (Ahead.skip trees)
    if mutSelf then keyword "mut"
    let trees ← look
    let named := Ahead.paramName first trees
    let (_, head) ← recording do
      if named then
        let _ ← anyIdent
        op ":"
    if mutSelf && !named then
      keyword "self"
      return (none, head)
    let bareSelf := first && !(named && Ahead.word "self" trees)
    let trees ← look
    if bareSelf && Ahead.word "mut" trees && Ahead.word "self" (Ahead.skip trees) then
      keyword "mut"
      keyword "self"
      return (none, head)
    let type ← rules.type true
    return (if mutSelf then none else some type, head)
  match type with
  | some type => return .mk (attributes ++ head) type
  | none => return .mk attributes (.verbatim (Trees.tokens trees))

/-- The parameters of a function pointer, whether a comma ends them, and the dots after them. -/
def functionParams (rules : Rules) : Grammar (List Param × Bool × List Piece) := do
  let (params, trailing, tail) ← loop (([] : List Param), true, ([] : List Piece))
    fun (params, more, tail) => do
      if !more || !tail.isEmpty || (← look).isEmpty then return none
      let dots ← attempt do
        recording do
          let _ ← outerAttributes rules
          if !(← ahead Ahead.variadic) then throw .refused
          if !(← ahead (Ahead.op "...")) then
            let _ ← anyIdent
            op ":"
          op "..."
          let _ ← op? ","
      match dots with
      | some (_, pieces) => return some (params, true, pieces)
      | none =>
        let param ← functionParam rules params.isEmpty
        if (← look).isEmpty then return some (param :: params, false, [])
        op ","
        return some (param :: params, true, [])
  return (params.reverse, trailing && !params.isEmpty, tail)

/-- A function pointer after its binder. -/
def functionType (rules : Rules) (binder : List Piece) : Grammar Ty := do
  let (_, head) ← recording functionQualifiers
  let (params, trailing, tail) ← within .paren (functionParams rules)
  return .function (binder ++ head) params trailing tail (← returnType rules false)

/-! ## Kinds of types -/

/-- The bound that a parenthesized type is when a plus sign follows it. -/
def Ty.asParenthesizedBound? : Ty → Option Bound
  | .path none name => some (.trait true [] name)
  | .object false [bound] false => match bound with
    | .trait _ head name => some (.trait true head name)
    | other => some other
  | _ => none

/-- What parentheses enclose: nothing, one type, or the elements of a tuple. -/
inductive Enclosed where
  | bounds (bound : Bound)
  | object (type : Ty)
  | tuple (elements : List Ty) (trailing : Bool)
  | one (type : Ty)

/-- The inside of parentheses in a type. -/
def enclosed (rules : Rules) : Grammar Enclosed := do
  let trees ← look
  if trees.isEmpty then return .tuple [] false
  if Ahead.lifetime trees then
    let (bounds, trailing) ← objectBounds rules true
    return .object (.object false bounds trailing)
  if Ahead.op "?" trees then
    let (_, head, path) ← traitBound rules objectContext
    return .bounds (.trait true head path)
  let first ← rules.type true
  if ← ahead (Ahead.op ",") then
    op ","
    let (rest, trailing) ← terminated (rules.type true)
    return .tuple (first :: rest) (trailing || rest.isEmpty)
  return .one first

/-- A type that begins with parentheses. -/
def parenType (rules : Rules) (plus : Bool) : Grammar Ty := do
  match ← within .paren (enclosed rules) with
  | .tuple elements trailing => return .tuple elements trailing
  | .object type => return .paren type
  | .bounds bound => moreBounds rules true bound
  | .one type =>
    if plus && (← ahead (Ahead.op "+")) then
      match Ty.asParenthesizedBound? type with
      | some bound => moreBounds rules true bound
      | none => return .paren type
    else return .paren type

/-- A type that begins with a path: the path itself, a macro, or the first of several bounds. -/
def pathType (rules : Rules) (plus : Bool) (binder : Option (List Piece)) : Grammar Ty := do
  let (owner, path) ← qualifiedPath rules false
  let trees ← look
  if owner.isSome then return .path owner path
  else if Ahead.op "!" trees && !Ahead.op "!=" trees && path.isPlain then
    let (delimiter, body) ← macroBody
    return .invocation path delimiter (Trees.tokens body)
  else if binder.isSome || plus && Ahead.op "+" trees then
    let bound := .trait false (binder.getD []) path
    if plus then moreBounds rules false bound else return .object false [bound] false
  else return .path none path

/-- Whether a type may follow the parameters that `for` binds. -/
def Ahead.boundType (trees : Trees) : Bool :=
  (Ahead.ident trees ||
    Ahead.anyWord ["fn", "unsafe", "extern", "super", "self", "Self", "crate"] trees) &&
    !Ahead.word "dyn" trees

/-- The inside of brackets in a type. -/
def sliceOrArray (rules : Rules) : Grammar Ty := do
  let element ← rules.type true
  if ← op? ";" then
    let (_, length) ← recording (rules.expression true)
    return .array element length
  else return .slice element

/-- A type that begins with `dyn`. -/
def dynType (rules : Rules) (plus : Bool) : Grammar Ty := do
  let ((star, bounds, trailing), trees) ← spanning do
    keyword "dyn"
    let star ← op? "*"
    let (bounds, trailing) ← objectBounds rules plus
    return (star, bounds, trailing)
  if star then return .verbatim (Trees.tokens trees)
  else return .object true bounds trailing

/-- A type that begins with `impl`. -/
def anonymousType (rules : Rules) (plus : Bool) : Grammar Ty := do
  keyword "impl"
  let (bounds, trailing) ← boundsWith rules anonymousContext plus
  let isTrait (bound : Bound) : Bool := match bound with
    | .trait _ _ _ => true
    | .verbatim (.token (.ident "use") :: _) => false
    | .verbatim _ => true
    | .lifetime _ => false
  if bounds.any isTrait then return .anonymous bounds trailing else throw .refused

/-- A pointer. -/
def pointerType (rules : Rules) : Grammar Ty := do
  op "*"
  let trees ← look
  if Ahead.word "const" trees then
    keyword "const"
    return .pointer false (← rules.type false)
  else if Ahead.word "mut" trees then
    keyword "mut"
    return .pointer true (← rules.type false)
  else expected "`const` or `mut`"

/-- A reference. -/
def referenceType (rules : Rules) : Grammar Ty := do
  op "&"
  let name ← lifetime?
  let mutable ← keyword? "mut"
  return .reference name mutable (← rules.type false)

/-- A type, which may be a sum of bounds only if `plus`. -/
def typeWith (rules : Rules) (plus : Bool) : Grammar Ty := do
  let (bound, pieces) ← recording (binder? rules)
  let trees ← look
  if bound && !Ahead.boundType trees then expected "type after binder"
  if Ahead.group .paren trees then parenType rules plus
  else if Ahead.anyWord ["fn", "unsafe", "extern"] trees then functionType rules pieces
  else if Ahead.path trees then pathType rules plus (if bound then some pieces else none)
  else if Ahead.word "dyn" trees then dynType rules plus
  else if Ahead.group .bracket trees then within .bracket (sliceOrArray rules)
  else if Ahead.op "*" trees then pointerType rules
  else if Ahead.op "&" trees then referenceType rules
  else if Ahead.op "!" trees && !Ahead.op "=" trees then
    op "!"
    return .never
  else if Ahead.word "impl" trees then anonymousType rules plus
  else if Ahead.word "_" trees then
    keyword "_"
    return .inferred
  else if Ahead.lifetime trees then
    let (bounds, trailing) ← objectBounds rules true
    return .object false bounds trailing
  else expected "type"

end Bindery.Source.Grammar
