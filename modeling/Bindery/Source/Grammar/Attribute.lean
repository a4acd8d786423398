import Bindery.Source.Grammar
/-!
# Plain paths and attributes

A plain path has no generic arguments. It names an attribute, a macro or a module.
-/

namespace Bindery.Source.Grammar

/-- Whether a segment of a plain path stands ahead. -/
def Ahead.plainSegment (trees : Trees) : Bool :=
  Ahead.ident trees || Ahead.anyWord ["super", "self", "Self", "crate"] trees

/-- A path without arguments. -/
def plainPath : Grammar Path := do
  let absolute ← op? "::"
  if !(← ahead Ahead.plainSegment) then
    let _ ← ident
  let (names, trailing) ← loop (([] : List String), true) fun (names, more) => do
    if !more || !(← ahead Ahead.plainSegment) then return none
    let name ← anyIdent
    return some (name.text :: names, ← op? "::")
  if names.isEmpty || trailing then expected "path segment after `::`"
  else return .mk absolute (names.reverse.map fun name => .mk name .none)

/-- A path without arguments among code. -/
def plainPathPiece : Grammar Path :=
  piece plainPath (.path none · .bare)

/-- What stands between the brackets of an attribute. The one keyword allowed as a path is the mark
of unsafe attributes. -/
def attributeContent (rules : Rules) : Grammar (Path × AttributeBody) := do
  let path ← piece
    (do
      if ← keyword? "unsafe" then return .mk false [.mk "unsafe" .none] else plainPath)
    (.path none · .bare)
  match ← look with
  | .group _ _ :: _ =>
    let (delimiter, args) ← anyGroup
    return (path, .list delimiter args)
  | trees =>
    if Ahead.op "=" trees then
      op "="
      let plain ← attempt do
        let text ← literal
        if (← look).isEmpty then return text else throw .refused
      if plain.isNone then
        let trees ← look
        if Ahead.op "#" trees && Ahead.group .bracket (Ahead.skip trees) then throw .refused
        let _ ← rules.expression true
      return (path, .value)
    else return (path, .nothing)

/-- One attribute in front of what it belongs to. -/
def outerAttribute (rules : Rules) : Grammar Attribute := do
  op "#"
  let (path, body) ← within .bracket (attributeContent rules)
  return ⟨false, path, body⟩

/-- The attributes in front of what they belong to. -/
def outerAttributes (rules : Rules) : Grammar (List Attribute) :=
  many do
    if ← ahead (Ahead.op "#") then return some (← outerAttribute rules) else return none

/-- The attributes at the beginning of what they belong to. -/
def innerAttributes (rules : Rules) : Grammar (List Attribute) :=
  many do
    let trees ← look
    if Ahead.op "#" trees && Ahead.op "!" (Ahead.skip trees) then
      op "#"
      op "!"
      let (path, body) ← within .bracket (attributeContent rules)
      return some ⟨true, path, body⟩
    else return none

/-- The attributes and statements of a block. -/
def block (rules : Rules) : Grammar (List Attribute) :=
  within .brace do
    let attributes ← innerAttributes rules
    rules.statements
    return attributes

/-- The use of a macro after its path and exclamation mark. -/
def macroBody : Grammar (Delimiter × Trees) := do
  op "!"
  anyGroup

end Bindery.Source.Grammar
