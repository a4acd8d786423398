import Bindery.Source.Grammar.Generics
import Bindery.Source.Grammar.Pattern
/-!
# Items

Declarations and the members of their blocks. A form that is read but is not a declaration of its
kind, such as a constant without a value, counts as no kind in particular.
-/

namespace Bindery.Source.Grammar

/-! ## Visibility -/

/-- What stands between the parentheses of a restriction, if it is one. -/
def restriction : Grammar Unit := do
  if ← ahead (Ahead.anyWord ["crate", "self", "super"]) then
    let _ ← anyIdent
    if !(← look).isEmpty then throw .refused
  else
    keyword "in"
    let _ ← plainPathPiece

/-- Whether a path after `in` restricts what it stands before. -/
def Ahead.restrictedTo : Trees → Bool
  | .group .paren body :: _ => Ahead.word "in" body
  | _ => false

/-- How far an item can be seen. Parentheses that are no restriction belong to what follows. -/
def visibility : Grammar Visibility := do
  if ← keyword? "pub" then
    if ← ahead Ahead.restrictedTo then
      within .paren restriction
      return .restricted
    else if (← attempt (within .paren restriction)).isSome then return .restricted
    else return .public
  else return .private

/-! ## Functions -/

/-- The calling convention of a function. -/
def convention : Grammar Unit := do
  if ← keyword? "extern" then
    if ← ahead Ahead.string then
      let _ ← string

/-- What stands before `fn`. A function may be called safe only if `mayBeSafe`. -/
structure Qualifiers where
  isAsync : Bool
  isUnsafe : Bool
  isSafe : Bool

/-- The qualifiers of a function. -/
def qualifiers (mayBeSafe : Bool) : Grammar Qualifiers := do
  let _ ← keyword? "const"
  let isAsync ← keyword? "async"
  let isSafe ← if mayBeSafe then keyword? "safe" else pure false
  let isUnsafe ← if isSafe then pure false else keyword? "unsafe"
  convention
  return ⟨isAsync, isUnsafe, isSafe⟩

/-- Whether a function stands ahead. -/
def function? (mayBeSafe : Bool) : Grammar Bool := do
  match ← glimpse (qualifiers mayBeSafe) with
  | some (_, stream) => return Ahead.word "fn" stream.rest
  | none => return false

/-- The parameter that a method is called on. -/
def receiver (rules : Rules) : Grammar Unit := do
  let byRef ← op? "&"
  if byRef then
    let _ ← lifetime?
  let _ ← keyword? "mut"
  keyword "self"
  if !byRef then
    if ← op? ":" then
      let _ ← rules.type true

/-- A parameter in the head of a function. -/
inductive HeadParam where
  | receiver
  | typed (type : Ty)
  /-- Dots for further arguments. -/
  | variadic

/-- A parameter of a function. A type with generic arguments may stand without a pattern. -/
def headParam (rules : Rules) : Grammar HeadParam := do
  let _ ← outerAttributes rules
  if ← op? "..." then return .variadic
  if (← attempt (receiver rules)).isSome then return .receiver
  let trees ← look
  if Ahead.ident trees && Ahead.op "<" (Ahead.skip trees) then
    return .typed (← rules.type true)
  let _ ← rules.pattern
  op ":"
  if ← op? "..." then return .variadic
  return .typed (← rules.type true)

/-- The parameters of a function, up to the end of the stream. Only the first one may be the
receiver, and nothing follows the dots. -/
def headParams (rules : Rules) : Grammar (List HeadParam) := do
  let (params, _) ← loop (([] : List HeadParam), true) fun (params, more) => do
    if !more || (← look).isEmpty then return none
    let param ← headParam rules
    let more := !(← look).isEmpty
    if more then op ","
    match param with
    | .receiver => if params.isEmpty then return some ([param], more) else throw .refused
    | .variadic => return some (param :: params, false)
    | .typed _ => return some (param :: params, more)
  return params.reverse

/-- The head of a function; says whether the function is called safe. -/
def signature (rules : Rules) (mayBeSafe : Bool) : Grammar (Signature × Bool) := do
  let qualifiers ← qualifiers mayBeSafe
  keyword "fn"
  let name ← ident
  let _ ← generics rules
  let params ← within .paren (headParams rules)
  let output ← returnType rules true
  let _ ← constraints rules
  let types := params.filterMap fun param => match param with
    | .typed type => some type
    | _ => none
  let isReceiver (param : HeadParam) : Bool := match param with
    | .receiver => true
    | _ => false
  let isVariadic (param : HeadParam) : Bool := match param with
    | .variadic => true
    | _ => false
  return ({
    name := name
    isAsync := qualifiers.isAsync
    isUnsafe := qualifiers.isUnsafe
    isVariadic := params.any isVariadic
    receiver := params.any isReceiver
    params := types
    output := output }, qualifiers.isSafe)

/-! ## Uses of macros -/

/-- Whether the path of a macro may begin here. -/
def Ahead.macroPath (trees : Trees) : Bool :=
  Ahead.ident trees || Ahead.anyWord ["self", "super", "crate"] trees || Ahead.op "::" trees

/-- What follows the path of a macro; a semicolon unless it ends with braces. -/
def macroUse : Grammar Unit := do
  let (delimiter, _) ← anyGroup
  if delimiter ≠ .brace then op ";"

/-- The use of a macro as a member of a block. -/
def macroMember : Grammar Unit := do
  let _ ← plainPathPiece
  op "!"
  macroUse

/-- The use of a macro as an item; it may declare a name. -/
def macroItem : Grammar Unit := do
  let _ ← plainPathPiece
  op "!"
  if ← ahead (Ahead.word "try") then
    let _ ← anyIdent
  else if ← ahead Ahead.ident then
    let _ ← ident
  macroUse

/-- The declaration of a macro with parameters. -/
def macroDeclaration : Grammar Unit := do
  keyword "macro"
  let _ ← ident
  if ← ahead (Ahead.group .paren) then
    let _ ← anyGroup
  if ← ahead (Ahead.group .brace) then
    let _ ← anyGroup
  else expected "curly braces"

/-! ## Constants and aliases -/

/-- An expression whose form does not matter. -/
def value (rules : Rules) : Grammar Unit := do
  let _ ← rules.expression true

/-- A constant from its keyword on; says whether it is one without parameters, and if it has a
value. -/
def constantRest (rules : Rules) : Grammar (Name × Bool × Bool) := do
  keyword "const"
  let name ← if ← ahead (Ahead.word "_") then anyIdent else ident
  let generic ← generics rules
  op ":"
  let _ ← rules.type true
  let valued ← op? "="
  if valued then value rules
  let constrained ← constraints rules
  op ";"
  return (name, !generic && !constrained, valued)

/-- Where the constraints of a type alias may stand. -/
inductive ConstraintPlace where
  | beforeType
  | afterType
  | anywhere
  deriving DecidableEq

/-- Bounds separated by plus signs until `stop` holds; a plus sign may end them. -/
def boundsUntil (rules : Rules) (stop : Trees → Bool) : Grammar Unit := do
  let _ ← separatedBy "+" stop rules.boundPiece

/-- Whether the bounds of an alias end. -/
def Ahead.endsAliasBounds (trees : Trees) : Bool :=
  Ahead.word "where" trees || Ahead.anyOp ["=", ";"] trees

/-- A type alias from its keyword on; says whether it gives a type and no bounds. -/
def aliasRest (rules : Rules) (place : ConstraintPlace) : Grammar (Name × Bool) := do
  keyword "type"
  let name ← ident
  let _ ← generics rules
  let bounded ← op? ":"
  if bounded then boundsUntil rules Ahead.endsAliasBounds
  let constrained ← if place = .afterType then pure false else constraints rules
  let defined ← op? "="
  if defined then
    let _ ← rules.type true
  if place ≠ .beforeType && !constrained then
    let _ ← constraints rules
  op ";"
  return (name, defined && !bounded)

/-! ## Members of blocks -/

/-- The body of a function and the attributes in it. -/
def body (rules : Rules) : Grammar (List Attribute) :=
  block rules

/-- A member of an implementation. -/
def implementationMember (rules : Rules) : Grammar Member := do
  let attributes ← outerAttributes rules
  let visibility ← visibility
  let trees ← look
  let defaulted := Ahead.word "default" trees && !Ahead.op "!" (Ahead.skip trees)
  if defaulted then keyword "default"
  let trees ← look
  if ← function? false then
    let (signature, _) ← signature rules false
    if ← op? ";" then return .other attributes
    return .function (attributes ++ (← body rules)) visibility signature
  else if Ahead.word "const" trees then
    let (name, plain, valued) ← constantRest rules
    return if plain && valued then .constant attributes name else .other attributes
  else if Ahead.word "type" trees then
    let _ ← aliasRest rules .afterType
    return .other attributes
  else if visibility = .private && !defaulted && Ahead.macroPath trees then
    macroMember
    return .other attributes
  else expected "member of an implementation"

/-- A member of a trait. -/
def traitMember (rules : Rules) : Grammar Member := do
  let attributes ← outerAttributes rules
  let visibility ← visibility
  let defaulted ← keyword? "default"
  let plain := visibility = .private && !defaulted
  let trees ← look
  if ← function? false then
    let (signature, _) ← signature rules false
    let inner ← if ← op? ";" then pure [] else body rules
    if plain then return .function (attributes ++ inner) visibility signature
    else return .other attributes
  else if Ahead.word "const" trees then
    let (name, single, _) ← constantRest rules
    return if plain && single then .constant attributes name else .other attributes
  else if Ahead.word "type" trees then
    let _ ← aliasRest rules .afterType
    return .other attributes
  else if plain && Ahead.macroPath trees then
    macroMember
    return .other attributes
  else expected "member of a trait"

/-- Whether a foreign static stands ahead. -/
def Ahead.foreignStatic (trees : Trees) : Bool :=
  Ahead.word "static" trees ||
    Ahead.anyWord ["unsafe", "safe"] trees && Ahead.word "static" (Ahead.skip trees)

/-- A member of a block of foreign declarations. -/
def foreignMember (rules : Rules) : Grammar Member := do
  let attributes ← outerAttributes rules
  let visibility ← visibility
  let trees ← look
  if ← function? true then
    let (signature, safe) ← signature rules true
    let inner ← if ← op? ";" then pure none else some <$> body rules
    if safe || inner.isSome then return .other attributes
    else return .function attributes visibility signature
  else if Ahead.foreignStatic trees then
    if !(← keyword? "unsafe") then
      let _ ← keyword? "safe"
    keyword "static"
    let _ ← keyword? "mut"
    let _ ← ident
    op ":"
    let _ ← rules.type true
    if ← op? "=" then value rules
    op ";"
    return .other attributes
  else if Ahead.word "type" trees then
    let _ ← aliasRest rules .anywhere
    return .other attributes
  else if visibility = .private && Ahead.macroPath trees then
    macroMember
    return .other attributes
  else expected "foreign declaration"

/-- The members of a block, with the attributes at its beginning. -/
def members {α : Type} (rules : Rules) (member : Grammar α) :
    Grammar (List Attribute × List α) :=
  within .brace do
    let attributes ← innerAttributes rules
    let members ← many do
      if (← look).isEmpty then return none else return some (← member)
    return (attributes, members)

/-! ## Structs, enumerations and unions -/

/-- A field with a name, or an unnamed record. -/
def namedField (rules : Rules) (fields : Grammar Unit) : Grammar Unit := do
  let _ ← outerAttributes rules
  let _ ← visibility
  let unnamed ← keyword? "_"
  if !unnamed then
    let _ ← ident
  op ":"
  let trees ← look
  if unnamed && (Ahead.word "struct" trees ||
      Ahead.word "union" trees && Ahead.group .brace (Ahead.skip trees)) then
    let _ ← anyIdent
    fields
  else
    let _ ← rules.type true

/-- Fields with names, in braces; records nest at most `depth` times. -/
def namedFieldsWithin (rules : Rules) : (depth : Nat) → Grammar Unit
  | 0 => throw .exhausted
  | depth + 1 => do
    let _ ← within .brace (terminated (namedField rules (namedFieldsWithin rules depth)))

/-- Fields with names, in braces. -/
def namedFields (rules : Rules) : Grammar Unit := do
  namedFieldsWithin rules (TokenTree.sizeList ((← look).take 1) + 1)

/-- A field without a name. -/
def tupleField (rules : Rules) : Grammar Unit := do
  let _ ← outerAttributes rules
  let _ ← visibility
  let _ ← rules.type true

/-- Fields without names, in parentheses. -/
def tupleFields (rules : Rules) : Grammar Unit := do
  let _ ← within .paren (terminated (tupleField rules))

/-- The fields of a struct; says whether there can be none. -/
def structBody (rules : Rules) : Grammar Bool := do
  let constrained ← constraints rules
  let trees ← look
  if !constrained && Ahead.group .paren trees then
    tupleFields rules
    let _ ← constraints rules
    op ";"
    return false
  else if Ahead.group .brace trees then
    namedFields rules
    return false
  else
    op ";"
    return true

/-- A struct from its keyword on. -/
def structItem (rules : Rules) (attributes : List Attribute) (visibility : Visibility) :
    Grammar Item := do
  keyword "struct"
  let name ← ident
  let _ ← generics rules
  return .struct attributes visibility name (← structBody rules)

/-- A variant of an enumeration. -/
def variant (rules : Rules) : Grammar Unit := do
  let _ ← outerAttributes rules
  let _ ← visibility
  let _ ← ident
  let trees ← look
  if Ahead.group .brace trees then namedFields rules
  else if Ahead.group .paren trees then tupleFields rules
  if ← op? "=" then value rules

/-! ## Imports -/

/-- A tree of imports, in which a path from the root may stand only if `rooted`. -/
def importsWith (rules : Rules) (rooted : Bool) : Grammar Unit := do
  let trees ← look
  if Ahead.ident trees || Ahead.anyWord ["self", "super", "crate", "try"] trees then
    let _ ← anyIdent
    if ← op? "::" then rules.imports false
    else if ← keyword? "as" then
      if !(← keyword? "_") then
        let _ ← ident
  else if ← op? "*" then return
  else if Ahead.group .brace trees then
    let _ ← within .brace (terminated do
      let fromRoot ← if rooted then op? "::" else pure false
      rules.imports (rooted && !fromRoot))
  else expected "import"

/-- Imports from their keyword on. -/
def importItem (rules : Rules) : Grammar Unit := do
  keyword "use"
  let fromRoot ← op? "::"
  rules.imports !fromRoot
  op ";"

/-- The import of a whole crate. -/
def crateImport : Grammar Unit := do
  keyword "extern"
  keyword "crate"
  if !(← keyword? "self") then
    let _ ← ident
  if ← keyword? "as" then
    if !(← keyword? "_") then
      let _ ← ident
  op ";"

/-! ## Modules, traits and implementations -/

/-- A module. -/
def moduleItem (rules : Rules) (attributes : List Attribute) : Grammar Item := do
  let _ ← keyword? "unsafe"
  keyword "mod"
  let name ← if ← ahead (Ahead.word "try") then anyIdent else ident
  if ← op? ";" then return .module attributes name none
  let (inner, items) ← members rules rules.item
  return .module (attributes ++ inner) name (some items)

/-- Whether the bounds that a trait inherits end. -/
def Ahead.endsSupertraits (trees : Trees) : Bool :=
  Ahead.word "where" trees || Ahead.group .brace trees

/-- Whether the bounds that a trait alias stands for end. -/
def Ahead.endsTraitAlias (trees : Trees) : Bool :=
  Ahead.word "where" trees || Ahead.op ";" trees

/-- A trait, or an alias for bounds if `mayBeAlias`. -/
def traitItem (rules : Rules) (attributes : List Attribute) (mayBeAlias : Bool) :
    Grammar Item := do
  keyword "trait"
  let name ← ident
  let _ ← generics rules
  if mayBeAlias then
    if ← op? "=" then
      boundsUntil rules Ahead.endsTraitAlias
      let _ ← constraints rules
      op ";"
      return .other attributes
  if ← op? ":" then boundsUntil rules Ahead.endsSupertraits
  let _ ← constraints rules
  let (inner, items) ← members rules (traitMember rules)
  return .trait (attributes ++ inner) name items

/-- The path of a trait that an implementation is of. -/
def Ty.asTrait? : Ty → Option Path
  | .path none name => some name
  | _ => none

/-- What stands before the type of an implementation: whether it is constant, and whether it is
negative. -/
def implementationHead (rules : Rules) : Grammar (Bool × Bool) := do
  let _ ← keyword? "default"
  let _ ← keyword? "unsafe"
  keyword "impl"
  if ← ahead Ahead.generics then
    let _ ← generics rules
  let trees ← look
  let constant := Ahead.word "const" trees ||
    Ahead.op "?" trees && Ahead.word "const" (Ahead.skip trees)
  if constant then
    let _ ← op? "?"
    keyword "const"
  let trees ← look
  let negative := Ahead.op "!" trees && !Ahead.group .brace (Ahead.skip trees)
  if negative then op "!"
  return (constant, negative)

/-- An implementation. One that is marked public or constant, or is not of a path, is no
implementation in the usual sense. -/
def implementationItem (rules : Rules) (attributes : List Attribute) (visible : Bool) :
    Grammar Item := do
  let (constant, negative) ← implementationHead rules
  let first ← rules.type true
  let ofTrait ← keyword? "for"
  if negative && !ofTrait then throw .refused
  let self ← if ofTrait then rules.type true else pure first
  let _ ← constraints rules
  let (inner, items) ← members rules (implementationMember rules)
  let interface := if ofTrait then Ty.asTrait? first else none
  if visible || constant || ofTrait && interface.isNone then return .other attributes
  else return .implementation (attributes ++ inner) interface self items

/-! ## Kinds of items -/

/-- A static; it is one of no kind without a type or a value. -/
def staticItem (rules : Rules) (attributes : List Attribute) : Grammar Item := do
  keyword "static"
  let _ ← keyword? "mut"
  let name ← ident
  if ← op? "=" then
    value rules
    op ";"
    return .other attributes
  op ":"
  let _ ← rules.type true
  if ← op? ";" then return .other attributes
  op "="
  value rules
  op ";"
  return .static attributes name

/-- A block of foreign declarations. -/
def foreignItem (rules : Rules) (attributes : List Attribute) : Grammar Item := do
  let _ ← keyword? "unsafe"
  keyword "extern"
  if ← ahead Ahead.string then
    let _ ← string
  let (inner, items) ← members rules (foreignMember rules)
  return .foreign (attributes ++ inner) items

/-- A function, which is of no kind without a body. -/
def functionItem (rules : Rules) (attributes : List Attribute) (visibility : Visibility) :
    Grammar Item := do
  let (signature, _) ← signature rules false
  if ← op? ";" then return .other attributes
  return .function (attributes ++ (← body rules)) visibility signature

/-- An item that begins with a keyword for data or code of its own kind, after its visibility. -/
def declaration (rules : Rules) (attributes : List Attribute) (visibility : Visibility) :
    Grammar Item := do
  let trees ← look
  let next := Ahead.skip trees
  if Ahead.word "use" trees then
    importItem rules
    return .other attributes
  else if Ahead.word "static" trees then staticItem rules attributes
  else if Ahead.word "const" trees then
    let (name, plain, valued) ← constantRest rules
    return if plain && valued then .constant attributes name else .other attributes
  else if Ahead.word "mod" trees then moduleItem rules attributes
  else if Ahead.word "type" trees then
    let (name, defined) ← aliasRest rules .beforeType
    return if defined then .typeAlias attributes name else .other attributes
  else if Ahead.word "struct" trees then structItem rules attributes visibility
  else if Ahead.word "enum" trees then
    keyword "enum"
    let name ← ident
    let _ ← generics rules
    let _ ← constraints rules
    let _ ← within .brace (terminated (variant rules))
    return .enumeration attributes visibility name
  else if Ahead.word "union" trees && Ahead.ident next then
    keyword "union"
    let name ← ident
    let _ ← generics rules
    let _ ← constraints rules
    namedFields rules
    return .union attributes visibility name
  else if Ahead.word "trait" trees then traitItem rules attributes true
  else if Ahead.word "auto" trees && Ahead.word "trait" next then
    keyword "auto"
    traitItem rules attributes false
  else if Ahead.word "impl" trees || Ahead.word "default" trees && !Ahead.op "!" next then
    implementationItem rules attributes (visibility ≠ .private)
  else if Ahead.word "macro" trees then
    macroDeclaration
    return .other attributes
  else if visibility = .private && Ahead.macroPath trees then
    macroItem
    return .other attributes
  else expected "item"

/-- An item after the word `unsafe`, which is still to be read. -/
def unsafeItem (rules : Rules) (attributes : List Attribute) (visibility : Visibility) :
    Grammar Item := do
  let next := Ahead.skip (← look)
  let auto := Ahead.word "auto" next && Ahead.word "trait" (Ahead.skip next)
  if Ahead.word "trait" next || auto then
    keyword "unsafe"
    let _ ← keyword? "auto"
    traitItem rules attributes false
  else if Ahead.word "impl" next then
    implementationItem rules attributes (visibility ≠ .private)
  else if Ahead.word "extern" next && visibility = .private then foreignItem rules attributes
  else if Ahead.word "mod" next then moduleItem rules attributes
  else expected "item"

/-- An item that begins with the word `extern` and is no function. -/
def externItem (rules : Rules) (attributes : List Attribute) (visibility : Visibility) :
    Grammar Item := do
  if ← ahead (Ahead.word "crate" <| Ahead.skip ·) then
    crateImport
    return .other attributes
  else if visibility = .private then foreignItem rules attributes
  else expected "item"

/-- An item. -/
def itemWith (rules : Rules) : Grammar Item := do
  let attributes ← outerAttributes rules
  let visibility ← visibility
  if ← function? false then functionItem rules attributes visibility
  else if ← ahead (Ahead.word "extern") then externItem rules attributes visibility
  else if ← ahead (Ahead.word "unsafe") then unsafeItem rules attributes visibility
  else declaration rules attributes visibility

end Bindery.Source.Grammar
