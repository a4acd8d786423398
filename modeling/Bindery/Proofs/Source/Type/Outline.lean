import Bindery.Proofs.Source.Path
import Bindery.Proofs.Token.Literal
import Bindery.Source.Type.Erasure
/-!
# Outlines of types

The outline of a type is what two types have to have in common to be taken for the same: its
references, pointers, slices, arrays, tuples and trait objects, with each path reduced to its last
name and the arguments of that name, and without lifetimes and parentheses. `Ty.outline?` gives it
for the types that consist of these alone. `Outline.read?` reads it from a canonical form.
-/

namespace Bindery.Source

open Token (IsLiteral identLength? literalLength?)

mutual

/-- What is left of a type. -/
inductive Outline where
  | path (name : Outline.Named)
  /-- A path of a self type, which may be cast to a trait. -/
  | qualified (self : Outline) (cast : Bool) (name : Outline.Named)
  | reference (mutable : Bool) (target : Outline)
  | pointer (mutable : Bool) (target : Outline)
  | slice (element : Outline)
  | array (element : Outline) (length : String)
  | tuple (elements : List Outline)
  | never
  /-- A trait object, with the traits among its bounds. -/
  | object (traits : List Outline.Named)

/-- What is left of a path: its last name with the arguments that are no lifetimes. -/
inductive Outline.Named where
  | mk (name : String) (args : List Outline.Argument)

/-- What is left of a generic argument: a type, or a literal as it is written. -/
inductive Outline.Argument where
  | type (outline : Outline)
  | value (text : String)

end

/-! ## The outline of a type -/

instance (name : String) : Decidable (Grammar.IsPathName name) :=
  inferInstanceAs (Decidable (_ ∧ _))

/-- The text of a literal: a single token, a truth value, or either behind a minus sign. -/
def literal? : List Piece → Option String
  | [.token (.literal text)] => if IsLiteral text then some text else none
  | [.token (.punct '-' _), .token (.literal text)] =>
    if IsLiteral text then some ("-" ++ text) else none
  | [.token (.ident name)] => if name = "true" ∨ name = "false" then some name else none
  | _ => none

mutual

/-- The outline of a type that consists of paths, references, pointers, slices, arrays whose length
is a literal, tuples, the never type and trait objects. -/
def Ty.outline? : Ty → Option Outline
  | .path none path => return .path (← path.outline?)
  | .path (some (.mk self position)) path =>
    return .qualified (← self.outline?) (position != 0) (← path.outline?)
  | .reference _ mutable target => return .reference mutable (← target.outline?)
  | .pointer mutable target => return .pointer mutable (← target.outline?)
  | .slice element => return .slice (← element.outline?)
  | .array element length => return .array (← element.outline?) (← literal? length)
  | .tuple elements _ => return .tuple (← outlineTypes? elements)
  | .paren inner => inner.outline?
  | .never => return .never
  | .object true bounds _ => do
    match ← outlineBounds? bounds with
    | [] => none
    | traits => return .object traits
  | _ => none

/-- The outlines of types. -/
def outlineTypes? : List Ty → Option (List Outline)
  | [] => return []
  | type :: rest => return (← type.outline?) :: (← outlineTypes? rest)

/-- What is left of a path. -/
def Path.outline? : Path → Option Outline.Named
  | .mk _ segments => outlineSegments? segments

/-- What is left of the segments of a path. -/
def outlineSegments? : List Segment → Option Outline.Named
  | [] => none
  | [.mk name args] =>
    if Grammar.IsPathName name then return .mk name (← outlineArgs? args) else none
  | _ :: rest => outlineSegments? rest

/-- The outlines of the arguments of a segment. -/
def outlineArgs? : Args → Option (List Outline.Argument)
  | .none => return []
  | .angle (.mk _ args _) => outlineArgList? args
  | .call _ _ _ => none

/-- The outlines of the generic arguments that are types or literals. -/
def outlineArgList? : List Arg → Option (List Outline.Argument)
  | [] => return []
  | .lifetime _ :: rest => outlineArgList? rest
  | .type type :: rest => return .type (← type.outline?) :: (← outlineArgList? rest)
  | .value code :: rest => return .value (← literal? code) :: (← outlineArgList? rest)
  | _ => none

/-- What is left of the traits among bounds. -/
def outlineBounds? : List Bound → Option (List Outline.Named)
  | [] => return []
  | .lifetime _ :: rest => outlineBounds? rest
  | .trait _ [] path :: rest => return (← path.outline?) :: (← outlineBounds? rest)
  | _ => none

end

/-! ## Reading a canonical form -/

namespace Outline

/-- A text without the blank that it may begin with. -/
def unspaced : List Char → List Char
  | ' ' :: cs => cs
  | cs => cs

/-- The word at the head of a text, and what follows it. -/
def word? (cs : List Char) : Option (String × List Char) :=
  (identLength? cs).map fun length => (String.ofList (cs.take length), cs.drop length)

/-- What follows a word. -/
def after? (word : String) (cs : List Char) : Option (List Char) := do
  let (found, cs) ← word? cs
  if found = word then return cs else none

/-- The literal at the head of a text, which may be a truth value or have a sign. -/
def value? (cs : List Char) : Option (String × List Char) :=
  let (sign, cs) := match cs with
    | '-' :: cs => ("-", cs)
    | cs => ("", cs)
  match literalLength? cs with
  | some length => some (sign ++ String.ofList (cs.take length), cs.drop length)
  | none => do
    let (name, cs) ← word? cs
    if name = "true" ∨ name = "false" then return (name, cs) else none

section
variable {α : Type} (item : List Char → Option (α × List Char))

/-- Items with commas between them, up to a closing character. A comma may follow the last. -/
def items? (close : Char) : (fuel : Nat) → List Char → Option (List α × List Char)
  | 0, _ => none
  | fuel + 1, cs =>
    if cs.head? = some close then some ([], cs.tail)
    else do
      let (first, cs) ← item cs
      match cs with
      | ',' :: cs =>
        let (rest, cs) ← items? close fuel cs
        return (first :: rest, cs)
      | cs => if cs.head? = some close then return ([first], cs.tail) else none

/-- Items with plus signs between them. -/
def sum? : (fuel : Nat) → List Char → Option (List α × List Char)
  | 0, _ => none
  | fuel + 1, cs => do
    let (first, cs) ← item cs
    match cs with
    | '+' :: cs =>
      let (rest, cs) ← sum? fuel cs
      return (first :: rest, cs)
    | cs => return ([first], cs)

end

section
variable (type : List Char → Option (Outline × List Char)) (fuel : Nat)

/-- A generic argument, given how types are read. -/
def argument? (cs : List Char) : Option (Argument × List Char) :=
  match value? cs with
  | some (text, cs) => some (.value text, cs)
  | none => (type cs).map fun (outline, cs) => (.type outline, cs)

/-- A name with its arguments. -/
def named? (cs : List Char) : Option (Named × List Char) := do
  let (name, cs) ← word? (unspaced cs)
  match cs with
  | '<' :: cs =>
    let (args, cs) ← items? (argument? type) '>' fuel cs
    return (.mk name args, cs)
  | cs => return (.mk name [], cs)

/-- A trait among bounds, which parentheses may enclose. -/
def bound? (cs : List Char) : Option (Named × List Char) :=
  match unspaced cs with
  | '(' :: cs => do
    let (named, cs) ← named? type fuel cs
    if cs.head? = some ')' then return (named, cs.tail) else none
  | cs => named? type fuel cs

/-- A path after its self type. -/
def qualified? (self : Outline) (cs : List Char) : Option (Outline × List Char) :=
  match cs with
  | '>' :: cs => do
    let (named, cs) ← named? type fuel cs
    return (.qualified self false named, cs)
  | cs => do
    let (named, cs) ← named? type fuel (← after? "as" (unspaced cs))
    if cs.head? = some '>' then return (.qualified self true named, cs.tail) else none

/-- A slice or an array after its element. -/
def bracketed? (element : Outline) (cs : List Char) : Option (Outline × List Char) :=
  match cs with
  | ']' :: cs => some (.slice element, cs)
  | ';' :: cs => do
    let (length, cs) ← value? cs
    if cs.head? = some ']' then return (.array element length, cs.tail) else none
  | _ => none

end

/-- Reads the outline at the head of a canonical form. Each round takes at least one character, so
that `fuel` may be the length of the text and one. -/
def read? : (fuel : Nat) → List Char → Option (Outline × List Char)
  | 0, _ => none
  | fuel + 1, cs =>
    match unspaced cs with
    | '!' :: cs => some (.never, cs)
    | '&' :: cs =>
      match after? "mut" cs with
      | some cs => (read? fuel cs).map fun (target, cs) => (.reference true target, cs)
      | none => (read? fuel cs).map fun (target, cs) => (.reference false target, cs)
    | '*' :: cs =>
      match after? "mut" cs with
      | some cs => (read? fuel cs).map fun (target, cs) => (.pointer true target, cs)
      | none => do
        let (target, cs) ← read? fuel (← after? "const" cs)
        return (.pointer false target, cs)
    | '[' :: cs => do
      let (element, cs) ← read? fuel cs
      bracketed? element cs
    | '(' :: cs => (items? (read? fuel) ')' fuel cs).map fun (elements, cs) => (.tuple elements, cs)
    | '<' :: cs => do
      let (self, cs) ← read? fuel cs
      qualified? (read? fuel) fuel self cs
    | cs =>
      match after? "dyn" cs with
      | some cs =>
        (sum? (bound? (read? fuel) fuel) fuel cs).map fun (traits, cs) => (.object traits, cs)
      | none => (named? (read? fuel) fuel cs).map fun (named, cs) => (.path named, cs)

/-- The outline that a canonical form shows. -/
def ofCanonical? (text : String) : Option Outline := do
  let (outline, cs) ← read? (text.toList.length + 1) text.toList
  if cs.isEmpty then return outline else none

end Outline

end Bindery.Source
