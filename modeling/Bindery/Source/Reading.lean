import Bindery.Source.Grammar.Type
import Bindery.Source.Grammar.Statement
import Bindery.Source.Grammar.Item
/-!
# From text to types, paths and items

The rules of the language refer to each other without end. They are tied together up to a depth
that the size of the text bounds: each rule takes something before it comes back to itself.
-/

namespace Bindery.Source

namespace Grammar

/-- Bounds of parameters and constraints may be constant and are no capture lists. -/
def parameterContext : BoundContext := ⟨true, false⟩

/-- The rules of the language, which refer to each other at most `depth` times. -/
def Rules.upTo : (depth : Nat) → Rules
  | 0 => Rules.exhausted
  | depth + 1 => {
    type := fun plus stream => typeWith (Rules.upTo depth) plus stream
    bound := fun stream => boundWith (Rules.upTo depth) parameterContext stream
    unary := fun struct stream => unaryWith (Rules.upTo depth) struct stream
    standing := fun stream => standingWith (Rules.upTo depth) stream
    climb := fun struct form base stream => climbWith (Rules.upTo depth) struct form base stream
    pattern := fun stream => patternWith (Rules.upTo depth) stream
    statements := fun stream => statementsWith (Rules.upTo depth) stream
    item := fun stream => itemWith (Rules.upTo depth) stream
    imports := fun rooted stream => importsWith (Rules.upTo depth) rooted stream }

/-- The rules of the language for the reading of token trees. -/
def Rules.for (trees : Trees) : Rules :=
  Rules.upTo (8 * (TokenTree.sizeList trees + 1))

/-- A path in the place of a type. -/
def anyPath (rules : Rules) : Grammar Path :=
  pathWith rules false

/-- A struct with its attributes and visibility. -/
def structOnly (rules : Rules) : Grammar Item := do
  let attributes ← outerAttributes rules
  structItem rules attributes (← visibility)

/-- The items of a file after its attributes. -/
def fileItems (rules : Rules) : Grammar (List Item) := do
  let _ ← innerAttributes rules
  many do
    if (← look).isEmpty then return none else return some (← rules.item)

end Grammar

open Grammar

/-- Reads all of some token trees. -/
def readTrees {α : Type} (grammar : Rules → Grammar α) (trees : Trees) : Except Fault α := do
  return (← whole none (grammar (Rules.for trees)) trees).1

/-- Reads all of a text. -/
def read {α : Type} (grammar : Rules → Grammar α) (text : String) : Except Fault α := do
  match Token.lex? text with
  | some trees => readTrees grammar trees
  | none => throw .unlexable

/-- The type that a text is. -/
def readType (text : String) : Except Fault Ty :=
  read (fun rules => rules.type true) text

/-- The path that a text is. -/
def readPath (text : String) : Except Fault Path :=
  read anyPath text

/-- The identifier that a text is. -/
def readIdent (text : String) : Except Fault Name :=
  read (fun _ => ident) text

/-! ## Files -/

/-- A text without the interpreter line that it may begin with. The line end stays, so that lines
keep their numbers. -/
def dropInterpreter : List Char → List Char
  | '#' :: '!' :: rest =>
    if (rest.drop (Token.skim .blank 0 rest)).head? == some '[' then '#' :: '!' :: rest
    else rest.dropWhile (· ≠ '\n')
  | cs => cs

/-- The items of a source file. -/
def readFile (text : String) : Except Fault (List Item) :=
  read fileItems (String.ofList (dropInterpreter (Token.dropMark text.toList)))

end Bindery.Source
