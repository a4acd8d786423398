import Bindery.Token
import Bindery.Token.Literal
/-!
# From text to token trees

Blanks and ordinary comments separate tokens. A documentation comment stands for the attribute that
holds its text. Brackets have to match; a text that breaks a rule is not lexed at all.
-/

namespace Bindery.Token

open Bindery.Text

/-! ## Blanks and comments -/

/-- What the skipping of blanks is inside of; a block comment knows its depth and its start. -/
inductive Skim where
  | blank
  | line
  | block (depth start : Nat)

/-- Whether the text after two slashes makes them a documentation comment. -/
def isLineDoc : List Char → Bool
  | '!' :: _ => true
  | '/' :: '/' :: _ => false
  | '/' :: _ => true
  | _ => false

/-- Whether the text after a slash and a star makes them a documentation comment. -/
def isBlockDoc : List Char → Bool
  | '!' :: _ => true
  | '*' :: '*' :: _ => false
  | '*' :: '/' :: _ => false
  | '*' :: _ => true
  | _ => false

/-- How many characters of blanks and ordinary comments stand at the head, counted from `n`. A
block comment that never ends is not skipped. -/
def skim : Skim → Nat → List Char → Nat
  | .block _ start, _, [] => start
  | _, n, [] => n
  | .blank, n, '/' :: '/' :: rest => if isLineDoc rest then n else skim .line (n + 2) rest
  | .blank, n, '/' :: '*' :: rest => if isBlockDoc rest then n else skim (.block 1 n) (n + 2) rest
  | .blank, n, c :: rest => if isBlank c then skim .blank (n + 1) rest else n
  | .line, n, c :: rest => skim (if c = '\n' then .blank else .line) (n + 1) rest
  | .block depth start, n, '/' :: '*' :: rest => skim (.block (depth + 1) start) (n + 2) rest
  | .block depth start, n, '*' :: '/' :: rest =>
    skim (if depth = 1 then .blank else .block (depth - 1) start) (n + 2) rest
  | .block depth start, n, _ :: rest => skim (.block depth start) (n + 1) rest

/-- The characters of a comment line, without a carriage return that belongs to the line end. -/
def lineText : List Char → List Char
  | [] => []
  | '\n' :: _ => []
  | '\r' :: '\n' :: _ => []
  | c :: rest => c :: lineText rest

/-- The length of a block comment after its opening, to the end of its closing. -/
def blockLength? : Nat → Nat → List Char → Option Nat
  | _, _, [] => none
  | depth, n, '/' :: '*' :: rest => blockLength? (depth + 1) (n + 2) rest
  | depth, n, '*' :: '/' :: rest =>
    if depth = 1 then some (n + 2) else blockLength? (depth - 1) (n + 2) rest
  | depth, n, _ :: rest => blockLength? depth (n + 1) rest

/-- Whether every carriage return is part of a line end. -/
def carriagesPaired : List Char → Bool
  | [] => true
  | '\r' :: rest => rest.head? == some '\n' && carriagesPaired rest
  | _ :: rest => carriagesPaired rest

/-- The documentation comment at the head of a text: whether it documents what encloses it, the
text it holds, and its length. -/
def docComment? : List Char → Option (Bool × List Char × Nat)
  | '/' :: '/' :: mark :: rest =>
    if isLineDoc (mark :: rest) then
      let text := lineText rest
      if carriagesPaired text then some (mark == '!', text, 3 + text.length) else none
    else none
  | '/' :: '*' :: mark :: rest =>
    if isBlockDoc (mark :: rest) then do
      let length ← blockLength? 1 0 (mark :: rest)
      let text := rest.take (length - 3)
      if carriagesPaired text then some (mark == '!', text, 2 + length) else none
    else none
  | _ => none

/-! ## Tokens -/

/-- A token, or a bracket that the nesting of the trees consumes. -/
inductive Lexed where
  | leaf (lexeme : Lexeme)
  | opening (delimiter : Delimiter)
  | closing (delimiter : Delimiter)
  deriving DecidableEq

/-- The punctuation characters, the quote of lifetimes among them. -/
def punctuation : List Char :=
  ['~', '!', '@', '#', '$', '%', '^', '&', '*', '-', '=', '+', '|', ';', ':', ',', '<', '.', '>',
    '/', '?', '\x27']

/-- Whether a punctuation character stands at the head, and no comment. -/
def startsPunct : List Char → Bool
  | '/' :: '/' :: _ => false
  | '/' :: '*' :: _ => false
  | c :: _ => punctuation.contains c
  | [] => false

/-- The words that have no raw form. -/
def neverRaw : List String :=
  ["_", "super", "self", "Self", "crate"]

/-- The length of the identifier at the head, which may be a raw one. -/
def identLength? : List Char → Option Nat
  | 'r' :: '#' :: rest => do
    let length ← wordLength? rest
    if neverRaw.contains (String.ofList (rest.take length)) then none else some (2 + length)
  | cs => wordLength? cs

/-- Whether a text is one identifier. -/
def isIdent (text : String) : Bool :=
  identLength? text.toList == some text.toList.length

/-- Whether the head looks like a literal in quotes, so that no identifier may begin there. -/
def startsQuoted : List Char → Bool
  | 'r' :: '"' :: _ => true
  | 'r' :: '#' :: '"' :: _ => true
  | 'r' :: '#' :: '#' :: _ => true
  | 'b' :: '"' :: _ => true
  | 'b' :: '\x27' :: _ => true
  | 'b' :: 'r' :: '"' :: _ => true
  | 'b' :: 'r' :: '#' :: _ => true
  | 'c' :: '"' :: _ => true
  | 'c' :: 'r' :: '"' :: _ => true
  | 'c' :: 'r' :: '#' :: _ => true
  | _ => false

/-- Whether the text after a quote begins a lifetime: an identifier that no quote follows. -/
def startsLifetime (cs : List Char) : Bool :=
  match identLength? cs with
  | none => false
  | some length =>
    match (cs.drop length).head? with
    | some '\x27' => false
    | some '#' => match cs with
      | 'r' :: '#' :: _ => true
      | _ => false
    | _ => true

/-- The punctuation character at the head. -/
def punct? : List Char → Option Token
  | '\x27' :: rest => if startsLifetime rest then some (.punct '\x27' true) else none
  | c :: rest => if startsPunct (c :: rest) then some (.punct c (startsPunct rest)) else none
  | [] => none

/-- The token at the head of a text that begins with no blank and no bracket, and its length. -/
def leaf? (cs : List Char) : Option (Token × Nat) :=
  match literalLength? cs with
  | some length => some (.literal (String.ofList (cs.take length)), length)
  | none =>
    match punct? cs with
    | some token => some (token, 1)
    | none =>
      if startsQuoted cs then none
      else (identLength? cs).map fun length =>
        (.ident (String.ofList (cs.take length)), length)

/-- The attribute that a documentation comment stands for. -/
def docAttribute (line : Nat) (inner : Bool) (text : List Char) : List Lexed :=
  let leaf (token : Token) : Lexed := .leaf ⟨token, line⟩
  [leaf (.punct '#' false)] ++ (if inner then [leaf (.punct '!' false)] else []) ++
    [.opening .bracket, leaf (.ident "doc"), leaf (.punct '=' false),
      leaf (.literal (quote (String.ofList text))), .closing .bracket]

/-- The spelling that stands for a token that could not be produced; it counts as one literal. -/
def placeholder : List Char :=
  "(/*ERROR*/)".toList

/-- What stands at the head of a text that begins with no blank, and its length. -/
def lexed? (line : Nat) (cs : List Char) : Option (List Lexed × Nat) :=
  match docComment? cs with
  | some (inner, text, length) => some (docAttribute line inner text, length)
  | none =>
    match cs with
    | '(' :: _ =>
      if placeholder.isPrefixOf cs then
        some ([.leaf ⟨.literal (String.ofList placeholder), line⟩], placeholder.length)
      else some ([.opening .paren], 1)
    | '[' :: _ => some ([.opening .bracket], 1)
    | '\x7b' :: _ => some ([.opening .brace], 1)
    | ')' :: _ => some ([.closing .paren], 1)
    | ']' :: _ => some ([.closing .bracket], 1)
    | '\x7d' :: _ => some ([.closing .brace], 1)
    | _ => (leaf? cs).map fun (token, length) => ([.leaf ⟨token, line⟩], length)

/-- The number of line ends among the first `n` characters. -/
def lineEnds (n : Nat) (cs : List Char) : Nat :=
  (cs.take n).count '\n'

/-- The tokens and brackets of a text, put before those already found. Each round takes at least
one character, so that `fuel` may be the length of the text and one. -/
def lexAll? : Nat → Nat → List Char → List Lexed → Option (List Lexed)
  | 0, _, _, _ => none
  | fuel + 1, line, cs, found =>
    let blanks := skim .blank 0 cs
    let line := line + lineEnds blanks cs
    match cs.drop blanks with
    | [] => some found.reverse
    | cs =>
      match lexed? line cs with
      | none => none
      | some (items, length) =>
        lexAll? fuel (line + lineEnds length cs) (cs.drop length) (items.reverse ++ found)

/-- Nests a list of tokens and brackets. The stack holds the groups still open, each with the trees
before it in reverse. -/
def nest? : List Lexed → List (Delimiter × Trees) → Trees → Option Trees
  | [], [], trees => some trees.reverse
  | [], _ :: _, _ => none
  | .leaf lexeme :: rest, stack, trees => nest? rest stack (.leaf lexeme :: trees)
  | .opening delimiter :: rest, stack, trees => nest? rest ((delimiter, trees) :: stack) []
  | .closing delimiter :: rest, (opened, outer) :: stack, trees =>
    if delimiter = opened then nest? rest stack (.group delimiter trees.reverse :: outer) else none
  | .closing _ :: _, [], _ => none

/-- A text without the byte order mark it may begin with. -/
def dropMark : List Char → List Char
  | '\ufeff' :: rest => rest
  | cs => cs

/-- The token trees of a text; none if it is not lexable. -/
def lex? (text : String) : Option Trees := do
  let cs := dropMark text.toList
  nest? (← lexAll? (cs.length + 1) 1 cs []) [] []

end Bindery.Token
