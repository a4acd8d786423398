import Bindery.Text.Quoted
import Bindery.Token.Number
/-!
# Literals

How many characters of a text form a literal: a quoted or raw string of characters, bytes or
characters other than NUL, a character or a byte in single quotes, or a number. A word directly
after a literal is its suffix. Of a string literal, `stringValue?` gives the text it stands for.
-/

namespace Bindery.Token

open Bindery.Text

/-- A length and that of the suffix after it. -/
def withSuffix (cs : List Char) (length : Nat) : Nat :=
  length + suffixLength (cs.drop length)

/-- Whether `count` hash marks stand at the head. -/
def hashes : Nat → List Char → Bool
  | 0, _ => true
  | count + 1, c :: rest => c == '#' && hashes count rest
  | _ + 1, [] => false

/-- Whether a raw string of the flavor may hold a character. -/
def allowsRaw (flavor : Flavor) (c : Char) : Bool :=
  match flavor with
  | .text => true
  | .bytes => c.toNat < 0x80
  | .nulFree => c != '\x00'

/-- The end of a raw string closed by a quote and `count` hash marks, counted from `n`. -/
def rawBody? (flavor : Flavor) (count : Nat) (n : Nat) : List Char → Option Nat
  | [] => none
  | c :: rest =>
    if c = '"' ∧ hashes count rest then some (n + 1 + count)
    else if c = '\r' then
      if rest.head? = some '\n' then rawBody? flavor count (n + 1) rest else none
    else if allowsRaw flavor c then rawBody? flavor count (n + 1) rest
    else none

/-- The length of a raw string whose hash marks begin after `n` characters. At most 255 of them
are allowed. -/
def rawLength? (flavor : Flavor) (n : Nat) (cs : List Char) : Option Nat :=
  let count := (cs.takeWhile (· == '#')).length
  match cs.drop count with
  | '"' :: rest => if count ≤ 255 then rawBody? flavor count (n + count + 1) rest else none
  | _ => none

/-- The length of what single quotes enclose and of the closing quote, counted from `n`. -/
def singleLength? (flavor : Flavor) (n : Nat) : List Char → Option Nat
  | [] => none
  | c :: rest => do
    let length ←
      if c = '\\' then (escapeLength? flavor .escape 0 rest)
      else if flavor = .bytes ∧ 0x80 ≤ c.toNat then none
      else some 0
    if (rest.drop length).head? = some '\x27' then some (n + 1 + length + 1) else none

/-- The length of the string, byte string or character at the head of a text, without suffix. -/
def quotedLiteral? : List Char → Option Nat
  | '"' :: rest => quotedLength? .text .plain 1 rest
  | 'r' :: rest => rawLength? .text 1 rest
  | 'b' :: '"' :: rest => quotedLength? .bytes .plain 2 rest
  | 'b' :: 'r' :: rest => rawLength? .bytes 2 rest
  | 'b' :: '\x27' :: rest => singleLength? .bytes 2 rest
  | 'c' :: '"' :: rest => quotedLength? .nulFree .plain 2 rest
  | 'c' :: 'r' :: rest => rawLength? .nulFree 2 rest
  | '\x27' :: rest => singleLength? .text 1 rest
  | _ => none

/-- The length of the literal at the head of a text. -/
def literalLength? (cs : List Char) : Option Nat :=
  match quotedLiteral? cs with
  | some length => some (withSuffix cs length)
  | none => floatLength? cs <|> intLength? cs

/-! ## Values -/

/-- The text before a closing quote and `count` hash marks. -/
def rawValue? (count : Nat) : List Char → Option (List Char)
  | [] => none
  | c :: rest =>
    if c = '"' ∧ hashes count rest then some [] else (rawValue? count rest).map (c :: ·)

/-- The text that a string literal stands for; none for a literal that is no string of
characters. -/
def stringValue? (literal : String) : Option String :=
  match literal.toList with
  | '"' :: rest => (unquote? .plain rest).map String.ofList
  | 'r' :: rest =>
    let count := (rest.takeWhile (· == '#')).length
    match rest.drop count with
    | '"' :: body => (rawValue? count body).map String.ofList
    | _ => none
  | _ => none

end Bindery.Token
