import Bindery.Text.Class
import Bindery.Text.Split
/-!
# Numbers, truth values and times

Which spellings a document may use for a value that is neither a text nor a collection.
-/

namespace Bindery.Toml

open Bindery.Text

/-- Whether a text consists of digits with single underscores between them. -/
def isDigits (digit : Char → Bool) (cs : List Char) : Bool :=
  (splitAt '_' cs).all fun part => !part.isEmpty && part.all digit

/-- Whether a character is a hexadecimal digit. -/
def isHexDigit (c : Char) : Bool :=
  isDigit c || ('a' ≤ c && c ≤ 'f') || ('A' ≤ c && c ≤ 'F')

/-- A text without a sign in front. -/
def dropSign : List Char → List Char
  | '+' :: rest => rest
  | '-' :: rest => rest
  | cs => cs

/-- Whether a text is a decimal number without leading zeros, signed or not. -/
def isDecimal (cs : List Char) : Bool :=
  match dropSign cs with
  | ['0'] => true
  | '0' :: _ => false
  | digits => isDigits isDigit digits

/-- Whether a text is an integer. -/
def isInteger : List Char → Bool
  | '0' :: 'x' :: rest => isDigits isHexDigit rest
  | '0' :: 'o' :: rest => isDigits (fun c => '0' ≤ c && c ≤ '7') rest
  | '0' :: 'b' :: rest => isDigits (fun c => c == '0' || c == '1') rest
  | cs => isDecimal cs

/-- Whether a text is a number with a fraction or an exponent, or names what is no number. -/
def isFloat (cs : List Char) : Bool :=
  let isExponentMark (c : Char) : Bool := c == 'e' || c == 'E'
  let mantissa := cs.takeWhile (!isExponentMark ·)
  let exponentIsValid := match cs.dropWhile (!isExponentMark ·) with
    | [] => true
    | _ :: exponent => isDigits isDigit (dropSign exponent)
  let isSpecial := [['i', 'n', 'f'], ['n', 'a', 'n']].contains (dropSign cs)
  isSpecial || exponentIsValid && match splitAt '.' mantissa with
    | [whole] => isDecimal whole
    | [whole, fraction] => isDecimal whole && isDigits isDigit fraction
    | _ => false

/-- The number of a given count of digits at the head of a text, and the rest. -/
def digits? : Nat → List Char → Option (Nat × List Char)
  | 0, cs => some (0, cs)
  | count + 1, c :: rest => do
    if isDigit c then
      let (value, rest) ← digits? count rest
      return ((c.toNat - 0x30) * 10 ^ count + value, rest)
    else none
  | _ + 1, [] => none

/-- Takes a character off the head of a text. -/
def drop? (c : Char) : List Char → Option (List Char)
  | d :: rest => if c = d then some rest else none
  | [] => none

/-- The number of days of a month. -/
def daysOf (year month : Nat) : Nat :=
  if month = 2 then
    if year % 4 = 0 ∧ (year % 100 ≠ 0 ∨ year % 400 = 0) then 29 else 28
  else if [4, 6, 9, 11].contains month then 30
  else 31

/-- What follows the date at the head of a text. -/
def afterDate? (cs : List Char) : Option (List Char) := do
  let (year, rest) ← digits? 4 cs
  let (month, rest) ← digits? 2 (← drop? '-' rest)
  let (day, rest) ← digits? 2 (← drop? '-' rest)
  if 1 ≤ month ∧ month ≤ 12 ∧ 1 ≤ day ∧ day ≤ daysOf year month then some rest else none

/-- What follows the time of day at the head of a text. Seconds may be left out. -/
def afterTime? (cs : List Char) : Option (List Char) := do
  let (hour, rest) ← digits? 2 cs
  let (minute, rest) ← digits? 2 (← drop? ':' rest)
  if hour > 23 ∨ minute > 59 then none
  else match rest with
    | ':' :: rest => do
      let (second, rest) ← digits? 2 rest
      if second > 60 then none
      else match rest with
        | '.' :: rest =>
          if rest.head?.any isDigit then some (rest.dropWhile isDigit) else none
        | rest => some rest
    | rest => some rest

/-- Whether a text is the offset of a time, or empty. -/
def isOffset : List Char → Bool
  | [] => true
  | ['Z'] => true
  | ['z'] => true
  | sign :: rest =>
    (sign == '+' || sign == '-') && (do
      let (hour, rest) ← digits? 2 rest
      let (minute, rest) ← digits? 2 (← drop? ':' rest)
      if hour > 23 ∨ minute > 59 ∨ !rest.isEmpty then none else some ()).isSome

/-- Whether a text is a date, a time of day, or both. -/
def isTime (cs : List Char) : Bool :=
  match afterDate? cs with
  | some [] => true
  | some (separator :: rest) =>
    ['T', 't', ' '].contains separator && match afterTime? rest with
      | some rest => isOffset rest
      | none => false
  | none => afterTime? cs == some []

/-- Whether a text is a number, a truth value or a time. -/
def isScalar (cs : List Char) : Bool :=
  ["true".toList, "false".toList].contains cs || isInteger cs || isFloat cs || isTime cs

end Bindery.Toml
