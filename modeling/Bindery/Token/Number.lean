import Bindery.Text.Class
/-!
# Number literals

How many characters of a text form a number. A fractional or exponent part makes a float; a point
before another point or before a word is no part of the number. A word directly after the digits is
the suffix of the literal.
-/

namespace Bindery.Token

open Bindery.Text

/-- The length of the word at the head of a text, none if there is none. -/
def wordLength? : List Char → Option Nat
  | c :: rest => if isIdentStart c then some (1 + (rest.takeWhile isIdentContinue).length) else none
  | [] => none

/-- The length of the word at the head of a text, which may be empty: the suffix of a literal. -/
def suffixLength (cs : List Char) : Nat :=
  (wordLength? cs).getD 0

/-- The end of an exponent, counted from `n`. Without a digit in it the number ends `before` it. -/
def exponentLength? (before : Option Nat) (signed valued : Bool) (n : Nat) :
    List Char → Option Nat
  | [] => if valued then some n else before
  | c :: rest =>
    if c = '+' ∨ c = '-' then
      if valued then some n
      else if signed then before
      else exponentLength? before true valued (n + 1) rest
    else if isDigit c then exponentLength? before signed true (n + 1) rest
    else if c = '_' then exponentLength? before signed valued (n + 1) rest
    else if valued then some n
    else before

/-- The end of the digits of a float, counted from `n`; none if no point and no exponent is met. -/
def floatDigits? (pointed : Bool) (n : Nat) : List Char → Option Nat
  | [] => if pointed then some n else none
  | c :: rest =>
    if isDigit c ∨ c = '_' then floatDigits? pointed (n + 1) rest
    else if c = '.' ∧ pointed = false then
      if rest.head?.any fun d => d == '.' || isIdentStart d then none
      else floatDigits? true (n + 1) rest
    else if c = 'e' ∨ c = 'E' then
      exponentLength? (if pointed then some n else none) false false (n + 1) rest
    else if pointed then some n
    else none

/-- Adds the suffix to a number of `n` characters; none if a word would go on after it. -/
def closeNumber? (cs : List Char) (n : Nat) : Option Nat :=
  let length := n + suffixLength (cs.drop n)
  if ((cs.drop length).head?.any isIdentContinue) then none else some length

/-- The length of the float at the head of a text. -/
def floatLength? (cs : List Char) : Option Nat := do
  if (cs.head?.any isDigit) then closeNumber? cs (← floatDigits? false 0 cs) else none

/-- The value of a digit in bases up to sixteen. -/
def digitValue? (c : Char) : Option Nat :=
  if isDigit c then some (c.toNat - 0x30)
  else if 'a' ≤ c ∧ c ≤ 'f' then some (c.toNat - 0x57)
  else if 'A' ≤ c ∧ c ≤ 'F' then some (c.toNat - 0x37)
  else none

/-- The end of the digits of an integer, counted from `n`; none if there is no digit, or one that
the base lacks. A letter that the base lacks begins the suffix. -/
def intDigits? (base : Nat) (empty : Bool) (n : Nat) : List Char → Option Nat
  | [] => if empty then none else some n
  | c :: rest =>
    if c = '_' then
      if empty ∧ base = 10 then none else intDigits? base empty (n + 1) rest
    else match digitValue? c with
      | some value =>
        if value < base then intDigits? base false (n + 1) rest
        else if isDigit c ∨ empty then none
        else some n
      | none => if empty then none else some n

/-- The length of the integer at the head of a text. -/
def intLength? (cs : List Char) : Option Nat := do
  let digits ← match cs with
    | '0' :: 'x' :: rest => intDigits? 16 true 2 rest
    | '0' :: 'o' :: rest => intDigits? 8 true 2 rest
    | '0' :: 'b' :: rest => intDigits? 2 true 2 rest
    | _ => intDigits? 10 true 0 cs
  closeNumber? cs digits

/-- The number that digits in a base stand for; other characters are passed over. -/
def digitsValue (base : Nat) (cs : List Char) : Nat :=
  (cs.filterMap digitValue?).foldl (fun value digit => value * base + digit) 0

/-- Whether a literal is an integer without a suffix that fits into 32 bits, as the number of a
tuple field has to be. -/
def isIndex (text : String) : Bool :=
  let cs := text.toList
  let (base, digits) := match cs with
    | '0' :: 'x' :: rest => (16, rest)
    | '0' :: 'o' :: rest => (8, rest)
    | '0' :: 'b' :: rest => (2, rest)
    | _ => (10, cs)
  intDigits? base true 0 digits == some digits.length && digitsValue base digits < 0x100000000

end Bindery.Token
