import Bindery.Text.Class
/-!
# Quoted text

How a text is written between double quotes, and which text a quoted or raw form stands for.
Tabs, line ends, quotes and backslashes have short escapes; a character that cannot be shown as it
is stands as its code point in braces.
-/

namespace Bindery.Text

/-- The digit of a value below sixteen, in lower case. -/
def hexDigit (n : Nat) : Char :=
  if n < 10 then Char.ofNat (0x30 + n) else Char.ofNat (0x57 + n)

/-- The hexadecimal digits of a number, without leading zeros. -/
def hexDigits (n : Nat) : List Char :=
  go n (n + 1) []
where
  /-- Puts the digits of `n` in front of `acc`; `fuel` exceeds their number. -/
  go (n : Nat) : Nat → List Char → List Char
    | 0, acc => acc
    | fuel + 1, acc =>
      if n < 16 then hexDigit n :: acc else go (n / 16) fuel (hexDigit (n % 16) :: acc)

/-- The value of a hexadecimal digit of either case. -/
def hexValue? (c : Char) : Option Nat :=
  if isDigit c then some (c.toNat - 0x30)
  else if 'a' ≤ c && c ≤ 'f' then some (c.toNat - 0x57)
  else if 'A' ≤ c && c ≤ 'F' then some (c.toNat - 0x37)
  else none

/-- The code point of a character in braces. -/
def codePoint (c : Char) : List Char :=
  '\\' :: 'u' :: '\x7b' :: (hexDigits c.toNat ++ ['\x7d'])

/-- One character between quotes. -/
def escapeChar (c : Char) : List Char :=
  if c = '\x00' then ['\\', '0']
  else if c = '\t' then ['\\', 't']
  else if c = '\r' then ['\\', 'r']
  else if c = '\n' then ['\\', 'n']
  else if c = '\\' then ['\\', '\\']
  else if c = '"' then ['\\', '"']
  else if isPrintable c then [c]
  else codePoint c

/-- The inside of a string literal. A NUL before an octal digit is written with two digits, so that
the digit after it is not taken for part of the escape. -/
def escape : List Char → List Char
  | [] => []
  | c :: rest =>
    if c = '\x00' then
      match rest with
      | d :: _ =>
        (if '0' ≤ d && d ≤ '7' then ['\\', 'x', '0', '0'] else ['\\', '0']) ++ escape rest
      | [] => ['\\', '0']
    else escapeChar c ++ escape rest

/-- A text as a string literal. -/
def quote (text : String) : String :=
  String.ofList ('"' :: (escape text.toList ++ ['"']))

/-- A text as a debugging listing shows it: every character escaped on its own. -/
def listed (text : String) : String :=
  String.ofList ('"' :: (text.toList.flatMap escapeChar ++ ['"']))

/-! ## Reading a quoted text, one character at a time -/

/-- What the quotes hold: characters, bytes, or characters other than NUL. -/
inductive Flavor where
  | text
  | bytes
  | nulFree
  deriving DecidableEq

/-- How far the reading of an escape or of a line end has come. -/
inductive Mode where
  | plain
  /-- After a carriage return, which only a line feed may follow. -/
  | carriage
  | escape
  | hex
  | hexLow (high : Nat)
  | brace
  | code (value digits : Nat)
  /-- After an escaped line end, which swallows the blanks that follow. -/
  | gap
  | gapCarriage
  deriving DecidableEq

/-- What one character does: it completes a character of the text, it changes the mode alone, it
closes the quotes, or it is not allowed here. -/
inductive Step where
  | emit (c : Char) (next : Mode)
  | quiet (next : Mode)
  | close
  | fail
  deriving DecidableEq

/-- A character outside escapes. -/
def plainStep (flavor : Flavor) (c : Char) : Step :=
  if c = '"' then .close
  else if c = '\\' then .quiet .escape
  else if c = '\r' then .quiet .carriage
  else match flavor with
    | .text => .emit c .plain
    | .bytes => if c.toNat < 0x80 then .emit c .plain else .fail
    | .nulFree => if c = '\x00' then .fail else .emit c .plain

/-- The character after a backslash. -/
def escapeStep (flavor : Flavor) (c : Char) : Step :=
  if c = 'x' then .quiet .hex
  else if c = 'u' then (if flavor = .bytes then .fail else .quiet .brace)
  else if c = 'n' then .emit '\n' .plain
  else if c = 'r' then .emit '\r' .plain
  else if c = 't' then .emit '\t' .plain
  else if c = '\\' ∨ c = '\x27' ∨ c = '"' then .emit c .plain
  else if c = '0' then (if flavor = .nulFree then .fail else .emit '\x00' .plain)
  else if c = '\n' then .quiet .gap
  else if c = '\r' then .quiet .gapCarriage
  else .fail

/-- The closing of a code point in braces, which has to be that of a character. -/
def codeStep (flavor : Flavor) (value : Nat) : Step :=
  if value < 0xD800 ∨ (0xDFFF < value ∧ value < 0x110000) then
    if flavor = .nulFree ∧ value = 0 then .fail else .emit (Char.ofNat value) .plain
  else .fail

/-- What the next character does in a given mode. -/
def step (flavor : Flavor) (mode : Mode) (c : Char) : Step :=
  match mode with
  | .plain => plainStep flavor c
  | .carriage => if c = '\n' then .emit '\n' .plain else .fail
  | .escape => escapeStep flavor c
  | .hex =>
    match hexValue? c with
    | some high => if flavor = .text ∧ 7 < high then .fail else .quiet (.hexLow high)
    | none => .fail
  | .hexLow high =>
    match hexValue? c with
    | some low =>
      if flavor = .nulFree ∧ 16 * high + low = 0 then .fail
      else .emit (Char.ofNat (16 * high + low)) .plain
    | none => .fail
  | .brace => if c = '\x7b' then .quiet (.code 0 0) else .fail
  | .code value digits =>
    match hexValue? c with
    | some digit => if digits = 6 then .fail else .quiet (.code (16 * value + digit) (digits + 1))
    | none =>
      if digits = 0 then .fail
      else if c = '_' then .quiet (.code value digits)
      else if c = '\x7d' then codeStep flavor value
      else .fail
  | .gap =>
    if c = ' ' ∨ c = '\t' ∨ c = '\n' then .quiet .gap
    else if c = '\r' then .quiet .gapCarriage
    else plainStep flavor c
  | .gapCarriage => if c = '\n' then .quiet .gap else .fail

/-- How many characters a quoted text takes up to and with its closing quote, counted from `n`. -/
def quotedLength? (flavor : Flavor) : Mode → Nat → List Char → Option Nat
  | _, _, [] => none
  | mode, n, c :: rest =>
    match step flavor mode c with
    | .emit _ next => quotedLength? flavor next (n + 1) rest
    | .quiet next => quotedLength? flavor next (n + 1) rest
    | .close => some (n + 1)
    | .fail => none

/-- How many characters an escape takes after its backslash, counted from `n`; the escapes that
swallow a line end do not count. -/
def escapeLength? (flavor : Flavor) : Mode → Nat → List Char → Option Nat
  | _, _, [] => none
  | mode, n, c :: rest =>
    match step flavor mode c with
    | .emit _ _ => some (n + 1)
    | .quiet .gap => none
    | .quiet .gapCarriage => none
    | .quiet next => escapeLength? flavor next (n + 1) rest
    | .close => none
    | .fail => none

/-- The text that stands before the closing quote. -/
def unquote? : Mode → List Char → Option (List Char)
  | _, [] => none
  | mode, c :: rest =>
    match step .text mode c with
    | .emit d next => (unquote? next rest).map (d :: ·)
    | .quiet next => unquote? next rest
    | .close => some []
    | .fail => none

end Bindery.Text
