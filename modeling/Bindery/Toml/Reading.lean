import Bindery.Toml.Scalar
import Bindery.Toml.Value
import Bindery.Text.Quoted
/-!
# From text to configuration documents

A document is a list of lines: headers, and keys with their values. A header opens a table, to
which the lines after it belong. No key has two values and no table two headers.
-/

namespace Bindery.Toml

open Bindery.Text

/-- A rule that reads a value from the head of a text, if the text is well-formed. -/
abbrev Reader := StateT (List Char) Option

/-! ## Blanks, line ends and comments -/

/-- Whether a character may stand in a comment or in a text that is not escaped. -/
def isPlain (c : Char) : Bool :=
  c == '\t' || (c.toNat ≥ 0x20 && c.toNat != 0x7F)

/-- Skips blanks. -/
def blanks : Reader Unit :=
  modify fun cs => cs.dropWhile fun c => c == ' ' || c == '\t'

/-- The head of the text. -/
def next? : Reader (Option Char) :=
  return (← get).head?

/-- Takes a character. -/
def char (c : Char) : Reader Unit := do
  set (← drop? c (← get))

/-- Takes a character if it stands at the head. -/
def char? (c : Char) : Reader Bool := do
  if (← next?) == some c then
    char c
    return true
  else return false

/-- Takes a line end if one stands at the head. -/
def lineEnd? : Reader Bool := do
  match ← get with
  | '\n' :: rest =>
    set rest
    return true
  | '\r' :: '\n' :: rest =>
    set rest
    return true
  | _ => return false

/-- Skips a comment up to the end of its line. -/
def comment : Reader Unit := do
  if ← char? '#' then
    modify fun cs => cs.dropWhile isPlain

/-- Takes the rest of a line in which nothing of meaning is left. -/
def lineRest : Reader Unit := do
  blanks
  comment
  if !(← lineEnd?) then
    if !(← get).isEmpty then failure

/-- Repeats a step that says what comes next until it says nothing. Every step takes a character,
and the steps are bounded by the characters that are left. -/
def repeated {σ : Type} (start : σ) (step : σ → Reader (Option σ)) : Reader σ := do
  go ((← get).length + 1) start
where
  /-- Repeats the step at most `fuel` times. -/
  go : Nat → σ → Reader σ
    | 0, _ => failure
    | fuel + 1, state => do
      match ← step state with
      | some next => go fuel next
      | none => return state

/-- Skips blanks, comments and line ends. -/
def gap : Reader Unit :=
  repeated () fun _ => do
    blanks
    comment
    if ← lineEnd? then return some () else return none

/-! ## Texts -/

/-- The character of a code point in hexadecimal digits. -/
def escaped (digits : Nat) : Reader Char := do
  let cs ← get
  let code := cs.take digits
  if code.length = digits && code.all isHexDigit then
    set (cs.drop digits)
    let value := (code.filterMap hexValue?).foldl (fun value digit => value * 16 + digit) 0
    if h : value.isValidChar then return Char.ofNatAux value h else failure
  else failure

/-- The character of an escape after its backslash. -/
def escapeChar : Reader Char := do
  match ← get with
  | [] => failure
  | c :: rest =>
    set rest
    match c with
    | 'b' => return '\x08'
    | 't' => return '\t'
    | 'n' => return '\n'
    | 'f' => return '\x0c'
    | 'r' => return '\r'
    | 'e' => return '\x1b'
    | '"' => return '"'
    | '\\' => return '\\'
    | 'x' => escaped 2
    | 'u' => escaped 4
    | 'U' => escaped 8
    | _ => failure

/-- A text on one line between double quotes, after the first one. -/
def basicText : Reader String := do
  let (cs, _) ← repeated (([] : List Char), false) fun (cs, closed) => do
    if closed then return none
    match ← get with
    | '"' :: rest =>
      set rest
      return some (cs, true)
    | '\\' :: rest =>
      set rest
      return some ((← escapeChar) :: cs, false)
    | c :: rest =>
      if isPlain c then
        set rest
        return some (c :: cs, false)
      else failure
    | [] => failure
  return String.ofList cs.reverse

/-- A text on one line between single quotes, after the first one. -/
def literalText : Reader String := do
  let cs ← get
  let inside := cs.takeWhile fun c => isPlain c && c != '\x27'
  set (cs.drop inside.length)
  char '\x27'
  return String.ofList inside

/-- Takes a quote or more at the end of a text on several lines: three of them close it, and up to
two before those belong to it. Yields the characters that belong to the text and whether it is
closed. -/
def quotes (quote : Char) : Reader (List Char × Bool) := do
  let cs ← get
  let count := min 5 (cs.takeWhile (· == quote)).length
  set (cs.drop count)
  if count < 3 then return (List.replicate count quote, false)
  else return (List.replicate (count - 3) quote, true)

/-- Whether a backslash is followed by nothing but blanks on its line. -/
def endsLine (cs : List Char) : Bool :=
  match cs.dropWhile fun c => c == ' ' || c == '\t' with
  | '\n' :: _ => true
  | '\r' :: '\n' :: _ => true
  | _ => false

/-- A text on several lines, after its opening quotes. Only between double quotes are there
escapes; a backslash at the end of a line swallows the blanks and line ends that follow. -/
def longText (quote : Char) : Reader String := do
  let _ ← lineEnd?
  let (cs, _) ← repeated (([] : List Char), false) fun (cs, closed) => do
    if closed then return none
    match ← get with
    | [] => failure
    | '\r' :: '\n' :: rest =>
      set rest
      return some ('\n' :: '\r' :: cs, false)
    | '\n' :: rest =>
      set rest
      return some ('\n' :: cs, false)
    | c :: rest =>
      if c == quote then
        let (inside, closed) ← quotes quote
        return some (inside ++ cs, closed)
      else if c == '\\' && quote == '"' then
        if endsLine rest then
          set (skipLines rest)
          return some (cs, false)
        else
          set rest
          return some ((← escapeChar) :: cs, false)
      else if isPlain c then
        set rest
        return some (c :: cs, false)
      else failure
  return String.ofList cs.reverse
where
  /-- Skips blanks and line ends. -/
  skipLines : List Char → List Char
    | '\r' :: '\n' :: rest => skipLines rest
    | c :: rest => if c == ' ' || c == '\t' || c == '\n' then skipLines rest else c :: rest
    | [] => []

/-! ## Keys -/

/-- Whether a character may stand in a key without quotes. -/
def isBare (c : Char) : Bool :=
  isDigit c || ('a' ≤ c && c ≤ 'z') || ('A' ≤ c && c ≤ 'Z') || c == '_' || c == '-'

/-- One part of a key. -/
def simpleKey : Reader String := do
  let cs ← get
  match cs with
  | '"' :: rest =>
    set rest
    basicText
  | '\x27' :: rest =>
    set rest
    literalText
  | _ =>
    let name := cs.takeWhile isBare
    if name.isEmpty then failure
    set (cs.drop name.length)
    return String.ofList name

/-- A key: the parts before its last one, and the last one. -/
def key : Reader (List String × String) := do
  blanks
  let first ← simpleKey
  blanks
  repeated ([], first) fun (front, last) => do
    if ← char? '.' then
      blanks
      let part ← simpleKey
      blanks
      return some (front ++ [last], part)
    else return none

/-! ## Values -/

/-- Whether a character may stand in a number, a truth value or a time. -/
def isScalarChar (c : Char) : Bool :=
  isBare c || c == '+' || c == '.' || c == ':'

/-- A number, a truth value or a time. A blank may part a date from the time after it. -/
def scalar : Reader Value := do
  let cs ← get
  let first := cs.takeWhile isScalarChar
  let whole := match cs.drop first.length with
    | ' ' :: rest =>
      if afterDate? first == some [] && rest.head?.any isDigit then
        first ++ ' ' :: rest.takeWhile isScalarChar
      else first
    | _ => first
  if isScalar whole then
    set (cs.drop whole.length)
    return .scalar (String.ofList whole)
  else failure

/-- The items of a collection up to its closing bracket, with commas between them. -/
def items {σ : Type} (closing : Char) (start : σ) (item : σ → Reader σ) : Reader σ := do
  let (state, _) ← repeated (start, true) fun (state, more) => do
    gap
    if (← next?) == some closing then return none
    if !more then failure
    let state ← item state
    gap
    return some (state, ← char? ',')
  char closing
  return state

/-- A value; collections nest at most `depth` times. -/
def value : (depth : Nat) → Reader Value
  | 0 => failure
  | depth + 1 => do
    match ← get with
    | '"' :: '"' :: '"' :: rest =>
      set rest
      return .text (← longText '"')
    | '"' :: rest =>
      set rest
      return .text (← basicText)
    | '\x27' :: '\x27' :: '\x27' :: rest =>
      set rest
      return .text (← longText '\x27')
    | '\x27' :: rest =>
      set rest
      return .text (← literalText)
    | '[' :: rest =>
      set rest
      let elements ← items ']' [] fun elements => do return elements ++ [← value depth]
      return .array elements
    | '\x7b' :: rest =>
      set rest
      let entries ← items '\x7d' ([] : Entries) fun entries => do
        let (path, last) ← key
        char '='
        blanks
        Entries.add path last (← value depth) entries
      return .table (entryValues entries)
    | _ => scalar

/-! ## Documents -/

/-- The table that lines belong to, and all entries so far. -/
structure Progress where
  header : List String
  entries : Entries

/-- A line with a header, after its first bracket. -/
def headerLine (progress : Progress) : Reader Progress := do
  let several ← char? '['
  let (path, last) ← key
  char ']'
  if several then char ']'
  lineRest
  let entries ← if several then Entries.openElement path last progress.entries
    else Entries.openTable path last progress.entries
  return ⟨path ++ [last], entries⟩

/-- A line with a key and its value. -/
def entryLine (progress : Progress) : Reader Progress := do
  let (path, last) ← key
  char '='
  blanks
  let value ← value ((← get).length + 1)
  lineRest
  let entries ← Entries.alongHeader (Entries.add path last value) progress.header progress.entries
  return { progress with entries := entries }

/-- A line of a document. -/
def line (progress : Progress) : Reader Progress := do
  blanks
  match ← get with
  | '[' :: rest =>
    set rest
    headerLine progress
  | c :: _ =>
    if c == '#' || c == '\n' || c == '\r' then
      lineRest
      return progress
    else entryLine progress
  | [] => return progress

/-- The lines of a document. -/
def document : Reader Entries := do
  let progress ← repeated ⟨[], []⟩ fun progress => do
    if (← get).isEmpty then return none else return some (← line progress)
  return progress.entries

/-- The entries of the table that a text is; none if it is not well-formed. -/
def read? (text : String) : Option (List (String × Value)) := do
  let cs := match text.toList with
    | '\ufeff' :: rest => rest
    | cs => cs
  let (entries, _) ← document.run cs
  return entryValues entries

end Bindery.Toml
