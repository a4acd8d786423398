/-!
# Tokens

A source text is a list of token trees: words, punctuation and literals, and between matching
brackets the trees of a group. A lexed token also knows the line it stands on.
-/

namespace Bindery

/-- The brackets that enclose a group. -/
inductive Delimiter where
  | paren
  | bracket
  | brace
  deriving DecidableEq, Repr

/-- A token, written as it stands in the source. -/
inductive Token where
  /-- An identifier or keyword; a raw one keeps its mark. -/
  | ident (name : String)
  /-- One punctuation character; `joint` if another one follows it directly. -/
  | punct (char : Char) (joint : Bool)
  | literal (text : String)
  deriving DecidableEq, Repr

/-- A token and the line it begins on, counted from one. -/
structure Lexeme where
  token : Token
  line : Nat
  deriving DecidableEq, Repr

/-- A token, or the trees between two matching brackets. -/
inductive TokenTree (α : Type) where
  | leaf (token : α)
  | group (delimiter : Delimiter) (body : List (TokenTree α))

namespace TokenTree

mutual

/-- Replaces every token of a tree. -/
def map {α β : Type} (f : α → β) : TokenTree α → TokenTree β
  | leaf token => leaf (f token)
  | group delimiter body => group delimiter (mapList f body)

/-- Replaces every token of a list of trees. -/
def mapList {α β : Type} (f : α → β) : List (TokenTree α) → List (TokenTree β)
  | [] => []
  | tree :: rest => map f tree :: mapList f rest

end

mutual

/-- The number of tokens and groups of a tree. -/
def size {α : Type} : TokenTree α → Nat
  | leaf _ => 1
  | group _ body => sizeList body + 1

/-- The number of tokens and groups of a list of trees. -/
def sizeList {α : Type} : List (TokenTree α) → Nat
  | [] => 0
  | tree :: rest => size tree + sizeList rest

end

end TokenTree

/-- A lexed source: its token trees, each token with its line. -/
abbrev Trees := List (TokenTree Lexeme)

/-- The tokens of a lexed source without their lines. -/
def Trees.tokens (trees : Trees) : List (TokenTree Token) :=
  TokenTree.mapList Lexeme.token trees

end Bindery
