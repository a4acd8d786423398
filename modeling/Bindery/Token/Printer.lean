import Bindery.Token
/-!
# From token trees to text

Two written forms of token trees. The spaced form puts one space between tokens, save after a
punctuation character that is joined to the next one. The compact form has no blank except a single
space between adjacent words.
-/

namespace Bindery

/-- A token as it is written. -/
def Token.text : Token → List Char
  | .ident name => name.toList
  | .punct char _ => [char]
  | .literal text => text.toList

/-- Identifiers, keywords and literals run into each other without a space between them. -/
def Token.isWord : Token → Bool
  | .ident _ => true
  | .punct _ _ => false
  | .literal _ => true

/-- Whether the next token follows a punctuation character directly. -/
def Token.isJoint : Token → Bool
  | .punct _ joint => joint
  | _ => false

namespace TokenTree

/-- Whether a tree is a word. -/
def isWord : TokenTree Token → Bool
  | leaf token => token.isWord
  | group _ _ => false

/-- Whether a tree is a punctuation character joined to the next one. -/
def isJoint : TokenTree Token → Bool
  | leaf token => token.isJoint
  | group _ _ => false

end TokenTree

/-- The opening bracket of a group. -/
def Delimiter.opening : Delimiter → Char
  | .paren => '('
  | .bracket => '['
  | .brace => '\x7b'

/-- The closing bracket of a group. -/
def Delimiter.closing : Delimiter → Char
  | .paren => ')'
  | .bracket => ']'
  | .brace => '\x7d'

namespace Token

/-! ## The spaced form -/

mutual

/-- A tree in the spaced form; only braces have spaces inside. -/
def spacedTree : TokenTree Token → List Char
  | .leaf token => token.text
  | .group delimiter body =>
    let space := if delimiter = .brace then [' '] else []
    delimiter.opening :: (space ++ spacedList true body ++
      (if body.isEmpty then [] else space) ++ [delimiter.closing])

/-- The rest of a list in the spaced form; no space precedes it if it is `glued`. -/
def spacedList (glued : Bool) : List (TokenTree Token) → List Char
  | [] => []
  | tree :: rest =>
    (if glued then [] else [' ']) ++ spacedTree tree ++ spacedList tree.isJoint rest

end

/-- Token trees with spaces between the tokens. -/
def spaced (trees : List (TokenTree Token)) : String :=
  String.ofList (spacedList true trees)

/-! ## The compact form -/

mutual

/-- A tree in the compact form. -/
def compactTree : TokenTree Token → List Char
  | .leaf token => token.text
  | .group delimiter body =>
    delimiter.opening :: (compactList false body ++ [delimiter.closing])

/-- The rest of a list in the compact form, after a word or not. -/
def compactList (afterWord : Bool) : List (TokenTree Token) → List Char
  | [] => []
  | tree :: rest =>
    (if afterWord && tree.isWord then [' '] else []) ++ compactTree tree ++
      compactList tree.isWord rest

end

/-- Token trees without blanks, save between adjacent words. -/
def compact (trees : List (TokenTree Token)) : String :=
  String.ofList (compactList false trees)

end Token

end Bindery
