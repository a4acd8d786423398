import Bindery.Text.IdentTable
import Bindery.Text.PrintableTable
/-!
# Character classes

Which characters separate tokens, which begin or continue an identifier, and which a quoted text
shows as they are. Beyond ASCII the classes are those of the Unicode tables.
-/

namespace Bindery.Text

/-- Whether a code point lies in one of the ranges. -/
def inRanges (ranges : List (Nat × Nat)) (code : Nat) : Bool :=
  ranges.any fun range => range.1 ≤ code && code ≤ range.2

/-- Blanks separate tokens: the white space of Unicode and the two direction marks. -/
def isBlank (c : Char) : Bool :=
  let n := c.toNat
  n == 0x20 || (0x09 ≤ n && n ≤ 0x0D) ||
    (0x80 ≤ n &&
      (n == 0x85 || n == 0xA0 || n == 0x1680 || (0x2000 ≤ n && n ≤ 0x200A) || n == 0x200E ||
        n == 0x200F || n == 0x2028 || n == 0x2029 || n == 0x202F || n == 0x205F || n == 0x3000))

/-- An ASCII letter. -/
def isLetter (c : Char) : Bool :=
  ('a' ≤ c && c ≤ 'z') || ('A' ≤ c && c ≤ 'Z')

/-- An ASCII digit. -/
def isDigit (c : Char) : Bool :=
  '0' ≤ c && c ≤ '9'

/-- The characters that may begin an identifier. -/
def isIdentStart (c : Char) : Bool :=
  isLetter c || c == '_' || (0x80 ≤ c.toNat && inRanges IdentTable.starts c.toNat)

/-- The characters that may follow the first one of an identifier. -/
def isIdentContinue (c : Char) : Bool :=
  isIdentStart c || isDigit c || (0x80 ≤ c.toNat && inRanges IdentTable.continues c.toNat)

/-- Whether a quoted text shows the character as it is: neither a control, a format, a private or
unassigned character nor a separator other than the space, and no mark that joins the character
before it. -/
def isPrintable (c : Char) : Bool :=
  let n := c.toNat
  if n < 0x80 then 0x20 ≤ n && n < 0x7F
  else !inRanges PrintableTable.unprintable n && !inRanges PrintableTable.extending n

theorem isIdentContinue_of_isIdentStart {c : Char} (h : isIdentStart c = true) :
    isIdentContinue c = true := by
  simp [isIdentContinue, h]

end Bindery.Text
