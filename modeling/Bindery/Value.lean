/-!
# Values

What delegates are given and what they reply: the values of a data format. The keys of an object are
in ascending order.
-/

namespace Bindery

/-- A value. -/
inductive Value where
  | null
  | bool (value : Bool)
  | integer (value : Int)
  /-- A number with a fraction, even if that is zero: `digits / 10 ^ places`. -/
  | decimal (digits : Int) (places : Nat)
  | text (value : String)
  | array (elements : List Value)
  | object (entries : List (String × Value))
  deriving Inhabited, BEq, Repr

/-- The number of a value, if it is a whole one that fits into 64 bits with a sign. -/
def Value.int64? : Value → Option Int
  | integer value =>
    if -0x8000000000000000 ≤ value ∧ value < 0x8000000000000000 then some value else none
  | _ => none

end Bindery
