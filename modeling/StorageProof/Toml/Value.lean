import StorageProof.Mismatch

/-!
# TOML values

A document is a table. The members of a table keep the order in which they were first written; dates and
times are told from other values but not looked into.
-/

namespace StorageProof.Toml

inductive Value
  | text (value : String)
  | integer (value : Int)
  | float (bits : UInt64)
  | boolean (value : Bool)
  | moment
  | array (items : List Value)
  | table (members : List (String × Value))

/-- How a value appears to a reader that was due another one. A moment appears as a map, and the text of a
float has no exponent. -/
def Value.found : Value → Found
  | text value => .text value
  | integer value => .integer value
  | float bits => .float bits
  | boolean value => .boolean value
  | moment => .map
  | array _ => .sequence
  | table _ => .map

def Value.describe (v : Value) : String := v.found.describe Binary64.positionalNotation

end StorageProof.Toml
