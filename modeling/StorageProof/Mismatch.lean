import StorageProof.Number.Binary64
import StorageProof.Text.Quoted

/-!
# What stands in the place of another value

A reader that finds a value of the wrong kind names what it found. Documents of both formats the program
reads share the words for it; they differ in how a number with a fraction is spelt.
-/

namespace StorageProof

/-- A value that was found where another kind of value was due. -/
inductive Found
  | null
  | boolean (value : Bool)
  | integer (value : Int)
  | float (bits : UInt64)
  | text (value : String)
  | sequence
  | map
  deriving DecidableEq, Repr

def Found.describe (style : Binary64.Notation) : Found → String
  | .null => "null"
  | .boolean value => "boolean " ++ Text.ticked (if value then "true" else "false")
  | .integer value => "integer " ++ Text.ticked (ToString.toString value)
  | .float bits => "floating point " ++ Text.ticked (Binary64.text style bits)
  | .text value => "string " ++ Text.quoted value
  | .sequence => "sequence"
  | .map => "map"

/-- A list of alternatives in backquotes. -/
def alternatives (names : List String) : String := ", ".intercalate (names.map Text.ticked)

end StorageProof
