/-!
# Blank characters

Unicode gives twenty-five characters the property `White_Space`. Surrounding blanks never count in an
identifier, a proof text, a ledger answer or a verdict, and a text of blanks alone counts as empty.
-/

namespace StorageProof.Text

/-- The characters with the Unicode property `White_Space`. -/
def isBlank (c : Char) : Bool :=
  let n := c.toNat
  (9 ≤ n && n ≤ 13) || n == 0x20 || n == 0x85 || n == 0xA0 || n == 0x1680 ||
    (0x2000 ≤ n && n ≤ 0x200A) || n == 0x2028 || n == 0x2029 || n == 0x202F || n == 0x205F ||
    n == 0x3000

/-- A list without the blanks at its end. -/
def trimEndList (cs : List Char) : List Char := (cs.reverse.dropWhile isBlank).reverse

/-- A list without the blanks at either end. -/
def trimList (cs : List Char) : List Char := trimEndList (cs.dropWhile isBlank)

/-- A text without the blanks at either end. -/
def trim (s : String) : String := String.ofList (trimList s.toList)

/-- A text that is empty or consists of blanks. -/
def isAllBlank (s : String) : Bool := s.toList.all isBlank

end StorageProof.Text
