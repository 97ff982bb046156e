import StorageProof.Text.Ascii
import StorageProof.Text.Blank

/-!
# Verdicts

The proving engine says what came out of a check in a line that mentions the result, among other lines. The
value stands behind the last equals sign or colon of the line. The last line with a value decides.
-/

namespace StorageProof.Verdict

/-- Whether a character separates a name from its value. -/
def isMark (c : Char) : Bool := c == '=' || c == ':'

/-- What stands behind the last mark of a line. -/
def valueText? (line : List Char) : Option (List Char) :=
  if line.any isMark then some (line.reverse.takeWhile (!isMark ·)).reverse else none

/-- The truth value that a text spells in any case. -/
def truth? (text : List Char) : Option Bool :=
  let word := Text.lowerList (Text.trimList text)
  if word = "true".toList then some true
  else if word = "false".toList then some false
  else none

def mentionsResult (line : List Char) : Bool :=
  Text.containsList "result".toList (Text.lowerList line)

def ofLine? (line : List Char) : Option Bool := (valueText? line).bind truth?

/-- The verdict in the output of the proving engine. -/
def ofOutput? (text : String) : Option Bool :=
  ((Text.lines text.toList).reverse.filter mentionsResult).findSome? ofLine?

end StorageProof.Verdict
