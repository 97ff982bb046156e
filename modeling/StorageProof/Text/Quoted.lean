import StorageProof.Text.Ascii
import StorageProof.Text.Unprintable

/-!
# Quoted texts in messages

A message shows a foreign text between delimiters. Backslash and the delimiter are escaped, five
controls have letters, and every other unprintable character is shown by number in braces.
-/

namespace StorageProof.Text

/-- The way one character is shown between two of `delimiter`. -/
def quotedChar (delimiter : Char) (c : Char) : List Char :=
  if c = '\x00' then ['\\', '0']
  else if c = '\t' then ['\\', 't']
  else if c = '\n' then ['\\', 'n']
  else if c = '\r' then ['\\', 'r']
  else if c = '\\' ∨ c = delimiter then ['\\', c]
  else if isUnprintable c then "\\u\x7b".toList ++ hexDigits c.toNat ++ ['\x7d']
  else [c]

/-- A text between delimiters. -/
def quotedWith (delimiter : Char) (cs : List Char) : String :=
  String.ofList (delimiter :: cs.flatMap (quotedChar delimiter) ++ [delimiter])

/-- A text between double quotes. -/
def quoted (s : String) : String := quotedWith '"' s.toList

/-- A name between backquotes, shown as it is. -/
def ticked (s : String) : String := "\x60" ++ s ++ "\x60"

end StorageProof.Text
