import StorageProof.Text.Ascii
import StorageProof.Text.Utf8

/-!
# JSON values and their canonical text

Canonical text has no white space between tokens and keeps the order of members. Inside strings the two
characters JSON requires and the controls are escaped, and so are `<`, `>`, `&` and the two Unicode line
separators, which a ledger escapes too; everything else stands as it is.
-/

namespace StorageProof.Json

/-- A JSON value without fractions. Members of objects keep their order. -/
inductive Value
  | null
  | boolean (value : Bool)
  | integer (value : Int)
  | text (value : String)
  | array (items : List Value)
  | object (members : List (String × Value))

/-- A short escape, or four hexadecimal digits. -/
def escapeControl (c : Char) : List Char :=
  if c = '\x08' then ['\\', 'b']
  else if c = '\t' then ['\\', 't']
  else if c = '\n' then ['\\', 'n']
  else if c = '\x0c' then ['\\', 'f']
  else if c = '\r' then ['\\', 'r']
  else ['\\', 'u', '0', '0', Text.hexDigit (c.toNat / 16), Text.hexDigit (c.toNat % 16)]

/-- The escapes that every JSON text needs: of the quote, the backslash and the controls. -/
def standardEscape? (c : Char) : Option (List Char) :=
  if c = '"' ∨ c = '\\' then some ['\\', c]
  else if c.toNat < 0x20 then some (escapeControl c)
  else none

/-- The further escapes of canonical text. -/
def ledgerEscape? (c : Char) : Option (List Char) :=
  if c = '<' then some ['\\', 'u', '0', '0', '3', 'c']
  else if c = '>' then some ['\\', 'u', '0', '0', '3', 'e']
  else if c = '&' then some ['\\', 'u', '0', '0', '2', '6']
  else if c = '\u2028' then some ['\\', 'u', '2', '0', '2', '8']
  else if c = '\u2029' then some ['\\', 'u', '2', '0', '2', '9']
  else none

/-- Writes `cs` after a pending run, newest first: whatever `escape?` has an escape for ends the run,
which is written by `plain`, and is followed by the escape. -/
def escapeRuns (escape? : Char → Option (List Char)) (plain : List Char → List Char)
    (run : List Char) : List Char → List Char
  | [] => plain run.reverse
  | c :: rest =>
    match escape? c with
    | some escaped => plain run.reverse ++ escaped ++ escapeRuns escape? plain [] rest
    | none => escapeRuns escape? plain (c :: run) rest

/-- A run of characters without standard escapes, with the further escapes of canonical text. -/
def escapeFragment (cs : List Char) : List Char := escapeRuns ledgerEscape? id [] cs

/-- The characters of a canonical string literal between its quotes: the runs between standard escapes
are written as fragments. -/
def escapeText (cs : List Char) : List Char := escapeRuns standardEscape? escapeFragment [] cs

def literal (s : String) : List Char := '"' :: escapeText s.toList ++ ['"']

mutual
/-- The canonical text of a value. -/
def Value.chars : Value → List Char
  | .null => ['n', 'u', 'l', 'l']
  | .boolean true => ['t', 'r', 'u', 'e']
  | .boolean false => ['f', 'a', 'l', 's', 'e']
  | .integer n => (ToString.toString n).toList
  | .text s => literal s
  | .array items => '[' :: itemChars items ++ [']']
  | .object members => '\x7b' :: memberChars members ++ ['\x7d']

/-- The items of an array, with commas between them. -/
def itemChars : List Value → List Char
  | [] => []
  | [v] => v.chars
  | v :: rest => v.chars ++ ',' :: itemChars rest

/-- The members of an object, with commas between them. -/
def memberChars : List (String × Value) → List Char
  | [] => []
  | [(key, v)] => literal key ++ ':' :: v.chars
  | (key, v) :: rest => literal key ++ ':' :: v.chars ++ ',' :: memberChars rest
end

def Value.canonical (v : Value) : String := String.ofList v.chars

def Value.canonicalBytes (v : Value) : Bytes := Utf8.encode v.chars

/-- Whether a key comes no later than another by the bytes of its UTF-8, which is the order of scalars. -/
def keyLe (a b : String) : Bool := (compare a b).isLE

mutual
/-- A value whose objects have their members in the order of their keys, throughout. -/
def Value.sorted : Value → Value
  | .array items => .array (sortedItems items)
  | .object members => .object ((sortedMembers members).mergeSort fun a b => keyLe a.1 b.1)
  | v => v

/-- Items with their objects in order. -/
def sortedItems : List Value → List Value
  | [] => []
  | v :: rest => v.sorted :: sortedItems rest

/-- Members with the objects in their values in order. -/
def sortedMembers : List (String × Value) → List (String × Value)
  | [] => []
  | (key, v) :: rest => (key, v.sorted) :: sortedMembers rest
end

/-- An object of texts over several lines, each member on a line of its own behind two spaces. -/
def prettyTexts (members : List (String × String)) : String :=
  let line (m : String × String) := s!"  \"{m.1}\": \"{m.2}\""
  "\x7b\n" ++ ",\n".intercalate (members.map line) ++ "\n\x7d"

end StorageProof.Json
