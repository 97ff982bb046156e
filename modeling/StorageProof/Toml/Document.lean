import StorageProof.Toml.Draft
import StorageProof.Toml.Lexeme

/-!
# TOML documents

A document is read line by line: headers open tables, and key-value pairs fill the table that is open. Arrays
and inline tables may be nested up to a limit, which bounds the recursion.
-/

namespace StorageProof.Toml

/-- A value that is neither an array nor an inline table. -/
def takeFlat : Take Value
  | '"' :: rest => (takeString ('"' :: rest)).map fun (text, rest) => (.text text, rest)
  | '\'' :: rest => (takeString ('\'' :: rest)).map fun (text, rest) => (.text text, rest)
  | 't' :: 'r' :: 'u' :: 'e' :: rest => some (.boolean true, rest)
  | 'f' :: 'a' :: 'l' :: 's' :: 'e' :: rest => some (.boolean false, rest)
  | s =>
    match takeMoment s with
    | some rest => some (.moment, rest)
    | none => takeNumber s

/-- The items of an array and its closing bracket. A comma may follow the last item. -/
def takeItemsUpTo (takeValue : Take Value) : (fuel : Nat) → Take (List Value)
  | 0, _ => none
  | fuel + 1, s =>
    match skipLines s with
    | ']' :: rest => some ([], rest)
    | s => do
      let (v, s) ← takeValue s
      match skipLines s with
      | ',' :: rest => (takeItemsUpTo takeValue fuel rest).map fun (vs, rest) => (v :: vs, rest)
      | ']' :: rest => some ([v], rest)
      | _ => none

/-- A key, an equals sign and a value, with the blanks before the value. -/
def takeAssignment (takeValue : Take Value) (s : List Char) : Option ((List String × Value) × List Char) := do
  let (key, s) ← takeKey s
  let s ← takeMark '=' s
  let (v, s) ← takeValue (skipSpace s)
  some ((key, v), s)

/-- The members of an inline table and its closing brace. No comma may follow the last member. -/
def takeMembersUpTo (takeValue : Take Value) : (fuel : Nat) → Members → Take Members
  | 0, _, _ => none
  | fuel + 1, ms, s => do
    let ((key, v), s) ← takeAssignment takeValue s
    let ms ← ms.insert key.dropLast (Outline.lastKey key) v
    match skipSpace s with
    | ',' :: rest => takeMembersUpTo takeValue fuel ms rest
    | '\x7d' :: rest => some (ms, rest)
    | _ => none

/-- The members of an inline table, after its brace. -/
def takeInlineTable (takeValue : Take Value) (s : List Char) : Option (Members × List Char) :=
  match skipSpace s with
  | '\x7d' :: rest => some ([], rest)
  | _ => takeMembersUpTo takeValue (s.length + 1) [] s

/-- A value, which may be nested so many levels deep. -/
def takeValue : (levels : Nat) → Take Value
  | 0, s => takeFlat s
  | levels + 1, s =>
    match s with
    | '[' :: rest =>
      (takeItemsUpTo (takeValue levels) (rest.length + 1) rest).map fun (vs, rest) => (.array vs, rest)
    | '\x7b' :: rest =>
      (takeInlineTable (takeValue levels) rest).map fun (ms, rest) =>
        (.table (Draft.valuesOf ms), rest)
    | s => takeFlat s

/-- A key-value pair and the rest of its line. -/
def Outline.takeLine (o : Outline) (s : List Char) : Option (Outline × List Char) := do
  let ((key, v), s) ← takeAssignment (takeValue (depthLimit - 1)) s
  let s ← takeLineRest s
  let o ← o.insert key v
  some (o, s)

/-- A header and the rest of its line. -/
def Outline.takeHeader (o : Outline) : List Char → Option (Outline × List Char)
  | '[' :: '[' :: rest => do
    let (path, s) ← takeKey rest
    let s ← takeMark ']' s
    let s ← takeMark ']' s
    let s ← takeLineRest s
    let o ← o.openRow path
    some (o, s)
  | '[' :: rest => do
    let (path, s) ← takeKey rest
    let s ← takeMark ']' s
    let s ← takeLineRest s
    let o ← o.openTable path
    some (o, s)
  | _ => none

/-- The outline of the whole text. -/
def Outline.takeAll : (fuel : Nat) → Outline → List Char → Option Outline
  | 0, _, _ => none
  | fuel + 1, o, s =>
    match skipSpace s with
    | [] => some o
    | '#' :: rest => (takeLineRest ('#' :: rest)).bind (takeAll fuel o)
    | '\n' :: rest => takeAll fuel o rest
    | '\r' :: rest => (takeNewline ('\r' :: rest)).bind (takeAll fuel o)
    | '[' :: rest => (o.takeHeader ('[' :: rest)).bind fun (o, rest) => takeAll fuel o rest
    | s => (o.takeLine s).bind fun (o, rest) => takeAll fuel o rest

/-- The text without a byte order mark in front. -/
def withoutMark : List Char → List Char
  | '\ufeff' :: rest => rest
  | s => s

/-- The members of the table that a document holds; nothing if the document is not well formed. -/
def parse? (text : String) : Option (List (String × Value)) := do
  let s := withoutMark text.toList
  let o ← Outline.takeAll (s.length + 1) {} s
  let ms ← o.close
  some (Draft.valuesOf ms)

end StorageProof.Toml
