import StorageProof.Number.Rounded
import StorageProof.Text.Ascii
import StorageProof.Toml.Value

/-!
# The lexemes of TOML

Blanks, line ends, comments, keys, strings, numbers and moments, each taken from the front of a list of
characters, with the rest of it. There is no answer where the front is not well formed.
-/

namespace StorageProof.Toml

/-- Takes something from the front of a text. -/
abbrev Take (α : Type) := List Char → Option (α × List Char)

/-! ## Blanks and comments -/

/-- Space and tab. -/
def isSpace (c : Char) : Bool := c == ' ' || c == '\t'

def skipSpace (s : List Char) : List Char := s.dropWhile isSpace

/-- Whether a character is no control, the tab excepted. -/
def isPlain (c : Char) : Bool := c == '\t' || (0x20 ≤ c.toNat && c.toNat != 0x7F)

/-- The text after a line feed, which a carriage return may precede. -/
def takeNewline : List Char → Option (List Char)
  | '\n' :: rest => some rest
  | '\r' :: '\n' :: rest => some rest
  | _ => none

/-- The text after a comment, if there is one. -/
def skipComment : List Char → List Char
  | '#' :: rest => rest.dropWhile isPlain
  | s => s

/-- The text after the end of a line, or nothing at the end of the text. -/
def takeLineEnd (s : List Char) : Option (List Char) := if s.isEmpty then some [] else takeNewline s

/-- The text after the rest of a line, which holds blanks and a comment at most. -/
def takeLineRest (s : List Char) : Option (List Char) := takeLineEnd (skipComment (skipSpace s))

/-- The text after blanks and line ends, with `comments` before them or not, at most `fuel` lines of them. -/
def skipLinesUpTo (comments : Bool) : (fuel : Nat) → List Char → List Char
  | 0, s => s
  | fuel + 1, s =>
    let s := skipSpace s
    match takeNewline (if comments then skipComment s else s) with
    | some rest => skipLinesUpTo comments fuel rest
    | none => s

/-- The text after blanks, comments and line ends. A comment needs the end of its line. -/
def skipLines (s : List Char) : List Char := skipLinesUpTo true (s.length + 1) s

def skipEmptyLines (s : List Char) : List Char := skipLinesUpTo false (s.length + 1) s

/-! ## Strings -/

/-- The scalar with the given number of hexadecimal digits. -/
def takeScalar (digits : Nat) (s : List Char) : Option (Char × List Char) := do
  let values ← (s.take digits).mapM fun c => Text.hexValue? c.toNat
  let n := values.foldl (fun n d => 16 * n + d) 0
  if values.length = digits ∧ n.isValidChar then some (Char.ofNat n, s.drop digits) else none

/-- What an escape stands for, from the letter after its backslash on. -/
def takeEscape : Take Char
  | 'b' :: rest => some ('\x08', rest)
  | 't' :: rest => some ('\t', rest)
  | 'n' :: rest => some ('\n', rest)
  | 'f' :: rest => some ('\x0c', rest)
  | 'r' :: rest => some ('\r', rest)
  | '"' :: rest => some ('"', rest)
  | '\\' :: rest => some ('\\', rest)
  | 'u' :: rest => takeScalar 4 rest
  | 'U' :: rest => takeScalar 8 rest
  | _ => none

/-- The characters up to the closing quote of a string on one line, `read` those before, newest first. -/
def takeBasicUpTo : (fuel : Nat) → (read : List Char) → Take String
  | 0, _, _ => none
  | _, _, [] => none
  | fuel + 1, read, c :: rest =>
    if c = '"' then some (String.ofList read.reverse, rest)
    else if c = '\\' then
      match takeEscape rest with
      | some (c, rest) => takeBasicUpTo fuel (c :: read) rest
      | none => none
    else if isPlain c then takeBasicUpTo fuel (c :: read) rest
    else none

/-- A string on one line, after its quote. -/
def takeBasic (s : List Char) : Option (String × List Char) := takeBasicUpTo (s.length + 1) [] s

/-- A literal string on one line, after its quote: nothing in it is escaped. -/
def takeLiteral (s : List Char) : Option (String × List Char) :=
  let isInside (c : Char) := isPlain c && c != '\''
  match s.dropWhile isInside with
  | '\'' :: rest => some (String.ofList (s.takeWhile isInside), rest)
  | _ => none

/-- The text after a line feed that follows at once. -/
def skipFirstNewline (s : List Char) : List Char := (takeNewline s).getD s

/-- How many of a quote stand in front. -/
def countQuotes (quote : Char) (s : List Char) : Nat := (s.takeWhile (· == quote)).length

/-- The end of a string of several lines: three quotes, before which there may be one or two that belong to
the string. -/
def takeClosing (quote : Char) (read s : List Char) : Option (String × List Char) :=
  let extra := min (countQuotes quote s - 3) 2
  some (String.ofList (read.reverse ++ List.replicate extra quote), s.drop (3 + extra))

/-- The text after the blanks and line ends that follow a backslash at the end of a line. -/
def skipContinuation (s : List Char) : Option (List Char) :=
  (takeNewline (skipSpace s)).map skipEmptyLines

/-- The characters up to the closing quotes of a string of several lines, `read` those before, newest first.
Line ends become line feeds. -/
def takeLongBasicUpTo : (fuel : Nat) → (read : List Char) → Take String
  | 0, _, _ => none
  | _, _, [] => none
  | fuel + 1, read, c :: rest =>
    if c = '"' then
      if 3 ≤ countQuotes '"' (c :: rest) then takeClosing '"' read (c :: rest)
      else takeLongBasicUpTo fuel (c :: read) rest
    else if c = '\\' then
      match skipContinuation rest with
      | some rest => takeLongBasicUpTo fuel read rest
      | none =>
        match takeEscape rest with
        | some (c, rest) => takeLongBasicUpTo fuel (c :: read) rest
        | none => none
    else match takeNewline (c :: rest) with
      | some rest => takeLongBasicUpTo fuel ('\n' :: read) rest
      | none => if isPlain c then takeLongBasicUpTo fuel (c :: read) rest else none

/-- A string of several lines, after its three quotes. -/
def takeLongBasic (s : List Char) : Option (String × List Char) :=
  takeLongBasicUpTo (s.length + 1) [] (skipFirstNewline s)

/-- The characters up to the closing quotes of a literal string of several lines. -/
def takeLongLiteralUpTo : (fuel : Nat) → (read : List Char) → Take String
  | 0, _, _ => none
  | _, _, [] => none
  | fuel + 1, read, c :: rest =>
    if c = '\'' then
      if 3 ≤ countQuotes '\'' (c :: rest) then takeClosing '\'' read (c :: rest)
      else takeLongLiteralUpTo fuel (c :: read) rest
    else match takeNewline (c :: rest) with
      | some rest => takeLongLiteralUpTo fuel ('\n' :: read) rest
      | none => if isPlain c then takeLongLiteralUpTo fuel (c :: read) rest else none

/-- A literal string of several lines, after its three quotes. -/
def takeLongLiteral (s : List Char) : Option (String × List Char) :=
  takeLongLiteralUpTo (s.length + 1) [] (skipFirstNewline s)

/-- A string of any of the four forms. -/
def takeString : Take String
  | '"' :: '"' :: '"' :: rest => takeLongBasic rest
  | '"' :: rest => takeBasic rest
  | '\'' :: '\'' :: '\'' :: rest => takeLongLiteral rest
  | '\'' :: rest => takeLiteral rest
  | _ => none

/-! ## Keys -/

/-- Whether a character may stand in a key without quotes. -/
def isBare (c : Char) : Bool := c.isAlphanum || c == '-' || c == '_'

/-- A key without dots. -/
def takeSimpleKey : Take String
  | '"' :: rest => takeBasic rest
  | '\'' :: rest => takeLiteral rest
  | s =>
    let name := s.takeWhile isBare
    if name.isEmpty then none else some (String.ofList name, s.dropWhile isBare)

/-- The parts of a key and the blanks around them. -/
def takeKeyUpTo : (fuel : Nat) → Take (List String)
  | 0, _ => none
  | fuel + 1, s => do
    let (part, s) ← takeSimpleKey (skipSpace s)
    match skipSpace s with
    | '.' :: rest =>
      let (parts, rest) ← takeKeyUpTo fuel rest
      some (part :: parts, rest)
    | rest => some ([part], rest)

/-- One more than the most parts of a key, and than the deepest nesting of arrays and inline tables. -/
def depthLimit : Nat := 80

/-- A key with the blanks around it. -/
def takeKey (s : List Char) : Option (List String × List Char) :=
  (takeKeyUpTo (s.length + 1) s).filter fun (parts, _) => parts.length < depthLimit

/-! ## Numbers -/

/-- Digits with single underscores between them, the underscores left out. -/
def takeDigits (isDigit : Char → Bool) : (fuel : Nat) → Take (List Char)
  | fuel + 1, c :: rest =>
    if !isDigit c then none
    else match rest with
      | '_' :: rest =>
        (takeDigits isDigit fuel rest).map fun (digits, rest) => (c :: digits, rest)
      | d :: _ =>
        if isDigit d then (takeDigits isDigit fuel rest).map fun (digits, rest) => (c :: digits, rest)
        else some ([c], rest)
      | [] => some ([c], [])
  | _, _ => none

/-- A sign, if there is one; tells whether it is a minus. -/
def takeSign : List Char → Bool × List Char
  | '-' :: rest => (true, rest)
  | '+' :: rest => (false, rest)
  | s => (false, s)

/-- The digits of a decimal number, which starts with zero only if that is all of it. -/
def takeDecimal (s : List Char) : Option (List Char × List Char) :=
  match s with
  | '0' :: rest => some (['0'], rest)
  | s => takeDigits Char.isDigit s.length s

def takeFraction : Take (List Char)
  | '.' :: rest => takeDigits Char.isDigit rest.length rest
  | s => some ([], s)

def takeExponent (s : List Char) : Option (Int × List Char) :=
  match s with
  | c :: rest =>
    if c = 'e' ∨ c = 'E' then do
      let (negative, rest) := takeSign rest
      let (digits, rest) ← takeDigits Char.isDigit rest.length rest
      let n : Int := Text.decimalValue digits
      some (if negative then -n else n, rest)
    else some (0, s)
  | [] => some (0, [])

def maxInteger : Int := 9223372036854775807

def minInteger : Int := -9223372036854775808

/-- An integer in the range of integers. -/
def integer? (n : Int) : Option Value :=
  if minInteger ≤ n ∧ n ≤ maxInteger then some (.integer n) else none

/-- A float that has not grown infinite. -/
def float? (negative : Bool) (digits : List Char) (power : Int) : Option Value :=
  let bits := Binary64.ofDecimal negative (Text.decimalValue digits) digits.length power
  if bits.toNat = Binary64.infinityBits then none else some (.float bits)

/-- A decimal number: a float if it has a fraction or an exponent, and an integer otherwise. -/
def takePlainNumber (negative : Bool) (s : List Char) : Option (Value × List Char) := do
  let (whole, afterWhole) ← takeDecimal s
  let (fraction, afterFraction) ← takeFraction afterWhole
  let (power, rest) ← takeExponent afterFraction
  if rest.length = afterWhole.length then
    let n : Int := Text.decimalValue whole
    (integer? (if negative then -n else n)).map (·, rest)
  else (float? negative (whole ++ fraction) (power - fraction.length)).map (·, rest)

def isHexDigit (c : Char) : Bool := (Text.hexValue? c.toNat).isSome

/-- An integer in a base other than ten, after its two marks. -/
def takeBased (base : Nat) (isDigit : Char → Bool) (s : List Char) : Option (Value × List Char) := do
  let (digits, rest) ← takeDigits isDigit s.length s
  let n := digits.foldl (fun n c => base * n + (Text.hexValue? c.toNat).getD 0) 0
  (integer? n).map (·, rest)

def nanBits (negative : Bool) : UInt64 := if negative then 0xFFF8000000000000 else 0x7FF8000000000000

def infiniteBits (negative : Bool) : UInt64 := if negative then 0xFFF0000000000000 else 0x7FF0000000000000

/-- A number, or one of the words for floats that have no digits. -/
def takeNumber : Take Value
  | '0' :: 'x' :: rest => takeBased 16 isHexDigit rest
  | '0' :: 'o' :: rest => takeBased 8 (fun c => '0' ≤ c && c ≤ '7') rest
  | '0' :: 'b' :: rest => takeBased 2 (fun c => c == '0' || c == '1') rest
  | s =>
    let (negative, rest) := takeSign s
    match rest with
    | 'i' :: 'n' :: 'f' :: rest => some (.float (infiniteBits negative), rest)
    | 'n' :: 'a' :: 'n' :: rest => some (.float (nanBits negative), rest)
    | rest => takePlainNumber negative rest

/-! ## Moments -/

/-- Exactly so many decimal digits, as a number. -/
def takeFixed (count : Nat) (s : List Char) : Option (Nat × List Char) :=
  let digits := s.take count
  if digits.length = count ∧ digits.all Char.isDigit then
    some (Text.decimalValue digits, s.drop count)
  else none

/-- Two digits in a range. -/
def takePair (low high : Nat) (s : List Char) : Option (Nat × List Char) :=
  (takeFixed 2 s).filter fun (n, _) => low ≤ n ∧ n ≤ high

/-- One given character. -/
def takeMark (mark : Char) : List Char → Option (List Char)
  | c :: rest => if c = mark then some rest else none
  | [] => none

def daysOfMonth (year month : Nat) : Nat :=
  if month = 2 then if (year % 4 = 0 ∧ year % 100 ≠ 0) ∨ year % 400 = 0 then 29 else 28
  else if month = 4 ∨ month = 6 ∨ month = 9 ∨ month = 11 then 30
  else 31

/-- The text after a date. -/
def takeDate (s : List Char) : Option (List Char) := do
  let (year, s) ← takeFixed 4 s
  let s ← takeMark '-' s
  let (month, s) ← takePair 1 12 s
  let s ← takeMark '-' s
  let (day, s) ← takePair 1 31 s
  if day ≤ daysOfMonth year month then some s else none

/-- The text after a time of day. A minute may have a leap second. -/
def takeTime (s : List Char) : Option (List Char) := do
  let (_, s) ← takePair 0 23 s
  let s ← takeMark ':' s
  let (_, s) ← takePair 0 59 s
  let s ← takeMark ':' s
  let (_, s) ← takePair 0 60 s
  match s with
  | '.' :: rest =>
    let rest' := rest.dropWhile Char.isDigit
    some (if rest'.length < rest.length then rest' else s)
  | s => some s

/-- The text after the distance from universal time, if it is given. -/
def takeOffset : List Char → Option (List Char)
  | c :: rest =>
    if c = 'Z' ∨ c = 'z' then some rest
    else if c = '+' ∨ c = '-' then do
      let (_, rest) ← takePair 0 23 rest
      let rest ← takeMark ':' rest
      let (_, rest) ← takePair 0 59 rest
      some rest
    else some (c :: rest)
  | [] => some []

/-- The text after a date, a time, or a date and a time. -/
def takeMoment (s : List Char) : Option (List Char) :=
  match takeDate s with
  | none => takeTime s
  | some rest =>
    match rest with
    | c :: rest' =>
      if c = 'T' ∨ c = 't' ∨ c = ' ' then
        match takeTime rest' with
        | some rest' => takeOffset rest'
        | none => some rest
      else some rest
    | [] => some []

end StorageProof.Toml
