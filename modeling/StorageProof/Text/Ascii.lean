/-!
# ASCII rules

Case is ignored for the twenty-six Latin letters alone. Besides lowering, this module holds search,
the division of a text into lines, and the digits of numbers.
-/

namespace StorageProof.Text

/-- The small letter of A to Z; every other character stays. -/
def lowerChar (c : Char) : Char :=
  if 'A' ≤ c ∧ c ≤ 'Z' then Char.ofNat (c.toNat + 32) else c

/-- A list of characters with A to Z made small. -/
def lowerList (cs : List Char) : List Char := cs.map lowerChar

/-- Whether `needle` occurs in the list, as consecutive members. -/
def containsList (needle : List Char) : List Char → Bool
  | [] => needle.isEmpty
  | c :: cs => needle.isPrefixOf (c :: cs) || containsList needle cs

/-- Whether `needle`, given in small letters, occurs in the text in any case. -/
def containsIgnoringCase (needle : String) (s : String) : Bool :=
  containsList needle.toList (lowerList s.toList)

/-- The lines read so far, newest first, then those of the text, whose current line has `line` before
it, newest first. A line ends at a line feed, which takes a carriage return before it along. -/
def linesOnto (read : List (List Char)) (line : List Char) : List Char → List (List Char)
  | [] => (if line.isEmpty then read else line.reverse :: read).reverse
  | '\n' :: rest =>
    let line := match line with
      | '\r' :: before => before
      | line => line
    linesOnto (line.reverse :: read) [] rest
  | c :: rest => linesOnto read (c :: line) rest

/-- The lines of a text, without their ends. Nothing follows the last line feed. -/
def lines (cs : List Char) : List (List Char) := linesOnto [] [] cs

def hexDigit (n : Nat) : Char := if n < 10 then Char.ofNat (48 + n) else Char.ofNat (87 + n)

/-- The number a hexadecimal digit of either case stands for. -/
def hexValue? (n : Nat) : Option Nat :=
  if 48 ≤ n ∧ n ≤ 57 then some (n - 48)
  else if 65 ≤ n ∧ n ≤ 70 then some (n - 55)
  else if 97 ≤ n ∧ n ≤ 102 then some (n - 87)
  else none

/-- The hexadecimal digits of a number, without leading zeros. -/
def hexDigits (n : Nat) : List Char :=
  if n < 16 then [hexDigit n] else hexDigits (n / 16) ++ [hexDigit (n % 16)]

/-- The number that a list of decimal digits stands for. -/
def decimalValue (cs : List Char) : Nat := cs.foldl (fun n c => 10 * n + (c.toNat - 48)) 0

end StorageProof.Text
