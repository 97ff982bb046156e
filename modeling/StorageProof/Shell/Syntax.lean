import StorageProof.Text.Utf8

/-!
# The language of shell scripts

Words are made of pieces, some of which stand for themselves and some of which are replaced before a command
runs. Commands are simple ones, which call something, and compound ones, which say when to run others. Inside
the shell a text is a list of characters each of which stands for one byte.
-/

namespace StorageProof.Shell

/-- A text of which every character stands for one byte. -/
abbrev Text := List Char

namespace Text

def ofBytes (s : Bytes) : Text := s.map fun b => Char.ofNat b.toNat

def toBytes (t : Text) : Bytes := t.map fun c => c.toNat.toUInt8

def ofString (s : String) : Text := ofBytes (Utf8.ofString s)

def toString (t : Text) : String := Utf8.lossy (toBytes t)

def ofNat (n : Nat) : Text := Nat.toDigits 10 n

def ofInt (n : Int) : Text := if n < 0 then '-' :: ofNat n.natAbs else ofNat n.natAbs

/-- The number of a text of digits alone. -/
def natural? (t : Text) : Option Nat :=
  if t.isEmpty || !t.all Char.isDigit then none
  else some (t.foldl (fun n c => 10 * n + (c.toNat - 48)) 0)

/-- Pieces of a text between separators, given the current piece, newest character first. -/
def splitOnto (isSeparator : Char → Bool) (piece : Text) : Text → List Text
  | [] => [piece.reverse]
  | c :: rest =>
    if isSeparator c then piece.reverse :: splitOnto isSeparator [] rest
    else splitOnto isSeparator (c :: piece) rest

/-- The pieces of a text between line feeds; the last is what follows the last line feed. -/
def lines (t : Text) : List Text := splitOnto (· == '\n') [] t

end Text

mutual

/-- A part of a word; quoted parts are neither split nor matched against file names. -/
inductive Piece
  | text (chars : Text) (quoted : Bool)
  | parameter (name : Text) (use : Use) (quoted : Bool)
  | command (body : Command) (quoted : Bool)
  | arithmetic (expression : List Piece) (quoted : Bool)

inductive Use
  | value
  | length
  /-- Another word in its place: `mark` is one of `-`, `=`, `?` and `+`, and `colon` also counts an empty value
  as missing. -/
  | otherwise (mark : Char) (colon : Bool) (word : List Piece)
  /-- Without the part at one end that a pattern matches. -/
  | strip (fromEnd longest : Bool) (pattern : List Piece)

inductive Target
  | input (word : List Piece)
  | output (word : List Piece) (appending : Bool)
  | copy (word : List Piece)
  | document (word : List Piece)

inductive Command
  | simple (line : Nat) (assignments : List (Text × List Piece)) (words : List (List Piece))
      (redirections : List (Nat × Target))
  | pipeline (negated : Bool) (commands : List Command)
  | both (first second : Command)
  | either (first second : Command)
  | sequence (commands : List Command)
  | background (body : Command)
  | subshell (body : Command)
  | redirected (line : Nat) (body : Command) (redirections : List (Nat × Target))
  | conditional (branches : List (Command × Command)) (last : Option Command)
  | loop (whileTrue : Bool) (condition body : Command)
  | each (line : Nat) (name : Text) (words : Option (List (List Piece))) (body : Command)
  | choice (line : Nat) (word : List Piece) (branches : List (List (List Piece) × Command))
  | function (name : Text) (body : Command)

end

/-- The words of a word list, which are pieces. -/
abbrev Word := List Piece

/-- A redirection: the descriptor and where it leads. -/
abbrev Redirection := Nat × Target

instance : Inhabited Command := ⟨.sequence []⟩

end StorageProof.Shell
