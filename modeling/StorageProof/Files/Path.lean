import StorageProof.Text.Utf8

/-!
# Paths

A path is kept as the text it was given as; nothing is normalised. Joining, the parent and the steps of a
path are read off its pieces between slashes. Paths that are not UTF-8 are left out, and so nothing is lost
when a path goes into the arguments of a call.
-/

namespace StorageProof

/-- A path whose bytes are UTF-8, as the text that they encode. -/
structure Path where
  text : String
  deriving DecidableEq, Repr, Inhabited

namespace Path

def isAbsolute (p : Path) : Bool := p.text.toList.head? == some '/'

/-- Whether a path ends in a slash, and so can only name a directory. -/
def endsInSlash (p : Path) : Bool := p.text.toList.getLast? == some '/'

/-- A path below another. An absolute second part stands alone, and a slash is added only where there is none. -/
def join (p : Path) (name : String) : Path :=
  if (Path.mk name).isAbsolute ∨ p.text = "" ∨ p.endsInSlash then
    if (Path.mk name).isAbsolute then ⟨name⟩ else ⟨p.text ++ name⟩
  else ⟨p.text ++ "/" ++ name⟩

/-- Pieces between slashes, given the current one, newest character first. -/
def piecesOnto (piece : List Char) : List Char → List String
  | [] => [String.ofList piece.reverse]
  | '/' :: rest => String.ofList piece.reverse :: piecesOnto [] rest
  | c :: rest => piecesOnto (c :: piece) rest

/-- The pieces of a path between its slashes; some may be empty. -/
def pieces (p : Path) : List String := piecesOnto [] p.text.toList

/-- Whether a piece leads nowhere. -/
def idle (piece : String) : Bool := piece == "" || piece == "."

/-- The names that a path leads through, the empty pieces left out. -/
def names (p : Path) : List String := p.pieces.filter (· ≠ "")

/-- Pieces in reverse without the idle ones in front, but for the very first piece of a path. -/
def dropIdle : List String → List String
  | a :: b :: rest => if idle a then dropIdle (b :: rest) else a :: b :: rest
  | pieces => pieces

/-- The path of pieces in reverse. A single empty piece is the root. -/
def ofReversed : List String → Path
  | [""] => ⟨"/"⟩
  | pieces => ⟨"/".intercalate pieces.reverse⟩

/-- The path without its last name; the root and the empty path have none. -/
def parent? (p : Path) : Option Path :=
  match dropIdle p.pieces.reverse with
  | [] | [""] => none
  | _ :: rest => some (ofReversed (dropIdle rest))

/-- The path and its parents, the path first, at most `fuel` of them. -/
def ancestorsUpTo : (fuel : Nat) → Path → List Path
  | 0, p => [p]
  | fuel + 1, p =>
    match p.parent? with
    | some parent => p :: ancestorsUpTo fuel parent
    | none => [p]

/-- The path and its parents, the path first. A parent has fewer pieces. -/
def ancestors (p : Path) : List Path := ancestorsUpTo p.pieces.length p

end Path

end StorageProof
