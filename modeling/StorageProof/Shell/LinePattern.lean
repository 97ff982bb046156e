import StorageProof.Shell.Pattern

/-!
# Patterns in lines

The patterns that lines are searched with: a character may be followed by a star, by which it matches any number of
times; a pattern may be tied to the start or the end of the line; and it may be one of several.
-/

namespace StorageProof.Shell

/-- A pattern without alternatives. Each part matches one character, or any number of them. -/
structure LinePattern where
  atStart : Bool := false
  atEnd : Bool := false
  parts : List (Glob × Bool) := []
  deriving DecidableEq, Repr

namespace LinePattern

/-- Whether parts match the front of a text, or all of it. -/
def matchFront (whole : Bool) : List (Glob × Bool) → Text → Bool
  | [], t => !whole || t.isEmpty
  | (part, true) :: parts, t => matchRun part (matchFront whole parts) t
  | (part, false) :: parts, c :: t => part.admits c && matchFront whole parts t
  | (_, false) :: _, [] => false
where
  /-- Whether what is behind some characters that a part matches is accepted. -/
  matchRun (part : Glob) (rest : Text → Bool) : Text → Bool
    | [] => rest []
    | c :: t => rest (c :: t) || (part.admits c && matchRun part rest t)

/-- Whether a line holds a pattern. -/
def isIn (p : LinePattern) : Text → Bool
  | [] => matchFront p.atEnd p.parts []
  | c :: t => matchFront p.atEnd p.parts (c :: t) || (!p.atStart && isIn p t)

/-- The parts of a written pattern, and whether it is tied to the end of the line. -/
def partsUpTo : (fuel : Nat) → Text → List (Glob × Bool) × Bool
  | 0, _ => ([], false)
  | _, [] => ([], false)
  | _, ['$'] => ([], true)
  | fuel + 1, c :: rest =>
    let (part, rest) : Glob × Text := match c, rest with
      | '.', rest => (.any, rest)
      | '[', rest => (Glob.set? rest).getD (.exactly '[', rest)
      | '\\', d :: rest => (.exactly d, rest)
      | c, rest => (.exactly c, rest)
    let (repeated, rest) : Bool × Text := match rest with
      | '*' :: rest => (true, rest)
      | rest => (false, rest)
    let (parts, atEnd) := partsUpTo fuel rest
    ((part, repeated) :: parts, atEnd)

/-- A written pattern without alternatives. -/
def ofText (t : Text) : LinePattern :=
  let (atStart, t) := match t with
    | '^' :: t => (true, t)
    | t => (false, t)
  let (parts, atEnd) := partsUpTo t.length t
  { atStart, atEnd, parts }

/-- The alternatives of a written pattern, given the front of the first one, newest character first. -/
def alternativesOnto (front : Text) : Text → List Text
  | [] => [front.reverse]
  | '\\' :: '|' :: t => front.reverse :: alternativesOnto [] t
  | '\\' :: c :: t => alternativesOnto (c :: '\\' :: front) t
  | c :: t => alternativesOnto (c :: front) t

/-- Whether a line holds one of the alternatives of a written pattern. -/
def search (pattern line : Text) : Bool := (alternativesOnto [] pattern).any fun t => (ofText t).isIn line

end LinePattern

end StorageProof.Shell
