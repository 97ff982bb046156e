import StorageProof.Shell.Syntax

/-!
# Patterns

A pattern is a list of things that match characters: one character, any one character, a set of characters, or
any number of any characters. A match takes the whole of a text.
-/

namespace StorageProof.Shell

inductive Glob
  | exactly (c : Char)
  | any
  | many
  | oneOf (negated : Bool) (ranges : List (Char × Char))
  deriving DecidableEq, Repr

namespace Glob

/-- Whether a part matches one character; the part for many matches none by itself. -/
def admits : Glob → Char → Bool
  | exactly c, d => c == d
  | any, _ => true
  | many, _ => false
  | oneOf negated ranges, d => (ranges.any fun (low, high) => low ≤ d && d ≤ high) != negated

/-- Whether the parts match a text as a whole. -/
def accepts : List Glob → Text → Bool
  | [], t => t.isEmpty
  | .many :: parts, t => acceptsSome (accepts parts) t
  | part :: parts, c :: t => part.admits c && accepts parts t
  | _ :: _, [] => false
where
  /-- Whether some end of a text is accepted. -/
  acceptsSome (rest : Text → Bool) : Text → Bool
    | [] => rest []
    | c :: t => rest (c :: t) || acceptsSome rest t

/-- The ranges of a set up to its closing bracket, which does not count in the first place. -/
def rangesUpTo : (fuel : Nat) → (first : Bool) → Text → Option (List (Char × Char) × Text)
  | 0, _, _ => none
  | _, _, [] => none
  | fuel + 1, first, c :: rest =>
    if c = ']' ∧ !first then some ([], rest)
    else match rest with
      | '-' :: d :: rest' =>
        if d = ']' then (rangesUpTo fuel false rest).map fun (rs, rest) => ((c, c) :: rs, rest)
        else (rangesUpTo fuel false rest').map fun (rs, rest) => ((c, d) :: rs, rest)
      | rest => (rangesUpTo fuel false rest).map fun (rs, rest) => ((c, c) :: rs, rest)

/-- A set of characters, after its bracket. -/
def set? (t : Text) : Option (Glob × Text) :=
  let (negated, t) := match t with
    | '!' :: rest => (true, rest)
    | '^' :: rest => (true, rest)
    | t => (false, t)
  (rangesUpTo (t.length + 1) true t).map fun (ranges, rest) => (.oneOf negated ranges, rest)

/-- The parts of a pattern that is written without quotes. -/
def ofTextUpTo : (fuel : Nat) → Text → List Glob
  | 0, _ => []
  | _, [] => []
  | fuel + 1, '*' :: rest => .many :: ofTextUpTo fuel rest
  | fuel + 1, '?' :: rest => .any :: ofTextUpTo fuel rest
  | fuel + 1, '[' :: rest =>
    match set? rest with
    | some (part, rest) => part :: ofTextUpTo fuel rest
    | none => .exactly '[' :: ofTextUpTo fuel rest
  | fuel + 1, '\\' :: c :: rest => .exactly c :: ofTextUpTo fuel rest
  | fuel + 1, c :: rest => .exactly c :: ofTextUpTo fuel rest

def ofText (t : Text) : List Glob := ofTextUpTo t.length t

/-- A text with a backslash before each character, which a pattern takes as it is. -/
def escape (t : Text) : Text := t.flatMap fun c => ['\\', c]

def unescape : Text → Text
  | '\\' :: c :: rest => c :: unescape rest
  | c :: rest => c :: unescape rest
  | [] => []

/-- Whether a text has a character that a pattern gives a meaning, and no backslash before it. -/
def isPattern : Text → Bool
  | '\\' :: _ :: rest => isPattern rest
  | c :: rest => c == '*' || c == '?' || c == '[' || isPattern rest
  | [] => false

/-- The text without the shortest or longest part in front that the pattern matches. -/
def stripFront (parts : List Glob) (longest : Bool) (t : Text) : Text :=
  let sizes := List.range (t.length + 1)
  let sizes := if longest then sizes.reverse else sizes
  match sizes.find? fun n => accepts parts (t.take n) with
  | some n => t.drop n
  | none => t

/-- The text without the shortest or longest part at the end that the pattern matches. -/
def stripBack (parts : List Glob) (longest : Bool) (t : Text) : Text :=
  let sizes := List.range (t.length + 1)
  let sizes := if longest then sizes else sizes.reverse
  match sizes.find? fun n => accepts parts (t.drop n) with
  | some n => t.take n
  | none => t

end Glob

end StorageProof.Shell
