import StorageProof.Shell.Machine
import StorageProof.Shell.Pattern

/-!
# Expansion

What a word is replaced by is a list of marks: characters that are quoted, characters that are not, of which
those that came from a replacement may be split off, and the gaps between numbered parameters. From marks come
fields, patterns and plain texts.
-/

namespace StorageProof.Shell

inductive Mark
  | char (c : Char) (quoted splits : Bool)
  /-- Something quoted stands here, be it empty. -/
  | present
  /-- One field ends and another begins. -/
  | gap
  deriving DecidableEq, Repr

namespace Mark

def ofText (quoted splits : Bool) (t : Text) : List Mark :=
  let chars := t.map fun c => Mark.char c quoted splits
  if quoted then present :: chars else chars

/-- The text of marks without regard to quotes. -/
def plain (marks : List Mark) : Text :=
  marks.filterMap fun
    | char c _ _ => some c
    | present => none
    | gap => some ' '

/-- The text of marks as a pattern, in which quoted characters stand for themselves. -/
def pattern (marks : List Mark) : Text :=
  marks.flatMap fun
    | char c quoted _ => if quoted || c == '\\' then ['\\', c] else [c]
    | present => []
    | gap => [' ']

/-- A field in the making: its marks, newest first, and whether it is a field even if it has none. -/
structure Growing where
  marks : List Mark := []
  real : Bool := false

/-- Adds a field in the making to the fields before it, newest first. -/
def Growing.close (g : Growing) (fields : List (List Mark)) : List (List Mark) :=
  if g.real ∨ !g.marks.isEmpty then g.marks.reverse :: fields else fields

/-- The fields of marks, given the separators. Separators that are white space do not make empty fields. -/
def fieldsOnto (separators : Text) (g : Growing) (fields : List (List Mark)) :
    List Mark → List (List Mark)
  | [] => (g.close fields).reverse
  | gap :: rest => fieldsOnto separators {} (g.close fields) rest
  | present :: rest => fieldsOnto separators { g with real := true } fields rest
  | char c quoted splits :: rest =>
    if splits ∧ !quoted ∧ separators.contains c then
      let isSpace := c == ' ' || c == '\t' || c == '\n'
      if isSpace then fieldsOnto separators {} (g.close fields) rest
      else fieldsOnto separators {} ({ g with real := true }.close fields) rest
    else fieldsOnto separators { g with marks := char c quoted splits :: g.marks } fields rest

/-- The fields of marks. -/
def fields (separators : Text) (marks : List Mark) : List (List Mark) :=
  fieldsOnto separators {} [] marks

end Mark

/-! ## File names -/

def entriesIn (fs : FileSystem) (at' : Location) : List String :=
  (fs.entries.toList.filterMap fun (l, _) =>
    if l.length = at'.length + 1 ∧ at'.isPrefixOf l then l.getLast? else none).mergeSort fun a b =>
      decide (a ≤ b)

/-- The paths that continue one by names matching patterns, step by step. -/
def pathsMatching (fs : FileSystem) (directory : String) : (front : Text) → List Text → List Text
  | front, [] => [front]
  | front, step :: steps =>
    let slash : Text := if steps.isEmpty then [] else ['/']
    if !Glob.isPattern step then pathsMatching fs directory (front ++ Glob.unescape step ++ slash) steps
    else
      let p : Path := ⟨Text.toString (if front.isEmpty then ['.'] else front)⟩
      let p := if p.isAbsolute ∨ directory = "" then p else (Path.mk directory).join p.text
      match fs.resolve p with
      | .error _ => []
      | .ok at' =>
        let names := (entriesIn fs at').filter fun name =>
          (!name.startsWith "." || step.head? == some '.') &&
            Glob.accepts (Glob.ofText step) (Text.ofString name) &&
            (steps.isEmpty || fs.isDirectory (p.join name))
        names.flatMap fun name => pathsMatching fs directory (front ++ Text.ofString name ++ slash) steps

/-- The paths that a field matches, or its text if there are none. -/
def Machine.paths (m : Machine) (field : List Mark) : List Text :=
  let pattern := Mark.pattern field
  if !Glob.isPattern pattern then [Mark.plain field]
  else
    let found := (pathsMatching m.files m.directory [] (Text.splitOnto (· == '/') [] pattern)).filter
      fun t => (m.files.inspect (m.path t)).toBool
    if found.isEmpty then [Mark.plain field] else found

/-- The characters that split fields. -/
def Machine.separators (m : Machine) : Text :=
  (m.valueOf? "IFS".toList).getD [' ', '\t', '\n']

/-- The fields of marks, with patterns replaced by the paths that they match. -/
def Machine.fields (m : Machine) (marks : List Mark) : List Text :=
  (Mark.fields m.separators marks).flatMap m.paths

/-- The value of a parameter, if it has one. -/
def Machine.parameter? (m : Machine) (name : Text) : Option Text :=
  match name with
  | ['#'] => some (Text.ofNat m.words.length)
  | ['?'] => some (Text.ofNat m.status)
  | ['$'] => some (Text.ofNat m.number)
  | ['-'] => some (if m.strict then ['e'] else [])
  | ['!'] => m.jobs.head?.map fun job => Text.ofNat job.number
  | ['0'] => some m.name
  | ['@'] | ['*'] =>
    if m.words.isEmpty then none
    else some (List.intercalate ((m.separators.take 1)) m.words)
  | name =>
    match Text.natural? name with
    | some n => m.words[n - 1]?
    | none => m.valueOf? name

/-- The marks of the numbered parameters all together. -/
def Machine.allWords (m : Machine) (star quoted : Bool) : List Mark :=
  if quoted ∧ star then Mark.ofText true false (List.intercalate (m.separators.take 1) m.words)
  else
    let parts := m.words.map fun w => Mark.ofText quoted (!quoted) w
    List.intercalate [Mark.gap] parts

end StorageProof.Shell
