import StorageProof.Shell.Machine

/-!
# Conditions

The expressions of the testing command: tests of one or two words, which may be negated, grouped and joined.
-/

namespace StorageProof.Shell.Condition

def integer (t : Text) : Except String Int :=
  let t' := (t.dropWhile fun c => c == ' ').reverse.dropWhile (fun c => c == ' ') |>.reverse
  let n? : Option Int := match t' with
    | '-' :: digits => (Text.natural? digits).map fun n => -(n : Int)
    | '+' :: digits => (Text.natural? digits).map Int.ofNat
    | digits => (Text.natural? digits).map Int.ofNat
  match n? with
  | some n => .ok n
  | none => .error s!"Illegal number: {Text.toString t}"

def unary? (m : Machine) (operator : Text) (w : Text) : Option Bool :=
  let entry := m.files.inspect (m.path w)
  let isFile := match entry with
    | .ok (.file ..) => true
    | _ => false
  let isDevice := ["/dev/null", "/dev/zero", "/dev/stdin", "/dev/stdout", "/dev/stderr"].contains (Text.toString w)
  let isExecutable := match entry with
    | .ok (.file _ executable _) => executable
    | .ok .directory => true
    | .error _ => false
  match String.ofList operator with
  | "-n" => some !w.isEmpty
  | "-z" => some w.isEmpty
  | "-e" => some (entry.toBool || isDevice)
  | "-f" => some isFile
  | "-d" => some (m.files.isDirectory (m.path w))
  | "-s" => some (match entry with
      | .ok e => e.isNonEmptyFile || e.isDirectory
      | .error _ => false)
  | "-r" | "-w" => some (entry.toBool || isDevice)
  | "-x" => some isExecutable
  | "-c" => some isDevice
  | "-L" | "-h" | "-p" | "-S" | "-b" | "-g" | "-u" | "-k" | "-t" => some false
  | _ => none

def binary? (operator : Text) (a b : Text) : Option (Except String Bool) :=
  let compare (f : Int → Int → Bool) : Except String Bool := do
    let x ← integer a
    let y ← integer b
    return f x y
  match String.ofList operator with
  | "=" => some (.ok (a == b))
  | "!=" => some (.ok (a != b))
  | "<" => some (.ok (decide (String.ofList a < String.ofList b)))
  | ">" => some (.ok (decide (String.ofList b < String.ofList a)))
  | "-eq" => some (compare (· == ·))
  | "-ne" => some (compare (· != ·))
  | "-lt" => some (compare fun x y => decide (x < y))
  | "-le" => some (compare fun x y => decide (x ≤ y))
  | "-gt" => some (compare fun x y => decide (y < x))
  | "-ge" => some (compare fun x y => decide (y ≤ x))
  | _ => none

mutual

/-- Alternatives, and the words after them. -/
def alternatives (m : Machine) : (fuel : Nat) → List Text → Except String (Bool × List Text)
  | 0, _ => .error "argument expected"
  | fuel + 1, words => do
    let (a, rest) ← conjunctions m fuel words
    match rest with
    | ['-', 'o'] :: rest =>
      let (b, rest) ← alternatives m fuel rest
      return (a || b, rest)
    | rest => return (a, rest)

/-- Conjunctions, and the words after them. -/
def conjunctions (m : Machine) : (fuel : Nat) → List Text → Except String (Bool × List Text)
  | 0, _ => .error "argument expected"
  | fuel + 1, words => do
    let (a, rest) ← negations m fuel words
    match rest with
    | ['-', 'a'] :: rest =>
      let (b, rest) ← conjunctions m fuel rest
      return (a && b, rest)
    | rest => return (a, rest)

/-- Negations, and the words after them. -/
def negations (m : Machine) : (fuel : Nat) → List Text → Except String (Bool × List Text)
  | 0, _ => .error "argument expected"
  | fuel + 1, words =>
    match words with
    | ['!'] :: w :: rest => do
      let (a, rest) ← negations m fuel (w :: rest)
      return (!a, rest)
    | words => simple m fuel words

/-- A test or a group, and the words after it. No words at all do not hold. -/
def simple (m : Machine) : (fuel : Nat) → List Text → Except String (Bool × List Text)
  | 0, _ => .error "argument expected"
  | fuel + 1, words =>
    match words with
    | [] => .ok (false, [])
    | [w] => .ok (!w.isEmpty, [])
    | a :: b :: rest =>
      let two : Option (Except String (Bool × List Text)) := match rest with
        | c :: rest => (binary? b a c).map fun r => r.map (·, rest)
        | [] => (binary? b [] []).map fun _ => .error s!"{Text.toString b}: argument expected"
      match two with
      | some r => r
      | none =>
        if a = ['('] then do
          let (r, rest) ← alternatives m fuel (b :: rest)
          match rest with
          | [')'] :: rest => return (r, rest)
          | _ => .error "closing paren expected"
        else match unary? m a b with
          | some r => .ok (r, rest)
          | none => .ok (!a.isEmpty, b :: rest)

end

/-- The words of a group without its parentheses, and the words of a negation without its mark, where the number
of words alone tells that they are one. -/
def unwrapped (words : List Text) : Bool × List Text :=
  match words with
  | [a, b, c] =>
    if (binary? b a c).isSome then (false, words)
    else if a = ['('] ∧ c = [')'] then (false, [b])
    else if a = ['!'] then (true, [b, c])
    else (false, words)
  | [a, b, c, d] =>
    if a = ['('] ∧ d = [')'] then (false, [b, c])
    else if a = ['!'] then (true, [b, c, d])
    else (false, words)
  | words => (false, words)

/-- Whether a condition holds. A word that is left over is complained about by the name of the word before it. -/
def evaluate (m : Machine) (words : List Text) : Except String Bool := do
  let alone? : Option (Except String Bool) := match words with
    | [a, b, c] => binary? b a c
    | _ => none
  if let some r := alone? then return ← r
  let (negated, words) := unwrapped words
  let (r, rest) ← alternatives m (4 * words.length + 8) words
  match rest with
  | [] => return r != negated
  | _ =>
    let last := words.getD (words.length - rest.length - 1) []
    .error s!"{Text.toString last}: unexpected operator"

end StorageProof.Shell.Condition
