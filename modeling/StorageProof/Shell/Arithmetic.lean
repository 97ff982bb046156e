import StorageProof.Shell.Syntax

/-!
# Arithmetic

Integer expressions over variables, with the operators of C but for those that step. Operators of one level are
taken from the left, assignments and choices from the right.
-/

namespace StorageProof.Shell.Arithmetic

abbrev Variables := List (Text × Text)

/-- Works out something that may look at variables and set them. -/
abbrev Work (α : Type) := StateT Variables (Except String) α

/-- Keeps an integer within sixty-four bits. -/
def wrap (n : Int) : Int := n.bmod UInt64.size

/-- The value of a text that is an integer constant. -/
def constant? (t : Text) : Option Int :=
  match t with
  | '0' :: 'x' :: digits | '0' :: 'X' :: digits =>
    digits.foldlM (fun n c =>
      if c.isDigit then some (16 * n + (c.toNat - 48 : Nat))
      else if 'a' ≤ c ∧ c ≤ 'f' then some (16 * n + (c.toNat - 87 : Nat))
      else if 'A' ≤ c ∧ c ≤ 'F' then some (16 * n + (c.toNat - 55 : Nat))
      else none) 0
  | '0' :: digits =>
    digits.foldlM (fun n c => if '0' ≤ c ∧ c ≤ '7' then some (8 * n + (c.toNat - 48 : Nat)) else none) 0
  | t => (Text.natural? t).map Int.ofNat

/-- The value of a variable: zero unless it is a constant. -/
def valueIn (name : Text) (vs : Variables) : Int :=
  match vs.lookup name with
  | none => 0
  | some ('-' :: t) => -((constant? t).getD 0)
  | some t => (constant? t).getD 0

/-- The binary operators with their levels; those of a higher level are taken first. -/
def operators : List (String × Nat) :=
  [("||", 1), ("&&", 2), ("<<", 8), (">>", 8), ("<=", 7), (">=", 7), ("==", 6), ("!=", 6), ("|", 3),
    ("^", 4), ("&", 5), ("<", 7), (">", 7), ("+", 9), ("-", 9), ("*", 10), ("/", 10), ("%", 10)]

/-- The operators that assign, without their equals sign. -/
def assigners : List String := ["", "+", "-", "*", "/", "%", "<<", ">>", "&", "^", "|"]

/-- One or zero. -/
def truth (b : Bool) : Int := if b then 1 else 0

/-- The nonnegative number with the bits of an integer. -/
def bits (n : Int) : Nat := (n % UInt64.size).toNat

def apply (operator : String) (a b : Int) : Except String Int :=
  match operator with
  | "+" => .ok (wrap (a + b))
  | "-" => .ok (wrap (a - b))
  | "*" => .ok (wrap (a * b))
  | "/" => if b = 0 then .error "division by zero" else .ok (wrap (a.tdiv b))
  | "%" => if b = 0 then .error "division by zero" else .ok (wrap (a.tmod b))
  | "<<" => .ok (wrap (a * Nat.pow 2 (bits b % 64)))
  | ">>" => .ok (a / Nat.pow 2 (bits b % 64))
  | "<" => .ok (truth (a < b))
  | "<=" => .ok (truth (a ≤ b))
  | ">" => .ok (truth (b < a))
  | ">=" => .ok (truth (b ≤ a))
  | "==" => .ok (truth (a = b))
  | "!=" => .ok (truth (a ≠ b))
  | "&" => .ok (wrap (bits a &&& bits b))
  | "^" => .ok (wrap (bits a ^^^ bits b))
  | "|" => .ok (wrap (bits a ||| bits b))
  | "&&" => .ok (truth (a ≠ 0 ∧ b ≠ 0))
  | "||" => .ok (truth (a ≠ 0 ∨ b ≠ 0))
  | "" => .ok b
  | _ => .error "expecting primary"

def skipSpace (t : Text) : Text := t.dropWhile fun c => c == ' ' || c == '\t' || c == '\n'

/-- The operator in front, and the text after it. -/
def operator? (t : Text) : Option (String × Nat × Text) :=
  (operators.find? fun (name, _) => name.toList.isPrefixOf t).map fun (name, level) =>
    (name, level, t.drop name.length)

/-- The assigning operator in front, and the text after it. -/
def assigner? (t : Text) : Option (String × Text) :=
  (assigners.find? fun name =>
    (name.toList ++ ['=']).isPrefixOf t && (t.drop (name.length + 1)).head? != some '=').map fun name =>
      (name, t.drop (name.length + 1))

mutual

/-- An expression, with the text after it. -/
def expression : (fuel : Nat) → Text → Work (Int × Text)
  | 0, _ => throw "expecting primary"
  | fuel + 1, t => do
    let t := skipSpace t
    let name := t.takeWhile fun c => c.isAlphanum || c == '_'
    let isName := match name with
      | c :: _ => !c.isDigit
      | [] => false
    let assigner := if isName then assigner? (skipSpace (t.drop name.length)) else none
    match assigner with
    | some (operator, rest) =>
      let (b, rest) ← expression fuel rest
      let vs ← get
      let n ← apply operator (valueIn name vs) b
      set ((name, Text.ofInt n) :: vs.filter (·.1 ≠ name))
      return (n, rest)
    | none =>
      let (a, rest) ← binary fuel 1 t
      match skipSpace rest with
      | '?' :: rest =>
        let (b, rest) ← expression fuel rest
        match skipSpace rest with
        | ':' :: rest =>
          let (c, rest) ← expression fuel rest
          return (if a ≠ 0 then b else c, rest)
        | _ => throw "expecting ':'"
      | rest => return (a, rest)

/-- An expression of operators from a level on, with the text after it. -/
def binary : (fuel : Nat) → (level : Nat) → Text → Work (Int × Text)
  | 0, _, _ => throw "expecting primary"
  | fuel + 1, level, t => do
    let (a, rest) ← primary fuel (skipSpace t)
    operations fuel level a rest

/-- What the operators from a level on make of their first operand, with the text after them. -/
def operations : (fuel : Nat) → (level : Nat) → Int → Text → Work (Int × Text)
  | 0, _, _, _ => throw "expecting primary"
  | fuel + 1, level, a, t => do
    let t := skipSpace t
    match operator? t with
    | none => return (a, t)
    | some (operator, level', rest) =>
      if level' < level then return (a, t)
      else
        let (b, rest) ← binary fuel (level' + 1) rest
        let n ← apply operator a b
        operations fuel level n rest

/-- An operand, with the text after it. -/
def primary : (fuel : Nat) → Text → Work (Int × Text)
  | 0, _ => throw "expecting primary"
  | fuel + 1, t => do
    match skipSpace t with
    | '(' :: rest =>
      let (n, rest) ← expression fuel rest
      match skipSpace rest with
      | ')' :: rest => return (n, rest)
      | _ => throw "expecting ')'"
    | '-' :: rest =>
      let (n, rest) ← primary fuel rest
      return (wrap (-n), rest)
    | '+' :: rest => primary fuel rest
    | '!' :: rest =>
      let (n, rest) ← primary fuel rest
      return (truth (n = 0), rest)
    | '~' :: rest =>
      let (n, rest) ← primary fuel rest
      return (-n - 1, rest)
    | t =>
      let word := t.takeWhile fun c => c.isAlphanum || c == '_'
      let rest := t.drop word.length
      match word with
      | [] => throw "expecting primary"
      | c :: _ =>
        if c.isDigit then
          match constant? word with
          | some n => return (wrap n, rest)
          | none => throw "expecting EOF"
        else return (valueIn word (← get), rest)

end

/-- The value of an expression, and the variables after it. -/
def evaluate (t : Text) (vs : Variables) : Except String (Int × Variables) := do
  if (skipSpace t).isEmpty then return (0, vs)
  let ((n, rest), vs) ← (expression (8 * t.length + 16) t).run vs
  if (skipSpace rest).isEmpty then return (n, vs) else throw "expecting EOF"

end StorageProof.Shell.Arithmetic
