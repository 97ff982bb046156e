import StorageProof.Shell.Syntax
import StorageProof.Text.Ascii

/-!
# Formatted output

What the two printing commands make of their words: escapes are replaced, and in a format the conversions take
one word after the other. A format is used again as long as words are left.
-/

namespace StorageProof.Shell.Format

/-- The character that a backslash and a letter stand for. -/
def letterEscape? (c : Char) : Option Char :=
  match c with
  | 'a' => some '\x07'
  | 'b' => some '\x08'
  | 'f' => some '\x0c'
  | 'n' => some '\n'
  | 'r' => some '\r'
  | 't' => some '\t'
  | 'v' => some '\x0b'
  | 'e' => some '\x1b'
  | '\\' => some '\\'
  | _ => none

def isOctal (c : Char) : Bool := '0' ≤ c && c ≤ '7'

/-- The byte of at most so many octal digits, and the text after them. -/
def octal (most : Nat) (t : Text) : Char × Text :=
  let digits := (t.take most).takeWhile isOctal
  (Char.ofNat (digits.foldl (fun n c => 8 * n + (c.toNat - 48)) 0 % 256), t.drop digits.length)

/-- A text with its escapes replaced, and whether it goes on; one escape breaks all output off. A zero may come
before the three octal digits of a byte. -/
def expandUpTo : (fuel : Nat) → Text → Text × Bool
  | 0, _ => ([], true)
  | _, [] => ([], true)
  | fuel + 1, '\\' :: c :: rest =>
    if c = 'c' then ([], false)
    else if isOctal c then
      let (byte, rest) := octal 3 (if c = '0' then rest else c :: rest)
      let (t, goesOn) := expandUpTo fuel rest
      (byte :: t, goesOn)
    else
      let (t, goesOn) := expandUpTo fuel rest
      match letterEscape? c with
      | some d => (d :: t, goesOn)
      | none => ('\\' :: c :: t, goesOn)
  | fuel + 1, c :: rest =>
    let (t, goesOn) := expandUpTo fuel rest
    (c :: t, goesOn)

def expand (t : Text) : Text × Bool := expandUpTo t.length t

/-- What the echoing command prints. -/
def echo (words : List Text) : Text :=
  let (newline, words) := match words with
    | ['-', 'n'] :: rest => (false, rest)
    | words => (true, words)
  let (t, goesOn) := expand (List.intercalate [' '] words)
  t ++ if newline && goesOn then ['\n'] else []

structure Layout where
  left : Bool := false
  zeros : Bool := false
  plus : Bool := false
  space : Bool := false
  alternate : Bool := false
  width : Nat := 0
  precision : Option Nat := none

/-- A text in its place. -/
def Layout.place (l : Layout) (t : Text) : Text :=
  let fill := List.replicate (l.width - t.length) ' '
  if l.left then t ++ fill else fill ++ t

/-- A number in its place: sign or mark, zeros, digits. -/
def Layout.number (l : Layout) (mark digits : Text) : Text :=
  let digits := match l.precision with
    | some n => List.replicate (n - digits.length) '0' ++ digits
    | none =>
      if l.zeros ∧ !l.left then List.replicate (l.width - mark.length - digits.length) '0' ++ digits
      else digits
  l.place (mark ++ digits)

/-- What a format has printed so far, newest first, and what it has left. -/
structure Printing where
  printed : Text := []
  words : List Text
  complaints : List String := []
  taken : Bool := false
  goesOn : Bool := true
  /-- Whether a conversion is unknown. -/
  refused : Bool := false

/-- Takes the next word; a missing one is empty. -/
def Printing.take (p : Printing) : Option Text × Printing :=
  match p.words with
  | w :: rest => (some w, { p with words := rest, taken := true })
  | [] => (none, p)

def Printing.print (p : Printing) (t : Text) : Printing := { p with printed := t.reverse ++ p.printed }

/-- The integer that a word stands for, and whether all of it does. A quote gives the number of a character. -/
def integer (w : Text) : Int × Option String :=
  match w with
  | '"' :: c :: _ | '\'' :: c :: _ => ((c.toNat : Int), none)
  | w =>
    let t := w.dropWhile fun c => c == ' ' || c == '\t' || c == '\n'
    let (negative, t) := match t with
      | '-' :: t => (true, t)
      | '+' :: t => (false, t)
      | t => (false, t)
    let (base, t) : Nat × Text := match t with
      | '0' :: 'x' :: t | '0' :: 'X' :: t => (16, t)
      | '0' :: t => (8, '0' :: t)
      | t => (10, t)
    let isDigit (c : Char) : Bool := match StorageProof.Text.hexValue? c.toNat with
      | some d => decide (d < base)
      | none => false
    let digits := t.takeWhile isDigit
    let n : Int := digits.foldl (fun n c => base * n + (StorageProof.Text.hexValue? c.toNat).getD 0) 0
    let complaint :=
      if w.isEmpty then none
      else if digits.isEmpty then some (Text.toString w ++ ": expected numeric value")
      else if digits.length < t.length then some (Text.toString w ++ ": not completely converted")
      else none
    (if negative then -n else n, complaint)

/-- Takes the next word as an integer. -/
def Printing.takeInteger (p : Printing) : Int × Printing :=
  match p.take with
  | (none, p) => (0, p)
  | (some w, p) =>
    let (n, complaint) := integer w
    (n, { p with complaints := p.complaints ++ complaint.toList })

def Printing.convert (p : Printing) (l : Layout) (letter : Char) : Printing :=
  match letter with
  | '%' => p.print ['%']
  | 's' =>
    let (w, p) := p.take
    let w := w.getD []
    p.print (l.place (match l.precision with
      | some n => w.take n
      | none => w))
  | 'b' =>
    let (w, p) := p.take
    let (t, goesOn) := expand (w.getD [])
    { p.print (l.place (match l.precision with
        | some n => t.take n
        | none => t)) with goesOn }
  | 'c' =>
    let (w, p) := p.take
    p.print (l.place ((w.getD []).take 1))
  | 'd' | 'i' =>
    let (n, p) := p.takeInteger
    let mark : Text := if n < 0 then ['-'] else if l.plus then ['+'] else if l.space then [' '] else []
    p.print (l.number mark (Nat.toDigits 10 n.natAbs))
  | 'u' =>
    let (n, p) := p.takeInteger
    p.print (l.number [] (Nat.toDigits 10 (n % UInt64.size).toNat))
  | 'o' =>
    let (n, p) := p.takeInteger
    p.print (l.number (if l.alternate then ['0'] else []) (Nat.toDigits 8 (n % UInt64.size).toNat))
  | 'x' =>
    let (n, p) := p.takeInteger
    p.print (l.number (if l.alternate then "0x".toList else []) (Nat.toDigits 16 (n % UInt64.size).toNat))
  | 'X' =>
    let (n, p) := p.takeInteger
    p.print (l.number (if l.alternate then "0X".toList else [])
      ((Nat.toDigits 16 (n % UInt64.size).toNat).map Char.toUpper))
  | letter =>
    { p with
      complaints := p.complaints ++ ["%" ++ String.singleton letter ++ ": invalid directive"]
      goesOn := false, refused := true }

/-- The flags of a conversion, and the text after them. -/
def flags : Layout → Text → Layout × Text
  | l, '-' :: t => flags { l with left := true } t
  | l, '0' :: t => flags { l with zeros := true } t
  | l, '+' :: t => flags { l with plus := true } t
  | l, ' ' :: t => flags { l with space := true } t
  | l, '#' :: t => flags { l with alternate := true } t
  | l, t => (l, t)

/-- A number, or a star for the next word. -/
def Printing.size (p : Printing) (t : Text) : Int × Printing × Text :=
  match t with
  | '*' :: rest =>
    let (n, p) := p.takeInteger
    (n, p, rest)
  | t =>
    let digits := t.takeWhile Char.isDigit
    (((Text.natural? digits).getD 0 : Nat), p, t.drop digits.length)

/-- Prints one conversion, from what follows its percent sign; gives the text after it. -/
def Printing.directive (p : Printing) (t : Text) : Printing × Text :=
  let (l, t) := flags {} t
  let (width, p, t) := p.size t
  let l := { l with width := width.natAbs, left := l.left || width < 0 }
  let (precision, p, t) : Option Nat × Printing × Text := match t with
    | '.' :: rest =>
      let (n, p, rest) := p.size rest
      (if n < 0 then none else some n.toNat, p, rest)
    | t => (none, p, t)
  match t with
  | letter :: rest => (p.convert { l with precision } letter, rest)
  | [] => ({ p with complaints := p.complaints ++ ["missing format character"], goesOn := false, refused := true }, [])

/-- Prints a format once. -/
def Printing.once : (fuel : Nat) → Printing → Text → Printing
  | 0, p, _ => p
  | _, p, [] => p
  | fuel + 1, p, '%' :: rest =>
    let (p, rest) := p.directive rest
    if p.goesOn then once fuel p rest else p
  | fuel + 1, p, '\\' :: c :: rest =>
    if isOctal c then
      let (byte, rest) := octal 3 (c :: rest)
      once fuel (p.print [byte]) rest
    else match letterEscape? c with
      | some d => once fuel (p.print [d]) rest
      | none => once fuel (p.print ['\\', c]) rest
  | fuel + 1, p, c :: rest => once fuel (p.print [c]) rest

/-- Prints a format again and again as long as it takes words that are left. -/
def Printing.all (format : Text) : (fuel : Nat) → Printing → Printing
  | 0, p => p
  | fuel + 1, p =>
    let p := once (format.length + 1) { p with taken := false } format
    if p.goesOn ∧ p.taken ∧ !p.words.isEmpty then all format fuel p else p

/-- What the formatting command prints, its complaints and its status. -/
def printf (format : Text) (words : List Text) : Text × List String × Nat :=
  let p := Printing.all format (words.length + 1) { words }
  (p.printed.reverse, p.complaints, if p.refused then 2 else if p.complaints.isEmpty then 0 else 1)

end StorageProof.Shell.Format
