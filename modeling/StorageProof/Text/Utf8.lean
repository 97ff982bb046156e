/-!
# Bytes and UTF-8

Everything that crosses a file or a pipe is a list of bytes. Text is encoded scalar by scalar. Reading
takes one scalar off the front at a time, or the longest run of bytes that begins a scalar and then
breaks off; the strict reader refuses such a run and the lossy one puts a single U+FFFD in its place.
-/

namespace StorageProof

/-- What files hold and pipes carry. -/
abbrev Bytes := List UInt8

namespace Utf8

/-- The bytes of one scalar: one to four, the first of which tells how many. -/
def encodeChar (c : Char) : Bytes :=
  let n := c.toNat
  if n < 0x80 then [n.toUInt8]
  else if n < 0x800 then [(0xC0 + n / 0x40).toUInt8, (0x80 + n % 0x40).toUInt8]
  else if n < 0x10000 then
    [(0xE0 + n / 0x1000).toUInt8, (0x80 + n / 0x40 % 0x40).toUInt8, (0x80 + n % 0x40).toUInt8]
  else
    [(0xF0 + n / 0x40000).toUInt8, (0x80 + n / 0x1000 % 0x40).toUInt8,
      (0x80 + n / 0x40 % 0x40).toUInt8, (0x80 + n % 0x40).toUInt8]

/-- The encoding of a list of scalars is that of its members, one after the other. -/
def encode (cs : List Char) : Bytes := cs.flatMap encodeChar

@[simp] theorem encode_nil : encode [] = [] := rfl

@[simp] theorem encode_cons (c : Char) (cs : List Char) :
    encode (c :: cs) = encodeChar c ++ encode cs := rfl

@[simp] theorem encode_append (cs ds : List Char) :
    encode (cs ++ ds) = encode cs ++ encode ds := by simp [encode]

def ofString (s : String) : Bytes := encode s.toList

/-- What a first byte above 0x7F promises: its own bits, how many bytes follow, and the range of the
first of them, which rules out overlong forms, surrogates and scalars above U+10FFFF. -/
structure Lead where
  bits : Nat
  more : Nat
  low : UInt8 := 0x80
  high : UInt8 := 0xBF

/-- The first bytes of scalars of two, three and four bytes. -/
def lead? (b : UInt8) : Option Lead :=
  let n := b.toNat
  if 0xC2 ≤ n ∧ n ≤ 0xDF then some { bits := n - 0xC0, more := 1 }
  else if n = 0xE0 then some { bits := 0, more := 2, low := 0xA0 }
  else if n = 0xED then some { bits := 0xD, more := 2, high := 0x9F }
  else if 0xE1 ≤ n ∧ n ≤ 0xEF then some { bits := n - 0xE0, more := 2 }
  else if n = 0xF0 then some { bits := 0, more := 3, low := 0x90 }
  else if 0xF1 ≤ n ∧ n ≤ 0xF3 then some { bits := n - 0xF0, more := 3 }
  else if n = 0xF4 then some { bits := 4, more := 3, high := 0x8F }
  else none

/-- Takes the given number of bytes 0x80 to 0xBF and adds six bits for each; a scalar that breaks off
leaves the byte that broke it. -/
def continuation : Nat → Nat → Bytes → Option Char × Bytes
  | 0, value, rest => (some (Char.ofNat value), rest)
  | _ + 1, _, [] => (none, [])
  | n + 1, value, b :: rest =>
    if 0x80 ≤ b ∧ b ≤ 0xBF then continuation n (value * 0x40 + (b.toNat - 0x80)) rest
    else (none, b :: rest)

/-- What follows a first byte. -/
def afterLead (l : Lead) : Bytes → Option Char × Bytes
  | [] => (none, [])
  | b :: rest =>
    if l.low ≤ b ∧ b ≤ l.high then continuation (l.more - 1) (l.bits * 0x40 + (b.toNat - 0x80)) rest
    else (none, b :: rest)

/-- The first scalar and the rest, or no scalar and what is left after the run that broke off. -/
def uncons (b : UInt8) (rest : Bytes) : Option Char × Bytes :=
  if b < 0x80 then (some (Char.ofNat b.toNat), rest)
  else match lead? b with
    | some l => afterLead l rest
    | none => (none, rest)

theorem continuation_length_le (n value : Nat) (s : Bytes) :
    (continuation n value s).2.length ≤ s.length := by
  induction n generalizing value s with
  | zero => simp [continuation]
  | succ n ih =>
    cases s with
    | nil => simp [continuation]
    | cons b rest =>
      simp only [continuation]
      split
      · exact Nat.le_succ_of_le (ih _ rest)
      · simp

theorem uncons_length_le (b : UInt8) (rest : Bytes) : (uncons b rest).2.length ≤ rest.length := by
  unfold uncons
  split
  · simp
  · split
    · next l _ =>
      cases rest with
      | nil => simp [afterLead]
      | cons c rest =>
        simp only [afterLead]
        split
        · exact Nat.le_succ_of_le (continuation_length_le _ _ rest)
        · simp
    · simp

/-- The scalars read so far, newest first, followed by those of `s`, or nothing if some run breaks off. -/
def decodeOnto (read : List Char) : Bytes → Option (List Char)
  | [] => some read.reverse
  | b :: rest =>
    match _h : uncons b rest with
    | (some c, rest') => decodeOnto (c :: read) rest'
    | (none, _) => none
termination_by s => s.length
decreasing_by
  have := uncons_length_le b rest
  simp only [_h] at this
  simp only [List.length_cons]
  omega

/-- The scalars of well-formed UTF-8. -/
def decode? (s : Bytes) : Option (List Char) := decodeOnto [] s

/-- The scalars read so far, newest first, followed by those of `s`, with U+FFFD for each run that
breaks off. -/
def lossyOnto (read : List Char) : Bytes → List Char
  | [] => read.reverse
  | b :: rest =>
    match _h : uncons b rest with
    | (c, rest') => lossyOnto (c.getD '\uFFFD' :: read) rest'
termination_by s => s.length
decreasing_by
  have := uncons_length_le b rest
  simp only [_h] at this
  simp only [List.length_cons]
  omega

/-- The text of any bytes at all: what is not UTF-8 shows as U+FFFD. -/
def lossy (s : Bytes) : String := String.ofList (lossyOnto [] s)

/-- The string that well-formed bytes encode. -/
def toString? (s : Bytes) : Option String := (decode? s).map String.ofList

end Utf8

end StorageProof
