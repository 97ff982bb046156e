import StorageProof.Text.Utf8

/-!
# Base64

Three bytes are written as four symbols of six bits each; a last group of one or two bytes is filled
up with `=`. Two alphabets differ in their last two symbols. A text is read only if it is what writing
produces: the padding is required, and the bits that the last symbol has to spare must be zero.
-/

namespace StorageProof.Base64

/-- The two symbols in which the alphabets differ. -/
structure Alphabet where
  symbol62 : Char
  symbol63 : Char

/-- The alphabet of proof texts. -/
def standard : Alphabet := ⟨'+', '/'⟩

/-- The alphabet of identifiers, safe in a locator and in a file name. -/
def urlSafe : Alphabet := ⟨'-', '_'⟩

def Alphabet.symbol (a : Alphabet) (n : Nat) : Char :=
  if n < 26 then Char.ofNat (65 + n)
  else if n < 52 then Char.ofNat (71 + n)
  else if n < 62 then Char.ofNat (n - 4)
  else if n = 62 then a.symbol62
  else a.symbol63

/-- The number of a symbol, given as a byte. -/
def Alphabet.sextet? (a : Alphabet) (b : UInt8) : Option Nat :=
  let n := b.toNat
  if 65 ≤ n ∧ n ≤ 90 then some (n - 65)
  else if 97 ≤ n ∧ n ≤ 122 then some (n - 71)
  else if 48 ≤ n ∧ n ≤ 57 then some (n + 4)
  else if n = a.symbol62.toNat then some 62
  else if n = a.symbol63.toNat then some 63
  else none

/-- The upper six bits of the first byte of a group. -/
def sextet1 (x : UInt8) : Nat := x.toNat / 4

/-- The lower two bits of the first byte and the upper four of the second. -/
def sextet2 (x y : UInt8) : Nat := x.toNat % 4 * 16 + y.toNat / 16

/-- The lower four bits of the second byte and the upper two of the third. -/
def sextet3 (y z : UInt8) : Nat := y.toNat % 16 * 4 + z.toNat / 64

/-- The lower six bits of the third byte. -/
def sextet4 (z : UInt8) : Nat := z.toNat % 64

def octet1 (p q : Nat) : UInt8 := (p * 4 + q / 16).toUInt8

def octet2 (q r : Nat) : UInt8 := (q % 16 * 16 + r / 4).toUInt8

def octet3 (r s : Nat) : UInt8 := (r % 4 * 64 + s).toUInt8

/-- The padded text of bytes. -/
def encode (a : Alphabet) : Bytes → List Char
  | [] => []
  | [x] => [a.symbol (sextet1 x), a.symbol (sextet2 x 0), '=', '=']
  | [x, y] => [a.symbol (sextet1 x), a.symbol (sextet2 x y), a.symbol (sextet3 y 0), '=']
  | x :: y :: z :: rest =>
    a.symbol (sextet1 x) :: a.symbol (sextet2 x y) :: a.symbol (sextet3 y z) ::
      a.symbol (sextet4 z) :: encode a rest

/-- Why a text is not Base64. Offsets count bytes. -/
inductive Fault
  | symbol (byte : UInt8) (offset : Nat)
  | length (size : Nat)
  | lastSymbol (byte : UInt8) (offset : Nat)
  | padding
  deriving DecidableEq, Repr

def Fault.message : Fault → String
  | .symbol byte offset => s!"Invalid symbol {byte}, offset {offset}."
  | .length size => s!"Invalid input length: {size}"
  | .lastSymbol byte offset => s!"Invalid last symbol {byte}, offset {offset}."
  | .padding => "Invalid padding"

def pad : UInt8 := 61

/-- The number of the symbol at `offset`, which must not be fill. -/
def Alphabet.sextet (a : Alphabet) (byte : UInt8) (offset : Nat) : Except Fault Nat :=
  match a.sextet? byte with
  | some n => .ok n
  | none => .error (.symbol byte offset)

/-- What the last group holds: its numbers in order, its last symbol, and where its fill begins. -/
structure Tail where
  sextets : List Nat := []
  last : UInt8 := 0
  fillFrom : Option Nat := none
  fill : Nat := 0

/-- Adds the byte with index `i` of the last group, which starts at `start`. Fill may not stand for the
first or second symbol, and no symbol may follow it. -/
def Tail.push (a : Alphabet) (start i : Nat) (t : Tail) (byte : UInt8) : Except Fault Tail :=
  if byte = pad then
    if i < 2 then .error (.symbol byte (start + i))
    else .ok { t with fillFrom := some (t.fillFrom.getD (start + i)), fill := t.fill + 1 }
  else match t.fillFrom with
    | some offset => .error (.symbol pad offset)
    | none =>
      match a.sextet byte (start + i) with
      | .error e => .error e
      | .ok n => .ok { t with sextets := t.sextets ++ [n], last := byte }

/-- Adds the bytes of the last group from index `i` on. -/
def Tail.pushAll (a : Alphabet) (start : Nat) : Nat → Tail → Bytes → Except Fault Tail
  | _, t, [] => .ok t
  | i, t, byte :: rest =>
    match t.push a start i byte with
    | .error e => .error e
    | .ok t => Tail.pushAll a start (i + 1) t rest

/-- The bytes of the last group. A single symbol stands for no byte, fill must complete the group, and
no bit may be left over. -/
def Tail.bytes (start : Nat) (t : Tail) : Except Fault Bytes :=
  match t.sextets with
  | [] | [_] => .error (.length (start + t.sextets.length))
  | [p, q] =>
    if t.fill ≠ 2 then .error .padding
    else if q % 16 ≠ 0 then .error (.lastSymbol t.last (start + 1))
    else .ok [octet1 p q]
  | [p, q, r] =>
    if t.fill ≠ 1 then .error .padding
    else if r % 4 ≠ 0 then .error (.lastSymbol t.last (start + 2))
    else .ok [octet1 p q, octet2 q r]
  | p :: q :: r :: s :: _ => .ok [octet1 p q, octet2 q r, octet3 r s]

/-- The bytes of a text that starts at offset `start`. All groups but the last consist of four symbols. -/
def decodeGroups (a : Alphabet) (start : Nat) : Bytes → Except Fault Bytes
  | [] => .ok []
  | w :: x :: y :: z :: next :: rest => do
    let p ← a.sextet w start
    let q ← a.sextet x (start + 1)
    let r ← a.sextet y (start + 2)
    let s ← a.sextet z (start + 3)
    let tail ← decodeGroups a (start + 4) (next :: rest)
    return octet1 p q :: octet2 q r :: octet3 r s :: tail
  | group => do
    let tail ← Tail.pushAll a start 0 {} group
    tail.bytes start

/-- A text one byte longer than its groups whose last byte is neither a symbol nor fill: that byte is
blamed before any other. -/
def strayEnd? (a : Alphabet) (s : Bytes) : Option Fault :=
  if s.length % 4 = 1 then
    s.getLast?.bind fun b =>
      if b = pad ∨ (a.sextet? b).isSome then none else some (.symbol b (s.length - 1))
  else none

/-- The bytes that a text stands for. -/
def decode (a : Alphabet) (s : Bytes) : Except Fault Bytes :=
  match strayEnd? a s with
  | some fault => .error fault
  | none => decodeGroups a 0 s

/-- The bytes that a string stands for, if it is Base64. -/
def decode? (a : Alphabet) (s : String) : Option Bytes := (decode a (Utf8.ofString s)).toOption

end StorageProof.Base64
