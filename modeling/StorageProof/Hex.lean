import StorageProof.Text.Quoted
import StorageProof.Text.Utf8

/-!
# Hexadecimal

Bytes are written with two small letters or digits each. A text of either case is read; what is wrong
with it is found in a fixed order: an odd number of digits first, then the first character that is no digit.
-/

namespace StorageProof.Hex

/-- Two digits for each byte, high half first. -/
def encode (s : Bytes) : List Char :=
  s.flatMap fun b => [Text.hexDigit (b.toNat / 16), Text.hexDigit (b.toNat % 16)]

def toString (s : Bytes) : String := String.ofList (encode s)

/-- Why a text is not hexadecimal. Positions count bytes. -/
inductive Fault
  | oddLength
  | notADigit (byte : UInt8) (position : Nat)
  deriving DecidableEq, Repr

/-- The wording of a fault. A byte above 0x7F is shown as the character of that number. -/
def Fault.message : Fault → String
  | .oddLength => "Odd number of digits"
  | .notADigit byte position =>
    let shown := Text.quotedWith '\'' [Char.ofNat byte.toNat]
    s!"Invalid character {shown} at position {position}"

/-- The bytes of a text with an even number of bytes, the first of which is at `position`. -/
def decodePairs (position : Nat) : Bytes → Except Fault Bytes
  | high :: low :: rest =>
    match Text.hexValue? high.toNat, Text.hexValue? low.toNat with
    | some h, some l => (decodePairs (position + 2) rest).map ((16 * h + l).toUInt8 :: ·)
    | none, _ => .error (.notADigit high position)
    | some _, none => .error (.notADigit low (position + 1))
  | _ => .ok []

/-- The bytes that a hexadecimal text stands for. -/
def decode (s : Bytes) : Except Fault Bytes :=
  if s.length % 2 = 1 then .error .oddLength else decodePairs 0 s

end StorageProof.Hex
