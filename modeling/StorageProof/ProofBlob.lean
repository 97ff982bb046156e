import StorageProof.Base64
import StorageProof.Failure
import StorageProof.Hex
import StorageProof.Json.Record
import StorageProof.Json.Value
import StorageProof.Sha256
import StorageProof.Text.Blank

/-!
# Committed proofs

A proof is a blob that only the proving engine looks into. On the ledger it is the Base64 text of a record
with one field, which has a capitalised alias.
-/

namespace StorageProof

structure ProofBlob where
  bytes : Bytes
  deriving DecidableEq, Repr

namespace ProofBlob

/-- The size of the proofs that the proving engine makes. -/
def expectedSize : Nat := 192

def size (p : ProofBlob) : Nat := p.bytes.length

def isEmpty (p : ProofBlob) : Bool := p.bytes.isEmpty

def hasExpectedSize (p : ProofBlob) : Bool := p.size == expectedSize

/-- The hexadecimal SHA-256 digest of a proof. -/
def digest (p : ProofBlob) : String := Hex.toString (Sha256.digest p.bytes)

/-- The bytes of a proof text, but for blanks around it. -/
def decodeText (text : String) : Except Base64.Fault Bytes :=
  Base64.decode Base64.standard (Utf8.ofString (Text.trim text))

def shape : Json.Shape where
  name := "ZkMerkleProof"
  fields := [{
    key := "proof"
    aliases := ["Proof"]
    refusal? := fun text => match decodeText text with
      | .error fault => some s!"proof is not base64: {fault.message}"
      | .ok _ => none }]

def ofTexts? : List String → Option ProofBlob
  | [text] => (decodeText text).toOption.map (⟨·⟩)
  | _ => none

def parse (s : Bytes) : Except Failure ProofBlob :=
  match shape.read s with
  | .error fault => .error (.malformedProof fault.message)
  | .ok texts =>
    match ofTexts? texts with
    | some p => .ok p
    | none => .error (.malformedProof "not a proof")

def toJson (p : ProofBlob) : Json.Value :=
  .object [("proof", .text (String.ofList (Base64.encode Base64.standard p.bytes)))]

def canonical (p : ProofBlob) : String := p.toJson.canonical

end ProofBlob

end StorageProof
