import StorageProof.Identifier
import StorageProof.PublicInput

/-!
# Storage agreements

An agreement binds the locator of a stored video to the scheme it is proven with and to the public inputs
that the prover gave when it was published. The scheme decides how the public inputs are to be read. The
canonical text of an agreement is what a ledger stores and what its identifier is derived from.
-/

namespace StorageProof

inductive ProofKind
  /-- Perceptual hashes in a Merkle tree. -/
  | phashMerkle
  /-- Structural similarity of sampled blocks. -/
  | ssim
  deriving DecidableEq, Repr

namespace ProofKind

/-- The name of a scheme on the ledger. -/
def name : ProofKind → String
  | .phashMerkle => "PhashMerkleZksnark"
  | .ssim => "SsimZksnark"

/-- The scheme with a name. One scheme has a second name. -/
def ofName? (s : String) : Option ProofKind :=
  if s = "PhashMerkleZksnark" then some .phashMerkle
  else if s = "SsimZksnark" ∨ s = "SsimMerkleZksnark" then some .ssim
  else none

@[simp] theorem ofName?_name (k : ProofKind) : ofName? k.name = some k := by cases k <;> decide

def names : List String := ["PhashMerkleZksnark", "SsimMerkleZksnark", "SsimZksnark"]

/-- The scheme that a text names. -/
def parse (s : String) : Except Failure ProofKind :=
  match ofName? s with
  | some k => .ok k
  | none => .error (.malformedAgreement s!"unknown proof kind {Text.ticked s}")

/-- Refuses a text that names no scheme. -/
def refusal? (s : String) : Option String :=
  if (ofName? s).isSome then none
  else some s!"unknown variant {Text.ticked s}, expected one of {alternatives names}"

end ProofKind

structure Agreement where
  locator : String
  kind : ProofKind
  publicInputs : String
  deriving DecidableEq, Repr

namespace Agreement

def shape : Json.Shape where
  name := "Agreement"
  fields := [
    { key := "Url" },
    { key := "ProofType", form := .variant, refusal? := ProofKind.refusal? },
    { key := "PublicInputs" }]

def ofTexts? : List String → Option Agreement
  | [locator, kind, publicInputs] => (ProofKind.ofName? kind).map (⟨locator, ·, publicInputs⟩)
  | _ => none

def parse (s : Bytes) : Except Failure Agreement :=
  match shape.read s with
  | .error fault => .error (.malformedAgreement fault.message)
  | .ok texts =>
    match ofTexts? texts with
    | some a => .ok a
    | none => .error (.malformedAgreement "not an agreement")

def toJson (a : Agreement) : Json.Value :=
  .object [("Url", .text a.locator), ("ProofType", .text a.kind.name),
    ("PublicInputs", .text a.publicInputs)]

def canonical (a : Agreement) : String := a.toJson.canonical

def canonicalBytes (a : Agreement) : Bytes := a.toJson.canonicalBytes

def identifier (a : Agreement) : Identifier := Identifier.derive a.canonicalBytes

/-- The public inputs of an agreement as a Merkle statement, which only one scheme gives them the form of. -/
def merkleInput (a : Agreement) : Except Failure PublicInput :=
  match a.kind with
  | .phashMerkle => PublicInput.parse (Utf8.ofString a.publicInputs)
  | k => .error (.malformedPublicInput s!"proof kind {k.name} carries no merkle public input")

end Agreement

end StorageProof
