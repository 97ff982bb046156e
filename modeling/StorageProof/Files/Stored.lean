import StorageProof.Agreement
import StorageProof.Call.Runner
import StorageProof.ProofBlob

/-!
# Stored documents

Agreements and public inputs are stored in their canonical form, so that a file hashes to the identifier
that the ledger knows; a proof is stored byte for byte.
-/

namespace StorageProof

variable {σ : Type}

/-- Writes bytes to a file, with the directories it lies in. -/
def writeBytes (p : Path) (bytes : Bytes) : Action σ Unit := do
  Action.working s!"creating parent directory {p.text}" (·.makeParent p)
  Action.changing s!"write {p.text}" (·.write p bytes)

def Agreement.readFrom (p : Path) : Action σ Agreement := do
  let bytes ← Action.reading s!"read {p.text}" (·.read p)
  Action.ofExcept (Agreement.parse bytes)

def Agreement.writeTo (p : Path) (a : Agreement) : Action σ Unit := writeBytes p a.canonicalBytes

def PublicInput.writeTo (p : Path) (input : PublicInput) : Action σ Unit :=
  writeBytes p input.toJson.canonicalBytes

/-- Reads the proof that a tool has written, which must not be empty. -/
def ProofBlob.readFrom (p : Path) : Action σ ProofBlob := fun s =>
  match s.files.read p with
  | .ok bytes => (if bytes.isEmpty then .error (.proofArtifactMissing p.text) else .ok ⟨bytes⟩, s)
  | .error e => (.error (if e = .notFound then .proofArtifactMissing p.text else .io s!"read {p.text}" e), s)

end StorageProof
