import StorageProof.Agreement
import StorageProof.ProofBlob
import StorageProof.Text.Ascii

/-!
# Answers of the ledger

The ledger answers a question with text. A blank answer, and a blank content of a well-formed answer, say
that there is no record; any other text must decode. A failed question is a missing record only if the
ledger's tool itself has said so; every other failure means that the ledger could not be asked.
-/

namespace StorageProof

inductive Question
  | agreement
  | proof
  deriving DecidableEq, Repr

namespace Question

/-- The word for a question on the command line of the ledger's tool. -/
def word : Question → String
  | agreement => "get"
  | proof => "commit"

/-- The failure of a question for something the ledger has no record of. -/
def absent (q : Question) (id : Identifier) : Failure :=
  match q with
  | agreement => .agreementNotFound id.text
  | proof => .commitNotFound id.text

/-- What the ledger's tool says when it has no record. -/
def absentMarker : String := "not found"

/-- What a failed call means for the question it was made for. -/
def classify (q : Question) (id : Identifier) : Failure → Failure
  | .stageExecution _ _ _ exit stderr =>
    if Text.containsIgnoringCase absentMarker stderr then q.absent id
    else .ledgerQuery id.text s!"{exit.describe}: {Text.trim stderr}"
  | e => .ledgerQuery id.text e.message

end Question

/-- The record around the text of an agreement. -/
def envelopeShape : Json.Shape where
  name := "SlaEnvelope"
  fields := [{ key := "sla" }]

def readEnvelope (s : Bytes) : Except Failure String :=
  match envelopeShape.read s with
  | .error fault => .error (.malformedAgreement s!"envelope: {fault.message}")
  | .ok texts => .ok (texts.headD "")

def Agreement.ofAnswer (id : Identifier) (answer : String) : Except Failure Agreement := do
  let body := Text.trim answer
  if body = "" then .error (Question.agreement.absent id)
  else
    let text ← readEnvelope (Utf8.ofString body)
    if Text.isAllBlank text then .error (Question.agreement.absent id)
    else Agreement.parse (Utf8.ofString text)

def ProofBlob.ofAnswer (id : Identifier) (answer : String) : Except Failure ProofBlob := do
  let body := Text.trim answer
  if body = "" then .error (Question.proof.absent id)
  else
    let p ← ProofBlob.parse (Utf8.ofString body)
    if p.isEmpty then .error (Question.proof.absent id) else .ok p

end StorageProof
