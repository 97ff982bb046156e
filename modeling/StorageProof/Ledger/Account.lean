import StorageProof.Call.Declared
import StorageProof.Ledger.Answer

/-!
# An account on the ledger

Two transactions and two questions, each of them one call of the ledger's tool. A transaction needs nothing
but a successful end. A question is never made twice, and a cancelled question stays cancelled.
-/

namespace StorageProof

structure Account where
  program : Path
  signer : String
  deriving DecidableEq, Repr

namespace Account

variable {σ : Type}

def createCall (account : Account) (reward : String) (id : Identifier) (a : Agreement) : Call where
  stage := .ledgerCreate
  program := account.program
  args := ["tx", "sla", "createSla", reward, id.text, a.canonical, "--yes", "--from", account.signer]

def commitCall (account : Account) (id : Identifier) (p : ProofBlob) : Call where
  stage := .ledgerCommit
  program := account.program
  args := ["tx", "sla", "commitProof", id.text, p.canonical, "--yes", "--from", account.signer]

def questionCall (account : Account) (q : Question) (id : Identifier) : Call where
  stage := .ledgerQuery
  program := account.program
  args := ["q", "sla", q.word, id.text]

def create (account : Account) (run : Runner σ) (reward : String) (id : Identifier) (a : Agreement) :
    Action σ Unit := do
  let _ ← (account.createCall reward id a).perform run

def commit (account : Account) (run : Runner σ) (id : Identifier) (p : ProofBlob) : Action σ Unit := do
  let _ ← (account.commitCall id p).perform run

/-- What a failed question tells. -/
def questionFailure (q : Question) (id : Identifier) : Failure → Failure
  | .cancelled stage => .cancelled stage
  | e => q.classify id e

/-- Asks a question; gives the text of the answer. -/
def ask (account : Account) (run : Runner σ) (q : Question) (id : Identifier) : Action σ String :=
  fun s =>
    match run (account.questionCall q id) s with
    | (.ok output, s) => (.ok output.text, s)
    | (.error e, s) => (.error (questionFailure q id e), s)

/-- The agreement that the ledger has under an identifier, whether or not it is the one so named. -/
def agreement (account : Account) (run : Runner σ) (id : Identifier) : Action σ Agreement := do
  let answer ← account.ask run .agreement id
  Action.ofExcept (Agreement.ofAnswer id answer)

/-- The proof that is committed under an identifier. -/
def proof (account : Account) (run : Runner σ) (id : Identifier) : Action σ ProofBlob := do
  let answer ← account.ask run .proof id
  Action.ofExcept (ProofBlob.ofAnswer id answer)

end Account

end StorageProof
