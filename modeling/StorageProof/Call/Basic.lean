import StorageProof.Files.Path

/-!
# Stages and the calls they make

A stage is one call of an external program. A call names the stage, the program and its arguments,
and declares the output by which the call is judged.
-/

namespace StorageProof

inductive Stage
  | extractFrames
  | perceptualHash
  | challenge
  | generateProof
  | verifyProof
  | setupCrs
  | ledgerCreate
  | ledgerCommit
  | ledgerQuery
  deriving DecidableEq, Repr

namespace Stage

def all : List Stage :=
  [extractFrames, perceptualHash, challenge, generateProof, verifyProof, setupCrs, ledgerCreate,
    ledgerCommit, ledgerQuery]

def name : Stage → String
  | extractFrames => "extract-frames"
  | perceptualHash => "perceptual-hash"
  | challenge => "challenge"
  | generateProof => "generate-proof"
  | verifyProof => "verify-proof"
  | setupCrs => "setup-crs"
  | ledgerCreate => "ledger-create"
  | ledgerCommit => "ledger-commit"
  | ledgerQuery => "ledger-query"

def ofName? (s : String) : Option Stage := all.find? (·.name == s)

@[simp] theorem ofName?_name (s : Stage) : ofName? s.name = some s := by cases s <;> decide

def mutatesLedger : Stage → Bool
  | ledgerCreate | ledgerCommit => true
  | _ => false

end Stage

/-- The output that a call is judged by. -/
inductive Declared
  /-- A file that is not empty. -/
  | file (path : Path)
  /-- Standard output that is not blank. -/
  | stdout
  /-- Nothing but a successful end. -/
  | exitOnly
  deriving DecidableEq, Repr

structure Call where
  stage : Stage
  program : Path
  args : List String
  declared : Declared := .exitOnly
  deriving DecidableEq, Repr

/-- What a successful call has written. -/
structure Output where
  stdout : Bytes := []
  stderr : String := ""
  deriving DecidableEq, Repr

/-- Standard output as text. -/
def Output.text (o : Output) : String := Utf8.lossy o.stdout

end StorageProof
