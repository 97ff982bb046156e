import StorageProof.Call.Declared
import StorageProof.Files.Stored
import StorageProof.Flow.Run
import StorageProof.Flow.ToolCall
import StorageProof.Flow.Verdict
import StorageProof.Ledger.Account

/-!
# The four flows

Each flow is one fixed sequence of calls, and a call is made only if the one before it has succeeded and left
what it declared. Publishing and mining make one transaction each, as their last call, so that whatever fails
before it leaves the ledger as it was. Verifying and the making of the proving parameters make none.
-/

namespace StorageProof.Settings

variable {σ : Type}

/-- The account that transactions are signed with. -/
def account (s : Settings) : Account := ⟨s.program s.tools.ledger, s.signer⟩

def requireParameters (s : Settings) : Action σ Path := fun site =>
  if site.files.isNonEmptyFile s.parameters then (.ok s.parameters, site)
  else (.error (.config s!"CRS file {s.parameters.text} is missing or empty; run setup first"), site)

def sampleAndHash (s : Settings) (run : Runner σ) (lease : Lease) (source : String) : Course σ Unit := do
  Course.enter .extracting
  let _ ← Course.act ((s.extractFrames source lease.frames).perform run)
  Course.enter .hashing
  let _ ← Course.act ((s.perceptualHash lease.frames lease.hashes).perform run)

/-- From the source video to the agreement on the ledger. The challenge goes into the agreement as it was
printed. -/
def publishCourse (s : Settings) (run : Runner σ) (source target : String) (lease : Lease) :
    Course σ Agreement := do
  s.sampleAndHash run lease source
  Course.enter .challenging
  let output ← Course.act ((s.challenge lease.hashes).perform run)
  let agreement : Agreement := ⟨target, .phashMerkle, output.text⟩
  Course.act (agreement.writeTo lease.agreement)
  Course.enter .submitting
  Course.act (s.account.create run s.reward agreement.identifier agreement)
  return agreement

/-- From an agreement on the ledger to a proof committed for it. -/
def mineCourse (s : Settings) (run : Runner σ) (id : Identifier) (lease : Lease) :
    Course σ ProofBlob := do
  let parameters ← Course.act s.requireParameters
  Course.enter .resolving
  let agreement ← Course.act (s.account.agreement run id)
  s.sampleAndHash run lease agreement.locator
  Course.enter .proving
  let _ ← Course.act
    ((s.generateProof parameters lease.proof lease.hashes lease.witness).perform run)
  let proof ← Course.act (ProofBlob.readFrom lease.proof)
  Course.enter .submitting
  Course.act (s.account.commit run id proof)
  return proof

/-- What came out of a check, and the digest of the proof that was checked. -/
structure Audit where
  accepted : Bool
  digest : String
  deriving DecidableEq, Repr

/-- From an agreement and a proof on the ledger to the verdict of the proving engine. -/
def verifyCourse (s : Settings) (run : Runner σ) (id : Identifier) (lease : Lease) : Course σ Audit := do
  let parameters ← Course.act s.requireParameters
  Course.enter .resolving
  let agreement ← Course.act (s.account.agreement run id)
  let input ← Course.act (Action.ofExcept agreement.merkleInput)
  let proof ← Course.act (s.account.proof run id)
  Course.act (writeBytes lease.committedProof proof.bytes)
  Course.act (input.writeTo lease.publicInputs)
  Course.enter .verifying
  let output ← Course.act
    ((s.verifyProof parameters lease.committedProof lease.publicInputs).perform run)
  match Verdict.ofOutput? output.text with
  | some accepted => return ⟨accepted, proof.digest⟩
  | none => Course.act (Action.fail (Stage.verifyProof.withoutOutput "verdict line on stdout"))

/-- Makes the directory that the proving parameters lie in. -/
def makeParameterDirectory (s : Settings) : Action σ Unit :=
  match s.parameters.parent? with
  | some parent => Action.working s!"create {parent.text}" (·.makeDirectories parent)
  | none => return ()

/-- Makes the proving parameters, unless there are some and new ones are not asked for. Tells whether they
were made. -/
def setupCourse (s : Settings) (run : Runner σ) (force : Bool) (_ : Lease) : Course σ Bool := do
  let fs ← Course.act Action.files
  if !force && fs.isNonEmptyFile s.parameters then return false
  else
    Course.enter .proving
    Course.act s.makeParameterDirectory
    let _ ← Course.act ((s.setupParameters s.parameters).perform run)
    return true

def publish (s : Settings) (run : Runner σ) (source target : String) (d : Desk σ) :
    Except Failure (Agreement × Report) × Desk σ :=
  if Text.isAllBlank source || Text.isAllBlank target then
    (.error (.config "publish needs an input and an output locator"), d)
  else s.conduct .publish (s.publishCourse run source target) d

/-- Proves the storage of the video of an agreement and commits the proof. -/
def mine (s : Settings) (run : Runner σ) (id : Identifier) :
    Desk σ → Except Failure (ProofBlob × Report) × Desk σ :=
  s.conduct .mine (s.mineCourse run id)

/-- Checks the proof that is committed for an agreement. -/
def verify (s : Settings) (run : Runner σ) (id : Identifier) :
    Desk σ → Except Failure (Audit × Report) × Desk σ :=
  s.conduct .verify (s.verifyCourse run id)

def setup (s : Settings) (run : Runner σ) (force : Bool) :
    Desk σ → Except Failure (Bool × Report) × Desk σ :=
  s.conduct .setup (s.setupCourse run force)

end StorageProof.Settings
