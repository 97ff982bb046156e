import StorageProof.CommandLine.Request
import StorageProof.Flow.Course
import StorageProof.Flow.SettingsText
import StorageProof.Process.Supervisor

/-!
# Outcomes

What the program prints and the exit code it ends with. A failure is told in one line on standard error, behind the
words for what was being done, and then nothing is printed. The exit code is one after a failure and after a proof
was rejected, two for words that are no request, and otherwise zero.
-/

namespace StorageProof.CommandLine

variable {σ α : Type}

/-- What the program ends with. Standard output and standard error accept all that is written to them. -/
structure Outcome where
  code : Nat := 0
  stdout : String := ""
  stderr : String := ""
  deriving DecidableEq, Repr

/-- A failure, and what was being done. -/
structure Complaint where
  activity : String
  failure : Failure
  deriving DecidableEq, Repr

namespace Complaint

/-- The wording of a complaint. A failure that goes back to a system error names it once more. -/
def message (c : Complaint) : String :=
  let cause := match c.failure.cause? with
    | some cause => s!": {cause.message}"
    | none => ""
  s!"{c.activity}: {c.failure.message}{cause}"

def outcome (c : Complaint) : Outcome := { code := 1, stderr := s!"error: {c.message}\n" }

end Complaint

/-- Something that is done for a request. -/
abbrev Work (σ : Type) := ExceptT Complaint (StateM (Site σ))

namespace Work

/-- Acts, with words for what is being done. -/
def doing (activity : String) (a : Action σ α) : Work σ α := fun site =>
  let (result, site) := a site
  (result.mapError (⟨activity, ·⟩), site)

/-- Conducts a run that starts without a report. -/
def conducting (activity : String) (run : Desk σ → Except Failure (α × Report) × Desk σ) : Work σ α :=
  fun site =>
    let (result, desk) := run ⟨site, none⟩
    ((result.map (·.1)).mapError (⟨activity, ·⟩), desk.site)

def identifier (text : String) : Work σ Identifier := fun site =>
  ((Identifier.parse text).mapError (⟨s!"{Text.ticked text} is not an agreement identifier", ·⟩), site)

end Work

/-- The lines that show an agreement, with its public inputs if they are a Merkle statement. -/
def shownAgreement (a : Agreement) : String :=
  let statement := match a.merkleInput with
    | .ok input => Json.prettyTexts input.members ++ "\n"
    | .error _ => ""
  s!"Url:          {a.locator}\nProofType:    {a.kind.name}\nPublicInputs: {a.publicInputs}\n{statement}"

def shownProof (p : ProofBlob) : String := s!"{p.size} bytes, sha256 {p.digest}"

def Errand.perform (s : Settings) (run : Runner σ) : Errand → Work σ Outcome
  | .publish source target => do
    let a ← Work.conducting s!"publishing {source}" (s.publish run source target)
    return { stdout := s!"Published agreement {a.identifier.text}\n{a.canonical}\n" }
  | .mine text => do
    let id ← Work.identifier text
    let p ← Work.conducting s!"mining agreement {id.text}" (s.mine run id)
    return { stdout := s!"Committed proof for {id.text} ({shownProof p})\n" }
  | .verify text => do
    let id ← Work.identifier text
    let audit ← Work.conducting s!"verifying agreement {id.text}" (s.verify run id)
    if audit.accepted then
      return { stdout := s!"OK: proof for {id.text} verified (sha256 {audit.digest})\n" }
    else return { code := 1, stdout := s!"REJECTED: proof for {id.text} did not verify\n" }
  | .setup force => do
    let created ← Work.conducting "producing CRS" (s.setup run force)
    let p := s.parameters.text
    return { stdout :=
      if created then s!"Wrote CRS → {p}\n"
      else s!"CRS already present at {p} (use --force to regenerate)\n" }
  | .showAgreement text => do
    let id ← Work.identifier text
    let a ← Work.doing s!"resolving agreement {id.text}" (s.account.agreement run id)
    return { stdout := shownAgreement a }
  | .showProof text => do
    let id ← Work.identifier text
    let p ← Work.doing s!"fetching proof committed for {id.text}" (s.account.proof run id)
    return { stdout := shownProof p ++ "\n" }

namespace Request

/-- The settings that a request asks for: those of its file, or those of somebody who has set nothing, with what
the request replaces. -/
def effectiveSettings (r : Request) (home : Path) (fs : FileSystem) : Except Complaint Settings :=
  let written : Except Complaint Settings := match r.settings with
    | some p => (Settings.load home p fs).mapError (⟨s!"loading config {p.text}", ·⟩)
    | none => .ok (Settings.ofHome home)
  match written with
  | .error c => .error c
  | .ok written =>
    let s := written.overriddenBy r.workDir r.toolDir r.signer
    match s.validate with
    | .error e => .error ⟨"invalid configuration", e⟩
    | .ok () => .ok s

/-- Does what a request asks for. The tools are run by a runner for the interval between two looks at the cancel
token. -/
def perform (r : Request) (home : Path) (runner : (poll : Nat) → Runner σ) : Work σ Outcome :=
  match r.command with
  | .identify file => do
    let a ← Work.doing s!"reading agreement {file.text}" (Agreement.readFrom file)
    return { stdout := a.identifier.text ++ "\n" }
  | .errand e => fun site =>
    match r.effectiveSettings home site.files with
    | .error c => (.error c, site)
    | .ok s => e.perform s (runner s.pollMillis.toNat) site

def outcome (r : Request) (home : Path) (runner : (poll : Nat) → Runner σ) (site : Site σ) :
    Outcome × Site σ :=
  match r.perform home runner site with
  | (.ok outcome, site) => (outcome, site)
  | (.error c, site) => (c.outcome, site)

end Request

def usage : String :=
  "Usage: vidproof [OPTIONS] COMMAND\n\n" ++
  "Commands:\n" ++
  "  publish --input VIDEO --output LOCATOR  sample a video and submit an agreement on it\n" ++
  "  mine --sla ID                           prove the storage of a video and commit the proof\n" ++
  "  verify --sla ID                         check the committed proof\n" ++
  "  setup [--force]                         make the proving parameters\n" ++
  "  show-agreement --sla ID                 print an agreement\n" ++
  "  show-proof --sla ID                     print the size and the digest of a proof\n" ++
  "  identify --agreement FILE               print the identifier of an agreement\n\n" ++
  "Options:\n" ++
  "  --config FILE    file of settings\n" ++
  "  --work DIR       working directory\n" ++
  "  --bin-dir DIR    directory of the tools\n" ++
  "  --from ACCOUNT   account that signs transactions\n" ++
  "  -h, --help       print this text\n" ++
  "  -V, --version    print the version\n"

/-- The outcome for words that are no request. -/
def Stop.outcome : Stop → Outcome
  | misuse => { code := 2, stderr := "error: not a command line of this program\n\n" ++ usage }
  | help => { stdout := usage }
  | version => { stdout := "vidproof 0.1.0\n" }

def answer (words : List String) (home : Path) (runner : (poll : Nat) → Runner σ) (site : Site σ) :
    Outcome × Site σ :=
  match Request.ofWords words with
  | .error stop => (stop.outcome, site)
  | .ok r => r.outcome home runner site

/-- Does what words ask for, with tools that are processes; gives the files after it. -/
def run (words : List String) (home : Path) (fs : FileSystem) : Outcome × FileSystem :=
  let (outcome, site) := answer words home Supervisor.runnerEvery ⟨fs, Supervisor.ofHome home⟩
  (outcome, site.files)

end StorageProof.CommandLine
