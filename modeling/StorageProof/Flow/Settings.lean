import StorageProof.Failure
import StorageProof.Files.Path
import StorageProof.Text.Blank

/-!
# Settings

Everything a run needs besides its own inputs. Every setting has a default. The proving parameters lie in
the working directory unless they have a place of their own, and tools without a directory are looked up by
their bare names.
-/

namespace StorageProof

structure Tools where
  extractFrame : String := "extract-frame"
  phash : String := "rust-phash"
  zkp : String := "zkptrans"
  ledger : String := "ledger-cli"
  deriving DecidableEq, Repr

/-- Everything a run needs besides its own inputs. -/
structure Settings where
  /-- The directory of intermediate files, for one run at a time. -/
  workDir : Path
  /-- The directory of the tools. -/
  toolDir : Option Path := none
  /-- The account that signs transactions. -/
  signer : String := "tester0"
  /-- The reward offered with a new agreement. -/
  reward : String := "1vid"
  /-- The first frame to sample. -/
  frameOffset : UInt32 := 0
  /-- How many frames to sample. -/
  frameCount : UInt32 := 300
  /-- The file of the proving parameters. -/
  parameterFile : Option Path := none
  /-- How long to wait, in milliseconds, between two looks at the cancel token. -/
  pollMillis : UInt64 := 100
  tools : Tools := {}
  deriving DecidableEq, Repr

namespace Settings

/-- The settings of somebody who has set nothing. -/
def ofHome (home : Path) : Settings where
  workDir := home.join "test"

/-- The file name of the proving parameters in the working directory. -/
def parameterName : String := "zkpor_crs.dat"

def validate (s : Settings) : Except Failure Unit :=
  if s.frameCount = 0 then .error (.config "frame_count must be positive")
  else if Text.isAllBlank s.signer then .error (.config "signer must not be empty")
  else if Text.isAllBlank s.reward then .error (.config "reward must not be empty")
  else if s.pollMillis = 0 then .error (.config "poll_interval_ms must be positive")
  else .ok ()

/-- The program behind the name of a tool. -/
def program (s : Settings) (name : String) : Path :=
  match s.toolDir with
  | some directory => directory.join name
  | none => ⟨name⟩

def parameters (s : Settings) : Path := s.parameterFile.getD (s.workDir.join parameterName)

/-- The settings with those replaced for which there is something else. -/
def overriddenBy (s : Settings) (workDir toolDir : Option Path) (signer : Option String) : Settings :=
  { s with
    workDir := workDir.getD s.workDir
    toolDir := toolDir.or s.toolDir
    signer := signer.getD s.signer }

end Settings

end StorageProof
