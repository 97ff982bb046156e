import StorageProof.Call.Basic
import StorageProof.Flow.Settings

/-!
# Calls of the tools

The command line of each stage, with the output that it declares.
-/

namespace StorageProof.Settings

def extractFrames (s : Settings) (source : String) (frames : Path) : Call where
  stage := .extractFrames
  program := s.program s.tools.extractFrame
  args := ["-f", toString s.frameOffset.toNat, "-c", toString s.frameCount.toNat, "--scale", "--input", source,
    "--output", frames.text]
  declared := .file frames

def perceptualHash (s : Settings) (frames hashes : Path) : Call where
  stage := .perceptualHash
  program := s.program s.tools.phash
  args := [frames.text, hashes.text]
  declared := .file hashes

/-- Requests a challenge, which is printed. -/
def challenge (s : Settings) (hashes : Path) : Call where
  stage := .challenge
  program := s.program s.tools.zkp
  args := ["zkporchallenge", hashes.text]
  declared := .stdout

def generateProof (s : Settings) (parameters proof hashes witness : Path) : Call where
  stage := .generateProof
  program := s.program s.tools.zkp
  args := ["zkporgenproof", parameters.text, proof.text, hashes.text, witness.text]
  declared := .file proof

/-- Checks a proof; the verdict is printed. -/
def verifyProof (s : Settings) (parameters proof publicInputs : Path) : Call where
  stage := .verifyProof
  program := s.program s.tools.zkp
  args := ["zkporverify", parameters.text, proof.text, publicInputs.text]
  declared := .stdout

def setupParameters (s : Settings) (parameters : Path) : Call where
  stage := .setupCrs
  program := s.program s.tools.zkp
  args := ["zkporsetup", parameters.text]
  declared := .file parameters

end StorageProof.Settings
