import StorageProof.Files.FileSystem
import StorageProof.Call.Basic

/-!
# Runners

A runner makes calls. It is any function that may look at and change the files and a state of its own, and
answers with an output or a failure. `Runner.recording` makes the same calls and keeps, for each of them,
the files as they were when it was made.
-/

namespace StorageProof

/-- The files, and the state of whatever makes the calls. -/
structure Site (σ : Type) where
  files : FileSystem
  tools : σ

/-- Something that is done at a site and may fail; what has been changed by then stays changed. -/
abbrev Action (σ : Type) := ExceptT Failure (StateM (Site σ))

abbrev Runner (σ : Type) := Call → Action σ Output

namespace Action

variable {σ α : Type}

def files : Action σ FileSystem := fun s => (.ok s.files, s)

def fail (e : Failure) : Action σ α := fun s => (.error e, s)

def ofExcept (r : Except Failure α) : Action σ α := fun s => (r, s)

/-- Reads from the files, with words for the failure. -/
def reading (context : String) (f : FileSystem → Except SystemError α) : Action σ α := fun s =>
  match f s.files with
  | .ok a => (.ok a, s)
  | .error e => (.error (.io context e), s)

/-- Changes the files at once or not at all, with words for the failure. -/
def changing (context : String) (f : FileSystem → Except SystemError FileSystem) : Action σ Unit :=
  fun s =>
    match f s.files with
    | .ok fs => (.ok (), { s with files := fs })
    | .error e => (.error (.io context e), s)

/-- Changes the files step by step, with words for the failure. -/
def working (context : String) (f : FileSystem → Except SystemError Unit × FileSystem) :
    Action σ Unit := fun s =>
  match f s.files with
  | (.ok (), fs) => (.ok (), { s with files := fs })
  | (.error e, fs) => (.error (.io context e), { s with files := fs })

end Action

structure Launch where
  call : Call
  files : FileSystem

/-- Makes the calls of another runner and keeps them, oldest first. -/
def Runner.recording {σ : Type} (r : Runner σ) : Runner (σ × List Launch) := fun call s =>
  let (result, inner) := r call ⟨s.files, s.tools.1⟩
  (result, ⟨inner.files, inner.tools, s.tools.2 ++ [⟨call, s.files⟩]⟩)

end StorageProof
