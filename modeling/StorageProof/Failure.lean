import StorageProof.Text.Quoted

/-!
# Failures

Every failure ends the operation that met it; nothing is tried again. A failure of a stage carries the
stage, the program, its arguments and what the tool wrote to standard error, so that an operator can run
the very same command by hand.
-/

namespace StorageProof

/-- Why the system refused something: an error number, or words of its own. -/
inductive SystemError
  | number (n : Int)
  | words (text : String)
  deriving DecidableEq, Repr

namespace SystemError

def notFound : SystemError := .number 2

def accessDenied : SystemError := .number 13

def alreadyExists : SystemError := .number 17

/-- A name on the way to the file is no directory. -/
def notADirectory : SystemError := .number 20

def isADirectory : SystemError := .number 21

/-- A file is no program. -/
def notAProgram : SystemError := .number 8

def nameTooLong : SystemError := .number 36

/-- The words of the system for its error numbers. -/
def wordings : List (Int × String) := [
  (1, "Operation not permitted"), (2, "No such file or directory"), (3, "No such process"),
  (4, "Interrupted system call"), (5, "Input/output error"), (6, "No such device or address"),
  (7, "Argument list too long"), (8, "Exec format error"), (9, "Bad file descriptor"),
  (10, "No child processes"), (11, "Resource temporarily unavailable"),
  (12, "Cannot allocate memory"), (13, "Permission denied"), (14, "Bad address"),
  (15, "Block device required"), (16, "Device or resource busy"), (17, "File exists"),
  (18, "Invalid cross-device link"), (19, "No such device"), (20, "Not a directory"),
  (21, "Is a directory"), (22, "Invalid argument"), (23, "Too many open files in system"),
  (24, "Too many open files"), (25, "Inappropriate ioctl for device"), (26, "Text file busy"),
  (27, "File too large"), (28, "No space left on device"), (29, "Illegal seek"),
  (30, "Read-only file system"), (31, "Too many links"), (32, "Broken pipe"),
  (33, "Numerical argument out of domain"), (34, "Numerical result out of range"),
  (35, "Resource deadlock avoided"), (36, "File name too long"), (37, "No locks available"),
  (38, "Function not implemented"), (39, "Directory not empty"),
  (40, "Too many levels of symbolic links"), (110, "Connection timed out"),
  (111, "Connection refused")]

/-- The words for an error number alone. -/
def wording (n : Int) : String :=
  match wordings.lookup n with
  | some wording => wording
  | none => s!"Unknown error {n}"

def message : SystemError → String
  | .number n => s!"{wording n} (os error {n})"
  | .words text => text

end SystemError

/-- How a process ended that did not succeed. -/
inductive Exit
  | code (n : Int)
  | signal
  deriving DecidableEq, Repr

def Exit.describe : Exit → String
  | .code n => s!"exit code {n}"
  | .signal => "terminated by signal"

inductive Failure
  /-- The program of a stage could not be started. -/
  | stageLaunch (stage program : String) (cause : SystemError)
  /-- A stage ran and did not succeed. -/
  | stageExecution (stage program : String) (args : List String) (exit : Exit) (stderr : String)
  /-- A stage succeeded without the output it declared. -/
  | artifactMissing (stage artifact : String)
  /-- The proof of a stage that succeeded could not be read back. -/
  | proofArtifactMissing (path : String)
  /-- An agreement that is not well formed. -/
  | malformedAgreement (reason : String)
  /-- A proof that is not well formed. -/
  | malformedProof (reason : String)
  /-- A public input that is not well formed. -/
  | malformedPublicInput (reason : String)
  /-- A text that is no identifier. -/
  | invalidIdentifier (text : String)
  /-- The ledger could not be asked. -/
  | ledgerQuery (id reason : String)
  /-- The ledger answered that it has no such agreement. -/
  | agreementNotFound (id : String)
  /-- The ledger answered that no proof has been committed. -/
  | commitNotFound (id : String)
  /-- A run was cancelled at a stage. -/
  | cancelled (stage : String)
  /-- Another run holds the working directory. -/
  | workDirBusy (path : String)
  /-- The configuration is wrong or a required input is absent. -/
  | config (reason : String)
  /-- A value could not be encoded. -/
  | encode (reason : String)
  /-- The file system refused something. -/
  | io (context : String) (cause : SystemError)
  deriving DecidableEq, Repr

namespace Failure

def message : Failure → String
  | stageLaunch stage program cause =>
    s!"stage {Text.ticked stage}: cannot launch {Text.ticked program}: {cause.message}"
  | stageExecution stage program args exit stderr =>
    s!"stage {Text.ticked stage} failed ({exit.describe}): " ++
      Text.ticked (program ++ " " ++ " ".intercalate args) ++ "\n" ++ stderr
  | artifactMissing stage artifact =>
    s!"stage {Text.ticked stage} reported success but produced no output at {artifact}"
  | proofArtifactMissing path => s!"proof artifact missing or empty: {path}"
  | malformedAgreement reason => s!"malformed agreement: {reason}"
  | malformedProof reason => s!"malformed proof: {reason}"
  | malformedPublicInput reason => s!"malformed public input: {reason}"
  | invalidIdentifier text => s!"invalid agreement identifier {Text.ticked text}"
  | ledgerQuery id reason => s!"ledger query for {Text.ticked id} failed: {reason}"
  | agreementNotFound id => s!"no agreement recorded for {Text.ticked id}"
  | commitNotFound id => s!"no proof committed for {Text.ticked id}"
  | cancelled stage => s!"cancelled during stage {Text.ticked stage}"
  | workDirBusy path => s!"working directory {path} is in use by another run"
  | config reason => s!"configuration: {reason}"
  | encode reason => s!"encode: {reason}"
  | io context cause => s!"{context}: {cause.message}"

/-- The stage a failure belongs to. -/
def stage? : Failure → Option String
  | stageLaunch stage .. => some stage
  | stageExecution stage .. => some stage
  | artifactMissing stage _ => some stage
  | cancelled stage => some stage
  | _ => none

/-- The system error a failure goes back to. -/
def cause? : Failure → Option SystemError
  | stageLaunch _ _ cause => some cause
  | io _ cause => some cause
  | _ => none

end Failure

end StorageProof
