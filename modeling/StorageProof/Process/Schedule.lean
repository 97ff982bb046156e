import StorageProof.Call.Basic
import StorageProof.Failure

/-!
# Watching a child process

A child is watched until it has ended or the cancel token is seen tripped, and then the two pipes it wrote to are
read until nobody holds them open any longer, again with a look at the token from time to time. A schedule says
what each look finds; that a child cannot be waited for or killed, or a pipe not be read, is left out. What comes
out, and what becomes of the child, depends on the schedule alone.
-/

namespace StorageProof

/-- What a look at a running child finds. -/
inductive Look
  /-- The child has ended. -/
  | ended (how : Exit)
  /-- The child is running, and the token is tripped or not. -/
  | running (tripped : Bool)
  deriving DecidableEq, Repr

/-- What comes out of a pipe, and what looks at it find after the child has ended: whether the token is tripped
at each look at which the pipe is still open, and whether it closes after these. -/
structure Pipe where
  bytes : Bytes
  stillOpen : List Bool := []
  closes : Bool := true
  deriving DecidableEq, Repr

/-- Everything that is seen of one call. Failures to wait for the child, to kill it or to read a pipe are left
out. -/
structure Schedule where
  /-- Whether the token is tripped when the call is made. -/
  trippedBefore : Bool := false
  /-- Why the program does not start, if it does not. -/
  refusal : Option SystemError := none
  looks : List Look
  stdout : Pipe
  stderr : Pipe
  deriving DecidableEq, Repr

inductive Fate
  | neverStarted
  /-- It has ended by itself. -/
  | ended
  /-- It has been killed and waited for. -/
  | killed
  deriving DecidableEq, Repr

namespace Schedule

/-- The first look that settles something: how the child ended, or nothing if the token was seen tripped before.
No look at all may settle anything. -/
def watch : List Look → Option (Option Exit)
  | [] => none
  | .ended how :: _ => some (some how)
  | .running true :: _ => some none
  | .running false :: rest => watch rest

/-- The bytes of a pipe, or nothing if the token was seen tripped while the pipe was open. A pipe may stay open
for ever. -/
def Pipe.collect (p : Pipe) : Option (Option Bytes) :=
  if p.stillOpen.any id then some none
  else if p.closes then some (some p.bytes)
  else none

/-- The result of a call whose child has ended and whose pipes have been read. -/
def classify (call : Call) (stdout stderr : Bytes) : Exit → Except Failure Output
  | .code 0 => .ok ⟨stdout, Utf8.lossy stderr⟩
  | how =>
    .error (.stageExecution call.stage.name call.program.text call.args how (Utf8.lossy stderr))

/-- The result of a call whose child has ended. -/
def collect (s : Schedule) (call : Call) (how : Exit) : Option (Except Failure Output) :=
  let cancelled : Except Failure Output := .error (.cancelled call.stage.name)
  match Pipe.collect s.stdout with
  | none => none
  | some none => some cancelled
  | some (some stdout) =>
    match Pipe.collect s.stderr with
    | none => none
    | some none => some cancelled
    | some (some stderr) => some (classify call stdout stderr how)

/-- The result of a call and what becomes of the child; nothing if the call does not come to an end. -/
def run (s : Schedule) (call : Call) : Option (Except Failure Output × Fate) :=
  let cancelled : Except Failure Output := .error (.cancelled call.stage.name)
  if s.trippedBefore then some (cancelled, .neverStarted)
  else match s.refusal with
    | some cause =>
      some (.error (.stageLaunch call.stage.name call.program.text cause), .neverStarted)
    | none =>
      match watch s.looks with
      | none => none
      | some none => some (cancelled, .killed)
      | some (some how) => (s.collect call how).map (·, .ended)

end Schedule

end StorageProof
