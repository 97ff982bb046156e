import StorageProof.Call.Runner
import StorageProof.Process.Child

/-!
# Running calls as processes

The runner that starts programs. Once its token is tripped it starts nothing any more; a child that is running at
that time is killed, and what it would have done later does not happen.
-/

namespace StorageProof

/-- What a runner of processes knows: how often to look at the token, whether it is tripped, and when, after the
start of the next call, it is going to be. -/
structure Supervisor where
  home : Path
  poll : Nat
  tripped : Bool := false
  trip : Instant := none
  deriving DecidableEq, Repr

namespace Supervisor

/-- The files that a child leaves behind at a time. -/
def filesAt (s : Supervisor) (fs : FileSystem) (program : Program) (call : Call) (c : Child) (time : Nat) :
    FileSystem :=
  if c.isOver time then c.machine.files
  else (Child.follow s.home fs program call (some time)).machine.files

/-- What is seen of a call, and the files after it. -/
def observe (s : Supervisor) (fs : FileSystem) (call : Call) : Schedule × FileSystem :=
  let nothing : Schedule := { looks := [], stdout := { bytes := [] }, stderr := { bytes := [] } }
  if s.tripped then ({ nothing with trippedBefore := true }, fs)
  else match Program.ofCall fs call with
    | .error cause => ({ nothing with refusal := some cause }, fs)
    | .ok program =>
      let c := Child.follow s.home fs program call none
      let (schedule, time) := c.timeline.schedule (max 1 s.poll) s.trip
      (schedule, s.filesAt fs program call c time)

/-- The supervisor with its token tripped, by now or by the end of the call that it was to be tripped in. -/
def settle (s : Supervisor) (cancelled : Bool) : Supervisor :=
  { s with tripped := s.tripped || s.trip.isSome || cancelled, trip := none }

def runner : Runner Supervisor := fun call site =>
  let (schedule, files) := site.tools.observe site.files call
  let result := match schedule.run call with
    | some (result, _) => result
    | none => .error (.cancelled call.stage.name)
  (result, ⟨files, site.tools.settle false⟩)

/-- A supervisor that nobody cancels. -/
def ofHome (home : Path) : Supervisor := { home, poll := 1 }

/-- The runner with an interval of its own between two looks at the token. -/
def runnerEvery (poll : Nat) : Runner Supervisor := fun call site =>
  runner call { site with tools := { site.tools with poll } }

end Supervisor

end StorageProof
