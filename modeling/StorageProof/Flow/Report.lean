import StorageProof.Failure

/-!
# Reports of runs

A run goes through states in one direction, from the first to one of two terminal ones. The report of a
finished run is the list of the states it went through. A failed run names the stage that failed, or where
the failure names none, the state that the run was in.
-/

namespace StorageProof

inductive Flow
  | publish
  | mine
  | verify
  | setup
  deriving DecidableEq, Repr

namespace Flow

def all : List Flow := [publish, mine, verify, setup]

def name : Flow → String
  | publish => "publish"
  | mine => "mine"
  | verify => "verify"
  | setup => "setup"

/-- The kind of run with a name. -/
def ofName? (s : String) : Option Flow := all.find? (·.name == s)

end Flow

inductive RunState
  /-- It has not begun. -/
  | init
  /-- It asks the ledger. -/
  | resolving
  /-- It samples frames. -/
  | extracting
  /-- It hashes frames. -/
  | hashing
  /-- It requests a challenge. -/
  | challenging
  /-- It makes a proof or the proving parameters. -/
  | proving
  /-- It checks a proof. -/
  | verifying
  /-- It submits its one transaction. -/
  | submitting
  /-- It has come to its end. -/
  | done
  /-- It has failed. -/
  | failed (stage cause : String)
  deriving DecidableEq, Repr

namespace RunState

def name : RunState → String
  | init => "init"
  | resolving => "resolving"
  | extracting => "extracting"
  | hashing => "hashing"
  | challenging => "challenging"
  | proving => "proving"
  | verifying => "verifying"
  | submitting => "submitting"
  | done => "done"
  | failed .. => "failed"

/-- The states but for the failed ones. -/
def plain : List RunState :=
  [init, resolving, extracting, hashing, challenging, proving, verifying, submitting, done]

/-- The state with a name, failed ones excepted. -/
def ofName? (s : String) : Option RunState := plain.find? (·.name == s)

def describe : RunState → String
  | failed stage cause => s!"failed in {stage}: {cause}"
  | s => s.name

/-- The place of a state in the order that runs keep to. -/
def rank : RunState → Nat
  | init => 0
  | resolving => 1
  | extracting => 2
  | hashing => 3
  | challenging => 4
  | proving => 5
  | verifying => 6
  | submitting => 7
  | done => 8
  | failed .. => 9

def isTerminal : RunState → Bool
  | done | failed .. => true
  | _ => false

def canAdvanceTo (a b : RunState) : Bool := !a.isTerminal && decide (a.rank < b.rank)

/-- Anything but an end may fail. -/
theorem canAdvanceTo_failed {a : RunState} (h : a.isTerminal = false) (stage cause : String) :
    a.canAdvanceTo (failed stage cause) = true := by
  cases a <;> simp_all [canAdvanceTo, isTerminal, rank]

end RunState

/-- What a finished run hands back: its kind and the states it went through. -/
structure Report where
  flow : Flow
  history : List RunState
  deriving DecidableEq, Repr

namespace Report

def last? (r : Report) : Option RunState := r.history.getLast?

def failedStage? (r : Report) : Option String :=
  match r.last? with
  | some (.failed stage _) => some stage
  | _ => none

end Report

def currentState (history : List RunState) : RunState := history.getLast?.getD .init

/-- The failed state of a run with a history. -/
def RunState.ofFailure (history : List RunState) (e : Failure) : RunState :=
  .failed (e.stage?.getD (currentState history).name) e.message

end StorageProof
