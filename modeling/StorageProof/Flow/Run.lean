import StorageProof.Flow.Lease
import StorageProof.Flow.Report
import StorageProof.Flow.Settings

/-!
# Runs

A run begins once the settings are valid and the lease on the working directory is taken. What it does is a
course: actions, and between them the states that the run enters. Whatever comes out, the lease is given up
and the report kept; a run that has not begun leaves the last report as it is.
-/

namespace StorageProof

variable {σ α : Type}

/-- Actions with the states that a run enters between them, oldest first. -/
abbrev Course (σ : Type) := ExceptT Failure (StateM (Site σ × List RunState))

namespace Course

def enter (next : RunState) : Course σ Unit := fun (s, history) => (.ok (), (s, history ++ [next]))

/-- Acts without entering a state. -/
def act (a : Action σ α) : Course σ α := fun (s, history) =>
  let (result, s) := a s
  (result, (s, history))

end Course

/-- A site, and the report of the last run that has been there. -/
structure Desk (σ : Type) where
  site : Site σ
  last : Option Report := none

/-- What is left of a run when its course is over: its result, and the report of it. -/
def concluded (flow : Flow) (history : List RunState) :
    Except Failure α → Except Failure (α × Report) × Report
  | .ok a => (.ok (a, ⟨flow, history ++ [.done]⟩), ⟨flow, history ++ [.done]⟩)
  | .error e => (.error e, ⟨flow, history ++ [.ofFailure history e]⟩)

/-- Conducts a run: takes the lease, follows the course, gives up the lease and keeps the report. -/
def Settings.conduct (s : Settings) (flow : Flow) (course : Lease → Course σ α) (d : Desk σ) :
    Except Failure (α × Report) × Desk σ :=
  match s.validate with
  | .error e => (.error e, d)
  | .ok () =>
    match Lease.acquire s.workDir d.site with
    | (.error e, site) => (.error e, { d with site })
    | (.ok lease, site) =>
      let (result, site, history) := course lease (site, [.init])
      let (outcome, report) := concluded flow history result
      (outcome, ⟨lease.release site, some report⟩)

end StorageProof
