import StorageProof.Process.Schedule

/-!
# Timelines

When a child ends and when its pipes are closed, on a clock that starts with the child. Looking at the child at
regular times makes a schedule of a timeline. While the child runs it is looked at once in a polling interval, and
its end is seen at once; after that the pipes are looked at at least every five milliseconds.
-/

namespace StorageProof

/-- When something happens; nothing if it never does. -/
abbrev Instant := Option Nat

namespace Instant

/-- How many whole intervals after a time it is before something has happened. -/
def intervals (i : Instant) (time interval : Nat) : Option Nat :=
  i.map fun instant => (instant - time + (interval - 1)) / interval

end Instant

/-- What a child does on a clock that starts with it. -/
structure Timeline where
  ending : Option (Nat × Exit)
  stdout : Bytes
  stderr : Bytes
  stdoutClosed : Instant
  stderrClosed : Instant
  deriving DecidableEq, Repr

namespace Timeline

/-- The longest time between two looks at a pipe. -/
def pipeInterval : Nat := 5

/-- The looks at a child, and the time of the last of them. -/
def looks (t : Timeline) (poll : Nat) (trip : Instant) : List Look × Nat :=
  let untilTrip := (trip.intervals 0 poll).map (max 1)
  match t.ending, untilTrip with
  | none, none => ([], 0)
  | none, some n => (List.replicate (n - 1) (.running false) ++ [.running true], n * poll)
  | some (finish, how), none =>
    (List.replicate ((finish + (poll - 1)) / poll - 1) (.running false) ++ [.ended how], finish)
  | some (finish, how), some n =>
    if n * poll < finish then
      (List.replicate (n - 1) (.running false) ++ [.running true], n * poll)
    else (List.replicate ((finish + (poll - 1)) / poll - 1) (.running false) ++ [.ended how], finish)

/-- The looks at a pipe from a time on, and the time of the last of them. -/
def pipe (bytes : Bytes) (closed trip : Instant) (interval start : Nat) : Pipe × Nat :=
  let untilClosed := closed.intervals start interval
  let untilTrip := trip.intervals start interval
  match untilClosed, untilTrip with
  | none, none => ({ bytes, closes := false }, start)
  | none, some n =>
    ({ bytes, stillOpen := List.replicate n false ++ [true] }, start + n * interval)
  | some n, none => ({ bytes, stillOpen := List.replicate n false }, start + n * interval)
  | some n, some m =>
    if m < n then ({ bytes, stillOpen := List.replicate m false ++ [true] }, start + m * interval)
    else ({ bytes, stillOpen := List.replicate n false }, start + n * interval)

/-- The schedule of a timeline, and the time at which its last look is taken. -/
def schedule (t : Timeline) (poll : Nat) (trip : Instant) : Schedule × Nat :=
  let (looks, time) := t.looks poll trip
  let interval := min poll pipeInterval
  let (stdout, time') := pipe t.stdout t.stdoutClosed trip interval time
  let (stderr, time'') := pipe t.stderr t.stderrClosed trip interval time'
  let last := match Schedule.watch looks with
    | some (some _) => if stdout.stillOpen.any id then time' else time''
    | _ => time
  ({ looks, stdout, stderr }, last)

end Timeline

end StorageProof
