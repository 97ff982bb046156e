import StorageProof.Call.Runner
import StorageProof.Text.Blank

/-!
# Declared outputs

A successful end is not enough: a call must leave the output it declared. What an earlier run has left in
the place of a declared file is removed before the call is made, so that it can never pass for the output
of this one.
-/

namespace StorageProof

variable {σ : Type}

namespace Stage

/-- The failure of a stage that has left no output. -/
def withoutOutput (stage : Stage) (output : String) : Failure := .artifactMissing stage.name output

/-- Requires a file that is not empty; gives its size. -/
def requireFile (stage : Stage) (p : Path) : Action σ Nat := fun s =>
  match s.files.inspect p with
  | .ok (.file bytes _ _) =>
    (if bytes.isEmpty then .error (stage.withoutOutput p.text) else .ok bytes.length, s)
  | .ok .directory => (.error (stage.withoutOutput p.text), s)
  | .error e =>
    (.error (if e = .notFound then stage.withoutOutput p.text else .io s!"inspecting {p.text}" e), s)

/-- Requires standard output that is not blank; gives it without the blanks around it. -/
def requireStdout (stage : Stage) (o : Output) : Except Failure String :=
  let text := Text.trim o.text
  if text = "" then .error (stage.withoutOutput "stdout") else .ok text

end Stage

/-- Removes a file that an earlier run may have left. -/
def clearStale (p : Path) : Action σ Unit := fun s =>
  match s.files.removeFile p with
  | .ok fs => (.ok (), { s with files := fs })
  | .error e =>
    if e = .notFound then (.ok (), s) else (.error (.io s!"removing stale {p.text}" e), s)

/-- Makes a call and holds it to the output it declared. -/
def Call.perform (run : Runner σ) (call : Call) : Action σ Output := do
  match call.declared with
  | .file p =>
    clearStale p
    let output ← run call
    let _ ← call.stage.requireFile p
    return output
  | .stdout =>
    let output ← run call
    let _ ← Action.ofExcept (call.stage.requireStdout output)
    return output
  | .exitOnly => run call

end StorageProof
