import StorageProof.Call.Runner
import StorageProof.Files.Edit

/-!
# Scripted calls

A runner that makes no calls but answers from a script. Calls are told apart by their stage, and questions to
the ledger also by what they ask for. The first call of a kind gets the first reply for it, and so on; the last
reply is given again and again.
-/

namespace StorageProof

/-- A reply: what is done to the files, what is written to the declared output, and the result, where a failure
may speak of the call. -/
structure Reply where
  edits : List Edit := []
  written : Option Bytes := none
  failure : Option (Call → Failure) := none
  output : Output := {}

/-- The replies for each kind of call. -/
abbrev Script := List (String × List Reply)

namespace Script

def kind (call : Call) : String :=
  match call.stage with
  | .ledgerQuery => call.stage.name ++ " " ++ call.args.getD 2 ""
  | stage => stage.name

/-- The reply to a call of a kind after so many others. -/
def reply (script : Script) (kind : String) (before : Nat) : Reply :=
  match script.lookup kind with
  | none => {}
  | some replies => replies.getD before (replies.getLastD {})

end Script

/-- The files after the declared output of a call has been written. -/
def Reply.writeDeclared (r : Reply) (call : Call) (fs : FileSystem) : FileSystem :=
  match call.declared, r.written with
  | .file p, some bytes => fs.edit (.write p bytes)
  | _, _ => fs

def Reply.answer {σ : Type} (r : Reply) : Runner σ := fun call s =>
  let s := { s with files := r.writeDeclared call (s.files.edits r.edits) }
  match r.failure with
  | some failure => (.error (failure call), s)
  | none => (.ok r.output, s)

/-- Answers calls from a script; keeps the kinds of the calls so far. -/
def Script.runner (script : Script) : Runner (List String) := fun call s =>
  let kind := Script.kind call
  let (result, s) := (script.reply kind (s.tools.count kind)).answer call s
  (result, { s with tools := kind :: s.tools })

end StorageProof
