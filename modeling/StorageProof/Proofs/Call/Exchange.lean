import StorageProof.Ledger.Account

/-!
# Calls and their answers

A runner under observation makes the same calls and keeps each of them with its answer and with the
files before and after it. A call is accepted if it has succeeded and has left what its stage is
judged by: a file that is not empty, output that is not blank, or an answer of the ledger that
decodes. A transaction needs nothing but success.
-/

namespace StorageProof

/-- A call with its answer, and the files before and after it. -/
structure Exchange where
  call : Call
  before : FileSystem
  answer : Except Failure Output
  after : FileSystem

/-- Makes the calls of another runner and keeps them with their answers, oldest first. -/
def Runner.observed {σ : Type} (r : Runner σ) : Runner (σ × List Exchange) := fun call s =>
  let (answer, inner) := r call ⟨s.files, s.tools.1⟩
  (answer, ⟨inner.files, inner.tools, s.tools.2 ++ [⟨call, s.files, answer, inner.files⟩]⟩)

/-! ## What a call is for -/

/-- The question with a word on the command line of the ledger's tool. -/
def Question.ofWord? (word : String) : Option Question :=
  [Question.agreement, .proof].find? (·.word == word)

@[simp] theorem Question.ofWord?_word (q : Question) : Question.ofWord? q.word = some q := by
  cases q <;> decide

/-- What a call is for: its stage, and where it asks the ledger, the question and the identifier
that it is asked about. -/
structure Purpose where
  stage : Stage
  asks : Option (Question × String) := none
  deriving DecidableEq, Repr

/-- The question that the words of a command line ask the ledger, and the identifier in it. -/
def Call.asks? (call : Call) : Option (Question × String) :=
  match call.args with
  | ["q", "sla", word, id] => (Question.ofWord? word).map (·, id)
  | _ => none

def Call.purpose (call : Call) : Purpose where
  stage := call.stage
  asks := if call.stage = .ledgerQuery then call.asks? else none

@[simp] theorem Account.asks?_questionCall (account : Account) (q : Question) (id : Identifier) :
    (account.questionCall q id).asks? = some (q, id.text) := by
  simp [Call.asks?, questionCall]

@[simp] theorem Account.purpose_questionCall (account : Account) (q : Question) (id : Identifier) :
    (account.questionCall q id).purpose = ⟨.ledgerQuery, some (q, id.text)⟩ := by
  simp [Call.purpose, show (account.questionCall q id).stage = .ledgerQuery from rfl]

/-! ## Acceptance -/

/-- Whether an answer of the ledger holds what was asked for. -/
def Question.Decodes (q : Question) (id : Identifier) (answer : String) : Prop :=
  match q with
  | .agreement => (Agreement.ofAnswer id answer).isOk
  | .proof => (ProofBlob.ofAnswer id answer).isOk

/-- Whether a call that succeeded has left what its stage is judged by. -/
def Exchange.Delivers (e : Exchange) (output : Output) : Prop :=
  match e.call.stage with
  | .extractFrames | .perceptualHash | .generateProof | .setupCrs =>
    ∃ p, e.call.declared = .file p ∧ e.after.isNonEmptyFile p
  | .challenge | .verifyProof => e.call.declared = .stdout ∧ Text.isAllBlank output.text = false
  | .ledgerQuery => ∃ q id, e.call.asks? = some (q, Identifier.text id) ∧ q.Decodes id output.text
  | .ledgerCreate | .ledgerCommit => True

/-- Whether a call has succeeded and left what its stage is judged by. -/
def Exchange.Accepted (e : Exchange) : Prop := ∃ output, e.answer = .ok output ∧ e.Delivers output

theorem Exchange.accepted_iff {e : Exchange} {output : Output} (h : e.answer = .ok output) :
    e.Accepted ↔ e.Delivers output := by
  constructor
  · rintro ⟨other, hother, hd⟩
    rw [h] at hother
    cases hother
    exact hd
  · intro hd
    exact ⟨output, h, hd⟩

theorem Exchange.not_accepted {e : Exchange} {f : Failure} (h : e.answer = .error f) :
    ¬ e.Accepted := by
  rintro ⟨output, ho, -⟩
  rw [h] at ho
  cases ho

/-- Whether a call declares the kind of output that its stage is judged by. -/
def Call.DeclaresForStage (call : Call) : Prop :=
  match call.stage with
  | .extractFrames | .perceptualHash | .generateProof | .setupCrs => ∃ p, call.declared = .file p
  | .challenge | .verifyProof => call.declared = .stdout
  | .ledgerCreate | .ledgerCommit => call.declared = .exitOnly
  | .ledgerQuery => False

end StorageProof
