import StorageProof.Proofs.Agreement.Presentation
import StorageProof.Proofs.Call.Making
import StorageProof.Proofs.ProofBlob
import StorageProof.Proofs.Text.Blank
import StorageProof.Proofs.Text.Lines

/-!
# What a question comes to

A question is one call. From what the runner has answered it can be told what comes out of it: that
the run was cancelled, that there is no record, that the ledger could not be asked, that the answer
is garbled, or the record. The five exclude one another, and one of them always comes out.
-/

namespace StorageProof

variable {σ α : Type}

/-! ## Failed calls -/

/-- The ledger's tool itself says that there is no record: it has run without success, and what it
has written to standard error has the words in it in some case. -/
def Failure.Denies : Failure → Prop
  | .stageExecution _ _ _ _ stderr => ∃ before words after,
      stderr.toList = before ++ words ++ after ∧ Text.lowerList words = "not found".toList
  | _ => False

namespace Account

theorem questionFailure_of_denies {q : Question} {id : Identifier} {e : Failure} (h : e.Denies) :
    questionFailure q id e = q.absent id := by
  cases e with
  | stageExecution stage program args exit stderr =>
    have hmarker := (Text.containsIgnoringCase_iff Question.absentMarker stderr).mpr h
    exact if_pos hmarker
  | _ => exact h.elim

/-- Every failure but a cancellation and a denial says that the ledger could not be asked. -/
theorem questionFailure_of_not_denies {q : Question} {id : Identifier} {e : Failure}
    (hcancelled : ∀ stage, e ≠ .cancelled stage) (h : ¬ e.Denies) :
    ∃ reason, questionFailure q id e = .ledgerQuery id.text reason := by
  cases e with
  | cancelled stage => exact absurd rfl (hcancelled stage)
  | stageExecution stage program args exit stderr =>
    have hmarker : ¬ Text.containsIgnoringCase Question.absentMarker stderr = true := fun hfound =>
      h ((Text.containsIgnoringCase_iff Question.absentMarker stderr).mp hfound)
    exact ⟨_, if_neg hmarker⟩
  | _ => exact ⟨_, rfl⟩

end Account

/-! ## Answers -/

/-- The failure of a question whose answer does not decode. -/
def Question.malformed : Question → String → Failure
  | agreement => .malformedAgreement
  | proof => .malformedProof

inductive Content (α : Type)
  /-- The word that there is no record. -/
  | nothing
  /-- Something that does not decode. -/
  | garbled
  | record (a : α)

/-- The content of an answer to a question makes the question come to a result. -/
def Content.Makes (q : Question) (id : Identifier) : Content α → Except Failure α → Prop
  | nothing, r => r = .error (q.absent id)
  | garbled, r => ∃ reason, r = .error (q.malformed reason)
  | record a, r => r = .ok a

theorem Question.absent_ne_malformed (q : Question) (id : Identifier) (reason : String) :
    q.absent id ≠ q.malformed reason := by
  cases q <;> exact fun h => nomatch h

/-- The result tells the content. -/
theorem Content.Makes.unique {q : Question} {id : Identifier} {c c' : Content α}
    {r : Except Failure α} (h : c.Makes q id r) (h' : c'.Makes q id r) : c = c' := by
  cases c with
  | nothing =>
    cases h
    cases c' with
    | nothing => rfl
    | garbled =>
      obtain ⟨reason, h'⟩ := h'
      exact absurd (Except.error.inj h') (q.absent_ne_malformed id reason)
    | record a => cases h'
  | garbled =>
    obtain ⟨reason, rfl⟩ := h
    cases c' with
    | nothing => exact absurd (Except.error.inj h').symm (q.absent_ne_malformed id reason)
    | garbled => rfl
    | record a => cases h'
  | record a =>
    cases h
    cases c' with
    | nothing => cases h'
    | garbled =>
      obtain ⟨_, h'⟩ := h'
      cases h'
    | record b =>
      cases h'
      rfl

/-! ## Agreements and proofs in answers -/

/-- The text of an answer, without the blanks around it, is an envelope of another text. -/
def Encloses (answer text : String) : Prop :=
  envelopeShape.Presents (Utf8.ofString (Text.trim answer)) [text]

theorem Json.WritesItems.length_eq {first : Bool} {fields : List Json.Field} {t : Bytes}
    {texts : List String} (h : Json.WritesItems first fields t texts) :
    fields.length = texts.length := by
  induction h with
  | nil => rfl
  | cons _ _ _ _ ih => rw [List.length_cons, List.length_cons, ih]

/-- A document that presents a record presents a text for each of its fields. -/
theorem Json.Shape.Presents.length_eq {shape : Json.Shape} {doc : Bytes} {texts : List String}
    (h : shape.Presents doc texts) : shape.fields.length = texts.length := by
  cases h with
  | object _ _ _ hgiven => exact hgiven.length_eq
  | array _ ht _ _ => exact ht.length_eq

theorem unambiguous_envelopeShape : Json.Unambiguous envelopeShape.fields := by
  simp [Json.Unambiguous, envelopeShape]

/-- An envelope is opened if and only if it is one. -/
theorem readEnvelope_eq_ok_iff {doc : Bytes} {text : String} :
    readEnvelope doc = .ok text ↔ envelopeShape.Presents doc [text] := by
  rw [← Json.Shape.read_eq_ok_iff unambiguous_envelopeShape, readEnvelope]
  rcases hread : envelopeShape.read doc with fault | texts
  · exact iff_of_false (fun h => nomatch h) (fun h => nomatch h)
  · have hlength := (Json.Shape.Presents.length_eq
      ((Json.Shape.read_eq_ok_iff unambiguous_envelopeShape).mp hread)).symm
    obtain ⟨only, rfl⟩ := List.length_eq_one_iff.mp hlength
    simp

theorem readEnvelope_error {doc : Bytes} {e : Failure} (h : readEnvelope doc = .error e) :
    ∃ reason, e = .malformedAgreement reason := by
  unfold readEnvelope at h
  split at h
  · cases h
    exact ⟨_, rfl⟩
  · cases h

inductive Agreement.Contains (answer : String) : Content Agreement → Prop
  | blank (h : Text.isAllBlank answer = true) : Contains answer .nothing
  | empty {text : String} (h : Text.isAllBlank answer = false) (ht : Encloses answer text)
      (hempty : Text.isAllBlank text = true) : Contains answer .nothing
  | loose (h : Text.isAllBlank answer = false) (ht : ∀ text, ¬ Encloses answer text) :
      Contains answer .garbled
  | illegible {text : String} (h : Text.isAllBlank answer = false) (ht : Encloses answer text)
      (hfull : Text.isAllBlank text = false) (hno : ∀ a, parse (Utf8.ofString text) ≠ .ok a) :
      Contains answer .garbled
  | record {text : String} {a : Agreement} (h : Text.isAllBlank answer = false)
      (ht : Encloses answer text) (hfull : Text.isAllBlank text = false)
      (ha : parse (Utf8.ofString text) = .ok a) : Contains answer (.record a)

/-- What an answer about a proof contains. There is no envelope around a proof. -/
inductive ProofBlob.Contains (answer : String) : Content ProofBlob → Prop
  | blank (h : Text.isAllBlank answer = true) : Contains answer .nothing
  | empty {p : ProofBlob} (h : Text.isAllBlank answer = false)
      (hp : parse (Utf8.ofString (Text.trim answer)) = .ok p) (hempty : p.bytes = []) :
      Contains answer .nothing
  | illegible (h : Text.isAllBlank answer = false)
      (hno : ∀ p, parse (Utf8.ofString (Text.trim answer)) ≠ .ok p) : Contains answer .garbled
  | record {p : ProofBlob} (h : Text.isAllBlank answer = false)
      (hp : parse (Utf8.ofString (Text.trim answer)) = .ok p) (hfull : p.bytes ≠ []) :
      Contains answer (.record p)

theorem trim_ne_empty {answer : String} (h : Text.isAllBlank answer = false) :
    Text.trim answer ≠ "" := by
  rw [Ne, Text.trim_eq_empty_iff, h]
  exact Bool.false_ne_true

theorem Agreement.makes_ofAnswer {answer : String} {c : Content Agreement} (id : Identifier)
    (h : Contains answer c) : c.Makes .agreement id (ofAnswer id answer) := by
  have hread (text : String) (hanswer : Text.isAllBlank answer = false)
      (ht : Encloses answer text) :
      ofAnswer id answer = if Text.isAllBlank text then .error (Question.agreement.absent id)
        else parse (Utf8.ofString text) := by
    rw [ofAnswer, if_neg (trim_ne_empty hanswer), readEnvelope_eq_ok_iff.mpr ht]
    rfl
  cases h with
  | blank h => exact if_pos ((Text.trim_eq_empty_iff answer).mpr h)
  | empty h ht hempty =>
    rw [hread _ h ht, if_pos hempty]
    rfl
  | loose h ht =>
    rw [ofAnswer, if_neg (trim_ne_empty h)]
    rcases henvelope : readEnvelope (Utf8.ofString (Text.trim answer)) with e | text
    · obtain ⟨reason, rfl⟩ := readEnvelope_error henvelope
      exact ⟨reason, rfl⟩
    · exact absurd (readEnvelope_eq_ok_iff.mp henvelope) (ht text)
  | @illegible text h ht hfull hno =>
    rw [hread _ h ht, hfull, if_neg Bool.false_ne_true]
    rcases hparse : parse (Utf8.ofString text) with e | a
    · obtain ⟨reason, rfl⟩ := parse_error hparse
      exact ⟨reason, rfl⟩
    · exact absurd hparse (hno a)
  | record h ht hfull ha =>
    rw [hread _ h ht, hfull, if_neg Bool.false_ne_true, ha]
    rfl

theorem Agreement.exists_contains (answer : String) : ∃ c, Contains answer c := by
  cases hanswer : Text.isAllBlank answer with
  | true => exact ⟨_, .blank hanswer⟩
  | false =>
    by_cases hopen : ∃ text, Encloses answer text
    · obtain ⟨text, ht⟩ := hopen
      cases hinner : Text.isAllBlank text with
      | true => exact ⟨_, .empty hanswer ht hinner⟩
      | false =>
        by_cases hlegible : ∃ a, parse (Utf8.ofString text) = .ok a
        · obtain ⟨a, ha⟩ := hlegible
          exact ⟨_, .record hanswer ht hinner ha⟩
        · exact ⟨_, .illegible hanswer ht hinner (not_exists.mp hlegible)⟩
    · exact ⟨_, .loose hanswer (not_exists.mp hopen)⟩

theorem ProofBlob.makes_ofAnswer {answer : String} {c : Content ProofBlob} (id : Identifier)
    (h : Contains answer c) : c.Makes .proof id (ofAnswer id answer) := by
  have hread (p : ProofBlob) (hanswer : Text.isAllBlank answer = false)
      (hp : parse (Utf8.ofString (Text.trim answer)) = .ok p) :
      ofAnswer id answer = if p.isEmpty then .error (Question.proof.absent id) else .ok p := by
    rw [ofAnswer, if_neg (trim_ne_empty hanswer), hp]
    rfl
  cases h with
  | blank h => exact if_pos ((Text.trim_eq_empty_iff answer).mpr h)
  | empty h hp hempty =>
    rw [hread _ h hp, isEmpty, List.isEmpty_iff.mpr hempty]
    rfl
  | illegible h hno =>
    rw [ofAnswer, if_neg (trim_ne_empty h)]
    rcases hparse : parse (Utf8.ofString (Text.trim answer)) with e | p
    · obtain ⟨reason, rfl⟩ := parse_error hparse
      exact ⟨reason, rfl⟩
    · exact absurd hparse (hno p)
  | record h hp hfull =>
    rw [hread _ h hp, isEmpty, List.isEmpty_eq_false_iff.mpr hfull]
    rfl

theorem ProofBlob.exists_contains (answer : String) : ∃ c, Contains answer c := by
  cases hanswer : Text.isAllBlank answer with
  | true => exact ⟨_, .blank hanswer⟩
  | false =>
    by_cases hlegible : ∃ p, parse (Utf8.ofString (Text.trim answer)) = .ok p
    · obtain ⟨p, hp⟩ := hlegible
      by_cases hempty : p.bytes = []
      · exact ⟨_, .empty hanswer hp hempty⟩
      · exact ⟨_, .record hanswer hp hempty⟩
    · exact ⟨_, .illegible hanswer (not_exists.mp hlegible)⟩

/-! ## Questions -/

/-- What a question comes to, told from what the runner has answered to its call. -/
structure Question.Answered (q : Question) (id : Identifier) (contains : String → Content α → Prop)
    (answer : Except Failure Output) (r : Except Failure α) : Prop where
  /-- A cancellation stays what it is. -/
  cancelled : ∀ stage, r = .error (.cancelled stage) ↔ answer = .error (.cancelled stage)
  /-- There is no record: the ledger's tool says so, or its answer does. -/
  absent : r = .error (q.absent id) ↔ (∃ e, answer = .error e ∧ e.Denies) ∨
    ∃ output, answer = .ok output ∧ contains output.text .nothing
  /-- The ledger could not be asked. -/
  unasked : (∃ reason, r = .error (.ledgerQuery id.text reason)) ↔
    ∃ e, answer = .error e ∧ (∀ stage, e ≠ .cancelled stage) ∧ ¬ e.Denies
  /-- The answer does not decode. -/
  garbled : (∃ reason, r = .error (q.malformed reason)) ↔
    ∃ output, answer = .ok output ∧ contains output.text .garbled
  /-- The answer holds a record, which is given whatever it is. -/
  record : ∀ a, r = .ok a ↔ ∃ output, answer = .ok output ∧ contains output.text (.record a)

section Answered

variable {q : Question} {id : Identifier} {contains : String → Content α → Prop}

/-- What an answer contains does not look like a question that could not be put. -/
theorem Content.Makes.ne_error {c : Content α} {r : Except Failure α} {e : Failure}
    (h : c.Makes q id r) (habsent : q.absent id ≠ e)
    (hmalformed : ∀ reason, q.malformed reason ≠ e) : r ≠ .error e := by
  rintro rfl
  cases c with
  | nothing => exact habsent (Except.error.inj h).symm
  | garbled =>
    obtain ⟨reason, h⟩ := h
    exact hmalformed reason (Except.error.inj h).symm
  | record a => cases h

theorem Question.answered_ok {read : String → Except Failure α}
    (hmakes : ∀ text c, contains text c → c.Makes q id (read text))
    (htotal : ∀ text, ∃ c, contains text c) (output : Output) :
    q.Answered id contains (.ok output) (read output.text) := by
  obtain ⟨c, hc⟩ := htotal output.text
  have hmade := hmakes _ c hc
  have hcontent (c' : Content α) :
      c'.Makes q id (read output.text) ↔ ∃ o, (.ok output : Except Failure Output) = .ok o ∧
        contains o.text c' := by
    constructor
    · intro h
      rw [h.unique hmade]
      exact ⟨output, rfl, hc⟩
    · rintro ⟨_, ⟨⟩, h⟩
      exact hmakes _ c' h
  refine {
    cancelled := fun stage => iff_of_false (hmade.ne_error ?_ fun _ => ?_) fun h => nomatch h
    absent := ?absent
    unasked := iff_of_false (fun ⟨reason, h⟩ => hmade.ne_error ?_ (fun _ => ?_) h)
      fun ⟨_, h, _⟩ => nomatch h
    garbled := hcontent .garbled
    record := fun a => hcontent (.record a) }
  case absent =>
    refine (hcontent .nothing).trans ⟨.inr, fun h => h.resolve_left fun ⟨_, h, _⟩ => nomatch h⟩
  all_goals cases q <;> exact fun h => nomatch h

theorem Question.answered_error (e : Failure) :
    q.Answered id contains (.error e) (.error (Account.questionFailure q id e)) := by
  by_cases hcancelled : ∃ stage, e = .cancelled stage
  · obtain ⟨stage, rfl⟩ := hcancelled
    have hdenies : ¬ (Failure.cancelled stage).Denies := fun h => h
    cases q <;> constructor <;>
      simp [Account.questionFailure, Question.absent, Question.malformed, hdenies]
  have hcancelled := not_exists.mp hcancelled
  by_cases hdenies : e.Denies
  · rw [Account.questionFailure_of_denies hdenies]
    cases q <;> constructor <;>
      simp [Question.absent, Question.malformed, hdenies, hcancelled]
  · obtain ⟨reason, hreason⟩ := Account.questionFailure_of_not_denies hcancelled hdenies
    rw [hreason]
    cases q <;> constructor <;>
      simp [Question.absent, Question.malformed, hdenies, hcancelled]

end Answered

namespace Account

variable {account : Account} {run : Runner σ} {q : Question} {id : Identifier}
  {contains : String → Content α → Prop}

/-- A question is put in one call, and what comes of it can be told from what the runner answers. -/
structure Puts (account : Account) (run : Runner σ) (q : Question) (id : Identifier)
    (contains : String → Content α → Prop) (m : Action σ α)
    (observed : Action (σ × List Exchange) α) : Prop where
  /-- The call is made once, and nothing else is done to the site. -/
  once : ∀ s log, observed (s.watched log) = ((m s).1,
    (run (account.questionCall q id) s).2.watched
      (log ++ [run.exchange (account.questionCall q id) (s.watched log)]))
  site : ∀ s, (m s).2 = (run (account.questionCall q id) s).2
  answered : ∀ s, q.Answered id contains (run (account.questionCall q id) s).1 (m s).1

def asking (account : Account) (run : Runner σ) (q : Question) (id : Identifier)
    (read : String → Except Failure α) : Action σ α :=
  account.ask run q id >>= fun answer => Action.ofExcept (read answer)

/-- A question whose answer is read as what it contains. -/
theorem puts_asking {read : String → Except Failure α}
    (hmakes : ∀ text c, contains text c → c.Makes q id (read text))
    (htotal : ∀ text, ∃ c, contains text c) :
    account.Puts run q id contains (account.asking run q id read)
      (account.asking run.observed q id read) := by
  have hasked {τ : Type} (run : Runner τ) (s : Site τ) : account.asking run q id read s =
      (match (run (account.questionCall q id) s).1 with
        | .ok output => read output.text
        | .error e => .error (questionFailure q id e), (run (account.questionCall q id) s).2) := by
    rcases hrun : run (account.questionCall q id) s with ⟨e | output, s'⟩
    · have hask : account.ask run q id s = (.error (questionFailure q id e), s') := by
        simp only [ask, hrun]
      exact bind_of_error hask
    · have hask : account.ask run q id s = (.ok output.text, s') := by simp only [ask, hrun]
      exact bind_of_ok hask
  constructor
  case once =>
    intro s log
    rw [hasked, hasked]
    rfl
  case site =>
    intro s
    rw [hasked]
  case answered =>
    intro s
    rw [hasked]
    rcases (run (account.questionCall q id) s).1 with e | output
    · exact Question.answered_error e
    · exact Question.answered_ok hmakes htotal output

/-- Questions tell apart that there is no record, that the ledger could not be asked and that the
answer is garbled. Each is one call of the ledger's tool for the identifier, and it comes to the
cancellation of the call, to the word that there is no record, to another failure of the call, to an
answer that does not decode or to what the answer holds, each exactly where the runner has answered
so. An agreement is given as it is, under whatever identifier it has been asked for. -/
theorem questions_answered (account : Account) (run : Runner σ) (id : Identifier) :
    account.questionCall .agreement id = {
      stage := .ledgerQuery
      program := account.program
      args := ["q", "sla", "get", id.text] } ∧
    account.questionCall .proof id = {
      stage := .ledgerQuery
      program := account.program
      args := ["q", "sla", "commit", id.text] } ∧
    account.Puts run .agreement id Agreement.Contains (account.agreement run id)
      (account.agreement run.observed id) ∧
    account.Puts run .proof id ProofBlob.Contains (account.proof run id)
      (account.proof run.observed id) :=
  ⟨rfl, rfl, puts_asking (fun _ _ => Agreement.makes_ofAnswer id) Agreement.exists_contains,
    puts_asking (fun _ _ => ProofBlob.makes_ofAnswer id) ProofBlob.exists_contains⟩

end Account

end StorageProof
