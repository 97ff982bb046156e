import StorageProof.Ledger.Account
import StorageProof.Proofs.Files.FileSystem
import StorageProof.Proofs.Ledger.Answer

/-!
# Ledgers as books

A ledger is taken for a book: it keeps what transactions tell it and answers questions out of it, in
whatever way its answers are written. What the tools of the flows are relied on for is said here
too.
-/

namespace StorageProof

variable {σ : Type}

/-- What a ledger has on record, by the texts of identifiers. -/
structure Book where
  agreement? : String → Option String
  proof? : String → Option String

namespace Book

def withAgreement (b : Book) (id text : String) : Book :=
  { b with agreement? := fun i => if i = id then some text else b.agreement? i }

def withProof (b : Book) (id text : String) : Book :=
  { b with proof? := fun i => if i = id then some text else b.proof? i }

@[simp] theorem agreement?_withAgreement (b : Book) (id text : String) :
    (b.withAgreement id text).agreement? id = some text := if_pos rfl

@[simp] theorem agreement?_withProof (b : Book) (id text : String) :
    (b.withProof id text).agreement? = b.agreement? := rfl

@[simp] theorem proof?_withProof (b : Book) (id text : String) :
    (b.withProof id text).proof? id = some text := if_pos rfl

/-- Two books have the same on record under an identifier. -/
def SameAt (id : Identifier) (b b' : Book) : Prop :=
  b.agreement? id.text = b'.agreement? id.text ∧ b.proof? id.text = b'.proof? id.text

end Book

namespace Runner

/-- The calls that succeed treat the ledger as a book: a transaction stores its JSON argument under
its identifier, nothing else changes the book, and a question for something on record is answered
with it, an agreement in an envelope and a proof as it is. -/
structure KeepsBook (run : Runner σ) (book : σ → Book) : Prop where
  create {call : Call} {s s' : Site σ} {output : Output} {reward id text signer : String}
    (hstage : call.stage = .ledgerCreate)
    (hargs : call.args = ["tx", "sla", "createSla", reward, id, text, "--yes", "--from", signer])
    (hrun : run call s = (.ok output, s')) : book s'.tools = (book s.tools).withAgreement id text
  commit {call : Call} {s s' : Site σ} {output : Output} {id text signer : String}
    (hstage : call.stage = .ledgerCommit)
    (hargs : call.args = ["tx", "sla", "commitProof", id, text, "--yes", "--from", signer])
    (hrun : run call s = (.ok output, s')) : book s'.tools = (book s.tools).withProof id text
  other {call : Call} {s s' : Site σ} {output : Output} (hstage : call.stage.mutatesLedger = false)
    (hrun : run call s = (.ok output, s')) : book s'.tools = book s.tools
  get {call : Call} {s s' : Site σ} {output : Output} {id text : String}
    (hstage : call.stage = .ledgerQuery) (hargs : call.args = ["q", "sla", "get", id])
    (hrecord : (book s.tools).agreement? id = some text) (hrun : run call s = (.ok output, s')) :
    Envelops output.stdout text
  getProof {call : Call} {s s' : Site σ} {output : Output} {id text : String}
    (hstage : call.stage = .ledgerQuery) (hargs : call.args = ["q", "sla", "commit", id])
    (hrecord : (book s.tools).proof? id = some text) (hrun : run call s = (.ok output, s')) :
    Holds output.stdout text

/-- A challenge that succeeds is the canonical text of a public input with white space behind it. -/
def Challenges (run : Runner σ) (input : PublicInput) : Prop :=
  ∀ (call : Call) (s s' : Site σ) (output : Output), call.stage = .challenge →
    run call s = (.ok output, s') →
      ∃ spaces, Json.AreSpaces spaces ∧ output.stdout = input.toJson.canonicalBytes ++ spaces

/-- A prover that succeeds has written the given bytes to the file it declared. -/
def Proves (run : Runner σ) (blob : Bytes) : Prop :=
  ∀ (call : Call) (s s' : Site σ) (output : Output) (p : Path), call.stage = .generateProof →
    call.declared = .file p → run call s = (.ok output, s') → s'.files.read p = .ok blob

variable {run : Runner σ} {book : σ → Book} {account : Account} {s s' : Site σ} {output : Output}

theorem KeepsBook.ofAnswer_get (h : run.KeepsBook book) {id : Identifier} {a : Agreement}
    (hrecord : (book s.tools).agreement? id.text = some a.canonical)
    (hrun : run (account.questionCall .agreement id) s = (.ok output, s')) :
    Agreement.ofAnswer id output.text = .ok a :=
  Agreement.ofAnswer_of_envelops (h.get rfl rfl hrecord hrun) id

theorem KeepsBook.ofAnswer_getProof (h : run.KeepsBook book) {id : Identifier} {p : ProofBlob}
    (hp : p.bytes ≠ []) (hrecord : (book s.tools).proof? id.text = some p.canonical)
    (hrun : run (account.questionCall .proof id) s = (.ok output, s')) :
    ProofBlob.ofAnswer id output.text = .ok p :=
  ProofBlob.ofAnswer_of_holds hp (h.getProof rfl rfl hrecord hrun) id

/-- The agreement made from a printed challenge carries the challenged public input. -/
theorem Challenges.merkleInput {input : PublicInput} (h : run.Challenges input)
    (hinput : input.IsHex)
    {call : Call} (hstage : call.stage = .challenge) (hrun : run call s = (.ok output, s'))
    (target : String) : (Agreement.mk target .phashMerkle output.text).merkleInput = .ok input := by
  obtain ⟨spaces, hspaces, hstdout⟩ := h call s s' output hstage hrun
  rw [Agreement.merkleInput, Output.text, hstdout]
  exact PublicInput.parse_printed hinput hspaces

/-! ## An honest runner -/

/-- Leaves bytes in the file that a call declares. -/
def leave (bytes : Bytes) (call : Call) : Action Book Output := fun s =>
  match call.declared with
  | .file p =>
    match s.files.write p bytes with
    | .ok fs => (.ok {}, { s with files := fs })
    | .error e => (.error (.io s!"write {p.text}" e), s)
  | _ => (.ok {}, s)

/-- What is on record, in an envelope or as it is. -/
def lookUp (b : Book) : List String → Option Bytes
  | [_, _, "get", id] => (b.agreement? id).map fun text =>
      (Json.objectOfTexts [("sla", text)]).canonicalBytes
  | [_, _, "commit", id] => (b.proof? id).map Utf8.ofString
  | _ => none

/-- The book after a transaction. -/
def enterInto (b : Book) : List String → Book
  | [_, _, "createSla", _, id, text, _, _, _] => b.withAgreement id text
  | [_, _, "commitProof", id, text, _, _, _] => b.withProof id text
  | _ => b

/-- Makes every call as it should be made, with the ledger's book as its state. -/
def honest (input : PublicInput) (blob : Bytes) : Runner Book := fun call s =>
  match call.stage with
  | .extractFrames | .perceptualHash | .setupCrs => leave [0x0A] call s
  | .generateProof => leave blob call s
  | .challenge => (.ok ⟨input.toJson.canonicalBytes ++ [0x0A], ""⟩, s)
  | .verifyProof => (.ok ⟨Utf8.ofString "result: true\n", ""⟩, s)
  | .ledgerCreate | .ledgerCommit => (.ok {}, { s with tools := enterInto s.tools call.args })
  | .ledgerQuery =>
    match lookUp s.tools call.args with
    | some stdout => (.ok ⟨stdout, ""⟩, s)
    | none => (.error
        (.stageExecution call.stage.name call.program.text call.args (.code 1) "not found"), s)

theorem leave_ok {bytes : Bytes} {call : Call} {s s' : Site Book} {output : Output}
    (h : leave bytes call s = (.ok output, s')) :
    s'.tools = s.tools ∧ ∀ p, call.declared = .file p → s'.files.read p = .ok bytes := by
  unfold leave at h
  cases hd : call.declared with
  | file p =>
    cases hw : s.files.write p bytes with
    | error e =>
      simp only [hd, hw] at h
      cases h
    | ok fs =>
      simp only [hd, hw] at h
      cases h
      refine ⟨rfl, fun q hq => ?_⟩
      cases hq
      exact FileSystem.read_write hw
  | stdout | exitOnly =>
    simp only [hd] at h
    cases h
    exact ⟨rfl, fun _ hq => by cases hq⟩

variable (input : PublicInput) (blob : Bytes)

theorem honest_query {call : Call} {s s' : Site Book} {output : Output}
    (hstage : call.stage = .ledgerQuery) (hrun : honest input blob call s = (.ok output, s')) :
    lookUp s.tools call.args = some output.stdout ∧ s' = s := by
  unfold honest at hrun
  simp only [hstage] at hrun
  cases hl : lookUp s.tools call.args with
  | none =>
    rw [hl] at hrun
    cases hrun
  | some stdout =>
    rw [hl] at hrun
    cases hrun
    exact ⟨rfl, rfl⟩

theorem keepsBook_honest : (honest input blob).KeepsBook id where
  create hstage hargs hrun := by
    unfold honest at hrun
    simp only [hstage, hargs] at hrun
    cases hrun
    rfl
  commit hstage hargs hrun := by
    unfold honest at hrun
    simp only [hstage, hargs] at hrun
    cases hrun
    rfl
  other {call s s' output} hstage hrun := by
    unfold honest at hrun
    cases hc : call.stage with
    | ledgerCreate | ledgerCommit =>
      rw [hc] at hstage
      cases hstage
    | extractFrames | perceptualHash | setupCrs | generateProof =>
      simp only [hc] at hrun
      exact (leave_ok hrun).1
    | challenge | verifyProof =>
      simp only [hc] at hrun
      cases hrun
      rfl
    | ledgerQuery =>
      rw [(honest_query input blob hc hrun).2]
  get {call s s' output id text} hstage hargs hrecord hrun := by
    have hl := (honest_query input blob hstage hrun).1
    have hrecord : s.tools.agreement? id = some text := hrecord
    rw [hargs, lookUp, hrecord] at hl
    rw [← Option.some.inj hl]
    exact envelops_canonical text
  getProof {call s s' output id text} hstage hargs hrecord hrun := by
    have hl := (honest_query input blob hstage hrun).1
    have hrecord : s.tools.proof? id = some text := hrecord
    rw [hargs, lookUp, hrecord] at hl
    rw [← Option.some.inj hl]
    exact holds_ofString text

theorem challenges_honest : (honest input blob).Challenges input := by
  intro call s s' output hstage hrun
  unfold honest at hrun
  simp only [hstage] at hrun
  cases hrun
  refine ⟨[0x0A], fun b hb => ?_, rfl⟩
  rw [List.mem_singleton.mp hb]
  decide

theorem proves_honest : (honest input blob).Proves blob := by
  intro call s s' output p hstage hd hrun
  unfold honest at hrun
  simp only [hstage] at hrun
  exact (leave_ok hrun).2 p hd

end Runner

end StorageProof
