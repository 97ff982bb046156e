import StorageProof.Proofs.Call.Success
import StorageProof.Proofs.Flow.Transactions

/-!
# What a verification accepts

Verifying tells that a proof is accepted or rejected only when the proving engine has said so of the
proof and the public inputs that the ledger has. Whatever stands in the way of the check is a
failure, and never a rejection.
-/

namespace StorageProof

variable {σ : Type}

namespace Settings

/-! ## Verifications that come to a verdict -/

/-- All that a verdict takes, step by step, with the site after each step that changes it. -/
structure Verification (s : Settings) (run : Runner σ) (id : Identifier) (d : Desk σ) where
  valid : s.validate = .ok ()
  lease : Lease
  start : Site σ
  acquired : Lease.acquire s.workDir d.site = (.ok lease, start)
  parameters : start.files.isNonEmptyFile s.parameters = true
  answer : Output
  asked : Site σ
  answered : run (s.account.questionCall .agreement id) start = (.ok answer, asked)
  agreement : Agreement
  decoded : Agreement.ofAnswer id answer.text = .ok agreement
  kind : agreement.kind = .phashMerkle
  input : PublicInput
  parsed : PublicInput.parse (Utf8.ofString agreement.publicInputs) = .ok input
  isHex : input.IsHex
  commitment : Output
  fetched : Site σ
  handedBack : run (s.account.questionCall .proof id) asked = (.ok commitment, fetched)
  proof : ProofBlob
  unpacked : ProofBlob.ofAnswer id commitment.text = .ok proof
  notEmpty : proof.bytes ≠ []
  stored : Site σ
  proofWritten : writeBytes (s.workDir.join "zkpor_committed_proof.dat") proof.bytes fetched =
    (.ok (), stored)
  ready : Site σ
  inputWritten : writeBytes (s.workDir.join "zkpor_public_inputs.json")
    input.toJson.canonicalBytes stored = (.ok (), ready)
  output : Output
  left : Site σ
  checked : run (s.verifyProof s.parameters (s.workDir.join "zkpor_committed_proof.dat")
    (s.workDir.join "zkpor_public_inputs.json")) ready = (.ok output, left)
  printed : Text.isAllBlank output.text = false
  accepted : Bool
  verdict : Verdict.ofOutput? output.text = some accepted

def Verification.audit {s : Settings} {run : Runner σ} {id : Identifier} {d : Desk σ}
    (v : s.Verification run id d) : Audit := ⟨v.accepted, v.proof.digest⟩

theorem requireParameters_eq_ok_iff (s : Settings) {site site' : Site σ} {p : Path} :
    s.requireParameters site = (.ok p, site') ↔
      site.files.isNonEmptyFile s.parameters = true ∧ p = s.parameters ∧ site' = site := by
  by_cases h : site.files.isNonEmptyFile s.parameters = true
  · rw [requireParameters, if_pos h, Prod.mk.injEq, Except.ok.injEq, eq_comm (a := p),
      eq_comm (a := site')]
    exact (and_iff_right h).symm
  · rw [requireParameters, if_neg h, Prod.mk.injEq]
    exact ⟨fun hok => (by cases hok.1), fun hok => absurd hok.1 h⟩

section Course

variable {s : Settings} {run : Runner σ} {id : Identifier} {d : Desk σ} {lease : Lease}

theorem committedProof_of_root (hroot : lease.root = s.workDir) :
    lease.committedProof = s.workDir.join "zkpor_committed_proof.dat" := by
  rw [Lease.committedProof, Lease.file, hroot]

theorem publicInputs_of_root (hroot : lease.root = s.workDir) :
    lease.publicInputs = s.workDir.join "zkpor_public_inputs.json" := by
  rw [Lease.publicInputs, Lease.file, hroot]

/-- A course that has come to its end has gone through all steps. -/
theorem Verification.of_course {start : Site σ} {audit : Audit} {st : Site σ × List RunState}
    (hvalid : s.validate = .ok ()) (hacquired : Lease.acquire s.workDir d.site = (.ok lease, start))
    (h : s.verifyCourse run id lease (start, [.init]) = (.ok audit, st)) :
    ∃ v : s.Verification run id d, v.audit = audit := by
  have hroot := Lease.root_of_acquire hacquired
  unfold verifyCourse at h
  obtain ⟨parameters, site, hparameters, h⟩ := Course.act_bind_eq_ok_iff.mp h
  obtain ⟨hnonempty, rfl, hsite⟩ := s.requireParameters_eq_ok_iff.mp hparameters
  rw [Course.enter_bind] at h
  obtain ⟨agreement, asked, hask, h⟩ := Course.act_bind_eq_ok_iff.mp h
  obtain ⟨answer, hanswered, hdecoded⟩ := Account.agreement_eq_ok_iff.mp hask
  obtain ⟨input, site', hread, h⟩ := Course.act_bind_eq_ok_iff.mp h
  obtain ⟨hinput, hsite'⟩ := Action.ofExcept_eq_ok_iff.mp hread
  obtain ⟨hkind, hparsed⟩ := Agreement.merkleInput_eq_ok_iff.mp hinput
  obtain ⟨proof, fetched, hfetch, h⟩ := Course.act_bind_eq_ok_iff.mp h
  obtain ⟨commitment, hhanded, hunpacked⟩ := Account.proof_eq_ok_iff.mp hfetch
  rw [hsite] at hanswered
  rw [hsite'] at hhanded
  obtain ⟨_, stored, hproof, h⟩ := Course.act_bind_eq_ok_iff.mp h
  obtain ⟨_, ready, hwritten, h⟩ := Course.act_bind_eq_ok_iff.mp h
  rw [Course.enter_bind] at h
  obtain ⟨output, left, hcheck, h⟩ := Course.act_bind_eq_ok_iff.mp h
  obtain ⟨hchecked, hprinted⟩ := (Call.perform_stdout_eq_ok_iff rfl).mp hcheck
  rw [committedProof_of_root hroot] at hproof hchecked
  rw [PublicInput.writeTo, publicInputs_of_root hroot] at hwritten
  rw [publicInputs_of_root hroot] at hchecked
  cases hverdict : Verdict.ofOutput? output.text with
  | none =>
    rw [hverdict] at h
    cases h
  | some accepted =>
    rw [hverdict] at h
    cases h
    exact ⟨{
      lease, start, answer, asked, agreement, input, commitment, fetched, proof, stored, ready,
        output, left, accepted
      valid := hvalid
      acquired := hacquired
      parameters := hnonempty
      answered := hanswered
      decoded := hdecoded
      kind := hkind
      parsed := hparsed
      isHex := PublicInput.isHex_of_parse hparsed
      handedBack := hhanded
      unpacked := hunpacked
      notEmpty := ProofBlob.ne_nil_of_ofAnswer hunpacked
      proofWritten := hproof
      inputWritten := hwritten
      checked := hchecked
      printed := hprinted
      verdict := hverdict }, rfl⟩

/-- Where all steps can be gone through, the course comes to its end. -/
theorem Verification.course (v : s.Verification run id d) :
    ∃ st, s.verifyCourse run id v.lease (v.start, [.init]) = (.ok v.audit, st) := by
  have hroot := Lease.root_of_acquire v.acquired
  have hinput : v.agreement.merkleInput = .ok v.input :=
    Agreement.merkleInput_eq_ok_iff.mpr ⟨v.kind, v.parsed⟩
  have hwritten : v.input.writeTo v.lease.publicInputs v.stored = (.ok (), v.ready) := by
    rw [PublicInput.writeTo, publicInputs_of_root hroot]
    exact v.inputWritten
  have hproof : writeBytes v.lease.committedProof v.proof.bytes v.fetched = (.ok (), v.stored) := by
    rw [committedProof_of_root hroot]
    exact v.proofWritten
  have hcheck : (s.verifyProof s.parameters v.lease.committedProof v.lease.publicInputs).perform run
      v.ready = (.ok v.output, v.left) := by
    rw [committedProof_of_root hroot, publicInputs_of_root hroot]
    exact (Call.perform_stdout_eq_ok_iff rfl).mpr ⟨v.checked, v.printed⟩
  refine ⟨(v.left, [.init, .resolving, .verifying]), ?_⟩
  refine Course.act_bind_eq_ok_iff.mpr ⟨s.parameters, v.start,
    s.requireParameters_eq_ok_iff.mpr ⟨v.parameters, rfl, rfl⟩, ?_⟩
  rw [Course.enter_bind]
  refine Course.act_bind_eq_ok_iff.mpr ⟨v.agreement, v.asked,
    Account.agreement_eq_ok_iff.mpr ⟨v.answer, v.answered, v.decoded⟩, ?_⟩
  refine Course.act_bind_eq_ok_iff.mpr ⟨v.input, v.asked,
    Action.ofExcept_eq_ok_iff.mpr ⟨hinput, rfl⟩, ?_⟩
  refine Course.act_bind_eq_ok_iff.mpr ⟨v.proof, v.fetched,
    Account.proof_eq_ok_iff.mpr ⟨v.commitment, v.handedBack, v.unpacked⟩, ?_⟩
  refine Course.act_bind_eq_ok_iff.mpr ⟨(), v.stored, hproof, ?_⟩
  refine Course.act_bind_eq_ok_iff.mpr ⟨(), v.ready, hwritten, ?_⟩
  rw [Course.enter_bind]
  refine Course.act_bind_eq_ok_iff.mpr ⟨v.output, v.left, hcheck, ?_⟩
  rw [v.verdict]
  rfl

/-- A verdict comes out if and only if all that it takes is given. -/
theorem verify_eq_ok_iff {audit : Audit} :
    (∃ r, (s.verify run id d).1 = .ok (audit, r)) ↔
      ∃ v : s.Verification run id d, v.audit = audit := by
  constructor
  · rintro ⟨r, h⟩
    obtain ⟨e, -, hfailed⟩ | ⟨e, site, -, -, hfailed⟩ | ⟨lease, site, hvalid, hacquired, hcourse⟩ :=
      s.conduct_cases .verify (s.verifyCourse run id) d
    · rw [verify, hfailed] at h
      cases h
    · rw [verify, hfailed] at h
      cases h
    · rw [verify, hcourse] at h
      rcases hend : s.verifyCourse run id lease (site, [.init]) with ⟨e | a, st⟩
      · rw [hend] at h
        cases h
      · rw [hend] at h
        cases h
        exact Verification.of_course hvalid hacquired hend
  · rintro ⟨v, rfl⟩
    obtain ⟨st, hend⟩ := v.course
    refine ⟨⟨.verify, st.2 ++ [.done]⟩, ?_⟩
    simp only [verify, conduct, v.valid, v.acquired, hend]
    rfl

/-! ## What is checked -/

/-- The launch of a check. Before it the ledger has answered with an agreement that has a Merkle
statement in it, and then with a proof. The files named on the command line hold that proof and a
text that is read as that statement. -/
structure Checks (s : Settings) (id : Identifier) (q c v : Exchange) (a : Agreement)
    (input : PublicInput) (p : ProofBlob) : Prop where
  asked : q.call = s.account.questionCall .agreement id
  answered : ∃ output, q.answer = .ok output ∧ Agreement.ofAnswer id output.text = .ok a
  kind : a.kind = .phashMerkle
  parsed : PublicInput.parse (Utf8.ofString a.publicInputs) = .ok input
  fetched : c.call = s.account.questionCall .proof id
  handedBack : ∃ output, c.answer = .ok output ∧ ProofBlob.ofAnswer id output.text = .ok p
  stage : v.call.stage = .verifyProof
  args : v.call.args = ["zkporverify", s.parameters.text,
    (s.workDir.join "zkpor_committed_proof.dat").text,
    (s.workDir.join "zkpor_public_inputs.json").text]
  proofFile : v.before.read (s.workDir.join "zkpor_committed_proof.dat") = .ok p.bytes
  inputFile : ∃ text, v.before.read (s.workDir.join "zkpor_public_inputs.json") = .ok text ∧
    PublicInput.parse text = .ok input

/-- Calls without a check, or with one check after the two questions. -/
def ChecksLast (s : Settings) (id : Identifier) (log : List Exchange) : Prop :=
  AllCalls (·.stage ≠ .verifyProof) log ∨
    ∃ q c v a input p, log = [q, c, v] ∧ s.Checks id q c v a input p

/-- One check is made at most. -/
theorem Checks.eq_of_mem {q c v e : Exchange} {a : Agreement} {input : PublicInput} {p : ProofBlob}
    (h : s.Checks id q c v a input p) (he : e ∈ [q, c, v]) (hstage : e.call.stage = .verifyProof) :
    e = v := by
  simp only [List.mem_cons, List.not_mem_nil, or_false] at he
  rcases he with rfl | rfl | rfl
  · rw [h.asked] at hstage
    cases hstage
  · rw [h.fetched] at hstage
    cases hstage
  · rfl

/-- The two answers of the ledger that a check is made with. -/
structure Fetched (s : Settings) (id : Identifier) (q c : Exchange) (a : Agreement)
    (input : PublicInput) (p : ProofBlob) : Prop where
  asked : q.call = s.account.questionCall .agreement id
  answered : ∃ output, q.answer = .ok output ∧ Agreement.ofAnswer id output.text = .ok a
  statement : a.merkleInput = .ok input
  fetched : c.call = s.account.questionCall .proof id
  handedBack : ∃ output, c.answer = .ok output ∧ ProofBlob.ofAnswer id output.text = .ok p

/-- The last part of a verification, from the answers of the ledger on. -/
def checkCourse (s : Settings) (run : Runner σ) (lease : Lease) (input : PublicInput)
    (p : ProofBlob) : Course σ Audit := do
  Course.act (writeBytes lease.committedProof p.bytes)
  Course.act (input.writeTo lease.publicInputs)
  Course.enter .verifying
  let output ← Course.act
    ((s.verifyProof s.parameters lease.committedProof lease.publicInputs).perform run)
  match Verdict.ofOutput? output.text with
  | some accepted => return ⟨accepted, p.digest⟩
  | none => Course.act (Action.fail (Stage.verifyProof.withoutOutput "verdict line on stdout"))

section Check

variable {q c : Exchange} {a : Agreement} {input : PublicInput} {p : ProofBlob}

theorem Fetched.checksLast (h : s.Fetched id q c a input p) : s.ChecksLast id [q, c] := by
  refine .inl ?_
  simp [h.asked, h.fetched, Account.questionCall]

/-- A check that is launched where both files have been written. -/
theorem Fetched.checks (h : s.Fetched id q c a input p) (hroot : lease.root = s.workDir)
    {v : Exchange} {fs : FileSystem} (hproof : fs.read lease.committedProof = .ok p.bytes)
    (hinput : fs.read lease.publicInputs = .ok input.toJson.canonicalBytes)
    (hv : v.LaunchedAt (s.verifyProof s.parameters lease.committedProof lease.publicInputs) fs) :
    s.Checks id q c v a input p := by
  have hbefore : v.before = fs := hv.untouched fun _ hp => by cases hp
  obtain ⟨hkind, hparsed⟩ := Agreement.merkleInput_eq_ok_iff.mp h.statement
  rw [← hbefore, committedProof_of_root hroot] at hproof
  rw [← hbefore, publicInputs_of_root hroot] at hinput
  have hread : PublicInput.parse input.toJson.canonicalBytes = .ok input :=
    PublicInput.parse_of_spells (PublicInput.isHex_of_parse hparsed) input.spells_canonicalBytes
  refine {
    asked := h.asked
    answered := h.answered
    kind := hkind
    parsed := hparsed
    fetched := h.fetched
    handedBack := h.handedBack
    stage := ?stage
    args := ?args
    proofFile := hproof
    inputFile := ⟨_, hinput, hread⟩ }
  case stage =>
    rw [hv.call_eq]
    rfl
  case args =>
    rw [hv.call_eq, committedProof_of_root hroot, publicInputs_of_root hroot]
    rfl

/-- The last part of a verification makes one check, if it comes to it. -/
theorem Fetched.ends_check (h : s.Fetched id q c a input p) (run : Runner σ)
    (hroot : lease.root = s.workDir) {st : Site (σ × List Exchange) × List RunState}
    (hst : st.1.log = [q, c]) :
    Ends (s.checkCourse run.observed lease input p) st
      (fun _ st' => s.ChecksLast id (Course.log st'))
      (fun _ st' => s.ChecksLast id (Course.log st')) := by
  have hbefore {s' : Site (σ × List Exchange)} (hlog : s'.log = [q, c]) :
      s.ChecksLast id s'.log := by
    rw [hlog]
    exact h.checksLast
  refine Course.ends_act (ends_writeBytes_keeps lease.committedProof p.bytes st.1)
    (fun _ s₁ h₁ => ?_) (fun _ _ h₁ => hbefore (h₁.trans hst))
  obtain ⟨hlog₁, _, -, hproof⟩ := h₁
  have hlog₁ : s₁.log = [q, c] := hlog₁.trans hst
  refine Course.ends_act (ends_writeBytes_keeps lease.publicInputs input.toJson.canonicalBytes s₁)
    (fun _ s₂ h₂ => ?_) (fun _ _ h₂ => hbefore (h₂.trans hlog₁))
  obtain ⟨hlog₂, fs, hkeeps, hinput⟩ := h₂
  have hlog₂ : s₂.log = [q, c] := hlog₂.trans hlog₁
  have hproof₂ : s₂.files.read lease.committedProof = .ok p.bytes :=
    FileSystem.read_write_write hproof hkeeps hinput lease.committedProof_ne_publicInputs
  have hinput₂ := FileSystem.read_write hinput
  -- whatever the check comes to, it finds what has just been written
  have hlast {v : Exchange} {s' : Site (σ × List Exchange)} (hv : v.LaunchedAt (s.verifyProof
      s.parameters lease.committedProof lease.publicInputs) s₂.files)
      (hlog : s'.log = s₂.log ++ [v]) : s.ChecksLast id s'.log := by
    rw [hlog, hlog₂]
    exact .inr ⟨q, c, v, a, input, p, rfl, h.checks hroot hproof₂ hinput₂ hv⟩
  have hcheck := Call.ends_perform run
    (s.verifyProof s.parameters lease.committedProof lease.publicInputs) rfl s₂
  refine Course.ends_enter (Course.ends_act hcheck (fun output s₃ h₃ => ?_) fun _ s₃ h₃ => ?_)
  · obtain ⟨v, hv, -, -, hlog, -⟩ := h₃
    cases Verdict.ofOutput? output.text with
    | some accepted => exact .pure (hlast hv hlog)
    | none => exact .of_eq_error rfl (hlast hv hlog)
  · rcases h₃ with hlog | ⟨v, hv, hlog⟩
    · exact hbefore (hlog.trans hlog₂)
    · exact hlast hv hlog

end Check

theorem ends_ofExcept {α : Type} (r : Except Failure α) (site : Site σ) :
    Ends (Action.ofExcept r) site (fun a site' => r = .ok a ∧ site' = site)
      (fun _ site' => site' = site) := by
  cases r with
  | ok a => exact .of_eq_ok rfl ⟨rfl, rfl⟩
  | error e => exact .of_eq_error rfl rfl

/-- A verification ends before its last part, and has made no check then, or as this part ends. -/
theorem ends_verifyCourse_of_check (s : Settings) (run : Runner σ) (id : Identifier)
    {st : Site (σ × List Exchange) × List RunState} (hst : Course.log st = [])
    {done : Audit → Site (σ × List Exchange) × List RunState → Prop}
    {failed : Failure → Site (σ × List Exchange) × List RunState → Prop}
    (hnone : ∀ e st', AllCalls (·.stage ≠ .verifyProof) (Course.log st') → failed e st')
    (hcheck : ∀ q c a input p (st' : Site (σ × List Exchange) × List RunState),
      s.Fetched id q c a input p → st'.1.log = [q, c] →
        Ends (s.checkCourse run.observed lease input p) st' done failed) :
    Ends (s.verifyCourse run.observed id lease) st done failed := by
  have hnone₁ : AllCalls (·.stage ≠ .verifyProof) st.1.log := by
    rw [show st.1.log = [] from hst]
    exact allCalls_nil
  have hquestion (q : Question) : (s.account.questionCall q id).stage ≠ .verifyProof := by
    simp [Account.questionCall]
  refine Course.ends_act (s.ends_requireParameters st.1) (fun parameters s₁ h₁ => ?_)
    (fun e s₁ h₁ => hnone e _ (h₁ ▸ hnone₁))
  obtain ⟨rfl, rfl⟩ := h₁
  have hask := s.account.ends_agreement run id st.1
  refine Course.ends_enter (Course.ends_act hask (fun a s₂ h₂ => ?_)
    (fun e _ h₂ => hnone e _ (h₂.allCalls hnone₁ (hquestion .agreement))))
  obtain ⟨q, answer, hq, hanswer, ha, hlog₂, -⟩ := h₂
  rw [show st.1.log = [] from hst] at hlog₂
  have hlog₂ : s₂.log = [q] := hlog₂
  have hnone₂ : AllCalls (·.stage ≠ .verifyProof) s₂.log := by
    rw [hlog₂]
    simp [hq.call_eq, hquestion]
  refine Course.ends_act (ends_ofExcept a.merkleInput s₂) (fun input s₃ h₃ => ?_)
    (fun e s₃ h₃ => hnone e _ (h₃ ▸ hnone₂))
  obtain ⟨hstatement, rfl⟩ := h₃
  have hask' := s.account.ends_ask run .proof id (ProofBlob.ofAnswer id) s₃
  refine Course.ends_act hask' (fun p s₄ h₄ => ?_)
    (fun e _ h₄ => hnone e _ (h₄.allCalls hnone₂ (hquestion .proof)))
  obtain ⟨c, commitment, hc, hanswer', hp, hlog₄, -⟩ := h₄
  rw [hlog₂] at hlog₄
  exact hcheck q c a input p _ {
    asked := hq.call_eq
    answered := ⟨answer, hanswer, ha⟩
    statement := hstatement
    fetched := hc.call_eq
    handedBack := ⟨commitment, hanswer', hp⟩ } hlog₄

/-- A verification makes no check, or one with what the ledger has answered. -/
theorem ends_verifyCourse (s : Settings) (run : Runner σ) (id : Identifier)
    (hroot : lease.root = s.workDir) {st : Site (σ × List Exchange) × List RunState}
    (hst : Course.log st = []) :
    Ends (s.verifyCourse run.observed id lease) st
      (fun _ st' => s.ChecksLast id (Course.log st'))
      (fun _ st' => s.ChecksLast id (Course.log st')) :=
  s.ends_verifyCourse_of_check run id hst (fun _ _ hnone => .inl hnone)
    fun _ _ _ _ _ _ hfetched hlog => hfetched.ends_check run hroot hlog

end Course

/-- No verdict comes out of a verification but the one that the proving engine has given. It accepts
or rejects, with a digest, if and only if every step that a verdict takes is given and the engine
has printed that verdict, and the digest is that of the proof the ledger has handed back. In every
other case it fails. A check is launched only where the two files that it is given hold the proof
and the public inputs that the ledger has answered with. -/
theorem verify_verdict (s : Settings) (run : Runner σ) (id : Identifier) (d : Desk σ) :
    (∀ accepted digest, (∃ r, (s.verify run id d).1 = .ok (⟨accepted, digest⟩, r)) ↔
      ∃ v : s.Verification run id d,
        v.accepted = accepted ∧ Hex.toString (Sha256.digest v.proof.bytes) = digest) ∧
    (IsEmpty (s.Verification run id d) → ∃ f, (s.verify run id d).1 = .error f) ∧
    ∀ v ∈ s.callsOf run (.verify id) d, v.call.stage = .verifyProof →
      ∃ q c a input p, s.callsOf run (.verify id) d = [q, c, v] ∧ s.Checks id q c v a input p := by
  refine ⟨fun accepted digest => ?_, fun hnone => ?_, fun v hv hstage => ?_⟩
  · rw [verify_eq_ok_iff]
    refine exists_congr fun v => ?_
    rw [Verification.audit, Audit.mk.injEq]
    exact Iff.rfl
  · rcases h : (s.verify run id d).1 with f | ⟨audit, r⟩
    · exact ⟨f, rfl⟩
    · obtain ⟨v, -⟩ := verify_eq_ok_iff.mp ⟨r, h⟩
      exact hnone.elim v
  · obtain hnone | ⟨q, c, v', a, input, p, hlog, hc⟩ :
        s.ChecksLast id (s.callsOf run (.verify id) d) := by
      obtain ⟨_, _, -, h⟩ | ⟨_, -, h⟩ := s.undertake_of_ends run (.verify id) d
        (fun _ => s.ChecksLast id) (fun _ => s.ChecksLast id) (fun _ => .inl allCalls_nil)
        (fun _ _ hroot hsite => s.ends_verifyCourse run id hroot hsite)
      · exact h
      · exact h
    · exact absurd hstage (hnone v hv)
    · rw [hlog] at hv
      obtain rfl := hc.eq_of_mem hv hstage
      exact ⟨q, c, a, input, p, hlog, hc⟩

namespace Specimen

/-- An honest runner, but for a proving engine that ends well without a verdict. -/
def evasive : Runner Book := fun call s =>
  match call.stage with
  | .verifyProof => (.ok ⟨Utf8.ofString "result: maybe\n", ""⟩, s)
  | _ => run call s

/-- A desk with all that is needed, and a proof that an earlier run has left. -/
def revisited : Desk Book := stocked mined "zkpor_committed_proof.dat"

theorem verify_revisited :
    (settings.verify run.observed name (revisited.watched [])).1.map (·.1) =
      .ok ⟨true, (ProofBlob.mk blob).digest⟩ ∧
    ∃ e ∈ settings.callsOf run (.verify name) revisited, e.call.stage = .verifyProof := by
  decide +kernel

end Specimen

open Specimen in
/-- A check that is made is of the proof that the ledger has, and not of the one that was there
before; and where the engine does not decide, the proof is not rejected. -/
theorem verify_verdict_revisited :
    (∃ v : settings.Verification run name revisited, v.accepted = true ∧
      Hex.toString (Sha256.digest v.proof.bytes) = (ProofBlob.mk blob).digest) ∧
    (∃ f, (settings.verify evasive name revisited).1 = .error f) ∧
    ∃ q c v a input p, settings.callsOf run (.verify name) revisited = [q, c, v] ∧
      settings.Checks name q c v a input p := by
  obtain ⟨hok, v, hv, hstage⟩ := verify_revisited
  refine ⟨?_, ?_, ?_⟩
  · have hresult : (settings.verify run name revisited).1.map (·.1) =
        .ok ⟨true, (ProofBlob.mk blob).digest⟩ := by
      rw [← hok]
      exact congrArg (Except.map Prod.fst)
        (settings.undertake_observed run (.verify name) revisited).symm
    obtain ⟨⟨audit, r⟩, h, rfl⟩ := map_eq_ok hresult
    exact ((settings.verify_verdict run name revisited).1 _ _).mp ⟨r, h⟩
  · refine (settings.verify_verdict evasive name revisited).2.1 ⟨fun w => ?_⟩
    have houtput : w.output = ⟨Utf8.ofString "result: maybe\n", ""⟩ :=
      (Except.ok.inj (congrArg Prod.fst w.checked)).symm
    have hnone : Verdict.ofOutput? (Output.mk (Utf8.ofString "result: maybe\n") "").text =
        none := by decide +kernel
    have hverdict := w.verdict
    rw [houtput, hnone] at hverdict
    cases hverdict
  · obtain ⟨q, c, a, input, p, hlog, hc⟩ :=
      (settings.verify_verdict run name revisited).2.2 v hv hstage
    exact ⟨q, c, v, a, input, p, hlog, hc⟩

end Settings

end StorageProof
