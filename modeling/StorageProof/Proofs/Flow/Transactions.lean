import StorageProof.Proofs.Flow.Ending

/-!
# What transactions carry

A publication submits an agreement whose identifier, text on the command line and file in the
working directory are of one and the same canonical form, and a mining commits the proof that its
own prover has just left. Both hold of every call that makes the transaction, whether or not it
succeeds, and whatever the runner answers and does to the files.
-/

namespace StorageProof

variable {σ : Type}

theorem Agreement.readFrom_ok {p : Path} {a : Agreement} {site : Site σ}
    (h : site.files.read p = .ok a.canonicalBytes) : (readFrom p site).1 = .ok a := by
  have hreading : Action.reading s!"read {p.text}" (·.read p) site =
      (.ok a.canonicalBytes, site) := by simp only [Action.reading, h]
  rw [readFrom, bind_of_ok hreading, a.parse_canonicalBytes]
  rfl

namespace Settings

/-! ## Publishing -/

/-- A publication up to its transaction: frames are sampled and hashed, a challenge is requested,
and an agreement is submitted that has the challenge in it as it was printed. The identifier on
the command line is derived from the text on the command line, and so is that of the agreement on
file. -/
structure Submits (s : Settings) (target : String) (x h c e : Exchange) (id : Identifier)
    (json : String) (a : Agreement) : Prop where
  sampled : x.call.stage = .extractFrames
  hashed : h.call.stage = .perceptualHash
  challenged : c.call.stage = .challenge
  printed : ∃ output, c.answer = .ok output ∧ a.publicInputs = Utf8.lossy output.stdout ∧
    ((Utf8.toString? output.stdout).isSome → Utf8.ofString a.publicInputs = output.stdout)
  locator : a.locator = target
  kind : a.kind = .phashMerkle
  stage : e.call.stage = .ledgerCreate
  args : e.call.args =
    ["tx", "sla", "createSla", s.reward, id.text, json, "--yes", "--from", s.signer]
  derived : Identifier.derive (Utf8.ofString json) = id
  parsed : Agreement.parse (Utf8.ofString json) = .ok a
  stored : e.before.read (s.workDir.join "agreement.json") = .ok (Utf8.ofString json)
  readBack : ∀ site : Site Unit, site.files = e.before →
    (Agreement.readFrom (s.workDir.join "agreement.json") site).1 = .ok a
  identified : a.identifier = id

/-- An agreement in its canonical form, on the command line and on file, is submitted as it is. -/
theorem Submits.of_createCall {s : Settings} {target : String} {x h c e : Exchange}
    {output : Output} (hx : x.call.stage = .extractFrames) (hh : h.call.stage = .perceptualHash)
    (hc : c.call.stage = .challenge) (hanswer : c.answer = .ok output) {a : Agreement}
    (ha : a = ⟨target, .phashMerkle, output.text⟩)
    (he : e.call = s.account.createCall s.reward a.identifier a)
    (hread : e.before.read (s.workDir.join "agreement.json") = .ok a.canonicalBytes) :
    s.Submits target x h c e a.identifier a.canonical a := by
  have hbytes : Utf8.ofString a.canonical = a.canonicalBytes := a.toJson.ofString_canonical
  refine {
    sampled := hx
    hashed := hh
    challenged := hc
    printed := ⟨output, hanswer, ?printed, ?kept⟩
    locator := ?locator
    kind := ?kind
    stage := ?stage
    args := ?args
    derived := by rw [hbytes]; rfl
    parsed := by rw [hbytes, a.parse_canonicalBytes]
    stored := by rw [hbytes, hread]
    readBack := fun site hsite => Agreement.readFrom_ok (by rw [hsite, hread])
    identified := rfl }
  case locator | kind => rw [ha]
  case printed =>
    rw [ha]
    rfl
  case kept =>
    rw [ha]
    exact Utf8.ofString_lossy
  case stage | args =>
    rw [he]
    rfl

/-- A publication makes one transaction. -/
theorem Submits.eq_of_mem {s : Settings} {target : String} {x h c e e' : Exchange}
    {id : Identifier} {json : String} {a : Agreement} (hs : s.Submits target x h c e id json a)
    (he' : e' ∈ [x, h, c, e]) (hstage : e'.call.stage = .ledgerCreate) : e' = e := by
  simp only [List.mem_cons, List.not_mem_nil, or_false] at he'
  rcases he' with rfl | rfl | rfl | rfl
  · cases hstage.symm.trans hs.sampled
  · cases hstage.symm.trans hs.hashed
  · cases hstage.symm.trans hs.challenged
  · rfl

section Publishing

variable {target : String} {lease : Lease}

/-- The calls of a publication that has come to its transaction. -/
def Submitted (s : Settings) (target : String) (a : Agreement) (log : List Exchange) : Prop :=
  ∃ x h c e id json, log = [x, h, c, e] ∧ s.Submits target x h c e id json a

/-- The calls of a publication that has failed, perhaps in its transaction. -/
def Unpublished (s : Settings) (target : String) (log : List Exchange) : Prop :=
  AllCalls (·.stage ≠ .ledgerCreate) log ∨ ∃ a, s.Submitted target a log

/-- The last part of a publication, from the challenge on. -/
theorem ends_submission (s : Settings) (run : Runner σ) (hroot : lease.root = s.workDir)
    {x h c : Exchange} {output : Output} (hx : x.call.stage = .extractFrames)
    (hh : h.call.stage = .perceptualHash) (hc : c.call.stage = .challenge)
    (hanswer : c.answer = .ok output) {st : Site (σ × List Exchange) × List RunState}
    (hst : st.1.log = [x, h, c]) {a : Agreement} (ha : a = ⟨target, .phashMerkle, output.text⟩) :
    Ends (do
        Course.act (a.writeTo lease.agreement)
        Course.enter .submitting
        Course.act (s.account.create run.observed s.reward a.identifier a)
        return a) st
      (fun b st' => s.Submitted target b (Course.log st'))
      (fun _ st' => s.Unpublished target (Course.log st')) := by
  have hnone : AllCalls (·.stage ≠ .ledgerCreate) [x, h, c] := by simp [hx, hh, hc]
  have hwrite := ends_writeBytes lease.agreement a.canonicalBytes st.1
  refine Course.ends_act hwrite (fun _ s₁ h₁ => ?_) (fun _ s₁ h₁ => ?_)
  · obtain ⟨hlog₁, hread⟩ := h₁
    have hlog₁ : s₁.log = [x, h, c] := hlog₁.trans hst
    have hread : s₁.files.read (s.workDir.join "agreement.json") = .ok a.canonicalBytes := by
      rw [← hroot]
      exact hread
    -- whether or not the transaction succeeds, it finds what has just been written
    have hsubmits {e : Exchange}
        (he : e.LaunchedAt (s.account.createCall s.reward a.identifier a) s₁.files) :
        s.Submits target x h c e a.identifier a.canonical a := by
      have hbefore : e.before = s₁.files := he.untouched fun p hp => by cases hp
      rw [← hbefore] at hread
      exact .of_createCall hx hh hc hanswer ha he.call_eq hread
    have hcreate := ends_transaction run (s.account.createCall s.reward a.identifier a) rfl s₁
    refine Course.ends_enter (Course.ends_act hcreate (fun _ s₂ h₂ => ?_) (fun _ s₂ h₂ => ?_))
    · obtain ⟨e, he, hlog₂⟩ := h₂
      rw [hlog₁] at hlog₂
      exact .pure ⟨x, h, c, e, _, _, hlog₂, hsubmits he⟩
    · rcases h₂ with hlog₂ | ⟨e, he, hlog₂⟩
      · rw [hlog₁] at hlog₂
        rw [← hlog₂] at hnone
        exact .inl hnone
      · rw [hlog₁] at hlog₂
        exact .inr ⟨a, x, h, c, e, _, _, hlog₂, hsubmits he⟩
  · rw [← hst, ← h₁] at hnone
    exact .inl hnone

/-- A publication makes no transaction, or one that submits an agreement as it is, and only that
agreement can come out of it. -/
theorem ends_publishCourse (s : Settings) (run : Runner σ) (source : String)
    (hroot : lease.root = s.workDir) {st : Site (σ × List Exchange) × List RunState}
    (hst : Course.log st = []) :
    Ends (s.publishCourse run.observed source target lease) st
      (fun a st' => s.Submitted target a (Course.log st'))
      (fun _ st' => s.Unpublished target (Course.log st')) := by
  have hnone : AllCalls (·.stage ≠ .ledgerCreate) (Course.log st) := by
    rw [hst]
    exact allCalls_nil
  have hsample := s.ends_sampleAndHash run lease source (·.stage ≠ .ledgerCreate)
    (by simp [sampleCalls, extractFrames, perceptualHash]) hnone
  refine hsample.bind (fun _ st₁ h₁ => ?_) (fun _ _ h => .inl h)
  obtain ⟨x, h, hx, hh, hlog₁⟩ := h₁
  have hx : x.call.stage = .extractFrames := by rw [hx]; rfl
  have hh : h.call.stage = .perceptualHash := by rw [hh]; rfl
  have hlog₁ : st₁.1.log = [x, h] := by
    rw [hst] at hlog₁
    exact hlog₁
  have hchallenge := Call.ends_perform run (s.challenge lease.hashes) rfl st₁.1
  refine Course.ends_enter (Course.ends_act hchallenge (fun output s₂ h₂ => ?_) fun _ _ h₂ => ?_)
  · obtain ⟨c, hc, hanswer, -, hlog₂, -⟩ := h₂
    rw [hlog₁] at hlog₂
    have hc : c.call.stage = .challenge := by rw [hc.call_eq]; rfl
    exact s.ends_submission run hroot hx hh hc hanswer hlog₂ rfl
  · have hnone₁ : AllCalls (·.stage ≠ .ledgerCreate) st₁.1.log := by
      rw [hlog₁]
      simp [hx, hh]
    exact .inl (h₂.allCalls hnone₁ (by simp [challenge]))

end Publishing

/-- What a publication submits is what the ledger will recompute, whether or not the transaction
succeeds: the identifier on the command line is that of the text on the command line, the agreement
in that text has the target and the challenge in it as they are, and the file in the working
directory holds that very text when the transaction is launched. If the publication succeeds, that
agreement is what it hands back. -/
theorem publish_submits (s : Settings) (run : Runner σ) (source target : String) (d : Desk σ)
    {e : Exchange} (he : e ∈ s.callsOf run (.publish source target) d)
    (hstage : e.call.stage = .ledgerCreate) :
    ∃ x h c id json a, s.callsOf run (.publish source target) d = [x, h, c, e] ∧
      s.Submits target x h c e id json a ∧
      ∀ b r, (s.publish run source target d).1 = .ok (b, r) → b = a ∧ b.identifier = id := by
  have hends := s.undertake_of_ends run (.publish source target) d (s.Submitted target)
    (fun _ => s.Unpublished target) (fun _ => .inl allCalls_nil)
    (fun _ _ hroot hsite => s.ends_publishCourse run source hroot hsite)
  obtain ⟨a, ⟨x, h, c, e', id, json, hlog, hs⟩, hok⟩ :
      ∃ a, s.Submitted target a (s.callsOf run (.publish source target) d) ∧
        ∀ b r, (s.publish run source target d).1 = .ok (b, r) → b = a := by
    obtain ⟨a, r, hresult, ha⟩ | ⟨f, hresult, hnone | ⟨a, ha⟩⟩ := hends
    · refine ⟨a, ha, fun b r' hb => ?_⟩
      cases hresult.symm.trans hb
      rfl
    · exact absurd hstage (hnone e he)
    · refine ⟨a, ha, fun b r hb => ?_⟩
      cases hresult.symm.trans hb
  -- there is one transaction only, so it is the one in question
  rw [hlog] at he
  obtain rfl := hs.eq_of_mem he hstage
  refine ⟨x, h, c, id, json, a, hlog, hs, fun b r hb => ?_⟩
  rw [hok b r hb]
  exact ⟨rfl, hs.identified⟩

namespace Specimen

/-- An honest runner, but for a challenge that is no text and a ledger that takes no agreement. -/
def refusing : Runner Book := fun call s =>
  match call.stage with
  | .challenge => (.ok ⟨[0x43, 0xFF, 0x0A], ""⟩, s)
  | .ledgerCreate => (.error (.cancelled call.stage.name), s)
  | _ => run call s

/-- A desk with a file in the working directory that an earlier run has left. -/
def stocked (b : Book) (name : String) : Desk Book where
  site := ⟨((desk b).site.files.put ["srv", "jobs", "work"] .directory).put
    ["srv", "jobs", "work", name] (.file [9] false none), b⟩

end Specimen

open Specimen in
/-- What is submitted has the challenge in it with its end of line, and only the byte that is no
text is replaced; the transaction has failed. -/
theorem publish_submits_refused :
    ∃ e ∈ settings.callsOf refusing (.publish "v.mp4" "v.ts") (stocked blank "agreement.json"),
      e.call.stage = .ledgerCreate ∧ e.answer.isOk = false ∧ ∃ x h c id json a,
        settings.callsOf refusing (.publish "v.mp4" "v.ts") (stocked blank "agreement.json") =
          [x, h, c, e] ∧
        settings.Submits "v.ts" x h c e id json a ∧ a.publicInputs = "C\uFFFD\n" := by
  obtain ⟨e, he, hstage, hno⟩ :
      ∃ e ∈ settings.callsOf refusing (.publish "v.mp4" "v.ts") (stocked blank "agreement.json"),
        e.call.stage = .ledgerCreate ∧ e.answer.isOk = false := by decide +kernel
  have hchallenge :
      ∀ c ∈ settings.callsOf refusing (.publish "v.mp4" "v.ts") (stocked blank "agreement.json"),
        c.call.stage = .challenge → c.answer = .ok ⟨[0x43, 0xFF, 0x0A], ""⟩ := by decide +kernel
  obtain ⟨x, h, c, id, json, a, hlog, hs, -⟩ :=
    settings.publish_submits refusing "v.mp4" "v.ts" (stocked blank "agreement.json") he hstage
  obtain ⟨output, hc, hprinted, -⟩ := hs.printed
  have hanswer := hchallenge c (by simp [hlog]) hs.challenged
  rw [hc] at hanswer
  cases hanswer
  refine ⟨e, he, hstage, hno, x, h, c, id, json, a, hlog, hs, ?_⟩
  rw [hprinted]
  decide +kernel

/-! ## Mining -/

/-- A mining up to its proof: the ledger is asked for an agreement, the video of the agreement in
its answer is sampled, and the prover is launched where there is no proof file and leaves one. -/
structure Proves (s : Settings) (id : Identifier) (q x h g : Exchange) (a : Agreement)
    (blob : Bytes) : Prop where
  asked : q.call = s.account.questionCall .agreement id
  answered : ∃ output, q.answer = .ok output ∧ Agreement.ofAnswer id output.text = .ok a
  sampling : x.call.stage = .extractFrames
  sampled : x.call.args = ["-f", toString s.frameOffset.toNat, "-c", toString s.frameCount.toNat,
    "--scale", "--input", a.locator, "--output", (s.workDir.join "scaled-frames.txt").text]
  hashing : h.call.stage = .perceptualHash
  proving : g.call.stage = .generateProof
  declared : g.call.declared = .file (s.workDir.join "zkpor_proof.dat")
  fresh : g.before.inspect (s.workDir.join "zkpor_proof.dat") = .error .notFound
  left : g.after.read (s.workDir.join "zkpor_proof.dat") = .ok blob
  notEmpty : blob ≠ []

/-- A mining with its transaction, which commits what the prover has left. -/
structure Commits (s : Settings) (id : Identifier) (q x h g e : Exchange) (a : Agreement)
    (json : String) (blob : Bytes) : Prop extends s.Proves id q x h g a blob where
  stage : e.call.stage = .ledgerCommit
  args : e.call.args =
    ["tx", "sla", "commitProof", id.text, json, "--yes", "--from", s.signer]
  parsed : ProofBlob.parse (Utf8.ofString json) = .ok ⟨blob⟩

section Mining

variable {id : Identifier} {q x h g e : Exchange} {a : Agreement} {json : String} {blob : Bytes}
  {lease : Lease}

/-- A mining makes one transaction and launches its prover once. -/
theorem Commits.eq_of_mem {s : Settings} {e' : Exchange} (hc : s.Commits id q x h g e a json blob)
    (he' : e' ∈ [q, x, h, g, e]) :
    (e'.call.stage = .ledgerCommit → e' = e) ∧ (e'.call.stage = .generateProof → e' = g) := by
  have hq : q.call.stage = .ledgerQuery := by rw [hc.asked]; rfl
  simp only [List.mem_cons, List.not_mem_nil, or_false] at he'
  rcases he' with rfl | rfl | rfl | rfl | rfl
  · simp [hq]
  · simp [hc.sampling]
  · simp [hc.hashing]
  · simp [hc.proving]
  · simp [hc.stage]

theorem Proves.commits {s : Settings} {p : ProofBlob} (hp : s.Proves id q x h g a p.bytes)
    (he : e.call = s.account.commitCall id p) :
    s.Commits id q x h g e a p.canonical p.bytes := by
  have hbytes : Utf8.ofString p.canonical = p.toJson.canonicalBytes := p.toJson.ofString_canonical
  refine { hp with stage := ?stage, args := ?args, parsed := ?parsed }
  case stage | args =>
    rw [he]
    rfl
  case parsed => rw [hbytes, ProofBlob.parse_of_spells p.spells_canonicalBytes]

/-- The calls of a mining that has come to its transaction. -/
def Committed (s : Settings) (id : Identifier) (p : ProofBlob) (log : List Exchange) : Prop :=
  ∃ q x h g e a json, log = [q, x, h, g, e] ∧ s.Commits id q x h g e a json p.bytes

/-- A call that is no transaction of a mining, and if it is the prover's, declares the proof
file. -/
def BeforeCommit (s : Settings) (call : Call) : Prop :=
  call.stage ≠ .ledgerCommit ∧
    (call.stage = .generateProof → call.declared = .file (s.workDir.join "zkpor_proof.dat"))

/-- The calls of a mining that has failed, perhaps in its transaction. -/
def Unmined (s : Settings) (id : Identifier) (log : List Exchange) : Prop :=
  AllCalls s.BeforeCommit log ∨ ∃ p, s.Committed id p log

theorem Proves.beforeCommit {s : Settings} (hp : s.Proves id q x h g a blob) :
    AllCalls s.BeforeCommit [q, x, h, g] := by
  have hq : q.call.stage = .ledgerQuery := by rw [hp.asked]; rfl
  simp [BeforeCommit, hq, hp.sampling, hp.hashing, hp.proving, hp.declared]

/-- The last part of a mining, from the proof on. -/
theorem ends_commitment (s : Settings) (run : Runner σ) (hroot : lease.root = s.workDir)
    (hp : s.Proves id q x h g a blob) {st : Site (σ × List Exchange) × List RunState}
    (hlog : st.1.log = [q, x, h, g]) (hfiles : st.1.files = g.after) :
    Ends (do
        let proof ← Course.act (ProofBlob.readFrom lease.proof)
        Course.enter .submitting
        Course.act (s.account.commit run.observed id proof)
        return proof) st
      (fun p st' => s.Committed id p (Course.log st'))
      (fun _ st' => s.Unmined id (Course.log st')) := by
  have hbefore : AllCalls s.BeforeCommit st.1.log := by
    rw [hlog]
    exact hp.beforeCommit
  refine Course.ends_act (ProofBlob.ends_readFrom lease.proof st.1) (fun p s₁ h₁ => ?_)
    fun _ s₁ h₁ => ?_
  · obtain ⟨rfl, hread, -⟩ := h₁
    -- nothing has been called since the prover was, so the file holds what it has left
    obtain rfl : p.bytes = blob := by
      have hleft : st.1.files.read lease.proof = .ok blob := by
        rw [hfiles, Lease.proof, Lease.file, hroot]
        exact hp.left
      exact Except.ok.inj (hread.symm.trans hleft)
    have hcommit := ends_transaction run (s.account.commitCall id p) rfl st.1
    refine Course.ends_enter (Course.ends_act hcommit (fun _ s₂ h₂ => ?_) fun _ s₂ h₂ => ?_)
    · obtain ⟨e, he, hlog₂⟩ := h₂
      rw [hlog] at hlog₂
      exact .pure ⟨q, x, h, g, e, a, _, hlog₂, hp.commits he.call_eq⟩
    · rcases h₂ with hlog₂ | ⟨e, he, hlog₂⟩
      · rw [← hlog₂] at hbefore
        exact .inl hbefore
      · rw [hlog] at hlog₂
        exact .inr ⟨p, q, x, h, g, e, a, _, hlog₂, hp.commits he.call_eq⟩
  · rw [← h₁] at hbefore
    exact .inl hbefore

/-- A prover that is accepted has left a proof that is not empty. -/
theorem Proves.of_generateProof {s : Settings} (hroot : lease.root = s.workDir) {output : Output}
    (hq : q.call = s.account.questionCall .agreement id) (hanswer : q.answer = .ok output)
    (ha : Agreement.ofAnswer id output.text = .ok a)
    (hx : x.call = s.extractFrames a.locator lease.frames)
    (hh : h.call = s.perceptualHash lease.frames lease.hashes) {fs : FileSystem} {result : Output}
    (hg : g.LaunchedAt (s.generateProof s.parameters lease.proof lease.hashes lease.witness) fs)
    (hdelivers : g.Delivers result) : ∃ blob, s.Proves id q x h g a blob := by
  have hproof : lease.proof = s.workDir.join "zkpor_proof.dat" := by
    rw [Lease.proof, Lease.file, hroot]
  have hframes : lease.frames = s.workDir.join "scaled-frames.txt" := by
    rw [Lease.frames, Lease.file, hroot]
  have hdeclared : g.call.declared = .file (s.workDir.join "zkpor_proof.dat") := by
    rw [hg.call_eq, ← hproof]
    rfl
  have hkind : g.call.DeclaresForStage := by
    rw [hg.call_eq]
    exact ⟨_, rfl⟩
  obtain ⟨blob, hleft, hne⟩ :=
    FileSystem.isNonEmptyFile_iff.mp ((Exchange.delivers_file hkind hdeclared).mp hdelivers)
  refine ⟨blob, {
    asked := hq
    answered := ⟨output, hanswer, ha⟩
    sampling := by rw [hx]; rfl
    sampled := by rw [hx, hframes]; rfl
    hashing := by rw [hh]; rfl
    proving := by rw [hg.call_eq]; rfl
    declared := hdeclared
    fresh := hg.cleared _ (by rw [← hg.call_eq, hdeclared])
    left := hleft
    notEmpty := hne }⟩

/-- What comes of a mining that has got its agreement. -/
theorem ends_proving (s : Settings) (run : Runner σ) (hroot : lease.root = s.workDir)
    {output : Output} (hq : q.call = s.account.questionCall .agreement id)
    (hanswer : q.answer = .ok output) (ha : Agreement.ofAnswer id output.text = .ok a)
    {st : Site (σ × List Exchange) × List RunState} (hst : st.1.log = [q]) :
    Ends (do
        s.sampleAndHash run.observed lease a.locator
        Course.enter .proving
        let _ ← Course.act ((s.generateProof s.parameters lease.proof lease.hashes
          lease.witness).perform run.observed)
        let proof ← Course.act (ProofBlob.readFrom lease.proof)
        Course.enter .submitting
        Course.act (s.account.commit run.observed id proof)
        return proof) st
      (fun p st' => s.Committed id p (Course.log st'))
      (fun _ st' => s.Unmined id (Course.log st')) := by
  have hquery : q.call.stage = .ledgerQuery := by rw [hq]; rfl
  have hbefore : AllCalls s.BeforeCommit (Course.log st) := by
    show AllCalls s.BeforeCommit st.1.log
    rw [hst]
    simp [BeforeCommit, hquery]
  have hsample := s.ends_sampleAndHash run lease a.locator s.BeforeCommit
    (by simp [sampleCalls, BeforeCommit, extractFrames, perceptualHash]) hbefore
  refine hsample.bind (fun _ st₁ h₁ => ?_) (fun _ _ h => .inl h)
  obtain ⟨x, h, hx, hh, hlog₁⟩ := h₁
  have hlog₁ : st₁.1.log = [q, x, h] := by
    rw [show Course.log st = [q] from hst] at hlog₁
    exact hlog₁
  have hprove := Call.ends_perform run
    (s.generateProof s.parameters lease.proof lease.hashes lease.witness) ⟨_, rfl⟩ st₁.1
  refine Course.ends_enter (Course.ends_act hprove (fun _ s₂ h₂ => ?_) fun _ s₂ h₂ => ?_)
  · obtain ⟨g, hg, -, hdelivers, hlog₂, hfiles⟩ := h₂
    rw [hlog₁] at hlog₂
    obtain ⟨blob, hp⟩ := Proves.of_generateProof hroot hq hanswer ha hx hh hg hdelivers
    exact s.ends_commitment run hroot hp hlog₂ hfiles
  · have hbefore₁ : AllCalls s.BeforeCommit st₁.1.log := by
      rw [hlog₁]
      simp [BeforeCommit, hquery, hx, hh, extractFrames, perceptualHash]
    refine .inl (h₂.allCalls hbefore₁ ⟨by simp [generateProof], fun _ => ?_⟩)
    rw [generateProof, Lease.proof, Lease.file, hroot]

/-- A mining commits what its prover has left, or nothing. -/
theorem ends_mineCourse (s : Settings) (run : Runner σ) (id : Identifier)
    (hroot : lease.root = s.workDir) {st : Site (σ × List Exchange) × List RunState}
    (hst : Course.log st = []) :
    Ends (s.mineCourse run.observed id lease) st
      (fun p st' => s.Committed id p (Course.log st'))
      (fun _ st' => s.Unmined id (Course.log st')) := by
  have hst : st.1.log = [] := hst
  have hbefore : AllCalls s.BeforeCommit st.1.log := by
    rw [hst]
    exact allCalls_nil
  refine Course.ends_act (s.ends_requireParameters st.1) (fun parameters s₁ h₁ => ?_)
    fun _ s₁ h₁ => ?_
  · obtain ⟨rfl, rfl⟩ := h₁
    have hask := s.account.ends_agreement run id st.1
    refine Course.ends_enter (Course.ends_act hask (fun a s₂ h₂ => ?_) fun _ s₂ h₂ => ?_)
    · obtain ⟨q, output, hq, hanswer, ha, hlog₂, -⟩ := h₂
      rw [hst] at hlog₂
      exact s.ends_proving run hroot hq.call_eq hanswer ha hlog₂
    · have hquestion : s.BeforeCommit (s.account.questionCall .agreement id) := by
        simp [BeforeCommit, Account.questionCall]
      exact .inl (h₂.allCalls hbefore hquestion)
  · rw [← h₁] at hbefore
    exact .inl hbefore

end Mining

/-- What a mining commits is the proof of its own prover, whether or not the transaction succeeds:
the bytes that the prover has left where there was no file before, under the identifier that was
asked for, and for the video of the agreement that the ledger has answered with. A prover that
leaves no proof, or an empty one, ends the run in a failure, and nothing is committed. -/
theorem mine_commits (s : Settings) (run : Runner σ) (id : Identifier) (d : Desk σ) :
    (∀ e ∈ s.callsOf run (.mine id) d, e.call.stage = .ledgerCommit →
      ∃ q x h g a json blob, s.callsOf run (.mine id) d = [q, x, h, g, e] ∧
        s.Commits id q x h g e a json blob) ∧
    ∀ g ∈ s.callsOf run (.mine id) d, g.call.stage = .generateProof →
      g.call.declared = .file (s.workDir.join "zkpor_proof.dat") ∧
      ((∀ bytes, g.after.read (s.workDir.join "zkpor_proof.dat") = .ok bytes → bytes = []) →
        (∃ f, (s.mine run id d).1 = .error f) ∧
        ∀ e ∈ s.callsOf run (.mine id) d, e.call.stage ≠ .ledgerCommit) := by
  have hends := s.undertake_of_ends run (.mine id) d (s.Committed id)
    (fun _ => s.Unmined id) (fun _ => .inl allCalls_nil)
    (fun _ _ hroot hsite => s.ends_mineCourse run id hroot hsite)
  obtain ⟨f, hf, hbefore⟩ | ⟨p, q, x, h, g, e, a, json, hlog, hc⟩ :
      (∃ f, (s.mine run id d).1 = .error f ∧ AllCalls s.BeforeCommit (s.callsOf run (.mine id) d)) ∨
        ∃ p, s.Committed id p (s.callsOf run (.mine id) d) := by
    obtain ⟨p, r, -, hp⟩ | ⟨f, hf, hbefore | hp⟩ := hends
    · exact .inr ⟨p, hp⟩
    · exact .inl ⟨f, hf, hbefore⟩
    · exact .inr hp
  · constructor
    · intro e he hstage
      exact absurd hstage (hbefore e he).1
    · intro g hg hstage
      exact ⟨(hbefore g hg).2 hstage, fun _ => ⟨⟨f, hf⟩, fun e he => (hbefore e he).1⟩⟩
  · rw [hlog]
    constructor
    · intro e' he' hstage
      obtain rfl := (hc.eq_of_mem he').1 hstage
      exact ⟨q, x, h, g, a, json, p.bytes, rfl, hc⟩
    · intro g' hg' hstage
      obtain rfl := (hc.eq_of_mem hg').2 hstage
      exact ⟨hc.declared, fun hempty => absurd (hempty _ hc.left) hc.notEmpty⟩

namespace Specimen

/-- A book with an agreement under the name, though not the one that the name is derived from. -/
def listed : Book := blank.withAgreement name.text (Agreement.mk "v.ts" .ssim "").canonical

end Specimen

open Specimen in
/-- A proof that an earlier run has left is not the one that is committed, and a prover that leaves
an empty one has nothing committed. -/
theorem mine_commits_stocked :
    (∃ e ∈ settings.callsOf run (.mine name) (stocked listed "zkpor_proof.dat"),
      e.call.stage = .ledgerCommit ∧ ∃ q x h g a json,
        settings.callsOf run (.mine name) (stocked listed "zkpor_proof.dat") = [q, x, h, g, e] ∧
        settings.Commits name q x h g e a json blob) ∧
    (∃ f, (settings.mine (Runner.honest input []) name
      (stocked listed "zkpor_proof.dat")).1 = .error f) ∧
    ∀ e ∈ settings.callsOf (Runner.honest input []) (.mine name)
      (stocked listed "zkpor_proof.dat"), e.call.stage ≠ .ledgerCommit := by
  constructor
  · obtain ⟨e, he, hstage⟩ :
        ∃ e ∈ settings.callsOf run (.mine name) (stocked listed "zkpor_proof.dat"),
          e.call.stage = .ledgerCommit := by decide +kernel
    have hleft : ∀ g ∈ settings.callsOf run (.mine name) (stocked listed "zkpor_proof.dat"),
        g.call.stage = .generateProof →
          g.after.read (settings.workDir.join "zkpor_proof.dat") = .ok blob := by decide +kernel
    obtain ⟨q, x, h, g, a, json, left, hlog, hc⟩ :=
      (settings.mine_commits run name (stocked listed "zkpor_proof.dat")).1 e he hstage
    have hblob := hleft g (by simp [hlog]) hc.proving
    rw [hc.left] at hblob
    cases hblob
    exact ⟨e, he, hstage, q, x, h, g, a, json, hlog, hc⟩
  · obtain ⟨g, hg, hstage, hempty⟩ :
        ∃ g ∈ settings.callsOf (Runner.honest input []) (.mine name)
          (stocked listed "zkpor_proof.dat"), g.call.stage = .generateProof ∧
            g.after.read (settings.workDir.join "zkpor_proof.dat") = .ok [] := by decide +kernel
    refine ((settings.mine_commits (Runner.honest input []) name
      (stocked listed "zkpor_proof.dat")).2 g hg hstage).2 fun bytes hbytes => ?_
    rw [hempty] at hbytes
    exact (Except.ok.inj hbytes).symm

end Settings

end StorageProof
