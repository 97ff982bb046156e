import StorageProof.Proofs.Flow.CourseCalls

/-!
# Publishing, mining and verifying together

What one run hands to the ledger is what the next one gets from it. With a ledger that keeps a book,
the agreement that is published is the one that is mined, and the proof and the public inputs that a
proof is verified with are those that were made.
-/

namespace StorageProof

variable {σ α : Type}

/-! ## Favoured jobs -/

theorem Lease.isNonEmptyFile_acquire {root p : Path} {site site' : Site σ}
    {r : Except Failure Lease}
    (h : acquire root site = (r, site')) (hp : site.files.isNonEmptyFile p = true) :
    site'.files.isNonEmptyFile p = true := by
  have hmake := (FileSystem.keeps_makeDirectories site.files root).isNonEmptyFile hp
  have hfiles : (acquireIn root site.files).2 = site'.files := congrArg (fun x => Site.files x.2) h
  rw [← hfiles]
  unfold acquireIn
  rcases hm : site.files.makeDirectories root with ⟨e | _, fs⟩
  · rwa [hm] at hmake
  · rw [hm] at hmake
    have hmake : fs.isNonEmptyFile p = true := hmake
    show (take root fs).2.isNonEmptyFile p = true
    unfold take
    rcases ho : fs.opened (root.join lockName) with e | ⟨at', e⟩
    · simp only [ho]
      exact hmake
    · obtain ⟨before, last, directory, -, rfl, rfl, hfree⟩ := FileSystem.opened_ok ho
      simp only [ho]
      split
      · exact hmake
      · let file : Entry := .file mark false (some fs.locks)
        have hput : (fs.put (directory ++ [last]) file).isNonEmptyFile p = true :=
          FileSystem.isNonEmptyFile_put hfree rfl hmake
        -- how many locks have been taken is of no account
        refine FileSystem.isNonEmptyFile_of_keepsDirectories ?_ ?_ hput
        · exact fun _ h => h
        · exact fun _ e he hne => ⟨e, he, hne⟩

namespace Settings

/-- The calls made in a job, with their answers. -/
def callsOf (s : Settings) (run : Runner σ) (job : Job) (d : Desk σ) : List Exchange :=
  (s.undertake run.observed job (d.watched [])).2.site.log

theorem undertake_observed (s : Settings) (run : Runner σ) (job : Job) (d : Desk σ) :
    (s.undertake run.observed job (d.watched [])).1 = (s.undertake run job d).1 := by
  obtain ⟨log, hw⟩ := s.undertake_watched run job d []
  rw [hw]

/-- How a job can go, told with the calls that are made in it: it is turned away without any, or its
course is followed and makes them. -/
theorem undertake_followed (s : Settings) (run : Runner σ) (job : Job) (d : Desk σ) :
    (∃ e, (s.undertake run job d).1 = .error e ∧ s.callsOf run job d = []) ∨
    ∃ lease site r st, Lease.acquire s.workDir d.site = (.ok lease, site) ∧
      s.courseOf run.observed job lease (site.watched [], [.init]) = (r, st) ∧
      s.callsOf run job d = st.1.log ∧
      s.undertake run job d = ((concluded job.flow st.2 r).1,
        ⟨lease.release st.1.inner, some (concluded job.flow st.2 r).2⟩) := by
  obtain ⟨log, hw⟩ := s.undertake_watched run job d []
  obtain ⟨e, d', hu, htools⟩ | ⟨lease, site', hl, -, hu⟩ :=
    s.undertake_cases run.observed job (d.watched [])
  · refine .inl ⟨e, ?_, ?_⟩
    · rw [← s.undertake_observed, hu]
    · rw [callsOf, hu]
      exact congrArg Prod.snd htools
  · have hwatched := acquire_watched s.workDir d.site []
    rcases hacquired : Lease.acquire s.workDir d.site with ⟨r, site⟩
    rw [hacquired] at hwatched
    cases hwatched.symm.trans hl
    rcases hst : s.courseOf run.observed job lease (site.watched [], [.init]) with ⟨r, st⟩
    rw [hst] at hu
    refine .inr ⟨lease, site, r, st, rfl, hst, ?_, ?_⟩
    · rw [callsOf, hu]
      rfl
    · rw [hu] at hw
      obtain ⟨hresult, hdesk⟩ := Prod.mk.inj hw
      refine Prod.ext hresult.symm ?_
      exact (congrArg (fun d : Desk (σ × List Exchange) => Desk.mk d.site.inner d.last) hdesk).symm

/-- A job that nothing stands in the way of but its artifacts: the settings are valid, the lease is
to be had, the proving parameters are in place if they are needed, and every call succeeds. -/
structure Favours (s : Settings) (run : Runner σ) (job : Job) (d : Desk σ)
    (lease : Lease) : Prop where
  valid : s.validate = .ok ()
  lease : (Lease.acquire s.workDir d.site).1 = .ok lease
  parameters : job.needsParameters = true → d.site.files.isNonEmptyFile s.parameters = true
  answers : ∀ e ∈ s.callsOf run job d, e.answer.isOk

theorem Favours.exists_site {s : Settings} {run : Runner σ} {job : Job} {d : Desk σ} {lease : Lease}
    (h : s.Favours run job d lease) :
    ∃ site : Site σ, Lease.acquire s.workDir d.site = (.ok lease, site) ∧
      site.tools = d.site.tools ∧
      (job.needsParameters = true → site.files.isNonEmptyFile s.parameters = true) := by
  refine ⟨(Lease.acquire s.workDir d.site).2, Prod.ext h.lease rfl, rfl, fun hneeds => ?_⟩
  exact Lease.isNonEmptyFile_acquire (Prod.ext h.lease rfl) (h.parameters hneeds)

/-- What the course of a favoured job makes is what the job comes to. -/
theorem Favours.undertake {s : Settings} {run : Runner σ} {job : Job} {d : Desk σ} {lease : Lease}
    (h : s.Favours run job d lease) (hjob : job.refused = false) {site : Site σ}
    (hacquire : Lease.acquire s.workDir d.site = (.ok lease, site)) {good : Exchange → Prop}
    {fails : Failure → List Call → Prop} {calls : List Call} {post : job.Product → Site σ → Prop}
    (hmakes : Makes Course.look good fails calls post (s.courseOf run.observed job lease)
      (site.watched [], [.init])) :
    (s.callsOf run job d).map (·.call) <+: calls ∧ (∀ e ∈ s.callsOf run job d, good e) ∧
      ((∃ a r site, (s.undertake run job d).1 = .ok (a, r) ∧
        (s.callsOf run job d).map (·.call) = calls ∧
          site.tools = (s.undertake run job d).2.site.tools ∧ post a site) ∨
        ∃ f, (s.undertake run job d).1 = .error f ∧
          fails f ((s.callsOf run job d).map (·.call))) := by
  have hobserved : Lease.acquire s.workDir (d.watched []).site = (.ok lease, site.watched []) := by
    rw [show (d.watched []).site = d.site.watched [] from rfl, acquire_watched, hacquire]
  obtain ⟨trace, hlog, hcalls, hgood, hend⟩ := hmakes
  rcases hst : s.courseOf run.observed job lease (site.watched [], [.init]) with ⟨result, st⟩
  rw [hst] at hlog hend
  have hlog : st.1.log = trace := hlog
  have hconduct : s.undertake run.observed job (d.watched []) =
      ((concluded job.flow st.2 result).1,
        ⟨lease.release st.1, some (concluded job.flow st.2 result).2⟩) := by
    rw [undertake_of_not_refused _ _ hjob]
    simp only [conduct, h.valid, hobserved, hst]
  have htrace : s.callsOf run job d = trace := by
    rw [callsOf, hconduct, ← hlog]
    rfl
  -- the job itself comes to the same
  obtain ⟨log, hw⟩ := s.undertake_watched run job d []
  rw [hconduct] at hw
  obtain ⟨hresult, hdesk⟩ := Prod.mk.inj hw
  have htools : st.1.tools.1 = (s.undertake run job d).2.site.tools :=
    congrArg (fun d : Desk (σ × List Exchange) => d.site.tools.1) hdesk
  have hanswers := h.answers
  rw [htrace] at hanswers ⊢
  refine ⟨hcalls, hgood, ?_⟩
  rw [← hresult]
  cases result with
  | ok a => exact .inl ⟨a, _, st.1.inner, rfl, hend.1, htools, hend.2⟩
  | error f =>
    rcases hend with hfails | ⟨e, he, hno⟩
    · exact .inr ⟨f, rfl, hfails⟩
    · exact absurd (hanswers e he) hno

/-- Publishing comes to an agreement that is recorded under its identifier. -/
structure Publishes (s : Settings) (run : Runner σ) (book : σ → Book) (source target : String)
    (input : PublicInput) (d : Desk σ) (lease : Lease) (a : Agreement) : Prop where
  published : Published target input (book (s.publish run source target d).2.site.tools) a
  calls : (s.callsOf run (.publish source target) d).map (·.call) = s.publishCalls lease source a
  result : ∃ r, (s.publish run source target d).1 = .ok (a, r)

/-- Mining asks for an agreement first, gets it, samples its video and commits a proof. Only
artifacts can stop it on the way, and before the sampling only the system, when the list of frames
cannot be cleared. -/
structure Mines (s : Settings) (run : Runner σ) (a : Agreement) (blob : Bytes) (d : Desk σ)
    (lease : Lease) : Prop where
  resolves : ∃ e rest output, s.callsOf run (.mine a.identifier) d = e :: rest ∧
    e.call = s.account.questionCall .agreement a.identifier ∧ e.answer = .ok output ∧
    Agreement.ofAnswer a.identifier output.text = .ok a
  samples : ∃ e rest, s.callsOf run (.mine a.identifier) d = e :: rest ∧
    (e.after.canClear lease.frames = true →
      ∃ x later, rest = x :: later ∧ x.call = s.extractFrames a.locator lease.frames)
  calls : (s.callsOf run (.mine a.identifier) d).map (·.call) <+: s.mineCalls lease a ⟨blob⟩
  outcome : (∃ r, (s.mine run a.identifier d).1 = .ok (⟨blob⟩, r) ∧
      (s.callsOf run (.mine a.identifier) d).map (·.call) = s.mineCalls lease a ⟨blob⟩) ∨
    ∃ f, (s.mine run a.identifier d).1 = .error f ∧
      f.StopsAfter 1 ((s.callsOf run (.mine a.identifier) d).map (·.call))

/-- Verifying gives a proof and public inputs to the check. Only artifacts can stop it on the way,
and before the check only the system, when the two files cannot be written. -/
structure Verifies (s : Settings) (run : Runner σ) (id : Identifier) (blob : Bytes)
    (input : PublicInput) (d : Desk σ) (lease : Lease) : Prop where
  calls : (s.callsOf run (.verify id) d).map (·.call) <+: s.verifyCalls lease id
  checks : ∃ q c rest, s.callsOf run (.verify id) d = q :: c :: rest ∧
    (CanHandOver lease blob input c.after → ∃ v, rest = [v] ∧
      v.call = s.verifyProof s.parameters lease.committedProof lease.publicInputs)
  handsOver : ∀ e ∈ s.callsOf run (.verify id) d, HandsOver lease blob input e
  outcome : (∃ audit r, (s.verify run id d).1 = .ok (audit, r) ∧
      audit.digest = (ProofBlob.mk blob).digest ∧
      (s.callsOf run (.verify id) d).map (·.call) = s.verifyCalls lease id) ∨
    ∃ f, (s.verify run id d).1 = .error f ∧
      f.StopsAfter 2 ((s.callsOf run (.verify id) d).map (·.call))

section Runs

variable {s : Settings} {run : Runner σ} {book : σ → Book} {d : Desk σ} {lease : Lease}
  {input : PublicInput} {blob : Bytes} {a : Agreement}

theorem Favours.publishes {source target : String} (hbook : run.KeepsBook book)
    (hinput : input.IsHex) (hchallenge : run.Challenges input)
    (hsource : Text.isAllBlank source = false) (htarget : Text.isAllBlank target = false)
    (h : s.Favours run (.publish source target) d lease) :
    (∃ a, s.Publishes run book source target input d lease a) ∨
      ∃ f, (s.publish run source target d).1 = .error f ∧ f.isOfArtifacts = true := by
  have hjob : (Job.publish source target).refused = false := by
    rw [Job.refused, hsource, htarget]
    rfl
  obtain ⟨site, hacquire, -, -⟩ := h.exists_site
  obtain ⟨a, hmakes⟩ := s.makes_publishCourse hbook hinput hchallenge source target lease
    (site.watched [], [.init])
  obtain ⟨-, -, ⟨b, r, site', hresult, hcalls, htools, rfl, hpublished⟩ | ⟨f, hf, hstops⟩⟩ :=
    h.undertake hjob hacquire hmakes
  · rw [htools] at hpublished
    exact .inl ⟨b, hpublished, hcalls, r, hresult⟩
  · exact .inr ⟨f, hf, hstops.1⟩

/-- A mining puts its question, and then its sampling is launched unless it is blocked. -/
theorem exists_sampling {log : List Exchange} {blocked : Prop}
    (hcalls : log.map (·.call) <+: s.mineCalls lease a ⟨blob⟩)
    (h : log.map (·.call) = s.mineCalls lease a ⟨blob⟩ ∨
      ∃ f : Failure, f.StopsWhere blocked 1 (log.map (·.call))) :
    ∃ e rest, log = e :: rest ∧ e.call = s.account.questionCall .agreement a.identifier ∧
      (¬ blocked → ∃ x later, rest = x :: later ∧
        x.call = s.extractFrames a.locator lease.frames) := by
  obtain ⟨hmade, hblocked⟩ := Failure.le_length_of_stopsWhere (by simp [mineCalls]) h
  rcases log with _ | ⟨e, rest⟩
  · cases hmade
  · obtain ⟨hcall, hlater⟩ := List.cons_prefix_cons.mp hcalls
    refine ⟨e, rest, rfl, hcall, fun hfree => ?_⟩
    rcases rest with _ | ⟨x, later⟩
    · exact absurd (hblocked rfl) hfree
    · exact ⟨x, later, rfl, (List.cons_prefix_cons.mp hlater).1⟩

/-- A verification puts its two questions, and then its check is launched unless it is blocked. -/
theorem exists_check {id : Identifier} {log : List Exchange} {blocked : Prop}
    (hcalls : log.map (·.call) <+: s.verifyCalls lease id)
    (h : log.map (·.call) = s.verifyCalls lease id ∨
      ∃ f : Failure, f.StopsWhere blocked 2 (log.map (·.call))) :
    ∃ q c rest, log = q :: c :: rest ∧ c.call = s.account.questionCall .proof id ∧
      (¬ blocked → ∃ v, rest = [v] ∧
        v.call = s.verifyProof s.parameters lease.committedProof lease.publicInputs) := by
  obtain ⟨hmade, hblocked⟩ := Failure.le_length_of_stopsWhere (by simp [verifyCalls]) h
  rcases log with _ | ⟨q, _ | ⟨c, rest⟩⟩
  · cases hmade
  · exact absurd hmade (Nat.not_succ_le_self 1)
  · obtain ⟨hcall, hlater⟩ := List.cons_prefix_cons.mp (List.cons_prefix_cons.mp hcalls).2
    refine ⟨q, c, rest, rfl, hcall, fun hfree => ?_⟩
    rcases rest with _ | ⟨v, later⟩
    · exact absurd (hblocked rfl) hfree
    · obtain ⟨hv, hnone⟩ := List.cons_prefix_cons.mp hlater
      rw [List.map_eq_nil_iff.mp (List.prefix_nil.mp hnone)]
      exact ⟨v, rfl, hv⟩

theorem Favours.mines (hbook : run.KeepsBook book) (hproof : run.Proves blob) (hblob : blob ≠ [])
    (hrecord : (book d.site.tools).agreement? a.identifier.text = some a.canonical)
    (h : s.Favours run (.mine a.identifier) d lease) :
    s.Mines run a blob d lease ∧ ∀ p r, (s.mine run a.identifier d).1 = .ok (p, r) →
      (book (s.mine run a.identifier d).2.site.tools).agreement? a.identifier.text =
        some a.canonical ∧
      (book (s.mine run a.identifier d).2.site.tools).proof? a.identifier.text =
        some (ProofBlob.mk blob).canonical := by
  obtain ⟨site, hacquire, htools, hp⟩ := h.exists_site
  rw [← htools] at hrecord
  obtain ⟨asked, hasked⟩ :
      ∃ asked, (run (s.account.questionCall .agreement a.identifier) site).2 = asked := ⟨_, rfl⟩
  obtain ⟨hcalls, hgood, hend⟩ := h.undertake rfl hacquire
    (s.makes_mineCourse hbook hproof hblob (hp rfl) hrecord hasked)
  have hbreaks : (s.callsOf run (.mine a.identifier) d).map (·.call) = s.mineCalls lease a ⟨blob⟩ ∨
      ∃ f : Failure, f.StopsWhere (asked.files.canClear lease.frames = false) 1
        ((s.callsOf run (.mine a.identifier) d).map (·.call)) := by
    rcases hend with ⟨p, r, site', -, hall, -, -⟩ | ⟨f, -, hstops⟩
    · exact .inl hall
    · exact .inr ⟨f, hstops⟩
  obtain ⟨e, rest, htrace, hcall, hsamples⟩ := exists_sampling hcalls hbreaks
  have he : e ∈ s.callsOf run (.mine a.identifier) d := by
    rw [htrace]
    exact List.mem_cons_self
  obtain ⟨output, houtput⟩ := exists_of_isOk (h.answers e he)
  obtain ⟨hafter, hread⟩ := hgood e he (by rw [hcall]; rfl)
  refine ⟨⟨⟨e, rest, output, htrace, hcall, houtput, hread output houtput⟩,
    ⟨e, rest, htrace, fun hclear => hsamples ?_⟩, hcalls, ?_⟩, ?_⟩
  · rw [← hafter, hclear]
    decide
  · rcases hend with ⟨p, r, site', hresult, hall, -, rfl, -⟩ | ⟨f, hf, hstops, -⟩
    · exact .inl ⟨r, hresult, hall⟩
    · exact .inr ⟨f, hf, hstops⟩
  · intro p r hok
    rcases hend with ⟨q, r', site', hresult, -, htools', rfl, hrecords⟩ | ⟨f, hf, -⟩
    · rwa [htools'] at hrecords
    · rw [show (s.mine run a.identifier d).1 = .error f from hf] at hok
      cases hok

theorem Favours.verifies (hbook : run.KeepsBook book) (hblob : blob ≠ [])
    (hinput : a.merkleInput = .ok input)
    (hrecord : (book d.site.tools).agreement? a.identifier.text = some a.canonical)
    (hrecord' : (book d.site.tools).proof? a.identifier.text = some (ProofBlob.mk blob).canonical)
    (h : s.Favours run (.verify a.identifier) d lease) :
    s.Verifies run a.identifier blob input d lease := by
  obtain ⟨site, hacquire, htools, hp⟩ := h.exists_site
  rw [← htools] at hrecord hrecord'
  obtain ⟨fetched, hfetched⟩ : ∃ fetched, (run (s.account.questionCall .proof a.identifier)
      (run (s.account.questionCall .agreement a.identifier) site).2).2 = fetched := ⟨_, rfl⟩
  obtain ⟨hcalls, hgood, hend⟩ := h.undertake rfl hacquire
    (s.makes_verifyCourse hbook hblob hinput (hp rfl) hrecord hrecord' rfl hfetched)
  have hbreaks : (s.callsOf run (.verify a.identifier) d).map (·.call) =
      s.verifyCalls lease a.identifier ∨
      ∃ f : Failure, f.StopsWhere (¬ CanHandOver lease blob input fetched.files) 2
        ((s.callsOf run (.verify a.identifier) d).map (·.call)) := by
    rcases hend with ⟨audit, r, site', -, hall, -, -⟩ | ⟨f, -, hstops⟩
    · exact .inl hall
    · exact .inr ⟨f, hstops⟩
  obtain ⟨q, c, rest, htrace, hcall, hchecks⟩ := exists_check hcalls hbreaks
  have hc : c ∈ s.callsOf run (.verify a.identifier) d := by
    rw [htrace]
    exact List.mem_cons_of_mem _ List.mem_cons_self
  refine ⟨hcalls, ⟨q, c, rest, htrace, fun hcan => hchecks ?_⟩, fun e he => (hgood e he).1, ?_⟩
  · rw [← (hgood c hc).2 hcall]
    exact fun hnot => hnot hcan
  · rcases hend with ⟨audit, r, site', hresult, hall, -, hdigest⟩ | ⟨f, hf, hstops, -⟩
    · exact .inl ⟨audit, r, hresult, hdigest, hall⟩
    · exact .inr ⟨f, hf, hstops⟩

end Runs

/-- Publishing, mining and verifying compose through the ledger. Let the ledger keep a book, the
challenge be a public input in hexadecimal with white space behind it, and the prover write a proof
that is not empty. A favoured publication comes to an agreement, unless an artifact is missing.
Mining that agreement's identifier then asks for it, gets that very agreement and samples the
target's video, unless the list of frames cannot be cleared. When the proof so made has been
committed, verifying the identifier gives that very proof and that public input to the check, unless
the files for them cannot be written, and the public input is read back from what it is given. In
between, the book may be put to any use that leaves alone what it has under the identifier. -/
theorem publish_mine_verify {run : Runner σ} {book : σ → Book} (hbook : run.KeepsBook book)
    {input : PublicInput} (hinput : input.IsHex) (hchallenge : run.Challenges input) {blob : Bytes}
    (hblob : blob ≠ []) (hproof : run.Proves blob) {source target : String}
    (hsource : Text.isAllBlank source = false) (htarget : Text.isAllBlank target = false)
    {s₁ : Settings} {d₁ : Desk σ} {lease₁ : Lease}
    (hpublish : s₁.Favours run (.publish source target) d₁ lease₁) :
    PublicInput.parse input.toJson.canonicalBytes = .ok input ∧
    ((∃ f, (s₁.publish run source target d₁).1 = .error f ∧ f.isOfArtifacts = true) ∨
      ∃ a, s₁.Publishes run book source target input d₁ lease₁ a ∧
        ∀ (s₂ : Settings) (d₂ : Desk σ) (lease₂ : Lease),
          Book.SameAt a.identifier (book (s₁.publish run source target d₁).2.site.tools)
            (book d₂.site.tools) →
          s₂.Favours run (.mine a.identifier) d₂ lease₂ →
          s₂.Mines run a blob d₂ lease₂ ∧
            ∀ (p : ProofBlob) (r : Report) (s₃ : Settings) (d₃ : Desk σ) (lease₃ : Lease),
              (s₂.mine run a.identifier d₂).1 = .ok (p, r) →
              Book.SameAt a.identifier (book (s₂.mine run a.identifier d₂).2.site.tools)
                (book d₃.site.tools) →
              s₃.Favours run (.verify a.identifier) d₃ lease₃ →
              s₃.Verifies run a.identifier blob input d₃ lease₃) := by
  refine ⟨PublicInput.parse_of_spells hinput input.spells_canonicalBytes, ?_⟩
  obtain ⟨a, ha⟩ | hfailed := hpublish.publishes hbook hinput hchallenge hsource htarget
  · refine .inr ⟨a, ha, fun s₂ d₂ lease₂ hsame hmine => ?_⟩
    have hrecord := ha.published.recorded
    rw [hsame.1] at hrecord
    obtain ⟨hmines, hrecorded⟩ := hmine.mines hbook hproof hblob hrecord
    refine ⟨hmines, fun p r s₃ d₃ lease₃ hok hsame' hverify => ?_⟩
    obtain ⟨hagreement, hproof'⟩ := hrecorded p r hok
    rw [hsame'.1] at hagreement
    rw [hsame'.2] at hproof'
    exact hverify.verifies hbook hblob ha.published.merkleInput hagreement hproof'
  · exact .inl hfailed

/-! An honest runner, in directories with proving parameters and nothing else. -/

namespace Specimen

def input : PublicInput := ⟨"0a", "1B", ""⟩

def blob : Bytes := [0, 1, 255]

def run : Runner Book := Runner.honest input blob

def settings : Settings where
  workDir := ⟨"work"⟩
  parameterFile := some ⟨"crs.dat"⟩

def lease : Lease := ⟨⟨"work"⟩, ["srv", "jobs", "work", ".vidproof.lock"], 0⟩

def desk (b : Book) : Desk Book where
  site := ⟨FileSystem.empty.put ["srv", "jobs", "crs.dat"] (.file [1] false none), b⟩

def agreement : Agreement := ⟨"v.ts", .phashMerkle, input.toJson.canonical ++ "\n"⟩

def name : Identifier := ⟨"HcnFtlB1wZGdCATtg9-8Rd1QXDTLFRr-Y-3IDboIz1Y=", by decide +kernel⟩

theorem identifier_agreement : agreement.identifier = name := Identifier.ext (by decide +kernel)

def blank : Book := ⟨fun _ => none, fun _ => none⟩

def published : Book := blank.withAgreement name.text agreement.canonical

def mined : Book := published.withProof name.text (ProofBlob.mk blob).canonical

theorem recorded_published :
    published.agreement? agreement.identifier.text = some agreement.canonical := by
  rw [identifier_agreement]
  exact Book.agreement?_withAgreement _ _ _

theorem recorded_mined : mined.agreement? agreement.identifier.text = some agreement.canonical := by
  rw [mined, Book.agreement?_withProof]
  exact recorded_published

theorem committed_mined :
    mined.proof? agreement.identifier.text = some (ProofBlob.mk blob).canonical := by
  rw [identifier_agreement]
  exact Book.proof?_withProof _ _ _

theorem isHex_input : input.IsHex := by decide

theorem keepsBook_run : run.KeepsBook id := Runner.keepsBook_honest input blob

theorem challenges_run : run.Challenges input := Runner.challenges_honest input blob

theorem proves_run : run.Proves blob := Runner.proves_honest input blob

theorem publish_ok :
    (∀ e ∈ settings.callsOf run (.publish "v.mp4" "v.ts") (desk blank), e.answer.isOk) ∧
    (settings.publish run.observed "v.mp4" "v.ts" ((desk blank).watched [])).1.map (·.1) =
      .ok agreement := by
  decide +kernel

theorem mine_ok : (∀ e ∈ settings.callsOf run (.mine name) (desk published), e.answer.isOk) ∧
    (settings.mine run.observed name ((desk published).watched [])).1.isOk := by decide +kernel

theorem verify_ok : (∀ e ∈ settings.callsOf run (.verify name) (desk mined), e.answer.isOk) ∧
    (settings.verify run.observed name ((desk mined).watched [])).1.isOk := by decide +kernel

theorem favours_publish : settings.Favours run (.publish "v.mp4" "v.ts") (desk blank) lease :=
  ⟨by decide, by decide +kernel, by decide, publish_ok.1⟩

theorem favours_mine : settings.Favours run (.mine name) (desk published) lease :=
  ⟨by decide, by decide +kernel, by decide +kernel, mine_ok.1⟩

theorem favours_verify : settings.Favours run (.verify name) (desk mined) lease :=
  ⟨by decide, by decide +kernel, by decide +kernel, verify_ok.1⟩

end Specimen

open Specimen in
/-- All three runs of an honest runner are favoured, make all their calls and come to what they are
there for. -/
theorem publish_mine_verify_specimen :
    settings.Publishes run id "v.mp4" "v.ts" input (desk blank) lease agreement ∧
      (settings.Favours run (.mine agreement.identifier) (desk published) lease ∧
        settings.Mines run agreement blob (desk published) lease ∧
        (settings.callsOf run (.mine agreement.identifier) (desk published)).map (·.call) =
          settings.mineCalls lease agreement ⟨blob⟩) ∧
      settings.Favours run (.verify agreement.identifier) (desk mined) lease ∧
        settings.Verifies run agreement.identifier blob input (desk mined) lease ∧
        (settings.callsOf run (.verify agreement.identifier) (desk mined)).map (·.call) =
          settings.verifyCalls lease agreement.identifier := by
  have hpublished : (settings.publish run "v.mp4" "v.ts" (desk blank)).1.map (·.1) =
      .ok agreement := by
    rw [← publish_ok.2]
    exact congrArg (Except.map Prod.fst)
      (settings.undertake_observed run (.publish "v.mp4" "v.ts") (desk blank)).symm
  have hmined : (settings.mine run name (desk published)).1.isOk := by
    rw [← mine_ok.2]
    exact congrArg Except.isOk (settings.undertake_observed run (.mine name) (desk published)).symm
  have hverified : (settings.verify run name (desk mined)).1.isOk := by
    rw [← verify_ok.2]
    exact congrArg Except.isOk (settings.undertake_observed run (.verify name) (desk mined)).symm
  obtain ⟨-, ⟨f, hf, -⟩ | ⟨a, ha, hrest⟩⟩ := publish_mine_verify keepsBook_run isHex_input
    challenges_run (by decide) proves_run (by decide) (by decide) favours_publish
  · rw [hf] at hpublished
    cases hpublished
  · obtain ⟨r, hr⟩ := ha.result
    rw [hr] at hpublished
    obtain rfl : a = agreement := Except.ok.inj hpublished
    have hmine : settings.Favours run (.mine agreement.identifier) (desk published) lease := by
      rw [identifier_agreement]
      exact favours_mine
    have hverify : settings.Favours run (.verify agreement.identifier) (desk mined) lease := by
      rw [identifier_agreement]
      exact favours_verify
    have hsame : Book.SameAt agreement.identifier
        (id (settings.publish run "v.mp4" "v.ts" (desk blank)).2.site.tools) published := by
      constructor
      · rw [ha.published.recorded, recorded_published]
      · decide +kernel
    obtain ⟨hmines, hrest⟩ := hrest settings (desk published) lease hsame hmine
    rw [← identifier_agreement] at hmined hverified
    obtain ⟨⟨p, r⟩, hp⟩ := exists_of_isOk hmined
    have hrecord : (id (desk published).site.tools).agreement? agreement.identifier.text =
        some agreement.canonical := by rw [← recorded_published]; rfl
    have hbooks := (hmine.mines keepsBook_run proves_run (by decide) hrecord).2 p r hp
    have hsame : Book.SameAt agreement.identifier
        (id (settings.mine run agreement.identifier (desk published)).2.site.tools) mined := by
      constructor
      · rw [hbooks.1, recorded_mined]
      · rw [hbooks.2, committed_mined]
    have hverifies := hrest p r settings (desk mined) lease hp hsame hverify
    refine ⟨ha, ⟨hmine, hmines, ?_⟩, hverify, hverifies, ?_⟩
    · obtain ⟨_, -, hall⟩ | ⟨f, hf, -⟩ := hmines.outcome
      · exact hall
      · rw [hf] at hmined
        cases hmined
    · obtain ⟨_, _, -, -, hall⟩ | ⟨f, hf, -⟩ := hverifies.outcome
      · exact hall
      · rw [hf] at hverified
        cases hverified

end Settings

end StorageProof
