import StorageProof.Proofs.Flow.StageOrder
import StorageProof.Proofs.Flow.Transactions

/-!
# What stages are given

A stage is given the file that the stage before it has left in the same run. No file was there when
that stage was launched, it has left one that is not empty, and what is cleared away for the next
stage is another file. A runner may do to the files what it likes while it is called, but between
two calls nothing happens to a file that the second one reads.
-/

namespace StorageProof

variable {σ : Type}

/-! ## Files between two calls -/

/-- A file in a directory is found as it was by a call that does not declare one of its name. -/
theorem Exchange.LaunchedAt.read {e : Exchange} {call : Call} {fs : FileSystem} {root : Path}
    {name : String} {bytes : Bytes} (h : e.LaunchedAt call fs) (hname : Path.IsPlainName name)
    (hother : ∀ q, call.declared = .file q → q.names.getLast? ≠ some name)
    (hread : fs.read (root.join name) = .ok bytes) :
    e.before.read (root.join name) = .ok bytes := by
  by_cases hfile : ∃ q, call.declared = .file q
  · obtain ⟨q, hq⟩ := hfile
    have hlast : (root.join name).names.getLast? = some name := by
      rw [Path.names_join hname, List.getLast?_concat]
    exact h.kept q hq _ name bytes hname hlast (hother q hq) hread
  · rw [h.untouched fun q hq => hfile ⟨q, hq⟩]
    exact hread

/-- The second call is given a file by the first one, which has declared it, was launched where
there was none, and has left one that is not empty and is still as it was left. -/
structure Exchange.Supplies (e e' : Exchange) (file : Path) : Prop where
  declared : e.call.declared = .file file
  missing : e.before.inspect file = .error .notFound
  nonEmpty : e'.before.isNonEmptyFile file = true
  unchanged : e'.before.read file = e.after.read file

/-- A call that has left its file gives it to the next one, unless that one declares a file of the
same name. -/
theorem Exchange.supplies {e e' : Exchange} {call call' : Call} {fs : FileSystem} {root : Path}
    {name : String} {output : Output} (hname : Path.IsPlainName name)
    (he : e.LaunchedAt call fs) (hk : call.DeclaresForStage)
    (hdeclared : call.declared = .file (root.join name)) (hdelivers : e.Delivers output)
    (he' : e'.LaunchedAt call' e.after)
    (hother : ∀ q, call'.declared = .file q → q.names.getLast? ≠ some name) :
    e.Supplies e' (root.join name) := by
  rw [← he.call_eq] at hk
  have hdeclares : e.call.declared = .file (root.join name) := by rw [he.call_eq, hdeclared]
  have hleft := (Exchange.delivers_file hk hdeclares).mp hdelivers
  obtain ⟨bytes, hbytes, hne⟩ := FileSystem.isNonEmptyFile_iff.mp hleft
  have hfound := he'.read hname hother hbytes
  exact {
    declared := hdeclares
    missing := he.cleared _ hdeclared
    nonEmpty := FileSystem.isNonEmptyFile_iff.mpr ⟨bytes, hfound, hne⟩
    unchanged := by rw [hfound, hbytes] }

namespace Settings

/-! ## Frames and hashes -/

def framesFile (s : Settings) : Path := s.workDir.join "scaled-frames.txt"

def hashesFile (s : Settings) : Path := s.workDir.join "phashes.txt"

/-- A hashing `h` right after a sampling `x`: the list of frames on its command line is the one that
the sampling was told to leave, and the sampling gives it that file. -/
structure Sampled (s : Settings) (x h : Exchange) : Prop where
  stage : x.call.stage = .extractFrames
  told : ∃ words, x.call.args = words ++ ["--output", s.framesFile.text]
  args : h.call.args = [s.framesFile.text, s.hashesFile.text]
  supplies : x.Supplies h s.framesFile

/-- A challenge or a proof `c` right after a hashing `h`: the list of hashes on its command line is
the one that the hashing was told to leave, and the hashing gives it that file. -/
structure Hashed (s : Settings) (h c : Exchange) : Prop where
  stage : h.call.stage = .perceptualHash
  told : h.call.args = [s.framesFile.text, s.hashesFile.text]
  args : (c.call.stage = .challenge ∧ c.call.args = ["zkporchallenge", s.hashesFile.text]) ∨
    (c.call.stage = .generateProof ∧ ∃ parameters proof witness,
      c.call.args = ["zkporgenproof", parameters, proof, s.hashesFile.text, witness])
  supplies : h.Supplies c s.hashesFile

/-- Whether a call that reads frames or hashes is given them by the calls right before it. -/
structure Supplied (s : Settings) (earlier : List Exchange) (e : Exchange) : Prop where
  frames : e.call.stage = .perceptualHash → ∃ before x, earlier = before ++ [x] ∧ s.Sampled x e
  hashes : e.call.stage = .challenge ∨ e.call.stage = .generateProof →
    ∃ before x h, earlier = before ++ [x, h] ∧ s.Sampled x h ∧ s.Hashed h e

/-- Every call that reads frames or hashes is given them by the calls right before it. -/
def AllSupplied (s : Settings) (log : List Exchange) : Prop :=
  ∀ earlier e later, log = earlier ++ e :: later → s.Supplied earlier e

/-- Stages that read neither frames nor hashes. -/
def ReadsNeither (call : Call) : Prop :=
  call.stage ≠ .perceptualHash ∧ call.stage ≠ .challenge ∧ call.stage ≠ .generateProof

section Logs

variable {s : Settings} {log earlier : List Exchange} {e : Exchange}

theorem Supplied.of_readsNeither (h : ReadsNeither e.call) : s.Supplied earlier e where
  frames := fun hstage => absurd hstage h.1
  hashes := fun hstage => hstage.elim (fun hc => absurd hc h.2.1) fun hg => absurd hg h.2.2

theorem allSupplied_of_readsNeither (h : AllCalls ReadsNeither log) : s.AllSupplied log := by
  rintro earlier e later rfl
  exact .of_readsNeither (h e (by simp))

theorem AllSupplied.concat (h : s.AllSupplied log) (he : s.Supplied log e) :
    s.AllSupplied (log ++ [e]) := by
  intro earlier e' later hlog
  rcases List.eq_nil_or_concat later with rfl | ⟨others, last, rfl⟩
  · obtain ⟨rfl, heq⟩ := List.append_inj' hlog rfl
    cases heq
    exact he
  · have hsplit : log ++ [e] = (earlier ++ e' :: others) ++ [last] := by
      rw [hlog]
      simp
    obtain ⟨hlog, -⟩ := List.append_inj' hsplit rfl
    exact h earlier e' others hlog

theorem AllSupplied.concat_other (h : s.AllSupplied log) (he : ReadsNeither e.call) :
    s.AllSupplied (log ++ [e]) := h.concat (.of_readsNeither he)

/-- One more call at most. -/
theorem AllSupplied.of_stoppedAt {site site' : Site (σ × List Exchange)} {call : Call}
    (h : s.AllSupplied site.log) (hstopped : site.StoppedAt call site')
    (hcall : ∀ e : Exchange, e.LaunchedAt call site.files → s.Supplied site.log e) :
    s.AllSupplied site'.log := by
  rcases hstopped with hlog | ⟨e, he, hlog⟩
  · rwa [hlog]
  · rw [hlog]
    exact h.concat (hcall e he)

end Logs

/-! ## Courses -/

theorem isPlainName_frames : Path.IsPlainName "scaled-frames.txt" :=
  ⟨by decide, by decide, by decide, by decide⟩

theorem isPlainName_hashes : Path.IsPlainName "phashes.txt" :=
  ⟨by decide, by decide, by decide, by decide⟩

theorem isPlainName_proof : Path.IsPlainName "zkpor_proof.dat" :=
  ⟨by decide, by decide, by decide, by decide⟩

/-- The last two calls have sampled and hashed frames, and nothing has happened since. -/
def HashesLeft (s : Settings) (site : Site (σ × List Exchange)) : Prop :=
  s.AllSupplied site.log ∧ ∃ (before : List Exchange) (x h : Exchange) (output : Output),
    site.log = before ++ [x, h] ∧ s.Sampled x h ∧
    h.LaunchedAt (s.perceptualHash s.framesFile s.hashesFile) x.after ∧ h.Delivers output ∧
    site.files = h.after

section Courses

variable {s : Settings} {run : Runner σ} {lease : Lease}

theorem frames_of_root (hroot : lease.root = s.workDir) : lease.frames = s.framesFile := by
  rw [Lease.frames, Lease.file, hroot, framesFile]

theorem hashes_of_root (hroot : lease.root = s.workDir) : lease.hashes = s.hashesFile := by
  rw [Lease.hashes, Lease.file, hroot, hashesFile]

/-- A hashing that is launched where the sampling has left its frames. -/
theorem Sampled.of_launchedAt {source : String} {x h : Exchange} {fs : FileSystem} {output : Output}
    (hx : x.LaunchedAt (s.extractFrames source s.framesFile) fs) (hdelivers : x.Delivers output)
    (hh : h.LaunchedAt (s.perceptualHash s.framesFile s.hashesFile) x.after) : s.Sampled x h where
  stage := by
    rw [hx.call_eq]
    rfl
  told := by
    rw [hx.call_eq]
    exact ⟨["-f", toString s.frameOffset.toNat, "-c", toString s.frameCount.toNat, "--scale",
      "--input", source], rfl⟩
  args := by
    rw [hh.call_eq]
    rfl
  supplies := by
    refine Exchange.supplies isPlainName_frames hx ⟨_, rfl⟩ rfl hdelivers hh fun q hq => ?_
    obtain rfl : s.hashesFile = q := Declared.file.inj hq
    rw [hashesFile, Path.names_join isPlainName_hashes, List.getLast?_concat]
    decide

/-- What reads the list of hashes next is given it. -/
theorem HashesLeft.supplied {site : Site (σ × List Exchange)} (h : s.HashesLeft site)
    {c : Exchange} {call : Call} (hc : c.LaunchedAt call site.files)
    (hargs : (call.stage = .challenge ∧ call.args = ["zkporchallenge", s.hashesFile.text]) ∨
      (call.stage = .generateProof ∧ ∃ parameters proof witness,
        call.args = ["zkporgenproof", parameters, proof, s.hashesFile.text, witness]))
    (hother : ∀ q, call.declared = .file q → q.names.getLast? ≠ some "phashes.txt") :
    s.Supplied site.log c := by
  obtain ⟨-, before, x, h, output, hlog, hsampled, hh, hdelivers, hfiles⟩ := h
  rw [hfiles] at hc
  have hhashed : s.Hashed h c := {
    stage := by
      rw [hh.call_eq]
      rfl
    told := by
      rw [hh.call_eq]
      rfl
    args := by
      rw [hc.call_eq]
      exact hargs
    supplies := Exchange.supplies isPlainName_hashes hh ⟨_, rfl⟩ rfl hdelivers hc hother }
  have hstage : c.call.stage ≠ .perceptualHash := by
    rw [hc.call_eq]
    rcases hargs with ⟨hstage, -⟩ | ⟨hstage, -⟩ <;> simp [hstage]
  exact {
    frames := fun hp => absurd hp hstage
    hashes := fun _ => ⟨before, x, h, hlog, hsampled, hhashed⟩ }

theorem ends_sampling (s : Settings) (run : Runner σ) (hroot : lease.root = s.workDir)
    (source : String) {st : Site (σ × List Exchange) × List RunState}
    (hst : s.AllSupplied (Course.log st)) :
    Ends (s.sampleAndHash run.observed lease source) st (fun _ st' => s.HashesLeft st'.1)
      (fun _ st' => s.AllSupplied (Course.log st')) := by
  unfold sampleAndHash
  rw [frames_of_root hroot, hashes_of_root hroot]
  have hextract := Call.ends_perform run (s.extractFrames source s.framesFile) ⟨_, rfl⟩ st.1
  have hhash := Call.ends_perform run (s.perceptualHash s.framesFile s.hashesFile) ⟨_, rfl⟩
  have hneither : ReadsNeither (s.extractFrames source s.framesFile) := by
    simp [ReadsNeither, extractFrames]
  refine Course.ends_enter (Course.ends_act hextract (fun _ s₁ h₁ => ?_) fun _ s₁ h₁ => ?_)
  · obtain ⟨x, hx, -, hdelivers, hlog₁, hfiles₁⟩ := h₁
    have hsupplied₁ : s.AllSupplied s₁.log := by
      rw [hlog₁]
      exact hst.concat_other (hx.call_eq ▸ hneither)
    -- whether or not the hashing succeeds, it is given the frames
    have hnext {h : Exchange}
        (hh : h.LaunchedAt (s.perceptualHash s.framesFile s.hashesFile) s₁.files) :
        s.Sampled x h ∧ s.Supplied s₁.log h := by
      rw [hfiles₁] at hh
      have hsampled := Sampled.of_launchedAt hx hdelivers hh
      refine ⟨hsampled, fun _ => ⟨_, x, hlog₁, hsampled⟩, fun hstage => ?_⟩
      rw [hh.call_eq] at hstage
      rcases hstage with hstage | hstage <;> cases hstage
    refine Course.ends_enter (Course.ends_act (hhash s₁) (fun _ s₂ h₂ => ?_) fun _ s₂ h₂ => ?_)
    · obtain ⟨h, hh, -, hdelivers', hlog₂, hfiles₂⟩ := h₂
      obtain ⟨hsampled, hsupplied⟩ := hnext hh
      refine .pure ⟨?_, Course.log st, x, h, _, ?_, hsampled, hfiles₁ ▸ hh, hdelivers', hfiles₂⟩
      · show s.AllSupplied s₂.log
        rw [hlog₂]
        exact hsupplied₁.concat hsupplied
      · show s₂.log = _
        rw [hlog₂, hlog₁, List.append_assoc]
        rfl
    · exact hsupplied₁.of_stoppedAt h₂ fun h hh => (hnext hh).2
  · exact hst.of_stoppedAt h₁ fun x hx => .of_readsNeither (hx.call_eq ▸ hneither)

theorem ends_transaction_supplied (run : Runner σ) (call : Call) (hk : call.DeclaresForStage)
    (hcall : ReadsNeither call) {site : Site (σ × List Exchange)} (h : s.AllSupplied site.log) :
    Ends (call.perform run.observed >>= fun _ => pure ()) site
      (fun _ site' => s.AllSupplied site'.log) (fun _ site' => s.AllSupplied site'.log) := by
  refine (ends_transaction run call hk site).weaken (fun _ site' h' => ?_) (fun _ site' h' => ?_)
  · obtain ⟨e, he, hlog⟩ := h'
    rw [hlog]
    exact h.concat_other (he.call_eq ▸ hcall)
  · exact h.of_stoppedAt h' fun e he => .of_readsNeither (he.call_eq ▸ hcall)

theorem ends_create_supplied (run : Runner σ) (id : Identifier) (a : Agreement)
    {site : Site (σ × List Exchange)} (h : s.AllSupplied site.log) :
    Ends (s.account.create run.observed s.reward id a) site
      (fun _ site' => s.AllSupplied site'.log) (fun _ site' => s.AllSupplied site'.log) :=
  ends_transaction_supplied run (s.account.createCall s.reward id a) rfl
    (by simp [ReadsNeither, Account.createCall]) h

theorem ends_commit_supplied (run : Runner σ) (id : Identifier) (p : ProofBlob)
    {site : Site (σ × List Exchange)} (h : s.AllSupplied site.log) :
    Ends (s.account.commit run.observed id p) site
      (fun _ site' => s.AllSupplied site'.log) (fun _ site' => s.AllSupplied site'.log) :=
  ends_transaction_supplied run (s.account.commitCall id p) rfl
    (by simp [ReadsNeither, Account.commitCall]) h

theorem ends_publishCourse_supplied (s : Settings) (run : Runner σ) (source target : String)
    (hroot : lease.root = s.workDir) {st : Site (σ × List Exchange) × List RunState}
    (hst : s.AllSupplied (Course.log st)) :
    Ends (s.publishCourse run.observed source target lease) st
      (fun _ st' => s.AllSupplied (Course.log st'))
      (fun _ st' => s.AllSupplied (Course.log st')) := by
  refine (s.ends_sampling run hroot source hst).bind (fun _ st₁ h₁ => ?_) (fun _ _ h => h)
  have hchallenge := Call.ends_perform run (s.challenge lease.hashes) rfl st₁.1
  -- whether or not the challenge succeeds, it is given the hashes
  have hnext {c : Exchange} (hc : c.LaunchedAt (s.challenge lease.hashes) st₁.1.files) :
      s.Supplied st₁.1.log c := by
    refine h₁.supplied hc (.inl ⟨rfl, ?_⟩) fun q hq => by cases hq
    rw [hashes_of_root hroot]
    rfl
  refine Course.ends_enter (Course.ends_act hchallenge (fun output s₂ h₂ => ?_)
    fun _ _ h₂ => h₁.1.of_stoppedAt h₂ fun c hc => hnext hc)
  obtain ⟨c, hc, -, -, hlog₂, -⟩ := h₂
  have hsupplied₂ : s.AllSupplied s₂.log := by
    rw [hlog₂]
    exact h₁.1.concat (hnext hc)
  refine Course.ends_act (ends_writeBytes _ _ s₂) (fun _ s₃ h₃ => ?_)
    (fun _ _ h₃ => (congrArg s.AllSupplied h₃).mpr hsupplied₂)
  have hsupplied₃ : s.AllSupplied s₃.log := (congrArg s.AllSupplied h₃.1).mpr hsupplied₂
  exact Course.ends_enter (Course.ends_act (ends_create_supplied run _ _ hsupplied₃)
    (fun _ _ h₄ => .pure h₄) fun _ _ h₄ => h₄)

/-- The last part of a mining, from the hashes on. -/
theorem HashesLeft.ends_proving {st : Site (σ × List Exchange) × List RunState}
    (h : s.HashesLeft st.1) (run : Runner σ) (id : Identifier) (hroot : lease.root = s.workDir) :
    Ends (do
        Course.enter .proving
        let _ ← Course.act ((s.generateProof s.parameters lease.proof lease.hashes
          lease.witness).perform run.observed)
        let proof ← Course.act (ProofBlob.readFrom lease.proof)
        Course.enter .submitting
        Course.act (s.account.commit run.observed id proof)
        return proof) st
      (fun _ st' => s.AllSupplied (Course.log st'))
      (fun _ st' => s.AllSupplied (Course.log st')) := by
  have hprove := Call.ends_perform run
    (s.generateProof s.parameters lease.proof lease.hashes lease.witness) ⟨_, rfl⟩ st.1
  -- the clearing of the proof leaves the hashes, so the prover is given them
  have hnext {g : Exchange} (hg : g.LaunchedAt
      (s.generateProof s.parameters lease.proof lease.hashes lease.witness) st.1.files) :
      s.Supplied st.1.log g := by
    refine h.supplied hg (.inr ⟨rfl, s.parameters.text, lease.proof.text, lease.witness.text, ?_⟩)
      fun q hq => ?_
    · rw [hashes_of_root hroot]
      rfl
    · obtain rfl : lease.proof = q := Declared.file.inj hq
      rw [Lease.proof, Lease.file, Path.names_join isPlainName_proof, List.getLast?_concat]
      decide
  refine Course.ends_enter (Course.ends_act hprove (fun _ s₁ h₁ => ?_)
    fun _ _ h₁ => h.1.of_stoppedAt h₁ fun g hg => hnext hg)
  obtain ⟨g, hg, -, -, hlog₁, -⟩ := h₁
  have hsupplied₁ : s.AllSupplied s₁.log := by
    rw [hlog₁]
    exact h.1.concat (hnext hg)
  refine Course.ends_act (ProofBlob.ends_readFrom _ s₁) (fun p s₂ h₂ => ?_)
    (fun _ _ h₂ => (congrArg (fun site => s.AllSupplied (Site.log site)) h₂).mpr hsupplied₁)
  obtain ⟨rfl, -⟩ := h₂
  exact Course.ends_enter (Course.ends_act (ends_commit_supplied run id p hsupplied₁)
    (fun _ _ h₃ => .pure h₃) fun _ _ h₃ => h₃)

theorem ends_mineCourse_supplied (s : Settings) (run : Runner σ) (id : Identifier)
    (hroot : lease.root = s.workDir) {st : Site (σ × List Exchange) × List RunState}
    (hst : s.AllSupplied (Course.log st)) :
    Ends (s.mineCourse run.observed id lease) st
      (fun _ st' => s.AllSupplied (Course.log st'))
      (fun _ st' => s.AllSupplied (Course.log st')) := by
  refine Course.ends_act (s.ends_requireParameters st.1) (fun parameters s₁ h₁ => ?_)
    (fun _ _ h₁ => (congrArg (fun site => s.AllSupplied (Site.log site)) h₁).mpr hst)
  obtain ⟨rfl, rfl⟩ := h₁
  have hquestion : ReadsNeither (s.account.questionCall .agreement id) := by
    simp [ReadsNeither, Account.questionCall]
  have hask := s.account.ends_agreement run id st.1
  refine Course.ends_enter (Course.ends_act hask (fun a s₂ h₂ => ?_) fun _ _ h₂ =>
    hst.of_stoppedAt h₂ fun q hq => .of_readsNeither (hq.call_eq ▸ hquestion))
  obtain ⟨q, answer, hq, -, -, hlog₂, -⟩ := h₂
  have hsupplied₂ : s.AllSupplied s₂.log := by
    rw [hlog₂]
    exact hst.concat_other (hq.call_eq ▸ hquestion)
  have hsample := s.ends_sampling run hroot a.locator
    (show s.AllSupplied (Course.log (s₂, st.2 ++ [.resolving])) from hsupplied₂)
  exact hsample.bind (fun _ _ h₃ => h₃.ends_proving run id hroot) fun _ _ h => h

end Courses

/-! ## Jobs -/

/-- The calls of a job keep to the stages of its plan. -/
theorem stage_callsOf (s : Settings) (run : Runner σ) (job : Job) (d : Desk σ) {e : Exchange}
    (he : e ∈ s.callsOf run job d) : ∃ purpose ∈ job.plan, e.call.stage = purpose.stage := by
  have hfollows := (s.follows_undertake run job (d := d.watched []) rfl).1
  have hmem : e.call.purpose ∈ (s.callsOf run job d).map (·.call.purpose) := List.mem_map_of_mem he
  exact ⟨e.call.purpose, hfollows.purposes.subset hmem, rfl⟩

theorem allSupplied_callsOf (s : Settings) (run : Runner σ) (job : Job) (d : Desk σ) :
    s.AllSupplied (s.callsOf run job d) := by
  have hnone : s.AllSupplied [] := allSupplied_of_readsNeither allCalls_nil
  -- a job that transacts is followed from call to call, the others call no stage in question
  have hcourse (h : ∀ lease (site : Site (σ × List Exchange)), lease.root = s.workDir →
      site.log = [] → Ends (s.courseOf run.observed job lease) (site, [.init])
        (fun _ st => s.AllSupplied (Course.log st)) (fun _ st => s.AllSupplied (Course.log st))) :
      s.AllSupplied (s.callsOf run job d) := by
    obtain ⟨_, _, -, hlog⟩ | ⟨_, -, hlog⟩ := s.undertake_of_ends run job d
      (fun _ => s.AllSupplied) (fun _ => s.AllSupplied) (fun _ => hnone) h
    · exact hlog
    · exact hlog
  have hother (h : ∀ purpose ∈ job.plan, purpose.stage ≠ .perceptualHash ∧
      purpose.stage ≠ .challenge ∧ purpose.stage ≠ .generateProof) :
      s.AllSupplied (s.callsOf run job d) := by
    refine allSupplied_of_readsNeither fun e he => ?_
    obtain ⟨purpose, hpurpose, hstage⟩ := s.stage_callsOf run job d he
    rw [ReadsNeither, hstage]
    exact h purpose hpurpose
  cases job with
  | publish source target =>
    refine hcourse fun lease site hroot hlog => ?_
    exact s.ends_publishCourse_supplied run source target hroot
      (show s.AllSupplied site.log from hlog ▸ hnone)
  | mine id =>
    refine hcourse fun lease site hroot hlog => ?_
    exact s.ends_mineCourse_supplied run id hroot (show s.AllSupplied site.log from hlog ▸ hnone)
  | verify id => exact hother (by simp [Job.plan, verifyPlan])
  | setup force => exact hother (by simp [Job.plan, setupPlan])

/-- No stage reads what an earlier run has left, or what is not there, whatever the runner does to
the files and wherever the run breaks off. When the hashing is launched, the list of frames on its
command line is the one that the sampling right before it was told to leave and has declared, and it
is not empty; when a challenge or a proof is, the same holds of the list of hashes and the hashing
right before it. Neither list was there when the call that left it was launched. -/
theorem inputs_fresh (s : Settings) (run : Runner σ) (job : Job) (d : Desk σ)
    {earlier later : List Exchange} {e : Exchange}
    (he : s.callsOf run job d = earlier ++ e :: later) :
    (e.call.stage = .perceptualHash →
      ∃ before x, earlier = before ++ [x] ∧ s.Sampled x e) ∧
    (e.call.stage = .challenge ∨ e.call.stage = .generateProof →
      ∃ before x h, earlier = before ++ [x, h] ∧ s.Sampled x h ∧ s.Hashed h e) := by
  obtain ⟨hframes, hhashes⟩ := s.allSupplied_callsOf run job d earlier e later he
  exact ⟨hframes, hhashes⟩

open Specimen in
/-- Hashes that an earlier run has left are not what a proof is made from. -/
theorem inputs_fresh_stocked :
    ∃ x h g, g ∈ settings.callsOf run (.mine name) (stocked listed "phashes.txt") ∧
      g.call.stage = .generateProof ∧ settings.Sampled x h ∧ settings.Hashed h g := by
  obtain ⟨g, hg, hstage⟩ :
      ∃ g ∈ settings.callsOf run (.mine name) (stocked listed "phashes.txt"),
        g.call.stage = .generateProof := by decide +kernel
  obtain ⟨earlier, later, hlog⟩ := List.append_of_mem hg
  obtain ⟨-, hproof⟩ :=
    settings.inputs_fresh run (.mine name) (stocked listed "phashes.txt") hlog
  obtain ⟨before, x, h, -, hsampled, hhashed⟩ := hproof (.inr hstage)
  exact ⟨x, h, g, hg, hstage, hsampled, hhashed⟩

end Settings

end StorageProof
