import StorageProof.Proofs.Call.Making
import StorageProof.Proofs.Files.FileSystem
import StorageProof.Proofs.Flow.Job
import StorageProof.Proofs.Ledger.Book

/-!
# The calls of courses

What the courses of publishing, mining and verifying call, with a ledger that keeps a book. Where
everything they need is on record in it, nothing but a failed call and missing artifacts can stop
them.
-/

namespace StorageProof

variable {σ α : Type}

/-! ## Courses and their calls -/

/-- The failures that come from the system itself. -/
def Failure.isIo : Failure → Bool
  | .io .. => true
  | _ => false

/-- A failure that only artifacts are to blame for, after a number of calls at least; with no more
calls than that, only the system. -/
def Failure.StopsAfter (calls : Nat) (f : Failure) (made : List Call) : Prop :=
  f.isOfArtifacts = true ∧ calls ≤ made.length ∧ (made.length = calls → f.isIo = true)

theorem Failure.stopsAfter_io {calls : Nat} {made : List Call} (h : calls ≤ made.length)
    (context : String) (cause : SystemError) : Failure.StopsAfter calls (.io context cause) made :=
  ⟨rfl, h, fun _ => rfl⟩

theorem Failure.stopsAfter_of_lt {calls : Nat} {f : Failure} {made : List Call}
    (hf : f.isOfArtifacts = true) (h : calls < made.length) : f.StopsAfter calls made :=
  ⟨hf, h.le, fun heq => absurd heq h.ne'⟩

/-- The same, where with no more calls than that something must stand in the system's way. -/
def Failure.StopsWhere (blocked : Prop) (calls : Nat) (f : Failure) (made : List Call) : Prop :=
  f.StopsAfter calls made ∧ (made.length = calls → blocked)

theorem Failure.stopsWhere_io {blocked : Prop} {calls : Nat} {made : List Call}
    (h : calls ≤ made.length) (hblocked : blocked) (context : String) (cause : SystemError) :
    Failure.StopsWhere blocked calls (.io context cause) made :=
  ⟨stopsAfter_io h context cause, fun _ => hblocked⟩

theorem Failure.stopsWhere_of_lt {blocked : Prop} {calls : Nat} {f : Failure} {made : List Call}
    (hf : f.isOfArtifacts = true) (h : calls < made.length) : f.StopsWhere blocked calls made :=
  ⟨stopsAfter_of_lt hf h, fun heq => absurd heq h.ne'⟩

/-- Where calls are all made, or break off with such a failure, no fewer are made than it allows. -/
theorem Failure.le_length_of_stopsWhere {blocked : Prop} {n : Nat} {calls made : List Call}
    (hn : n < calls.length)
    (h : made = calls ∨ ∃ f : Failure, f.StopsWhere blocked n made) :
    n ≤ made.length ∧ (made.length = n → blocked) := by
  rcases h with rfl | ⟨f, ⟨-, hmade, -⟩, hblocked⟩
  · exact ⟨hn.le, fun heq => absurd heq hn.ne'⟩
  · exact ⟨hmade, hblocked⟩

namespace Course

def look : View (Site (σ × List Exchange) × List RunState) σ := fun st => st.1.look

variable {good : Exchange → Prop} {fails : Failure → List Call → Prop} {calls : List Call}
  {post : α → Site σ → Prop} {st : Site (σ × List Exchange) × List RunState}

theorem makes_act {a : Action (σ × List Exchange) α}
    (h : Makes Site.look good fails calls post a st.1) :
    Makes look good fails calls post (act a) st := h

theorem makes_enter (next : RunState) :
    Makes look good fails [] (fun _ s' => s' = st.1.inner) (enter next) st := by
  refine .silent rfl (fun u s' h => ?_) (fun f s' h => ?_)
  · cases h
    rfl
  · cases h

end Course

/-- The proof from the ledger and the public inputs are in files of different names. -/
theorem Lease.committedProof_ne_publicInputs (lease : Lease) :
    lease.committedProof.names.getLast? ≠ lease.publicInputs.names.getLast? := by
  have hproof : Path.IsPlainName "zkpor_committed_proof.dat" :=
    ⟨by decide, by decide, by decide, by decide⟩
  have hinputs : Path.IsPlainName "zkpor_public_inputs.json" :=
    ⟨by decide, by decide, by decide, by decide⟩
  rw [Lease.committedProof, Lease.publicInputs, Lease.file, Lease.file, Path.names_join hproof,
    Path.names_join hinputs, List.getLast?_concat, List.getLast?_concat]
  decide

section Actions

variable {good : Exchange → Prop} {fails : Failure → List Call → Prop}
  {s : Site (σ × List Exchange)}

/-- Writing a file fails with a failure of the system, or makes directories and writes. -/
theorem writeBytes_cases (p : Path) (bytes : Bytes) (s : Site σ) :
    (∃ context cause s', writeBytes p bytes s = (.error (.io context cause), s')) ∨
    ∃ fs fs', FileSystem.Keeps s.files fs ∧ fs.write p bytes = .ok fs' ∧
      writeBytes p bytes s = (.ok (), { s with files := fs' }) := by
  have hkeeps := s.files.keeps_makeParent p
  unfold writeBytes
  rcases h : s.files.makeParent p with ⟨e | _, fs⟩
  · have hw : Action.working s!"creating parent directory {p.text}" (·.makeParent p) s =
        (.error (.io s!"creating parent directory {p.text}" e), { s with files := fs }) := by
      simp only [Action.working, h]
    rw [bind_of_error hw]
    exact .inl ⟨_, _, _, rfl⟩
  · rw [h] at hkeeps
    have hw : Action.working s!"creating parent directory {p.text}" (·.makeParent p) s =
        (.ok (), { s with files := fs }) := by simp only [Action.working, h]
    rw [bind_of_ok hw]
    rcases hwrite : fs.write p bytes with e | fs'
    · simp only [Action.changing, hwrite]
      exact .inl ⟨_, _, _, rfl⟩
    · simp only [Action.changing, hwrite]
      exact .inr ⟨fs, fs', hkeeps, hwrite, rfl⟩

/-- The files after a file has been written, with the directories it lies in. -/
def FileSystem.store (fs : FileSystem) (p : Path) (bytes : Bytes) : Except SystemError FileSystem :=
  match fs.makeParent p with
  | (.ok (), fs) => fs.write p bytes
  | (.error e, _) => .error e

theorem writeBytes_of_store {p : Path} {bytes : Bytes} {s : Site σ} {fs : FileSystem}
    (h : s.files.store p bytes = .ok fs) :
    writeBytes p bytes s = (.ok (), { s with files := fs }) := by
  unfold FileSystem.store at h
  rcases hmake : s.files.makeParent p with ⟨e | _, fs₁⟩
  · rw [hmake] at h
    cases h
  · rw [hmake] at h
    have h : fs₁.write p bytes = .ok fs := h
    have hworking : Action.working s!"creating parent directory {p.text}" (·.makeParent p) s =
        (.ok (), { s with files := fs₁ }) := by simp only [Action.working, hmake]
    unfold writeBytes
    rw [bind_of_ok hworking]
    simp only [Action.changing, h]

/-- A file is written where no tool is called. -/
theorem makes_writeBytes {p : Path} {bytes : Bytes}
    (hio : (∀ fs, s.files.store p bytes ≠ .ok fs) →
      ∀ context cause, fails (.io context cause) []) :
    Makes Site.look good fails []
      (fun _ s' => s'.tools = s.tools.1 ∧ (∃ fs, FileSystem.Keeps s.files fs ∧
        fs.write p bytes = .ok s'.files) ∧
          ∀ fs, s.files.store p bytes = .ok fs → s'.files = fs)
      (writeBytes p bytes) s := by
  have hlog : (writeBytes p bytes s).2.log = s.log := congrArg Prod.snd (writeBytes_tools p bytes s)
  obtain ⟨context, cause, s', hw⟩ | ⟨fs, fs', hkeeps, hwrite, hw⟩ := writeBytes_cases p bytes s
  · refine .silent hlog (fun u s' h => ?_) (fun f s' h => ?_)
    · rw [hw] at h
      cases h
    · rw [hw] at h
      cases h
      refine hio (fun fs hstore => ?_) context cause
      rw [writeBytes_of_store hstore] at hw
      cases hw
  · refine .silent hlog (fun u s' h => ?_) (fun f s' h => ?_)
    · rw [hw] at h
      cases h
      refine ⟨rfl, ⟨fs, hkeeps, hwrite⟩, fun fs'' hstore => ?_⟩
      rw [writeBytes_of_store hstore] at hw
      cases hw
      rfl
    · rw [hw] at h
      cases h

theorem ProofBlob.makes_readFrom {p : Path} {blob : Bytes} (hblob : blob ≠ [])
    (hread : s.files.read p = .ok blob) :
    Makes Site.look good fails [] (fun proof s' => proof = ⟨blob⟩ ∧ s' = s.inner)
      (ProofBlob.readFrom p) s := by
  have hempty : blob.isEmpty = false := by rwa [List.isEmpty_eq_false_iff]
  have hr : ProofBlob.readFrom p s = (.ok ⟨blob⟩, s) := by
    simp only [ProofBlob.readFrom, hread, hempty, Bool.false_eq_true, if_false]
  refine .silent (by rw [hr]) (fun proof s' h => ?_) (fun f s' h => ?_)
  · rw [hr] at h
    cases h
    exact ⟨rfl, rfl⟩
  · rw [hr] at h
    cases h

theorem makes_ofExcept {r : Except Failure α} {a : α} (h : r = .ok a) :
    Makes Site.look good fails [] (fun b s' => b = a ∧ s' = s.inner) (Action.ofExcept r) s := by
  subst h
  exact .pure ⟨rfl, rfl⟩

/-- What a transaction does to the book when it succeeds. -/
theorem makes_transaction {run : Runner σ} {book : σ → Book} {call : Call} (effect : Book → Book)
    (hd : call.declared = .exitOnly)
    (heffect : ∀ {s s' output}, run call s = (.ok output, s') →
      book s'.tools = effect (book s.tools))
    (hgood : good (run.exchange call s)) :
    Makes Site.look good fails [call] (fun _ s' => book s'.tools = effect (book s.tools.1))
      (call.perform run.observed >>= fun _ => pure ()) s := by
  have hperform : Makes Site.look good fails [call]
      (fun _ s' => book s'.tools = effect (book s.tools.1))
      (call.perform run.observed) s := .perform_exitOnly hd hgood fun output s' hrun => heffect hrun
  exact hperform.next fun _ s' _ h => .pure h

end Actions

namespace Settings

variable {good : Exchange → Prop} {fails : Failure → List Call → Prop} {run : Runner σ}
  {book : σ → Book} {st : Site (σ × List Exchange) × List RunState}

theorem makes_requireParameters (s : Settings) (h : st.1.files.isNonEmptyFile s.parameters = true) :
    Makes Course.look good fails [] (fun p s' => p = s.parameters ∧ s' = st.1.inner)
      (Course.act s.requireParameters) st := by
  have hact : Course.act s.requireParameters st = (.ok s.parameters, st) := by
    simp only [Course.act, requireParameters, h, if_true]
  refine .silent (by rw [hact]) (fun p s' h' => ?_) (fun f s' h' => ?_)
  · rw [hact] at h'
    cases h'
    exact ⟨rfl, rfl⟩
  · rw [hact] at h'
    cases h'

def sampleCalls (s : Settings) (lease : Lease) (source : String) : List Call :=
  [s.extractFrames source lease.frames, s.perceptualHash lease.frames lease.hashes]

/-- Sampling and hashing leave the book as it is. -/
theorem makes_sampleAndHash (s : Settings) (hbook : run.KeepsBook book) {lease : Lease}
    {source : String} (hgood : ∀ e : Exchange, e.call ∈ s.sampleCalls lease source → good e)
    (hclear : st.1.files.canClear lease.frames = false →
      ∀ context cause, fails (.io context cause) [])
    (hfiles : ∀ f made, f.isOfArtifacts = true → made ≠ [] → fails f made) :
    Makes Course.look good fails (s.sampleCalls lease source)
      (fun _ s' => book s'.tools = book st.1.tools.1)
      (s.sampleAndHash run.observed lease source) st := by
  refine (Course.makes_enter _).after_silent fun _ st₁ _ h₁ => ?_
  have hfiles₁ : st₁.1.files = st.1.files := congrArg (fun x : Site σ => x.files) h₁
  have hextract : Makes Course.look good fails [s.extractFrames source lease.frames]
      (fun _ s' => book s'.tools = book st.1.tools.1)
      (Course.act ((s.extractFrames source lease.frames).perform run.observed)) st₁ := by
    refine Course.makes_act (.perform_file rfl (fun s' => ?_) ?_ ?_ ?_)
    · exact hgood _ (by simp [Runner.exchange, sampleCalls])
    · rwa [hfiles₁]
    · exact fun f hf => hfiles f _ hf (by simp)
    · intro s₂ output s' htools hrun
      rw [hbook.other rfl hrun, htools]
      exact congrArg (fun x => book (Site.tools x)) h₁
  refine hextract.next fun _ st₂ _ h₂ => ?_
  refine (Course.makes_enter _).after_silent fun _ st₃ _ h₃ => ?_
  have hhash : Makes Course.look good
      (fun e made => fails e (s.extractFrames source lease.frames :: made))
      [s.perceptualHash lease.frames lease.hashes] (fun _ s' => book s'.tools = book st.1.tools.1)
      (Course.act ((s.perceptualHash lease.frames lease.hashes).perform run.observed)) st₃ := by
    refine Course.makes_act (.perform_file rfl (fun s' => ?_) ?_ ?_ ?_)
    · exact hgood _ (by simp [Runner.exchange, sampleCalls])
    · exact fun _ context cause => hfiles _ _ rfl (by simp)
    · exact fun f hf => hfiles f _ hf (by simp)
    · intro s₄ output s' htools hrun
      rw [hbook.other rfl hrun, htools, ← h₂]
      exact congrArg (fun x => book (Site.tools x)) h₃
  exact hhash.next fun _ st₄ _ h₄ => .pure h₄

/-! ## Publishing -/

/-- The calls by which a video is published under an agreement. -/
def publishCalls (s : Settings) (lease : Lease) (source : String) (a : Agreement) : List Call :=
  s.sampleCalls lease source ++
    [s.challenge lease.hashes, s.account.createCall s.reward a.identifier a]

/-- What holds once an agreement has been published: it has the target's locator and the challenged
public input, and is on record under its identifier. -/
structure Published (target : String) (input : PublicInput) (b : Book) (a : Agreement) : Prop where
  locator : a.locator = target
  merkleInput : a.merkleInput = .ok input
  recorded : b.agreement? a.identifier.text = some a.canonical

/-- The challenge settles the agreement, and the agreement goes into the book. -/
theorem makes_publishCourse (s : Settings) (hbook : run.KeepsBook book) {input : PublicInput}
    (hinput : input.IsHex) (hchallenge : run.Challenges input) (source target : String)
    (lease : Lease) (st : Site (σ × List Exchange) × List RunState) :
    ∃ a : Agreement, Makes Course.look (fun _ => True) (Failure.StopsAfter 0)
      (s.publishCalls lease source a)
      (fun b s' => b = a ∧ Published target input (book s'.tools) b)
      (s.publishCourse run.observed source target lease) st := by
  refine (s.makes_sampleAndHash hbook (fun _ _ => trivial) ?_ ?_).bind_exists
    ⟨target, .phashMerkle, ""⟩ fun _ st₁ _ _ => ?_
  · exact fun _ => Failure.stopsAfter_io (Nat.zero_le _)
  · exact fun f made hf hne => Failure.stopsAfter_of_lt hf (List.length_pos_iff.mpr hne)
  refine (Course.makes_enter _).bind_exists ⟨target, .phashMerkle, ""⟩ fun _ st₂ _ _ => ?_
  have hchallenge : Makes Course.look (fun _ => True)
      (fun f made => f.StopsAfter 0 (s.sampleCalls lease source ++ made)) [s.challenge lease.hashes]
      (fun output _ => (Agreement.mk target .phashMerkle output.text).merkleInput = .ok input)
      (Course.act ((s.challenge lease.hashes).perform run.observed)) st₂ := by
    refine Course.makes_act (.perform_stdout rfl trivial ?_ ?_)
    · exact fun f hf => Failure.stopsAfter_of_lt hf (by simp)
    · exact fun output s' hrun => hchallenge.merkleInput hinput rfl hrun target
  refine hchallenge.bind_exists ⟨target, .phashMerkle, ""⟩ fun output st₃ _ h₃ => ?_
  refine ⟨⟨target, .phashMerkle, output.text⟩, ?_⟩
  refine (Course.makes_act (makes_writeBytes ?_)).after_silent fun _ st₄ _ _ => ?_
  · exact fun _ => Failure.stopsAfter_io (Nat.zero_le _)
  refine (Course.makes_enter _).after_silent fun _ st₅ _ _ => ?_
  refine (Course.makes_act (makes_transaction (Book.withAgreement · _ _) rfl (hbook.create rfl rfl)
    trivial)).next fun _ st₆ _ h₆ => .pure ⟨rfl, rfl, h₃, ?_⟩
  rw [h₆, Book.agreement?_withAgreement]

/-! ## Mining -/

/-- The calls by which the storage of an agreement's video is proven. -/
def mineCalls (s : Settings) (lease : Lease) (a : Agreement) (p : ProofBlob) : List Call :=
  s.account.questionCall .agreement a.identifier :: (s.sampleCalls lease a.locator ++
    [s.generateProof s.parameters lease.proof lease.hashes lease.witness,
      s.account.commitCall a.identifier p])

/-- A question in an exchange is answered with an agreement, and leaves certain files. -/
def Resolves (a : Agreement) (left : FileSystem) (e : Exchange) : Prop :=
  e.call.stage = .ledgerQuery → e.after = left ∧ ∀ output, e.answer = .ok output →
    Agreement.ofAnswer a.identifier output.text = .ok a

/-- With an agreement on record, it is what is mined: its video is sampled, and the proof that the
prover makes goes into the book. Between the question and the sampling nothing can fail but the
clearing of the list of frames. -/
theorem makes_mineCourse (s : Settings) (hbook : run.KeepsBook book) {blob : Bytes}
    (hproof : run.Proves blob) (hblob : blob ≠ []) {a : Agreement} {lease : Lease}
    (hp : st.1.files.isNonEmptyFile s.parameters = true)
    (hrecord : (book st.1.tools.1).agreement? a.identifier.text = some a.canonical)
    {asked : Site σ}
    (hasked : (run (s.account.questionCall .agreement a.identifier) st.1.inner).2 = asked) :
    Makes Course.look (Resolves a asked.files)
      (Failure.StopsWhere (asked.files.canClear lease.frames = false) 1)
      (s.mineCalls lease a ⟨blob⟩)
      (fun p s' => p = ⟨blob⟩ ∧ (book s'.tools).agreement? a.identifier.text = some a.canonical ∧
        (book s'.tools).proof? a.identifier.text = some p.canonical)
      (s.mineCourse run.observed a.identifier lease) st := by
  refine (s.makes_requireParameters hp).after_silent fun parameters st₁ _ h₁ => ?_
  obtain ⟨rfl, h₁⟩ := h₁
  refine (Course.makes_enter _).after_silent fun _ st₂ _ h₂ => ?_
  have hinner : st₂.1.inner = st.1.inner := h₂.trans h₁
  have htools : st₂.1.tools.1 = st.1.tools.1 := congrArg Site.tools hinner
  rw [← hinner] at hasked
  -- the agreement on record is the answer
  have hask : Makes Course.look (Resolves a asked.files)
      (Failure.StopsWhere (asked.files.canClear lease.frames = false) 1)
      [s.account.questionCall .agreement a.identifier]
      (fun b s' => b = a ∧ book s'.tools = book st.1.tools.1 ∧ s' = asked)
      (Course.act (s.account.agreement run.observed a.identifier)) st₂ := by
    rw [← htools] at hrecord
    refine Course.makes_act (.ask (fun _ => ⟨?_, fun output h => ?_⟩) (fun output s' hrun => ?_))
    · exact congrArg Site.files hasked
    · exact hbook.ofAnswer_get hrecord (Prod.ext h rfl)
    · refine ⟨a, hbook.ofAnswer_get hrecord hrun, rfl, ?_, ?_⟩
      · rw [hbook.other rfl hrun, ← htools]
        rfl
      · rw [← hasked, hrun]
  refine hask.next fun b st₃ _ h₃ => ?_
  obtain ⟨rfl, h₃, hasked₃⟩ := h₃
  have hfiles₃ : st₃.1.files = asked.files := congrArg (fun x : Site σ => x.files) hasked₃
  refine (s.makes_sampleAndHash hbook ?_ ?_ ?_).bind fun _ st₄ _ h₄ => ?_
  · intro e he hstage
    simp only [sampleCalls, List.mem_cons, List.not_mem_nil, or_false] at he
    rcases he with he | he <;> rw [he] at hstage <;> cases hstage
  · intro hblocked
    rw [hfiles₃] at hblocked
    exact Failure.stopsWhere_io (Nat.le_refl 1) hblocked
  · exact fun f made hf hne => Failure.stopsWhere_of_lt hf
      (Nat.succ_lt_succ (List.length_pos_iff.mpr hne))
  refine (Course.makes_enter _).after_silent fun _ st₅ _ h₅ => ?_
  have hbook₅ : book st₅.1.tools.1 = book st.1.tools.1 :=
    (congrArg (fun x => book (Site.tools x)) h₅).trans (h₄.trans h₃)
  have hmany (made : List Call) : 1 <
      (s.account.questionCall .agreement b.identifier ::
        (s.sampleCalls lease b.locator ++ made)).length := by
    simp [sampleCalls]
  -- the prover leaves the proof
  have hprove : Makes Course.look (Resolves b asked.files)
      (fun f made => f.StopsWhere (asked.files.canClear lease.frames = false) 1
        (s.account.questionCall .agreement b.identifier :: (s.sampleCalls lease b.locator ++ made)))
      [s.generateProof s.parameters lease.proof lease.hashes lease.witness]
      (fun _ s' => book s'.tools = book st.1.tools.1 ∧ s'.files.read lease.proof = .ok blob)
      (Course.act ((s.generateProof s.parameters lease.proof lease.hashes lease.witness).perform
        run.observed)) st₅ := by
    refine Course.makes_act (.perform_file rfl (fun s' hstage => ?_) ?_ ?_ ?_)
    · cases hstage
    · exact fun _ context cause => Failure.stopsWhere_of_lt rfl (hmany _)
    · exact fun f hf => Failure.stopsWhere_of_lt hf (hmany _)
    · intro s₆ output s' htools hrun
      rw [hbook.other rfl hrun, htools]
      exact ⟨hbook₅, hproof _ _ _ _ _ rfl rfl hrun⟩
  refine hprove.next fun _ st₆ _ h₆ => ?_
  refine (Course.makes_act (ProofBlob.makes_readFrom hblob h₆.2)).after_silent fun p st₇ _ h₇ => ?_
  obtain ⟨rfl, h₇⟩ := h₇
  refine (Course.makes_enter _).after_silent fun _ st₈ _ h₈ => ?_
  have hbook₈ : book st₈.1.tools.1 = book st.1.tools.1 :=
    (congrArg (fun x => book (Site.tools x)) (h₈.trans h₇)).trans h₆.1
  -- the transaction puts it into the book
  refine (Course.makes_act (makes_transaction (Book.withProof · _ _) rfl (hbook.commit rfl rfl)
    fun hstage => ?_)).next fun _ st₉ _ h₉ => .pure ⟨rfl, ?_, ?_⟩
  · cases hstage
  · rw [h₉, hbook₈, Book.agreement?_withProof, hrecord]
  · rw [h₉, Book.proof?_withProof]

/-! ## Verifying -/

/-- The calls by which a proof on the ledger is checked. -/
def verifyCalls (s : Settings) (lease : Lease) (id : Identifier) : List Call :=
  [s.account.questionCall .agreement id, s.account.questionCall .proof id,
    s.verifyProof s.parameters lease.committedProof lease.publicInputs]

/-- When a check is launched, the files that it is given hold a proof and public inputs. -/
def HandsOver (lease : Lease) (blob : Bytes) (input : PublicInput) (e : Exchange) : Prop :=
  e.call.stage = .verifyProof → e.before.read lease.committedProof = .ok blob ∧
    e.before.read lease.publicInputs = .ok input.toJson.canonicalBytes

/-- Whether a proof and public inputs can be written to the files that a check is given. -/
def CanHandOver (lease : Lease) (blob : Bytes) (input : PublicInput) (fs : FileSystem) : Prop :=
  ∃ fs₁ fs₂, fs.store lease.committedProof blob = .ok fs₁ ∧
    fs₁.store lease.publicInputs input.toJson.canonicalBytes = .ok fs₂

/-- A check is given a proof and public inputs, and the question for the proof leaves certain
files. -/
def Supplies (account : Account) (id : Identifier) (lease : Lease) (blob : Bytes)
    (input : PublicInput) (left : FileSystem) (e : Exchange) : Prop :=
  HandsOver lease blob input e ∧ (e.call = account.questionCall .proof id → e.after = left)

/-- With an agreement and a proof on record, the check is given that proof and the public input of
that agreement. Between the questions and the check nothing can fail but the writing of the two
files. -/
theorem makes_verifyCourse (s : Settings) (hbook : run.KeepsBook book) {blob : Bytes}
    (hblob : blob ≠ []) {a : Agreement} {input : PublicInput} (hinput : a.merkleInput = .ok input)
    {lease : Lease} (hp : st.1.files.isNonEmptyFile s.parameters = true)
    (hrecord : (book st.1.tools.1).agreement? a.identifier.text = some a.canonical)
    (hrecord' : (book st.1.tools.1).proof? a.identifier.text = some (ProofBlob.mk blob).canonical)
    {asked fetched : Site σ}
    (hasked : (run (s.account.questionCall .agreement a.identifier) st.1.inner).2 = asked)
    (hfetched : (run (s.account.questionCall .proof a.identifier) asked).2 = fetched) :
    Makes Course.look (Supplies s.account a.identifier lease blob input fetched.files)
      (Failure.StopsWhere (¬ CanHandOver lease blob input fetched.files) 2)
      (s.verifyCalls lease a.identifier)
      (fun audit _ => audit.digest = (ProofBlob.mk blob).digest)
      (s.verifyCourse run.observed a.identifier lease) st := by
  refine (s.makes_requireParameters hp).after_silent fun parameters st₁ _ h₁ => ?_
  obtain ⟨rfl, h₁⟩ := h₁
  refine (Course.makes_enter _).after_silent fun _ st₂ _ h₂ => ?_
  have hinner₂ : st₂.1.inner = st.1.inner := h₂.trans h₁
  have htools₂ : st₂.1.tools.1 = st.1.tools.1 := congrArg Site.tools hinner₂
  rw [← hinner₂] at hasked
  have hask : Makes Course.look (Supplies s.account a.identifier lease blob input fetched.files)
      (Failure.StopsWhere (¬ CanHandOver lease blob input fetched.files) 2)
      [s.account.questionCall .agreement a.identifier]
      (fun b s' => b = a ∧ book s'.tools = book st.1.tools.1 ∧ s' = asked)
      (Course.act (s.account.agreement run.observed a.identifier)) st₂ := by
    rw [← htools₂] at hrecord
    refine Course.makes_act (.ask ⟨fun hstage => (by cases hstage), fun hcall => ?_⟩
      (fun output s' hrun => ?_))
    · -- the two questions are told apart by their third word
      have hargs := congrArg Call.args hcall
      simp [Runner.exchange, Account.questionCall, Question.word] at hargs
    · refine ⟨a, hbook.ofAnswer_get hrecord hrun, rfl, ?_, ?_⟩
      · rw [hbook.other rfl hrun, ← htools₂]
        rfl
      · rw [← hasked, hrun]
  refine hask.next fun b st₃ _ h₃ => ?_
  obtain ⟨rfl, h₃, hasked₃⟩ := h₃
  refine (Course.makes_act (makes_ofExcept hinput)).after_silent fun input' st₄ _ h₄ => ?_
  obtain ⟨rfl, h₄⟩ := h₄
  have hinner₄ : st₄.1.inner = asked := h₄.trans hasked₃
  have htools₄ : book st₄.1.tools.1 = book st.1.tools.1 :=
    (congrArg (fun x => book (Site.tools x)) h₄).trans h₃
  rw [← hinner₄] at hfetched
  have hask' : Makes Course.look (Supplies s.account b.identifier lease blob input' fetched.files)
      (fun f made => f.StopsWhere (¬ CanHandOver lease blob input' fetched.files) 2
        (s.account.questionCall .agreement b.identifier :: made))
      [s.account.questionCall .proof b.identifier] (fun p s' => p = ⟨blob⟩ ∧ s' = fetched)
      (Course.act (s.account.proof run.observed b.identifier)) st₄ := by
    rw [← htools₄] at hrecord'
    refine Course.makes_act (.ask ⟨fun hstage => (by cases hstage), fun _ => ?_⟩
      (fun output s' hrun => ?_))
    · exact congrArg Site.files hfetched
    · refine ⟨⟨blob⟩, hbook.ofAnswer_getProof hblob hrecord' hrun, rfl, ?_⟩
      rw [← hfetched, hrun]
  refine hask'.next fun p st₅ _ h₅ => ?_
  obtain ⟨rfl, hfetched₅⟩ := h₅
  have hfiles₅ : st₅.1.files = fetched.files := congrArg (fun x : Site σ => x.files) hfetched₅
  -- both files are written, the one after the other
  refine (Course.makes_act (makes_writeBytes ?_)).after_silent fun _ st₆ _ h₆ => ?_
  · intro hno
    rw [hfiles₅] at hno
    refine Failure.stopsWhere_io (Nat.le_refl 2) ?_
    rintro ⟨fs₁, _, hstore, -⟩
    exact hno fs₁ hstore
  obtain ⟨-, ⟨fs, -, hproof⟩, hstored⟩ := h₆
  rw [hfiles₅] at hstored
  refine (Course.makes_act (makes_writeBytes ?_)).after_silent fun _ st₇ _ h₇ => ?_
  · intro hno
    refine Failure.stopsWhere_io (Nat.le_refl 2) ?_
    rintro ⟨fs₁, fs₂, hstore₁, hstore₂⟩
    have hfiles₆ : st₆.1.files = fs₁ := hstored fs₁ hstore₁
    rw [← hfiles₆] at hstore₂
    exact hno fs₂ hstore₂
  refine (Course.makes_enter _).after_silent fun _ st₈ _ h₈ => ?_
  obtain ⟨-, ⟨fs', hkeeps, hinputs⟩, -⟩ := h₇
  have hfiles : st₈.1.files = st₇.1.files := congrArg (fun x : Site σ => x.files) h₈
  have hreads : st₈.1.files.read lease.committedProof = .ok blob ∧
      st₈.1.files.read lease.publicInputs = .ok input'.toJson.canonicalBytes := by
    rw [hfiles]
    constructor
    · exact FileSystem.read_write_write hproof hkeeps hinputs lease.committedProof_ne_publicInputs
    · exact FileSystem.read_write hinputs
  have hfails (f : Failure) (hf : f.isOfArtifacts = true) :
      f.StopsWhere (¬ CanHandOver lease blob input' fetched.files) 2
        [s.account.questionCall .agreement b.identifier, s.account.questionCall .proof b.identifier,
          s.verifyProof s.parameters lease.committedProof lease.publicInputs] :=
    Failure.stopsWhere_of_lt hf (Nat.lt_succ_self 2)
  have hcheck : Makes Course.look
      (Supplies s.account b.identifier lease blob input' fetched.files)
      (fun f made => f.StopsWhere (¬ CanHandOver lease blob input' fetched.files) 2
        (s.account.questionCall .agreement b.identifier ::
          s.account.questionCall .proof b.identifier :: made))
      [s.verifyProof s.parameters lease.committedProof lease.publicInputs] (fun _ _ => True)
      (Course.act ((s.verifyProof s.parameters lease.committedProof lease.publicInputs).perform
        run.observed)) st₈ := by
    refine Course.makes_act (.perform_stdout rfl ⟨fun _ => hreads, fun hcall => ?_⟩ hfails
      fun _ _ _ => trivial)
    cases congrArg Call.stage hcall
  refine hcheck.next fun output st₉ _ _ => ?_
  cases Verdict.ofOutput? output.text with
  | some accepted => exact .pure rfl
  | none =>
    refine .silent rfl (fun audit s' h => ?_) (fun f s' h => ?_)
    · cases h
    · cases h
      exact hfails _ rfl

end Settings

end StorageProof
