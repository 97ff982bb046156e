import StorageProof.Proofs.Files.Locks
import StorageProof.Proofs.Flow.Job

/-!
# What holds of every step

The courses of all flows are made of a few kinds of steps. What holds of each kind, and of two
courses one after the other if it holds of both, holds of the course of every job. A step that makes
no call may fail, but it is never cancelled, and files are changed in the working directory and at
the place of the proving parameters only.
-/

namespace StorageProof

variable {σ α β : Type}

/-! ## Cancellations -/

/-- The stage that was cancelled, if that is the failure. -/
def Failure.cancelledAt? : Failure → Option String
  | .cancelled stage => some stage
  | _ => none

def cancelledAt? : Except Failure α → Option String
  | .ok _ => none
  | .error e => e.cancelledAt?

theorem Failure.eq_of_cancelledAt? {e : Failure} {stage : String}
    (h : e.cancelledAt? = some stage) : e = .cancelled stage := by
  cases e with
  | cancelled other =>
    cases h
    rfl
  | _ => cases h

theorem Agreement.cancelledAt?_parse (s : Bytes) : cancelledAt? (Agreement.parse s) = none := by
  rcases hread : shape.read s with fault | texts
  · simp only [parse, hread]
    rfl
  · rcases htexts : ofTexts? texts with _ | a
    · simp only [parse, hread, htexts]
      rfl
    · simp only [parse, hread, htexts]
      rfl

theorem ProofBlob.cancelledAt?_parse (s : Bytes) : cancelledAt? (ProofBlob.parse s) = none := by
  rcases hread : shape.read s with fault | texts
  · simp only [parse, hread]
    rfl
  · rcases htexts : ofTexts? texts with _ | p
    · simp only [parse, hread, htexts]
      rfl
    · simp only [parse, hread, htexts]
      rfl

theorem PublicInput.cancelledAt?_checkHex (members : List (String × String)) :
    cancelledAt? (checkHex members) = none := by
  induction members with
  | nil => rfl
  | cons m members ih =>
    unfold checkHex
    rcases Hex.decode (Utf8.ofString m.2) with fault | _
    · rfl
    · exact ih

theorem PublicInput.cancelledAt?_parse (s : Bytes) : cancelledAt? (PublicInput.parse s) = none := by
  unfold parse
  rcases shape.read s with fault | texts
  · rfl
  · have hcheck := cancelledAt?_checkHex (ofTexts texts).members
    rcases hc : checkHex (ofTexts texts).members with e | _
    · rw [hc] at hcheck
      simp only [hc]
      exact hcheck
    · simp only [hc]
      rfl

theorem Agreement.cancelledAt?_merkleInput (a : Agreement) : cancelledAt? a.merkleInput = none := by
  unfold merkleInput
  cases a.kind with
  | phashMerkle => exact PublicInput.cancelledAt?_parse _
  | _ => rfl

theorem cancelledAt?_bind {r : Except Failure α} {f : α → Except Failure β}
    (hr : cancelledAt? r = none) (hf : ∀ a, cancelledAt? (f a) = none) :
    cancelledAt? (r >>= f) = none := by
  rcases r with e | a
  · exact hr
  · exact hf a

theorem cancelledAt?_readEnvelope (s : Bytes) : cancelledAt? (readEnvelope s) = none := by
  unfold readEnvelope
  rcases envelopeShape.read s with fault | texts
  · rfl
  · rfl

theorem Agreement.cancelledAt?_ofAnswer (id : Identifier) (answer : String) :
    cancelledAt? (Agreement.ofAnswer id answer) = none := by
  unfold ofAnswer
  by_cases hbody : Text.trim answer = ""
  · rw [if_pos hbody]
    rfl
  · rw [if_neg hbody]
    refine cancelledAt?_bind (cancelledAt?_readEnvelope _) fun text => ?_
    by_cases hblank : Text.isAllBlank text = true
    · rw [if_pos hblank]
      rfl
    · rw [if_neg hblank]
      exact cancelledAt?_parse _

theorem ProofBlob.cancelledAt?_ofAnswer (id : Identifier) (answer : String) :
    cancelledAt? (ProofBlob.ofAnswer id answer) = none := by
  unfold ofAnswer
  by_cases hbody : Text.trim answer = ""
  · rw [if_pos hbody]
    rfl
  · rw [if_neg hbody]
    refine cancelledAt?_bind (cancelledAt?_parse _) fun p => ?_
    by_cases hempty : p.isEmpty = true
    · rw [if_pos hempty]
      rfl
    · rw [if_neg hempty]
      rfl

/-- A question that is cancelled stays cancelled, and no other one comes to be. -/
theorem Account.cancelledAt?_questionFailure (q : Question) (id : Identifier) (e : Failure) :
    (questionFailure q id e).cancelledAt? = e.cancelledAt? := by
  cases e with
  | stageExecution stage program args exit stderr =>
    unfold questionFailure Question.classify
    by_cases h : Text.containsIgnoringCase Question.absentMarker stderr = true
    · simp only [h, if_true]
      cases q <;> rfl
    · simp only [h]
      rfl
  | _ => rfl

theorem Stage.cancelledAt?_requireStdout (stage : Stage) (o : Output) :
    cancelledAt? (stage.requireStdout o) = none := by
  unfold requireStdout
  by_cases h : Text.trim o.text = ""
  · simp only [h, if_true]
    rfl
  · simp only [h, if_false]
    rfl

theorem Stage.cancelledAt?_requireFile (stage : Stage) (p : Path) (s : Site σ) :
    cancelledAt? (stage.requireFile p s).1 = none := by
  unfold requireFile
  rcases s.files.inspect p with e | (_ | ⟨bytes, _, _⟩)
  · by_cases hmissing : e = .notFound
    · simp only [hmissing, if_true]
      rfl
    · simp only [hmissing, if_false]
      rfl
  · rfl
  · by_cases hempty : bytes.isEmpty = true
    · simp only [hempty, if_true]
      rfl
    · simp only [hempty]
      rfl

/-! ## Steps -/

/-- The names of the files that a run may leave in its working directory. -/
def Lease.leftoverNames : List String :=
  ["scaled-frames.txt", "phashes.txt", "zkpor_proof.dat", "zkpor_witness.dat",
    "zkpor_committed_proof.dat", "zkpor_public_inputs.json", "agreement.json"]

theorem Lease.isPlainName_leftover {name : String} (h : name ∈ leftoverNames) :
    Path.IsPlainName name where
  noSlash := by
    have hall : ∀ name ∈ leftoverNames, '/' ∉ name.toList := by decide
    exact hall name h
  ne_empty := by
    have hall : ∀ name ∈ leftoverNames, name ≠ "" := by decide
    exact hall name h
  ne_dot := by
    have hall : ∀ name ∈ leftoverNames, name ≠ "." := by decide
    exact hall name h
  ne_dots := by
    have hall : ∀ name ∈ leftoverNames, name ≠ ".." := by decide
    exact hall name h

/-- The names of the files that a job clears away or writes in its working directory. -/
def Job.fileNames : Job → List String
  | publish .. => ["scaled-frames.txt", "phashes.txt", "agreement.json"]
  | mine _ => ["scaled-frames.txt", "phashes.txt", "zkpor_proof.dat"]
  | verify _ => ["zkpor_committed_proof.dat", "zkpor_public_inputs.json"]
  | setup _ => []

theorem Job.fileNames_subset (job : Job) : job.fileNames ⊆ Lease.leftoverNames := by
  cases job <;> simp [fileNames, Lease.leftoverNames]

/-- Those of them that its calls declare. -/
def Job.declaredNames : Job → List String
  | publish .. => ["scaled-frames.txt", "phashes.txt"]
  | mine _ => ["scaled-frames.txt", "phashes.txt", "zkpor_proof.dat"]
  | verify _ | setup _ => []

/-- Those of them that it writes itself. -/
def Job.writtenNames : Job → List String
  | publish .. => ["agreement.json"]
  | verify _ => ["zkpor_committed_proof.dat", "zkpor_public_inputs.json"]
  | mine _ | setup _ => []

theorem Job.mem_fileNames_iff {job : Job} {name : String} :
    name ∈ job.fileNames ↔ name ∈ job.declaredNames ∨ name ∈ job.writtenNames := by
  cases job <;> simp [fileNames, declaredNames, writtenNames, or_assoc]

/-- The calls that are made with settings, whatever they are made for. -/
inductive Settings.Calls (s : Settings) : Call → Prop
  | extractFrames (source : String) (frames : Path) : Calls s (s.extractFrames source frames)
  | perceptualHash (frames hashes : Path) : Calls s (s.perceptualHash frames hashes)
  | challenge (hashes : Path) : Calls s (s.challenge hashes)
  | generateProof (parameters proof hashes witness : Path) :
      Calls s (s.generateProof parameters proof hashes witness)
  | verifyProof (parameters proof publicInputs : Path) :
      Calls s (s.verifyProof parameters proof publicInputs)
  | setupParameters (parameters : Path) : Calls s (s.setupParameters parameters)
  | create (id : Identifier) (a : Agreement) : Calls s (s.account.createCall s.reward id a)
  | commit (id : Identifier) (p : ProofBlob) : Calls s (s.account.commitCall id p)
  | question (q : Question) (id : Identifier) : Calls s (s.account.questionCall q id)

/-- A call with settings that declares no file but one at certain paths, and that is given the
proving parameters of the settings where it needs any. -/
structure Settings.Admits (s : Settings) (free : Path → Prop) (call : Call) : Prop where
  calls : s.Calls call
  declared : ∀ p, call.declared = .file p → free p
  parameters : call.stage = .generateProof ∨ call.stage = .verifyProof →
    call.args[1]? = some s.parameters.text

theorem Settings.admits_question (s : Settings) (free : Path → Prop) (q : Question)
    (id : Identifier) : s.Admits free (s.account.questionCall q id) where
  calls := .question q id
  declared := fun _ h => nomatch h
  parameters := fun h => by rcases h with h | h <;> cases h

namespace Course

theorem act_pure (a : α) : act (σ := σ) (pure a) = pure a := rfl

theorem act_bind (a : Action σ α) (f : α → Action σ β) :
    act (a >>= f) = act a >>= fun x => act (f x) := by
  funext st
  rcases h : a st.1 with ⟨e | x, s⟩
  · have hact : act a st = (.error e, (s, st.2)) := by simp only [act, h]
    rw [bind_of_error hact]
    simp only [act, bind_of_error h]
  · have hact : act a st = (.ok x, (s, st.2)) := by simp only [act, h]
    rw [bind_of_ok hact]
    simp only [act, bind_of_ok h]

theorem act_requireParameters_of_isNonEmptyFile {s : Settings} {st : Site σ × List RunState}
    (h : st.1.files.isNonEmptyFile s.parameters = true) :
    act s.requireParameters st = (.ok s.parameters, st) := by
  simp only [act, Settings.requireParameters, if_pos h]

theorem act_requireParameters_of_not_isNonEmptyFile {s : Settings} {st : Site σ × List RunState}
    (h : ¬ st.1.files.isNonEmptyFile s.parameters = true) :
    ∃ e, act s.requireParameters st = (.error e, st) := by
  simp only [act, Settings.requireParameters, if_neg h]
  exact ⟨_, rfl⟩

/-- What comes after proving parameters have been required is done with those of the settings. -/
theorem requireParameters_bind (s : Settings) (f : Path → Course σ β) :
    (act s.requireParameters >>= f) = (act s.requireParameters >>= fun _ => f s.parameters) := by
  funext st
  by_cases hp : st.1.files.isNonEmptyFile s.parameters = true
  · have hact := act_requireParameters_of_isNonEmptyFile hp
    rw [bind_of_ok hact, bind_of_ok hact]
  · obtain ⟨e, hact⟩ := act_requireParameters_of_not_isNonEmptyFile hp
    rw [bind_of_error hact, bind_of_error hact]

/-- Something that holds of the steps of all flows and is kept by sequencing. A call, with what is
done for its output before and after it, is one step, and so is the writing of a file. Calls are
those that are made with the settings and declare files at certain paths only, and files are written
at certain others. -/
structure Stepwise (s : Settings) (run : Runner σ) (declared written : Path → Prop)
    (P : (α : Type) → Course σ α → Prop) : Prop where
  pure {α : Type} (a : α) : P α (Pure.pure a)
  bind {α β : Type} {m : Course σ α} {f : α → Course σ β} (hm : P α m) (hf : ∀ a, P β (f a)) :
    P β (m >>= f)
  enter (next : RunState) : P Unit (Course.enter next)
  idle {α : Type} {a : Action σ α} (hsite : ∀ s, (a s).2 = s)
    (hresult : ∀ s, cancelledAt? (a s).1 = none) : P α (act a)
  perform {call : Call} (hcall : s.Admits declared call) : P Output (act (call.perform run))
  ask (q : Question) (id : Identifier) : P String (act (s.account.ask run q id))
  writeBytes {p : Path} (hp : written p) (bytes : Bytes) :
    P Unit (act (StorageProof.writeBytes p bytes))
  makeParameterDirectory (hp : declared s.parameters) : P Unit (act s.makeParameterDirectory)

namespace Stepwise

variable {s : Settings} {run : Runner σ} {declared written : Path → Prop}
  {P : (α : Type) → Course σ α → Prop}

theorem ofExcept (h : Stepwise s run declared written P) {r : Except Failure α}
    (hr : cancelledAt? r = none) : P α (act (Action.ofExcept r)) :=
  h.idle (fun _ => rfl) fun _ => hr

theorem readProof (h : Stepwise s run declared written P) (p : Path) :
    P ProofBlob (act (ProofBlob.readFrom p)) := by
  refine h.idle (ProofBlob.readFrom_site p) fun s => ?_
  unfold ProofBlob.readFrom
  rcases s.files.read p with e | bytes
  · by_cases hmissing : e = .notFound
    · simp only [hmissing, if_true]
      rfl
    · simp only [hmissing, if_false]
      rfl
  · by_cases hempty : bytes.isEmpty = true
    · simp only [hempty, if_true]
      rfl
    · simp only [hempty]
      rfl

theorem requireParameters (h : Stepwise s run declared written P) :
    P Path (act s.requireParameters) := by
  refine h.idle s.requireParameters_site fun site => ?_
  by_cases hp : site.files.isNonEmptyFile s.parameters = true
  · simp only [Settings.requireParameters, hp, if_true]
    rfl
  · simp only [Settings.requireParameters, hp]
    rfl

theorem transaction (h : Stepwise s run declared written P) {call : Call} (hcall : s.Calls call)
    (hdeclared : call.declared = .exitOnly) (hstage : call.stage.mutatesLedger = true) :
    P Unit (act (call.perform run >>= fun _ => Pure.pure ())) := by
  rw [act_bind]
  refine h.bind (h.perform ⟨hcall, fun p hp => ?_, fun hneeds => ?_⟩) fun _ => h.pure ()
  · cases hdeclared.symm.trans hp
  · rcases hneeds with hneeds | hneeds <;> simp [hneeds, Stage.mutatesLedger] at hstage

theorem agreement (h : Stepwise s run declared written P) (id : Identifier) :
    P Agreement (act (s.account.agreement run id)) := by
  unfold Account.agreement
  rw [act_bind]
  exact h.bind (h.ask .agreement id) fun answer =>
    h.ofExcept (Agreement.cancelledAt?_ofAnswer id answer)

theorem proof (h : Stepwise s run declared written P) (id : Identifier) :
    P ProofBlob (act (s.account.proof run id)) := by
  unfold Account.proof
  rw [act_bind]
  exact h.bind (h.ask .proof id) fun answer =>
    h.ofExcept (ProofBlob.cancelledAt?_ofAnswer id answer)

section Courses

variable {lease : Lease}

theorem sampleAndHash (h : Stepwise s run declared written P)
    (hframes : declared lease.frames) (hhashes : declared lease.hashes) (source : String) :
    P Unit (s.sampleAndHash run lease source) := by
  refine h.bind (h.enter _) fun _ => ?_
  refine h.bind (h.perform ⟨.extractFrames _ _, fun p hp => ?_, by simp [Settings.extractFrames]⟩)
    fun _ => ?_
  · cases hp
    exact hframes
  refine h.bind (h.enter _) fun _ => ?_
  refine h.bind (h.perform ⟨.perceptualHash _ _, fun p hp => ?_, by simp [Settings.perceptualHash]⟩)
    fun _ => h.pure ()
  cases hp
  exact hhashes

theorem publishCourse (h : Stepwise s run declared written P)
    (hframes : declared lease.frames) (hhashes : declared lease.hashes)
    (hagreement : written lease.agreement) (source target : String) :
    P Agreement (s.publishCourse run source target lease) := by
  refine h.bind (h.sampleAndHash hframes hhashes source) fun _ => h.bind (h.enter _) fun _ => ?_
  refine h.bind (h.perform ⟨.challenge _, fun p hp => ?_, by simp [Settings.challenge]⟩)
    fun output => ?_
  · cases hp
  refine h.bind (h.writeBytes hagreement _) fun _ => ?_
  refine h.bind (h.enter _) fun _ => ?_
  exact h.bind (h.transaction (.create _ _) rfl rfl) fun _ => h.pure _

theorem mineCourse (h : Stepwise s run declared written P)
    (hframes : declared lease.frames) (hhashes : declared lease.hashes)
    (hproof : declared lease.proof) (id : Identifier) :
    P ProofBlob (s.mineCourse run id lease) := by
  unfold Settings.mineCourse
  rw [requireParameters_bind]
  refine h.bind h.requireParameters fun _ => h.bind (h.enter _) fun _ => ?_
  refine h.bind (h.agreement id) fun agreement => ?_
  refine h.bind (h.sampleAndHash hframes hhashes _) fun _ => h.bind (h.enter _) fun _ => ?_
  refine h.bind (h.perform ⟨.generateProof _ _ _ _, fun p hp => ?_, fun _ => rfl⟩) fun _ => ?_
  · cases hp
    exact hproof
  refine h.bind (h.readProof _) fun proof => h.bind (h.enter _) fun _ => ?_
  exact h.bind (h.transaction (.commit _ _) rfl rfl) fun _ => h.pure _

theorem verifyCourse (h : Stepwise s run declared written P)
    (hproof : written lease.committedProof) (hinputs : written lease.publicInputs)
    (id : Identifier) :
    P Settings.Audit (s.verifyCourse run id lease) := by
  unfold Settings.verifyCourse
  rw [requireParameters_bind]
  refine h.bind h.requireParameters fun _ => h.bind (h.enter _) fun _ => ?_
  refine h.bind (h.agreement id) fun agreement => ?_
  refine h.bind (h.ofExcept agreement.cancelledAt?_merkleInput) fun input => ?_
  refine h.bind (h.proof id) fun proof => ?_
  refine h.bind (h.writeBytes hproof _) fun _ => h.bind (h.writeBytes hinputs _) fun _ => ?_
  refine h.bind (h.enter _) fun _ => ?_
  refine h.bind (h.perform ⟨.verifyProof _ _ _, fun p hp => ?_, fun _ => rfl⟩) fun output => ?_
  · cases hp
  cases Verdict.ofOutput? output.text with
  | some accepted => exact h.pure _
  | none => exact h.idle (fun _ => rfl) fun _ => rfl

variable (lease) in
theorem setupCourse (h : Stepwise s run declared written P)
    (hparameters : declared s.parameters) (force : Bool) :
    P Bool (s.setupCourse run force lease) := by
  refine h.bind (h.idle (fun _ => rfl) fun _ => rfl) fun fs => ?_
  by_cases hkeep : (!force && fs.isNonEmptyFile s.parameters) = true
  · rw [if_pos hkeep]
    exact h.pure false
  · rw [if_neg hkeep]
    refine h.bind (h.enter _) fun _ =>
      h.bind (h.makeParameterDirectory hparameters) fun _ => ?_
    refine h.bind (h.perform
      ⟨.setupParameters _, fun p hp => ?_, by simp [Settings.setupParameters]⟩)
      fun _ => h.pure true
    cases hp
    exact hparameters

/-- What holds of every step holds of the course of every job. -/
theorem courseOf (h : Stepwise s run declared written P) (job : Job)
    (hdeclared : ∀ name ∈ job.declaredNames, declared (lease.file name))
    (hwritten : ∀ name ∈ job.writtenNames, written (lease.file name))
    (hparameters : job.flow = .setup → declared s.parameters) :
    P job.Product (s.courseOf run job lease) := by
  cases job with
  | publish source target =>
    exact h.publishCourse (hdeclared "scaled-frames.txt" (by simp [Job.declaredNames]))
      (hdeclared "phashes.txt" (by simp [Job.declaredNames]))
      (hwritten "agreement.json" (by simp [Job.writtenNames])) source target
  | mine id =>
    exact h.mineCourse (hdeclared "scaled-frames.txt" (by simp [Job.declaredNames]))
      (hdeclared "phashes.txt" (by simp [Job.declaredNames]))
      (hdeclared "zkpor_proof.dat" (by simp [Job.declaredNames])) id
  | verify id =>
    exact h.verifyCourse (hwritten "zkpor_committed_proof.dat" (by simp [Job.writtenNames]))
      (hwritten "zkpor_public_inputs.json" (by simp [Job.writtenNames])) id
  | setup force => exact h.setupCourse lease (hparameters rfl) force

end Courses

end Stepwise

/-- The same for smaller steps: the calls, as long as they are those that are made with the
settings, and the declaring, writing and clearing away of files at certain paths. -/
structure Closed (s : Settings) (run : Runner σ) (free : Path → Prop)
    (P : (α : Type) → Course σ α → Prop) : Prop where
  pure {α : Type} (a : α) : P α (Pure.pure a)
  bind {α β : Type} {m : Course σ α} {f : α → Course σ β} (hm : P α m) (hf : ∀ a, P β (f a)) :
    P β (m >>= f)
  enter (next : RunState) : P Unit (Course.enter next)
  idle {α : Type} {a : Action σ α} (hsite : ∀ s, (a s).2 = s)
    (hresult : ∀ s, cancelledAt? (a s).1 = none) : P α (act a)
  call {call : Call} (hcall : s.Admits free call) : P Output (act (run call))
  ask (q : Question) (id : Identifier) : P String (act (s.account.ask run q id))
  clear {p : Path} (hp : free p) : P Unit (act (clearStale p))
  write (context : String) {p : Path} (hp : free p) (bytes : Bytes) :
    P Unit (act (Action.changing context (·.write p bytes)))
  make (context : String) {f : FileSystem → Except SystemError Unit × FileSystem}
    (hf : ∀ fs, FileSystem.OnlyMakesDirectories fs (f fs).2) :
    P Unit (act (Action.working context f))

namespace Closed

variable {s : Settings} {run : Runner σ} {free : Path → Prop}
  {P : (α : Type) → Course σ α → Prop}

theorem perform (h : Closed s run free P) {call : Call} (hcall : s.Admits free call) :
    P Output (act (call.perform run)) := by
  unfold Call.perform
  cases hd : call.declared with
  | file p =>
    have hrequire : P Nat (act (call.stage.requireFile p)) :=
      h.idle (call.stage.requireFile_site p) (call.stage.cancelledAt?_requireFile p)
    simp only [act_bind, act_pure]
    refine h.bind (h.clear (hcall.declared p hd)) fun _ => h.bind (h.call hcall) fun output => ?_
    exact h.bind hrequire fun _ => h.pure output
  | stdout =>
    simp only [act_bind, act_pure]
    refine h.bind (h.call hcall) fun output => h.bind ?_ fun _ => h.pure output
    exact h.idle (fun _ => rfl) fun _ => call.stage.cancelledAt?_requireStdout output
  | exitOnly => exact h.call hcall

theorem stepwise (h : Closed s run free P) : Stepwise s run free free P where
  pure := h.pure
  bind := h.bind
  enter := h.enter
  idle := h.idle
  perform := h.perform
  ask := h.ask
  writeBytes := fun {p} hp bytes => by
    unfold StorageProof.writeBytes
    rw [act_bind]
    refine h.bind (h.make _ fun fs => ?_) fun _ => h.write _ hp bytes
    exact FileSystem.onlyMakesDirectories_makeParent fs p
  makeParameterDirectory := fun _ => by
    unfold Settings.makeParameterDirectory
    rcases s.parameters.parent? with _ | parent
    · exact h.pure ()
    · exact h.make _ fun fs => FileSystem.onlyMakesDirectories_makeDirectories fs parent

theorem courseOf (h : Closed s run free P) {lease : Lease} (job : Job)
    (hfree : ∀ name ∈ job.fileNames, free (lease.file name))
    (hparameters : job.flow = .setup → free s.parameters) :
    P job.Product (s.courseOf run job lease) := by
  apply h.stepwise.courseOf job _ _ hparameters
  · exact fun name hname => hfree name (Job.mem_fileNames_iff.mpr (.inl hname))
  · exact fun name hname => hfree name (Job.mem_fileNames_iff.mpr (.inr hname))

end Closed

end Course

/-! ## What steps uphold -/

section Upholds

variable {P : Site σ → Prop}

theorem Course.upholds_act {a : Action σ α} (h : Upholds P a) :
    Upholds (fun st => P st.1) (Course.act a) := fun st hst => h st.1 hst

theorem Action.upholds_working (context : String)
    {f : FileSystem → Except SystemError Unit × FileSystem}
    (h : ∀ s, P s → P { s with files := (f s.files).2 }) :
    Upholds P (Action.working context f) := by
  intro s hs
  have hafter := h s hs
  rcases hf : f s.files with ⟨e | _, fs⟩
  · rw [hf] at hafter
    simp only [Action.working, hf]
    exact hafter
  · rw [hf] at hafter
    simp only [Action.working, hf]
    exact hafter

theorem Action.upholds_changing (context : String)
    {f : FileSystem → Except SystemError FileSystem}
    (h : ∀ s fs, P s → f s.files = .ok fs → P { s with files := fs }) :
    Upholds P (Action.changing context f) := by
  intro s hs
  rcases hf : f s.files with e | fs
  · simp only [Action.changing, hf]
    exact hs
  · simp only [Action.changing, hf]
    exact h s fs hs hf

theorem upholds_clearStale {p : Path}
    (h : ∀ s fs, P s → s.files.removeFile p = .ok fs → P { s with files := fs }) :
    Upholds P (clearStale p) := by
  intro s hs
  rcases hr : s.files.removeFile p with e | fs
  · have hclear : (clearStale p s).2 = s := by
      simp only [clearStale, hr]
      split <;> rfl
    rwa [hclear]
  · simp only [clearStale, hr]
    exact h s fs hs hr

theorem Account.upholds_ask {run : Runner σ} {account : Account} {q : Question} {id : Identifier}
    (h : Upholds P (run (account.questionCall q id))) : Upholds P (account.ask run q id) := by
  intro s hs
  have hcall := h s hs
  rcases hrun : run (account.questionCall q id) s with ⟨e | output, s'⟩
  · rw [hrun] at hcall
    simp only [ask, hrun]
    exact hcall
  · rw [hrun] at hcall
    simp only [ask, hrun]
    exact hcall

/-- What is upheld by the calls, by the removal and the writing of files at certain paths and by the
making of directories is upheld by every step. -/
theorem Course.closed_upholds {s : Settings} {run : Runner σ} {free : Path → Prop}
    (hcall : ∀ call, s.Admits free call → Upholds P (run call))
    (hremove : ∀ p site fs, free p → P site → site.files.removeFile p = .ok fs →
      P { site with files := fs })
    (hwrite : ∀ p bytes site fs, free p → P site → site.files.write p bytes = .ok fs →
      P { site with files := fs })
    (hmake : ∀ site fs, P site → FileSystem.OnlyMakesDirectories site.files fs →
      P { site with files := fs }) :
    Course.Closed s run free fun _ => Upholds fun st => P st.1 where
  pure := .pure
  bind := .bind
  enter := fun _ _ h => h
  idle := fun hsite _ => upholds_act (.of_state_eq hsite)
  call := fun {call} h => upholds_act (hcall call h)
  ask := fun q id => upholds_act (Account.upholds_ask (hcall _ (s.admits_question free q id)))
  clear := fun {p} hp => upholds_act (upholds_clearStale fun site fs => hremove p site fs hp)
  write := fun context {p} hp bytes =>
    upholds_act (Action.upholds_changing context fun site fs => hwrite p bytes site fs hp)
  make := fun context {_} hf =>
    upholds_act (Action.upholds_working context fun site hsite => hmake site _ hsite (hf _))

end Upholds

end StorageProof
