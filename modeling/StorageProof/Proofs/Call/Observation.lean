import StorageProof.Files.Stored
import StorageProof.Proofs.Call.Acceptance

/-!
# Observation changes nothing

A program that makes its calls through an observed runner does what it does through the runner
itself: it has the same result, leaves the same files and leaves the tools in the same state. What
is said about an observed run is therefore said about the run.
-/

namespace StorageProof

section Mirrors

variable {S S' α β : Type} {w : S → List Exchange → S'}

/-- With a log beside its state, the first program does what the second one does without. -/
def Mirrors (w : S → List Exchange → S') (m : ExceptT Failure (StateM S') α)
    (n : ExceptT Failure (StateM S) α) : Prop :=
  ∀ s log, ∃ log', m (w s log) = ((n s).1, w (n s).2 log')

theorem Mirrors.pure (a : α) : Mirrors w (pure a) (pure a) := fun _ log => ⟨log, rfl⟩

theorem Mirrors.bind {m : ExceptT Failure (StateM S') α} {n : ExceptT Failure (StateM S) α}
    {f : α → ExceptT Failure (StateM S') β} {g : α → ExceptT Failure (StateM S) β}
    (hm : Mirrors w m n) (hf : ∀ a, Mirrors w (f a) (g a)) : Mirrors w (m >>= f) (n >>= g) := by
  intro s log
  obtain ⟨log', h⟩ := hm s log
  rcases hn : n s with ⟨e | a, s'⟩
  · rw [hn] at h
    exact ⟨log', by rw [bind_of_error h, bind_of_error hn]⟩
  · rw [hn] at h
    obtain ⟨log'', h'⟩ := hf a s' log'
    exact ⟨log'', by rw [bind_of_ok h, bind_of_ok hn, h']⟩

end Mirrors

variable {σ α : Type}

/-- A site with a log of calls beside its tools. -/
def Site.watched (s : Site σ) (log : List Exchange) : Site (σ × List Exchange) :=
  ⟨s.files, s.tools, log⟩

/-- With a log beside the tools, the first action does what the second one does without. -/
abbrev Action.Mirrors (m : Action (σ × List Exchange) α) (n : Action σ α) : Prop :=
  StorageProof.Mirrors Site.watched m n

/-! ## Actions without calls -/

theorem Action.mirrors_files : Action.Mirrors (σ := σ) Action.files Action.files :=
  fun _ log => ⟨log, rfl⟩

theorem Action.mirrors_ofExcept (r : Except Failure α) :
    Action.Mirrors (σ := σ) (Action.ofExcept r) (Action.ofExcept r) :=
  fun _ log => ⟨log, rfl⟩

theorem Action.mirrors_working (context : String)
    (f : FileSystem → Except SystemError Unit × FileSystem) :
    Action.Mirrors (σ := σ) (Action.working context f) (Action.working context f) := by
  intro s log
  refine ⟨log, ?_⟩
  rcases h : f s.files with ⟨_ | _, fs⟩ <;> simp [Action.working, Site.watched, h]

theorem Action.mirrors_changing (context : String)
    (f : FileSystem → Except SystemError FileSystem) :
    Action.Mirrors (σ := σ) (Action.changing context f) (Action.changing context f) := by
  intro s log
  refine ⟨log, ?_⟩
  cases h : f s.files <;> simp [Action.changing, Site.watched, h]

theorem mirrors_clearStale (p : Path) : Action.Mirrors (σ := σ) (clearStale p) (clearStale p) := by
  intro s log
  refine ⟨log, ?_⟩
  rcases h : s.files.removeFile p with e | fs
  · by_cases he : e = .notFound <;> simp [clearStale, Site.watched, h, he]
  · simp [clearStale, Site.watched, h]

theorem Stage.mirrors_requireFile (stage : Stage) (p : Path) :
    Action.Mirrors (σ := σ) (stage.requireFile p) (stage.requireFile p) := by
  intro s log
  refine ⟨log, ?_⟩
  rcases h : s.files.inspect p with e | (_ | _) <;> simp [Stage.requireFile, Site.watched, h]

theorem mirrors_writeBytes (p : Path) (bytes : Bytes) :
    Action.Mirrors (σ := σ) (writeBytes p bytes) (writeBytes p bytes) :=
  (Action.mirrors_working _ _).bind fun _ => Action.mirrors_changing _ _

theorem ProofBlob.mirrors_readFrom (p : Path) :
    Action.Mirrors (σ := σ) (ProofBlob.readFrom p) (ProofBlob.readFrom p) := by
  intro s log
  refine ⟨log, ?_⟩
  cases h : s.files.read p <;> simp [ProofBlob.readFrom, Site.watched, h]

/-! ## Calls -/

theorem Runner.mirrors_observed (run : Runner σ) (call : Call) :
    Action.Mirrors (run.observed call) (run call) :=
  fun s log => ⟨log ++ [⟨call, s.files, (run call s).1, (run call s).2.files⟩], rfl⟩

theorem Call.mirrors_perform (run : Runner σ) (call : Call) :
    Action.Mirrors (call.perform run.observed) (call.perform run) := by
  unfold Call.perform
  cases call.declared with
  | file p =>
    refine (mirrors_clearStale p).bind fun _ => (run.mirrors_observed call).bind fun output => ?_
    exact (Stage.mirrors_requireFile call.stage p).bind fun _ => .pure output
  | stdout =>
    refine (run.mirrors_observed call).bind fun output => ?_
    exact (Action.mirrors_ofExcept _).bind fun _ => .pure output
  | exitOnly => exact run.mirrors_observed call

theorem Account.mirrors_ask (account : Account) (run : Runner σ) (q : Question) (id : Identifier) :
    Action.Mirrors (account.ask run.observed q id) (account.ask run q id) := by
  intro s log
  obtain ⟨log', h⟩ := run.mirrors_observed (account.questionCall q id) s log
  refine ⟨log', ?_⟩
  rcases hrun : run (account.questionCall q id) s with ⟨_ | _, s'⟩ <;>
    rw [hrun] at h <;> simp [ask, h, hrun]

theorem Account.mirrors_agreement (account : Account) (run : Runner σ) (id : Identifier) :
    Action.Mirrors (account.agreement run.observed id) (account.agreement run id) :=
  (account.mirrors_ask run _ id).bind fun _ => Action.mirrors_ofExcept _

theorem Account.mirrors_proof (account : Account) (run : Runner σ) (id : Identifier) :
    Action.Mirrors (account.proof run.observed id) (account.proof run id) :=
  (account.mirrors_ask run _ id).bind fun _ => Action.mirrors_ofExcept _

theorem Account.mirrors_create (account : Account) (run : Runner σ) (reward : String)
    (id : Identifier) (a : Agreement) :
    Action.Mirrors (account.create run.observed reward id a) (account.create run reward id a) :=
  (Call.mirrors_perform run _).bind fun _ => .pure ()

theorem Account.mirrors_commit (account : Account) (run : Runner σ) (id : Identifier)
    (p : ProofBlob) :
    Action.Mirrors (account.commit run.observed id p) (account.commit run id p) :=
  (Call.mirrors_perform run _).bind fun _ => .pure ()

end StorageProof
