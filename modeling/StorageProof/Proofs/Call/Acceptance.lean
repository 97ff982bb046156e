import StorageProof.Proofs.Call.Plan
import StorageProof.Proofs.Text.Blank

/-!
# Calls decide their purpose

A call that is held to its declared output succeeds if and only if the trace that it leaves is one
accepted call, and a question to the ledger is answered if and only if the answer decodes. Both hold
for every runner, whatever it answers and whatever it does to the files.
-/

namespace StorageProof

variable {σ α : Type}

/-- The calls that have been made at a site. -/
def Site.log (s : Site (σ × List Exchange)) : List Exchange := s.tools.2

/-! ## Actions without calls -/

theorem Action.working_tools (context : String)
    (f : FileSystem → Except SystemError Unit × FileSystem)
    (s : Site σ) : (Action.working context f s).2.tools = s.tools := by
  unfold Action.working
  split <;> rfl

theorem Action.changing_tools (context : String) (f : FileSystem → Except SystemError FileSystem)
    (s : Site σ) : (Action.changing context f s).2.tools = s.tools := by
  unfold Action.changing
  split <;> rfl

theorem clearStale_tools (p : Path) (s : Site σ) : (clearStale p s).2.tools = s.tools := by
  unfold clearStale
  split
  · rfl
  · split <;> rfl

/-! ## The output that a stage requires -/

theorem Stage.requireFile_site (stage : Stage) (p : Path) (s : Site σ) :
    (stage.requireFile p s).2 = s := by
  unfold Stage.requireFile
  split <;> rfl

theorem Stage.isOk_requireFile (stage : Stage) (p : Path) (s : Site σ) :
    (stage.requireFile p s).1.isOk = s.files.isNonEmptyFile p := by
  unfold Stage.requireFile FileSystem.isNonEmptyFile
  split
  · next bytes executable holder h =>
    rw [h]
    cases hb : bytes.isEmpty <;> simp [hb, Entry.isNonEmptyFile, Except.isOk, Except.toBool]
  · next h =>
    rw [h]
    rfl
  · next h =>
    rw [h]
    rfl

theorem Stage.isOk_requireStdout (stage : Stage) (o : Output) :
    (stage.requireStdout o).isOk = !Text.isAllBlank o.text := by
  have h := Text.trim_eq_empty_iff o.text
  unfold Stage.requireStdout
  cases hb : Text.isAllBlank o.text
  · have hne : Text.trim o.text ≠ "" := by
      rw [Ne, h, hb]
      decide
    simp [hne, Except.isOk, Except.toBool]
  · simp [h.mpr hb, Except.isOk, Except.toBool]

/-! ## One call -/

/-- A call under observation is kept as it was answered. -/
theorem Runner.observed_call (run : Runner σ) (call : Call) (s : Site (σ × List Exchange)) :
    ∃ e : Exchange, e.call = call ∧ (run.observed call s).1 = e.answer ∧
      (run.observed call s).2.files = e.after ∧ (run.observed call s).2.log = s.log ++ [e] :=
  ⟨⟨call, s.files, (run call ⟨s.files, s.tools.1⟩).1, (run call ⟨s.files, s.tools.1⟩).2.files⟩,
    rfl, rfl, rfl, rfl⟩

theorem Follows.single {x : Purpose} {e : Exchange} (h : e.call.purpose = x) : Follows [x] [e] :=
  ⟨by simp [h], by simp⟩

theorem Completes.single_iff {x : Purpose} {e : Exchange} (h : e.call.purpose = x) :
    Completes [x] [e] ↔ e.Accepted := by
  constructor
  · exact fun hc => hc.accepted e List.mem_cons_self
  · exact fun ha => ⟨by simp [h], by simpa using ha⟩

/-- What makes one call at most decides its purpose, if it fails without the call and succeeds with
it just where the call is accepted. -/
theorem Decides.single {S : Type} {log : S → List Exchange} {x : Purpose}
    {m : ExceptT Failure (StateM S) α}
    (h : ∀ s, (log (m s).2 = log s ∧ ¬ (m s).1.isOk) ∨
      ∃ e : Exchange, log (m s).2 = log s ++ [e] ∧ e.call.purpose = x ∧
        ((m s).1.isOk ↔ e.Accepted)) :
    Decides log [x] m := by
  intro s
  rcases h s with ⟨hlog, hno⟩ | ⟨e, hlog, hx, hok⟩
  · refine ⟨[], by simp [hlog], .nil _, fun hok => absurd hok hno, fun hc => ?_⟩
    cases hc.length_eq
  · exact ⟨[e], hlog, .single hx, hok.trans (Completes.single_iff hx).symm⟩

/-- An exchange whose call has the declared kind delivers what its declaration asks for. -/
theorem Exchange.delivers_file {e : Exchange} {p : Path} {output : Output}
    (hk : e.call.DeclaresForStage) (hp : e.call.declared = .file p) :
    e.Delivers output ↔ e.after.isNonEmptyFile p := by
  unfold Call.DeclaresForStage at hk
  unfold Exchange.Delivers
  cases hs : e.call.stage <;> rw [hs] at hk <;> simp_all

theorem Exchange.delivers_stdout {e : Exchange} {output : Output}
    (hk : e.call.DeclaresForStage) (hp : e.call.declared = .stdout) :
    e.Delivers output ↔ Text.isAllBlank output.text = false := by
  unfold Call.DeclaresForStage at hk
  unfold Exchange.Delivers
  cases hs : e.call.stage <;> rw [hs] at hk <;> simp_all

theorem Exchange.delivers_exitOnly {e : Exchange} {output : Output}
    (hk : e.call.DeclaresForStage) (hp : e.call.declared = .exitOnly) : e.Delivers output := by
  unfold Call.DeclaresForStage at hk
  unfold Exchange.Delivers
  cases hs : e.call.stage <;> rw [hs] at hk <;> simp_all

/-- A call under observation decides its purpose together with a check of its output, if the check
makes no calls and passes just what the stage is judged by. -/
theorem Decides.checked {run : Runner σ} {call : Call}
    {check : Output → Action (σ × List Exchange) α} (hsite : ∀ output s, (check output s).2 = s)
    (hcheck : ∀ (e : Exchange) output s, e.call = call → e.after = s.files →
      ((check output s).1.isOk ↔ e.Delivers output)) :
    Decides Site.log [call.purpose] (run.observed call >>= check) := by
  refine .single fun s => .inr ?_
  obtain ⟨e, hcall, hanswer, hafter, hlog⟩ := run.observed_call call s
  refine ⟨e, ?_, by rw [hcall], ?_⟩
  · rcases hrun : run.observed call s with ⟨f | output, s'⟩
    · rw [bind_of_error hrun, ← hlog, hrun]
    · rw [bind_of_ok hrun, hsite, ← hlog, hrun]
  · rcases hrun : run.observed call s with ⟨f | output, s'⟩
    · rw [hrun] at hanswer
      rw [bind_of_error hrun]
      have hno := Exchange.not_accepted hanswer.symm
      simpa [Except.isOk, Except.toBool] using hno
    · rw [hrun] at hanswer hafter
      rw [bind_of_ok hrun, Exchange.accepted_iff hanswer.symm]
      exact hcheck e output s' hcall hafter.symm

/-- A call that is held to its output decides its purpose. -/
theorem Call.decides_perform (run : Runner σ) (call : Call) (hk : call.DeclaresForStage) :
    Decides Site.log [call.purpose] (call.perform run.observed) := by
  unfold Call.perform
  cases hd : call.declared with
  | file p =>
    refine .after_silent (fun s => ?_) (fun _ => .checked (fun output s => ?_) ?_) (by simp)
    · rw [Site.log, clearStale_tools, Site.log]
    · rw [bind_pure_apply]
      exact Stage.requireFile_site call.stage p s
    · intro e output s hcall hafter
      subst hcall
      rw [bind_pure_apply, isOk_map, Stage.isOk_requireFile, e.delivers_file hk hd, hafter]
  | stdout =>
    refine .checked (fun output s => ?_) ?_
    · rw [bind_pure_apply]
      rfl
    · intro e output s hcall hafter
      subst hcall
      rw [bind_pure_apply, isOk_map, e.delivers_stdout hk hd]
      simp [Action.ofExcept, Stage.isOk_requireStdout]
  | exitOnly =>
    have h : Decides Site.log [call.purpose] (run.observed call >>= Pure.pure) := by
      refine .checked (fun output s => rfl) ?_
      intro e output s hcall hafter
      subst hcall
      exact ⟨fun _ => e.delivers_exitOnly hk hd, fun _ => rfl⟩
    rwa [bind_pure] at h

/-! ## The account -/

theorem Account.decides_create (account : Account) (run : Runner σ) (reward : String)
    (id : Identifier) (a : Agreement) :
    Decides Site.log [⟨.ledgerCreate, none⟩] (account.create run.observed reward id a) :=
  (Call.decides_perform run (account.createCall reward id a) rfl).then_pure fun _ => ()

theorem Account.decides_commit (account : Account) (run : Runner σ) (id : Identifier)
    (p : ProofBlob) :
    Decides Site.log [⟨.ledgerCommit, none⟩] (account.commit run.observed id p) :=
  (Call.decides_perform run (account.commitCall id p) rfl).then_pure fun _ => ()

theorem Exchange.delivers_question {e : Exchange} {account : Account} {q : Question}
    {id : Identifier} {output : Output} (h : e.call = account.questionCall q id) :
    e.Delivers output ↔ q.Decodes id output.text := by
  have hasks : e.call.asks? = some (q, id.text) := by rw [h, Account.asks?_questionCall]
  have hd : e.Delivers output ↔
      ∃ q' id', e.call.asks? = some (q', Identifier.text id') ∧ q'.Decodes id' output.text := by
    unfold Exchange.Delivers
    rw [h]
    rfl
  rw [hd]
  constructor
  · rintro ⟨q', id', hasks', hq⟩
    rw [hasks, Option.some.injEq, Prod.mk.injEq] at hasks'
    obtain ⟨rfl, hid⟩ := hasks'
    rwa [Identifier.ext hid]
  · exact fun hq => ⟨q, id, hasks, hq⟩

/-- A question decides its purpose together with a reading of the answer that succeeds just where
the answer decodes. -/
theorem Account.decides_ask (account : Account) (run : Runner σ) {q : Question} {id : Identifier}
    {read : String → Except Failure α}
    (hread : ∀ answer, (read answer).isOk ↔ q.Decodes id answer) :
    Decides Site.log [⟨.ledgerQuery, some (q, id.text)⟩]
      (account.ask run.observed q id >>= fun answer => Action.ofExcept (read answer)) := by
  refine .single fun s => .inr ?_
  obtain ⟨e, hcall, hanswer, -, hlog⟩ := run.observed_call (account.questionCall q id) s
  have hpurpose : e.call.purpose = ⟨.ledgerQuery, some (q, id.text)⟩ := by
    rw [hcall, Account.purpose_questionCall]
  rcases hrun : run.observed (account.questionCall q id) s with ⟨f | output, s'⟩
  · have hask : account.ask run.observed q id s = (.error (questionFailure q id f), s') := by
      simp only [ask, hrun]
    rw [hrun] at hanswer hlog
    rw [bind_of_error hask]
    have hno := Exchange.not_accepted hanswer.symm
    exact ⟨e, hlog, hpurpose, by simpa [Except.isOk, Except.toBool] using hno⟩
  · have hask : account.ask run.observed q id s = (.ok output.text, s') := by
      simp only [ask, hrun]
    rw [hrun] at hanswer hlog
    rw [bind_of_ok hask]
    refine ⟨e, hlog, hpurpose, ?_⟩
    rw [Exchange.accepted_iff hanswer.symm, Exchange.delivers_question hcall]
    exact hread output.text

theorem Account.decides_agreement (account : Account) (run : Runner σ) (id : Identifier) :
    Decides Site.log [⟨.ledgerQuery, some (.agreement, id.text)⟩]
      (account.agreement run.observed id) :=
  account.decides_ask run fun _ => Iff.rfl

theorem Account.decides_proof (account : Account) (run : Runner σ) (id : Identifier) :
    Decides Site.log [⟨.ledgerQuery, some (.proof, id.text)⟩] (account.proof run.observed id) :=
  account.decides_ask run fun _ => Iff.rfl

end StorageProof
