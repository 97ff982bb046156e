import StorageProof.Proofs.Call.Observation

/-!
# What a program calls

A program is started in a state. Its calls, with their arguments, are those of a list from the
beginning on, and all of them if it succeeds; a failure that is not a tool's is one that the list of
calls made so far allows. Statements of this kind are put together along sequencing, where what the
first program establishes is there for the second.
-/

namespace StorageProof

variable {σ α β : Type}

/-- The failures about artifacts: a file that the system does not let be worked on, or something
that a tool has not left. -/
def Failure.isOfArtifacts : Failure → Bool
  | .io .. | .artifactMissing .. | .proofArtifactMissing _ => true
  | _ => false

/-- The site without the log of its calls. -/
def Site.inner (s : Site (σ × List Exchange)) : Site σ := ⟨s.files, s.tools.1⟩

section Making

variable {S : Type}

/-- A state under observation: the site in it, and the calls that have been made. -/
abbrev View (S σ : Type) := S → Site σ × List Exchange

/-- The calls that a program makes from a state, what is true of each of them, what holds after
success, and the failures that are not a tool's. -/
def Makes (look : View S σ) (good : Exchange → Prop) (fails : Failure → List Call → Prop)
    (calls : List Call) (post : α → Site σ → Prop) (m : ExceptT Failure (StateM S) α)
    (s : S) : Prop :=
  ∃ trace : List Exchange, (look (m s).2).2 = (look s).2 ++ trace ∧ trace.map (·.call) <+: calls ∧
    (∀ e ∈ trace, good e) ∧
    match (m s).1 with
    | .ok a => trace.map (·.call) = calls ∧ post a (look (m s).2).1
    | .error f => fails f (trace.map (·.call)) ∨ ∃ e ∈ trace, ¬ e.answer.isOk

variable {look : View S σ} {good : Exchange → Prop} {fails : Failure → List Call → Prop}
  {calls more : List Call} {post : α → Site σ → Prop} {post' : β → Site σ → Prop}
  {m : ExceptT Failure (StateM S) α} {f : α → ExceptT Failure (StateM S) β} {s : S}

theorem Makes.silent (hlook : (look (m s).2).2 = (look s).2)
    (hok : ∀ a s', m s = (.ok a, s') → post a (look s').1)
    (herror : ∀ e s', m s = (.error e, s') → fails e []) : Makes look good fails [] post m s := by
  refine ⟨[], by rw [hlook, List.append_nil], List.nil_prefix, by simp, ?_⟩
  rcases h : m s with ⟨e | a, s'⟩
  · exact .inl (herror e s' h)
  · exact ⟨rfl, hok a s' h⟩

theorem Makes.bind (hm : Makes look good fails calls post m s)
    (hf : ∀ a s', m s = (.ok a, s') → post a (look s').1 →
      Makes look good (fun e made => fails e (calls ++ made)) more post' (f a) s') :
    Makes look good fails (calls ++ more) post' (m >>= f) s := by
  obtain ⟨trace, hlook, hcalls, hgood, hm⟩ := hm
  rcases h : m s with ⟨e | a, s'⟩
  · rw [h] at hlook hm
    rw [Makes, bind_of_error h]
    exact ⟨trace, hlook, hcalls.trans (List.prefix_append _ _), hgood, hm⟩
  · rw [h] at hlook hm
    obtain ⟨hall, hpost⟩ := hm
    obtain ⟨trace', hlook', hcalls', hgood', hrest⟩ := hf a s' h hpost
    rw [Makes, bind_of_ok h]
    refine ⟨trace ++ trace', ?_, ?_, ?_, ?_⟩
    · rw [hlook', hlook, List.append_assoc]
    · rw [List.map_append, hall]
      exact (List.prefix_append_right_inj calls).mpr hcalls'
    · intro e he
      rcases List.mem_append.mp he with he | he
      · exact hgood e he
      · exact hgood' e he
    · rcases h' : f a s' with ⟨e | b, s''⟩
      · rw [h'] at hrest
        rw [List.map_append, hall]
        rcases hrest with hfails | ⟨e, he, hno⟩
        · exact .inl hfails
        · exact .inr ⟨e, List.mem_append_right _ he, hno⟩
      · rw [h'] at hrest
        rw [List.map_append, hall, hrest.1]
        exact ⟨rfl, hrest.2⟩

theorem Makes.next {call : Call} (hm : Makes look good fails [call] post m s)
    (hf : ∀ a s', m s = (.ok a, s') → post a (look s').1 →
      Makes look good (fun e made => fails e (call :: made)) more post' (f a) s') :
    Makes look good fails (call :: more) post' (m >>= f) s := hm.bind hf

theorem Makes.after_silent (hm : Makes look good fails [] post m s)
    (hf : ∀ a s', m s = (.ok a, s') → post a (look s').1 →
      Makes look good fails more post' (f a) s') :
    Makes look good fails more post' (m >>= f) s := hm.bind hf

/-- What comes second may settle which calls those are. -/
theorem Makes.bind_exists {ι : Type} {more : ι → List Call} {post' : ι → β → Site σ → Prop} (i : ι)
    (hm : Makes look good fails calls post m s)
    (hf : ∀ a s', m s = (.ok a, s') → post a (look s').1 →
      ∃ i, Makes look good (fun e made => fails e (calls ++ made)) (more i) (post' i) (f a) s') :
    ∃ i, Makes look good fails (calls ++ more i) (post' i) (m >>= f) s := by
  rcases h : m s with ⟨e | a, s'⟩
  · refine ⟨i, hm.bind fun b s'' hb _ => ?_⟩
    rw [h] at hb
    cases hb
  · have hpost : post a (look s').1 := by
      obtain ⟨trace, -, -, -, hend⟩ := hm
      rw [h] at hend
      exact hend.2
    obtain ⟨j, hj⟩ := hf a s' h hpost
    refine ⟨j, hm.bind fun b s'' hb _ => ?_⟩
    rw [h] at hb
    cases hb
    exact hj

theorem Makes.pure {a : α} (h : post a (look s).1) :
    Makes look good fails [] post (Pure.pure a) s := by
  refine .silent rfl (fun b s' hb => ?_) (fun e s' he => ?_)
  · cases hb
    exact h
  · cases he

end Making

/-! ## One call -/

/-- The site and the calls that have been made at it. -/
def Site.look : View (Site (σ × List Exchange)) σ := fun s => (s.inner, s.log)

variable {run : Runner σ} {call : Call} {good : Exchange → Prop}
  {fails : Failure → List Call → Prop}
  {s : Site (σ × List Exchange)}

/-- The call that is made at a site, as it is kept. -/
def Runner.exchange (run : Runner σ) (call : Call) (s : Site (σ × List Exchange)) : Exchange :=
  ⟨call, s.files, (run call s.inner).1, (run call s.inner).2.files⟩

theorem Runner.observed_eq (run : Runner σ) (call : Call) (s : Site (σ × List Exchange)) :
    run.observed call s =
      ((run call s.inner).1, (run call s.inner).2.watched (s.log ++ [run.exchange call s])) :=
  rfl

/-- A call whose output is put to a check that makes none. -/
theorem Makes.checked {check : Output → Action (σ × List Exchange) α} {post : α → Site σ → Prop}
    (hgood : good (run.exchange call s)) (hsite : ∀ output s', (check output s').2 = s')
    (hok : ∀ output s' log a, run call s.inner = (.ok output, s') →
      (check output (s'.watched log)).1 = .ok a → post a s')
    (herror : ∀ output s' log f, run call s.inner = (.ok output, s') →
      (check output (s'.watched log)).1 = .error f → fails f [call]) :
    Makes Site.look good fails [call] post (run.observed call >>= check) s := by
  have hobserved := run.observed_eq call s
  rcases hrun : run call s.inner with ⟨f | output, s'⟩
  · rw [hrun] at hobserved
    rw [Makes, bind_of_error hobserved]
    refine ⟨[run.exchange call s], rfl, List.prefix_rfl, by simpa using hgood, .inr ?_⟩
    refine ⟨_, List.mem_singleton_self _, ?_⟩
    simp [Runner.exchange, hrun, Except.isOk, Except.toBool]
  · rw [hrun] at hobserved
    rw [Makes, bind_of_ok hobserved, hsite]
    refine ⟨[run.exchange call s], rfl, List.prefix_rfl, by simpa using hgood, ?_⟩
    cases hc : (check output (s'.watched (s.log ++ [run.exchange call s]))).1 with
    | error f => exact .inl (herror output s' _ f hrun hc)
    | ok a => exact ⟨rfl, hok output s' _ a hrun hc⟩

/-- Whether nothing is in the way of clearing a path: the file there can be removed, or there is
none. -/
def FileSystem.canClear (fs : FileSystem) (p : Path) : Bool :=
  match fs.removeFile p with
  | .ok _ => true
  | .error e => e = .notFound

theorem clearStale_error {s s' : Site σ} {p : Path} {f : Failure}
    (h : clearStale p s = (.error f, s')) :
    s.files.canClear p = false ∧ ∃ context cause, f = .io context cause := by
  unfold clearStale at h
  rcases hremove : s.files.removeFile p with e | fs
  · simp only [hremove] at h
    split at h
    · cases h
    case isFalse hne =>
      cases h
      refine ⟨?_, _, _, rfl⟩
      simp only [FileSystem.canClear, hremove, hne, decide_false]
  · simp only [hremove] at h
    cases h

theorem Stage.requireFile_error {stage : Stage} {s : Site σ} {p : Path} {f : Failure}
    (h : (stage.requireFile p s).1 = .error f) : f.isOfArtifacts = true := by
  unfold requireFile at h
  split at h
  · simp only at h
    split at h
    · cases h
      rfl
    · cases h
  · cases h
    rfl
  · simp only at h
    split at h
    · cases h
      rfl
    · cases h
      rfl

theorem Stage.requireStdout_error {stage : Stage} {output : Output} {f : Failure}
    (h : stage.requireStdout output = .error f) : f.isOfArtifacts = true := by
  unfold requireStdout at h
  simp only at h
  split at h
  · cases h
    rfl
  · cases h

/-- A call with a declared file. What is left there by an earlier call is cleared away first. -/
theorem Makes.perform_file {p : Path} {post : Output → Site σ → Prop} (hd : call.declared = .file p)
    (hgood : ∀ s', good (run.exchange call s'))
    (hclear : s.files.canClear p = false → ∀ context cause, fails (.io context cause) [])
    (hfails : ∀ f, f.isOfArtifacts = true → fails f [call])
    (hok : ∀ s₁ output s', s₁.tools = s.tools.1 → run call s₁ = (.ok output, s') → post output s') :
    Makes Site.look good fails [call] post (call.perform run.observed) s := by
  have hcleared : Makes Site.look good fails [] (fun _ s' => s'.tools = s.tools.1)
      (clearStale p) s := by
    have htools := clearStale_tools p s
    have hlog : (clearStale p s).2.log = s.log := congrArg Prod.snd htools
    refine .silent hlog (fun u s' h => ?_) (fun f s' h => ?_)
    · rw [h] at htools
      exact congrArg Prod.fst htools
    · obtain ⟨hblocked, context, cause, rfl⟩ := clearStale_error h
      exact hclear hblocked context cause
  unfold Call.perform
  rw [hd]
  refine hcleared.after_silent fun u s₁ _ htools => ?_
  refine .checked (hgood s₁) (fun output s' => ?_) (fun output s' log a hrun h => ?_)
    (fun output s' log f hrun h => ?_)
  · rw [bind_pure_apply]
    exact call.stage.requireFile_site p s'
  · rw [bind_pure_apply] at h
    obtain ⟨_, -, rfl⟩ := map_eq_ok h
    exact hok s₁.inner output s' htools hrun
  · rw [bind_pure_apply] at h
    exact hfails f (Stage.requireFile_error (map_eq_error h))

/-- A call that is judged by what it prints. -/
theorem Makes.perform_stdout {post : Output → Site σ → Prop} (hd : call.declared = .stdout)
    (hgood : good (run.exchange call s)) (hfails : ∀ f, f.isOfArtifacts = true → fails f [call])
    (hok : ∀ output s', run call s.inner = (.ok output, s') → post output s') :
    Makes Site.look good fails [call] post (call.perform run.observed) s := by
  unfold Call.perform
  rw [hd]
  refine .checked hgood (fun output s' => ?_) (fun output s' log a hrun h => ?_)
    (fun output s' log f hrun h => ?_)
  · rw [bind_pure_apply]
    rfl
  · rw [bind_pure_apply, Action.ofExcept] at h
    dsimp only at h
    obtain ⟨_, -, rfl⟩ := map_eq_ok h
    exact hok output s' hrun
  · rw [bind_pure_apply, Action.ofExcept] at h
    dsimp only at h
    exact hfails f (Stage.requireStdout_error (map_eq_error h))

theorem Makes.perform_exitOnly {post : Output → Site σ → Prop} (hd : call.declared = .exitOnly)
    (hgood : good (run.exchange call s))
    (hok : ∀ output s', run call s.inner = (.ok output, s') → post output s') :
    Makes Site.look good fails [call] post (call.perform run.observed) s := by
  have h : Makes Site.look good fails [call] post (run.observed call >>= Pure.pure) s := by
    refine .checked hgood (fun output s' => rfl) (fun output s' log a hrun h => ?_)
      (fun output s' log f hrun h => ?_)
    · cases h
      exact hok output s' hrun
    · cases h
  unfold Call.perform
  rwa [hd, ← bind_pure (run.observed call)]

/-- A question whose answer can be read. -/
theorem Makes.ask {account : Account} {q : Question} {id : Identifier}
    {read : String → Except Failure α}
    {post : α → Site σ → Prop} (hgood : good (run.exchange (account.questionCall q id) s))
    (hok : ∀ output s', run (account.questionCall q id) s.inner = (.ok output, s') →
      ∃ a, read output.text = .ok a ∧ post a s') :
    Makes Site.look good fails [account.questionCall q id] post
      (account.ask run.observed q id >>= fun answer => Action.ofExcept (read answer)) s := by
  have hobserved := run.observed_eq (account.questionCall q id) s
  rcases hrun : run (account.questionCall q id) s.inner with ⟨f | output, s'⟩
  · rw [hrun] at hobserved
    have hask : account.ask run.observed q id s = (.error (Account.questionFailure q id f),
        s'.watched (s.log ++ [run.exchange (account.questionCall q id) s])) := by
      simp only [Account.ask, hobserved]
    rw [Makes, bind_of_error hask]
    refine ⟨[run.exchange (account.questionCall q id) s], rfl, List.prefix_rfl,
      by simpa using hgood, .inr ?_⟩
    refine ⟨_, List.mem_singleton_self _, ?_⟩
    simp [Runner.exchange, hrun, Except.isOk, Except.toBool]
  · rw [hrun] at hobserved
    have hask : account.ask run.observed q id s = (.ok output.text,
        s'.watched (s.log ++ [run.exchange (account.questionCall q id) s])) := by
      simp only [Account.ask, hobserved]
    obtain ⟨a, ha, hpost⟩ := hok output s' hrun
    rw [Makes, bind_of_ok hask, Action.ofExcept, ha]
    exact ⟨[run.exchange (account.questionCall q id) s], rfl, List.prefix_rfl,
      by simpa using hgood, rfl, hpost⟩

end StorageProof
