import StorageProof.Proofs.Files.Removal
import StorageProof.Proofs.Flow.Composition

/-!
# How runs end

A program that is started in a state ends with a result or with a failure, and leaves a state. What
holds in either case is put together along sequencing, from single calls to whole jobs. A call under
observation adds itself to the log, with the files as they were when it was launched; nothing is
found then where it declares to leave a file.
-/

namespace StorageProof

section Ends

variable {S α β : Type}

/-- What holds of the result and the state after success, and of the failure and the state after
failure. -/
def Ends (m : ExceptT Failure (StateM S) α) (s : S) (done : α → S → Prop)
    (failed : Failure → S → Prop) : Prop :=
  match m s with
  | (.ok a, s') => done a s'
  | (.error f, s') => failed f s'

variable {m : ExceptT Failure (StateM S) α} {f : α → ExceptT Failure (StateM S) β} {s : S}
  {done mid : α → S → Prop} {done' : β → S → Prop} {failed broken : Failure → S → Prop}

theorem Ends.of_eq_ok {a : α} {s' : S} (h : m s = (.ok a, s')) (hd : done a s') :
    Ends m s done failed := by
  unfold Ends
  rw [h]
  exact hd

theorem Ends.of_eq_error {e : Failure} {s' : S} (h : m s = (.error e, s')) (hf : failed e s') :
    Ends m s done failed := by
  unfold Ends
  rw [h]
  exact hf

/-- What holds of the state that is left, whatever comes out. -/
theorem Ends.of_state {P : S → Prop} (h : P (m s).2) : Ends m s (fun _ => P) (fun _ => P) := by
  rcases hm : m s with ⟨e | a, s'⟩
  · rw [hm] at h
    exact .of_eq_error hm h
  · rw [hm] at h
    exact .of_eq_ok hm h

theorem Ends.pure {a : α} (h : done a s) : Ends (Pure.pure a) s done failed := h

theorem Ends.cases (h : Ends m s done failed) :
    (∃ a s', m s = (.ok a, s') ∧ done a s') ∨ ∃ e s', m s = (.error e, s') ∧ failed e s' := by
  unfold Ends at h
  rcases hm : m s with ⟨e | a, s'⟩
  · rw [hm] at h
    exact .inr ⟨e, s', rfl, h⟩
  · rw [hm] at h
    exact .inl ⟨a, s', rfl, h⟩

theorem Ends.weaken (hm : Ends m s mid broken) (hmid : ∀ a s', mid a s' → done a s')
    (hbroken : ∀ e s', broken e s' → failed e s') : Ends m s done failed := by
  obtain ⟨a, s', h, hmid'⟩ | ⟨e, s', h, hbroken'⟩ := hm.cases
  · exact .of_eq_ok h (hmid a s' hmid')
  · exact .of_eq_error h (hbroken e s' hbroken')

theorem Ends.after_ok {a : α} {s' : S} (h : m s = (.ok a, s')) (hf : Ends (f a) s' done' failed) :
    Ends (m >>= f) s done' failed := by
  unfold Ends at hf ⊢
  rwa [bind_of_ok h]

/-- The second program goes on from where the first one has ended well. -/
theorem Ends.bind (hm : Ends m s mid broken)
    (hf : ∀ a s', mid a s' → Ends (f a) s' done' failed)
    (hbroken : ∀ e s', broken e s' → failed e s') : Ends (m >>= f) s done' failed := by
  obtain ⟨a, s', h, hmid⟩ | ⟨e, s', h, hbroken'⟩ := hm.cases
  · exact .after_ok h (hf a s' hmid)
  · exact .of_eq_error (bind_of_error h) (hbroken e s' hbroken')

end Ends

variable {σ α : Type}

/-! ## Calls -/

/-- A call that was launched where there were certain files: nothing is found where it declares to
leave a file, files of other names are found as they were, and a call that declares none finds all
files as they were. -/
structure Exchange.LaunchedAt (e : Exchange) (call : Call) (fs : FileSystem) : Prop where
  call_eq : e.call = call
  cleared : ∀ p, call.declared = .file p → e.before.inspect p = .error .notFound
  kept : ∀ p, call.declared = .file p → FileSystem.KeepsOthers fs e.before p
  untouched : (∀ p, call.declared ≠ .file p) → e.before = fs

/-- A call has been made and was accepted. -/
def Site.Made (s : Site (σ × List Exchange)) (call : Call) (output : Output)
    (s' : Site (σ × List Exchange)) : Prop :=
  ∃ e : Exchange, e.LaunchedAt call s.files ∧ e.answer = .ok output ∧ e.Delivers output ∧
    s'.log = s.log ++ [e] ∧ s'.files = e.after

/-- One call at most has been made. -/
def Site.StoppedAt (s : Site (σ × List Exchange)) (call : Call)
    (s' : Site (σ × List Exchange)) : Prop :=
  s'.log = s.log ∨ ∃ e : Exchange, e.LaunchedAt call s.files ∧ s'.log = s.log ++ [e]

theorem Runner.ends_observed (run : Runner σ) (call : Call) (s : Site (σ × List Exchange)) :
    Ends (run.observed call) s
      (fun output s' => (run.exchange call s).answer = .ok output ∧
        s'.log = s.log ++ [run.exchange call s] ∧ s'.files = (run.exchange call s).after)
      (fun _ s' => s'.log = s.log ++ [run.exchange call s]) := by
  have hobserved := run.observed_eq call s
  rcases hrun : run call s.inner with ⟨e | output, s'⟩
  · rw [hrun] at hobserved
    exact .of_eq_error hobserved rfl
  · rw [hrun] at hobserved
    refine .of_eq_ok hobserved ⟨congrArg Prod.fst hrun, rfl, ?_⟩
    exact (congrArg (fun r => Site.files r.2) hrun).symm

/-- A call that declares no file is launched where the site is. -/
theorem Exchange.LaunchedAt.of_not_file {run : Runner σ} {call : Call}
    {s : Site (σ × List Exchange)} (h : ∀ p, call.declared ≠ .file p) :
    (run.exchange call s).LaunchedAt call s.files where
  call_eq := rfl
  cleared := fun p hp => absurd hp (h p)
  kept := fun p hp => absurd hp (h p)
  untouched := fun _ => rfl

theorem ends_clearStale (p : Path) (s : Site (σ × List Exchange)) :
    Ends (clearStale p) s
      (fun _ s' => s'.log = s.log ∧ s'.files.inspect p = .error .notFound ∧
        FileSystem.KeepsOthers s.files s'.files p)
      (fun _ s' => s'.log = s.log) := by
  have htools := clearStale_tools p s
  rcases hclear : clearStale p s with ⟨e | _, s'⟩
  · rw [hclear] at htools
    exact .of_eq_error hclear (congrArg Prod.snd htools)
  · rw [hclear] at htools
    exact .of_eq_ok hclear
      ⟨congrArg Prod.snd htools, clearStale_ok hclear, keepsOthers_clearStale hclear⟩

/-- A call, and then a check of its output that leaves the site alone. -/
theorem Runner.ends_checked (run : Runner σ) {call : Call} {s s₁ : Site (σ × List Exchange)}
    {check : Output → Action (σ × List Exchange) α} (hlog : s₁.log = s.log)
    (hlaunched : (run.exchange call s₁).LaunchedAt call s.files)
    (hsite : ∀ output s', (check output s').2 = s')
    (hcheck : ∀ output s', s'.files = (run.exchange call s₁).after →
      (check output s').1.isOk → (run.exchange call s₁).Delivers output) :
    Ends (run.observed call >>= fun output => check output >>= fun _ => Pure.pure output) s₁
      (s.Made call) (fun _ => s.StoppedAt call) := by
  refine (run.ends_observed call s₁).bind (fun output s' h => ?_) (fun e s' h => ?_)
  · obtain ⟨hanswer, hlog', hfiles⟩ := h
    have hs := hsite output s'
    rw [hlog] at hlog'
    rcases hc : check output s' with ⟨e | a, s''⟩
    · rw [hc] at hs
      exact .of_eq_error (bind_of_error hc) (.inr ⟨_, hlaunched, by rw [← hlog', ← hs]⟩)
    · rw [hc] at hs
      have hdelivers := hcheck output s' hfiles (by rw [hc]; rfl)
      refine .of_eq_ok (bind_of_ok hc) ⟨_, hlaunched, hanswer, hdelivers, ?_, ?_⟩
      · rw [← hlog', ← hs]
      · rw [← hfiles, ← hs]
  · rw [hlog] at h
    exact .inr ⟨_, hlaunched, h⟩

/-- A call that is held to its output. -/
theorem Call.ends_perform (run : Runner σ) (call : Call) (hk : call.DeclaresForStage)
    (s : Site (σ × List Exchange)) :
    Ends (call.perform run.observed) s (s.Made call) (fun _ => s.StoppedAt call) := by
  unfold Call.perform
  cases hd : call.declared with
  | file p =>
    -- what an earlier run has left is gone when the call is launched
    refine (ends_clearStale p s).bind (fun _ s₁ h₁ => ?_) (fun _ s₁ h₁ => .inl h₁)
    obtain ⟨hlog, hcleared, hkept⟩ := h₁
    refine run.ends_checked hlog ⟨rfl, fun q hq => ?_, fun q hq => ?_, fun h => absurd hd (h p)⟩
      (fun _ => call.stage.requireFile_site p) (fun output s' hfiles hok => ?_)
    · cases hd.symm.trans hq
      exact hcleared
    · cases hd.symm.trans hq
      exact hkept
    · rw [Stage.isOk_requireFile, hfiles] at hok
      exact (Exchange.delivers_file hk hd).mpr hok
  | stdout =>
    refine run.ends_checked rfl (.of_not_file fun p hp => ?_) (fun _ _ => rfl)
      (fun output s' _ hok => ?_)
    · cases hd.symm.trans hp
    · rw [Action.ofExcept, Stage.isOk_requireStdout] at hok
      exact (Exchange.delivers_stdout hk hd).mpr (by simpa using hok)
  | exitOnly =>
    have hlaunched : (run.exchange call s).LaunchedAt call s.files := by
      refine .of_not_file fun p hp => ?_
      cases hd.symm.trans hp
    refine (run.ends_observed call s).weaken (fun output s' h => ?_) (fun e s' h => ?_)
    · exact ⟨_, hlaunched, h.1, Exchange.delivers_exitOnly hk hd, h.2⟩
    · exact .inr ⟨_, hlaunched, h⟩

/-! ## The account -/

theorem Account.launchedAt_question (account : Account) (run : Runner σ) (q : Question)
    (id : Identifier) (s : Site (σ × List Exchange)) :
    (run.exchange (account.questionCall q id) s).LaunchedAt (account.questionCall q id)
      s.files := by
  refine .of_not_file fun p hp => ?_
  cases hp

theorem Account.ends_ask (account : Account) (run : Runner σ) (q : Question) (id : Identifier)
    (read : String → Except Failure α) (s : Site (σ × List Exchange)) :
    Ends (account.ask run.observed q id >>= fun answer => Action.ofExcept (read answer)) s
      (fun a s' => ∃ (e : Exchange) (output : Output),
        e.LaunchedAt (account.questionCall q id) s.files ∧ e.answer = .ok output ∧
          read output.text = .ok a ∧ s'.log = s.log ++ [e] ∧ s'.files = e.after)
      (fun _ => s.StoppedAt (account.questionCall q id)) := by
  have hlaunched := account.launchedAt_question run q id s
  obtain ⟨output, s', h, hanswer, hafter⟩ | ⟨e, s', h, hlog⟩ :=
    (run.ends_observed (account.questionCall q id) s).cases
  · have hask : account.ask run.observed q id s = (.ok output.text, s') := by simp only [ask, h]
    have hresult : (account.ask run.observed q id >>= fun answer =>
        Action.ofExcept (read answer)) s = (read output.text, s') := bind_of_ok hask
    rcases hread : read output.text with e | a
    · rw [hread] at hresult
      exact .of_eq_error hresult (.inr ⟨_, hlaunched, hafter.1⟩)
    · rw [hread] at hresult
      exact .of_eq_ok hresult ⟨_, output, hlaunched, hanswer, hread, hafter⟩
  · have hask : account.ask run.observed q id s = (.error (questionFailure q id e), s') := by
      simp only [ask, h]
    exact .of_eq_error (bind_of_error hask) (.inr ⟨_, hlaunched, hlog⟩)

theorem Account.ends_agreement (account : Account) (run : Runner σ) (id : Identifier)
    (s : Site (σ × List Exchange)) :
    Ends (account.agreement run.observed id) s
      (fun a s' => ∃ (e : Exchange) (output : Output),
        e.LaunchedAt (account.questionCall .agreement id) s.files ∧ e.answer = .ok output ∧
          Agreement.ofAnswer id output.text = .ok a ∧ s'.log = s.log ++ [e] ∧ s'.files = e.after)
      (fun _ => s.StoppedAt (account.questionCall .agreement id)) :=
  account.ends_ask run .agreement id (Agreement.ofAnswer id) s

/-- A transaction is one call, which finds the files as they were. -/
theorem ends_transaction (run : Runner σ) (call : Call) (hk : call.DeclaresForStage)
    (s : Site (σ × List Exchange)) :
    Ends (call.perform run.observed >>= fun _ => pure ()) s
      (fun _ s' => ∃ e : Exchange, e.LaunchedAt call s.files ∧ s'.log = s.log ++ [e])
      (fun _ => s.StoppedAt call) := by
  refine (Call.ends_perform run call hk s).bind (fun _ s' h => ?_) (fun _ _ h => h)
  obtain ⟨e, he, -, -, hlog, -⟩ := h
  exact .pure ⟨e, he, hlog⟩

/-! ## Files -/

/-- Directories are made, and then the file is written. -/
theorem ends_writeBytes_keeps (p : Path) (bytes : Bytes) (s : Site (σ × List Exchange)) :
    Ends (writeBytes p bytes) s
      (fun _ s' => s'.log = s.log ∧
        ∃ fs : FileSystem, FileSystem.Keeps s.files fs ∧ fs.write p bytes = .ok s'.files)
      (fun _ s' => s'.log = s.log) := by
  have htools := writeBytes_tools p bytes s
  obtain ⟨context, cause, s', h⟩ | ⟨fs, fs', hkeeps, hwrite, h⟩ := writeBytes_cases p bytes s
  · rw [h] at htools
    exact .of_eq_error h (congrArg Prod.snd htools)
  · exact .of_eq_ok h ⟨rfl, fs, hkeeps, hwrite⟩

theorem ends_writeBytes (p : Path) (bytes : Bytes) (s : Site (σ × List Exchange)) :
    Ends (writeBytes p bytes) s (fun _ s' => s'.log = s.log ∧ s'.files.read p = .ok bytes)
      (fun _ s' => s'.log = s.log) := by
  refine (ends_writeBytes_keeps p bytes s).weaken (fun _ s' h => ?_) (fun _ _ h => h)
  obtain ⟨hlog, fs, -, hwrite⟩ := h
  exact ⟨hlog, FileSystem.read_write hwrite⟩

theorem ProofBlob.ends_readFrom (p : Path) (s : Site (σ × List Exchange)) :
    Ends (ProofBlob.readFrom p) s
      (fun proof s' => s' = s ∧ s.files.read p = .ok proof.bytes ∧ proof.bytes ≠ [])
      (fun _ s' => s' = s) := by
  have hsite := readFrom_site p s
  rcases h : readFrom p s with ⟨e | proof, s'⟩
  · rw [h] at hsite
    exact .of_eq_error h hsite
  · rw [h] at hsite
    refine .of_eq_ok h ⟨hsite, ?_⟩
    rcases hread : s.files.read p with e | bytes
    · simp only [readFrom, hread] at h
      cases h
    · cases hempty : bytes.isEmpty with
      | true =>
        simp only [readFrom, hread, hempty, if_true] at h
        cases h
      | false =>
        simp only [readFrom, hread, hempty, Bool.false_eq_true, if_false] at h
        cases h
        exact ⟨rfl, List.isEmpty_eq_false_iff.mp hempty⟩

/-! ## Courses -/

namespace Course

variable {β : Type} {st : Site σ × List RunState} {done : β → Site σ × List RunState → Prop}
  {failed : Failure → Site σ × List RunState → Prop}

/-- Entering a state changes the history and nothing else. -/
theorem ends_enter {next : RunState} {f : Unit → Course σ β}
    (h : Ends (f ()) (st.1, st.2 ++ [next]) done failed) :
    Ends (enter next >>= f) st done failed := h

/-- An action in a course ends as it does on its own. -/
theorem ends_action {a : Action σ β} (h : Ends a st.1 (fun x s' => done x (s', st.2))
    (fun e s' => failed e (s', st.2))) : Ends (act a) st done failed := by
  obtain ⟨x, s', ha, hs'⟩ | ⟨e, s', ha, hs'⟩ := h.cases
  · have hact : act a st = (.ok x, (s', st.2)) := by simp only [act, ha]
    exact .of_eq_ok hact hs'
  · have hact : act a st = (.error e, (s', st.2)) := by simp only [act, ha]
    exact .of_eq_error hact hs'

/-- Acting leaves the history as it is. -/
theorem ends_act {a : Action σ α} {f : α → Course σ β} {mid : α → Site σ → Prop}
    {broken : Failure → Site σ → Prop} (ha : Ends a st.1 mid broken)
    (hf : ∀ x s', mid x s' → Ends (f x) (s', st.2) done failed)
    (hbroken : ∀ e s', broken e s' → failed e (s', st.2)) :
    Ends (act a >>= f) st done failed := by
  have hact : Ends (act a) st (fun x st' => mid x st'.1 ∧ st'.2 = st.2)
      (fun e st' => broken e st'.1 ∧ st'.2 = st.2) :=
    ends_action (ha.weaken (fun _ _ h => ⟨h, rfl⟩) fun _ _ h => ⟨h, rfl⟩)
  refine hact.bind ?_ ?_
  · rintro x ⟨s', _⟩ ⟨hmid, rfl⟩
    exact hf x s' hmid
  · rintro e ⟨s', _⟩ ⟨hbroken', rfl⟩
    exact hbroken e s' hbroken'

end Course

/-! ## Calls that have been made -/

/-- Something is true of all calls that have been made. -/
def AllCalls (good : Call → Prop) (log : List Exchange) : Prop := ∀ e ∈ log, good e.call

section AllCalls

variable {good : Call → Prop} {e : Exchange} {log log' : List Exchange}

@[simp] theorem allCalls_nil : AllCalls good [] := by simp [AllCalls]

@[simp] theorem allCalls_cons : AllCalls good (e :: log) ↔ good e.call ∧ AllCalls good log :=
  List.forall_mem_cons

@[simp] theorem allCalls_append :
    AllCalls good (log ++ log') ↔ AllCalls good log ∧ AllCalls good log' :=
  List.forall_mem_append

theorem Site.StoppedAt.allCalls {s s' : Site (σ × List Exchange)} {call : Call}
    (h : s.StoppedAt call s') (hs : AllCalls good s.log) (hcall : good call) :
    AllCalls good s'.log := by
  rcases h with hlog | ⟨e, hlaunched, hlog⟩
  · rwa [hlog]
  · rw [hlog]
    simp [hs, hlaunched.call_eq, hcall]

end AllCalls

namespace Settings

theorem ends_requireParameters (s : Settings) (site : Site σ) :
    Ends s.requireParameters site (fun p site' => p = s.parameters ∧ site' = site)
      (fun _ site' => site' = site) := by
  by_cases h : site.files.isNonEmptyFile s.parameters
  · exact .of_eq_ok (if_pos h) ⟨rfl, rfl⟩
  · exact .of_eq_error (if_neg h) rfl

theorem ends_sampleAndHash (s : Settings) (run : Runner σ) (lease : Lease) (source : String)
    (good : Call → Prop) (hgood : ∀ call ∈ s.sampleCalls lease source, good call)
    {st : Site (σ × List Exchange) × List RunState} (hst : AllCalls good (Course.log st)) :
    Ends (s.sampleAndHash run.observed lease source) st
      (fun _ st' => ∃ x h : Exchange, x.call = s.extractFrames source lease.frames ∧
        h.call = s.perceptualHash lease.frames lease.hashes ∧
        Course.log st' = Course.log st ++ [x, h])
      (fun _ st' => AllCalls good (Course.log st')) := by
  have hextract := Call.ends_perform run (s.extractFrames source lease.frames) ⟨_, rfl⟩
  have hhash := Call.ends_perform run (s.perceptualHash lease.frames lease.hashes) ⟨_, rfl⟩
  have hgood₁ : good (s.extractFrames source lease.frames) := hgood _ (by simp [sampleCalls])
  have hgood₂ : good (s.perceptualHash lease.frames lease.hashes) :=
    hgood _ (by simp [sampleCalls])
  refine Course.ends_enter (Course.ends_act (hextract _) (fun _ s₁ h₁ => ?_) ?_)
  · obtain ⟨x, hx, -, -, hlog₁, -⟩ := h₁
    have hlog₁ : s₁.log = Course.log st ++ [x] := hlog₁
    have hs₁ : AllCalls good s₁.log := by
      rw [hlog₁]
      simp [hst, hx.call_eq, hgood₁]
    refine Course.ends_enter (Course.ends_act (hhash _) (fun _ s₂ h₂ => ?_) ?_)
    · obtain ⟨h, hh, -, -, hlog₂, -⟩ := h₂
      have hlog₂ : s₂.log = s₁.log ++ [h] := hlog₂
      refine .pure ⟨x, h, hx.call_eq, hh.call_eq, ?_⟩
      show s₂.log = _
      rw [hlog₂, hlog₁, List.append_assoc]
      rfl
    · exact fun _ _ h => h.allCalls hs₁ hgood₂
  · exact fun _ _ h => h.allCalls hst hgood₁

end Settings

/-! ## Jobs -/

theorem Lease.root_of_take {root : Path} {fs : FileSystem} {lease : Lease}
    (h : (take root fs).1 = .ok lease) : lease.root = root := by
  unfold take at h
  rcases ho : fs.opened (root.join lockName) with e | ⟨at', e⟩
  · simp only [ho] at h
    cases h
  · simp only [ho] at h
    split at h
    · cases h
    · cases h
      rfl

theorem Lease.root_of_acquire {root : Path} {site site' : Site σ} {lease : Lease}
    (h : acquire root site = (.ok lease, site')) : lease.root = root := by
  have h : (acquireIn root site.files).1 = .ok lease := congrArg Prod.fst h
  unfold acquireIn at h
  rcases hm : site.files.makeDirectories root with ⟨e | _, fs⟩
  · rw [hm] at h
    cases h
  · rw [hm] at h
    exact root_of_take h

/-- What every course of a job ends in is what the job ends in, and a job that comes to no course
makes no calls. -/
theorem Settings.undertake_of_ends (s : Settings) (run : Runner σ) (job : Job) (d : Desk σ)
    (done : job.Product → List Exchange → Prop) (failed : Failure → List Exchange → Prop)
    (hnone : ∀ e, failed e [])
    (hcourse : ∀ lease (site : Site (σ × List Exchange)), lease.root = s.workDir → site.log = [] →
      Ends (s.courseOf run.observed job lease) (site, [.init])
        (fun a st => done a (Course.log st)) (fun e st => failed e (Course.log st))) :
    (∃ a r, (s.undertake run job d).1 = .ok (a, r) ∧ done a (s.callsOf run job d)) ∨
      ∃ e, (s.undertake run job d).1 = .error e ∧ failed e (s.callsOf run job d) := by
  obtain ⟨e, hu, hcalls⟩ | ⟨lease, site, r, st, hl, hst, hcalls, hu⟩ :=
    s.undertake_followed run job d
  · rw [hu, hcalls]
    exact .inr ⟨e, rfl, hnone e⟩
  · rw [hu, hcalls]
    obtain ⟨a, st', hst', hdone⟩ | ⟨e, st', hst', hfailed⟩ :=
      (hcourse lease (site.watched []) (Lease.root_of_acquire hl) rfl).cases
    · cases hst.symm.trans hst'
      exact .inl ⟨a, _, rfl, hdone⟩
    · cases hst.symm.trans hst'
      exact .inr ⟨e, rfl, hfailed⟩

end StorageProof
