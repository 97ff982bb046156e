import StorageProof.Proofs.Flow.Ending
import StorageProof.Proofs.Flow.StageOrder
import StorageProof.Proofs.Flow.Steps
import StorageProof.Proofs.Process.Turn

/-!
# Cancelled runs

A job makes its calls one by one under a token that anybody may cancel at any time. The first call
that sees the token tripped is the last one, and its cancellation is what comes of the job, whatever
the job would have made of any other failure. The transaction of a job is its last call: it is not
started if the token was cancelled before it was its turn.
-/

namespace StorageProof

variable {σ α β : Type}

/-! ## Programs that heed a cancellation -/

section Heeds

variable {S : Type} {tools : S → σ} {kept : σ → Prop} {stopped : String → σ → Prop}

/-- Something is true of the tools until a stage is cancelled. Then the program ends with this
cancellation, and something else is true. -/
def Heeds (tools : S → σ) (kept : σ → Prop) (stopped : String → σ → Prop)
    (m : ExceptT Failure (StateM S) α) : Prop :=
  ∀ s, kept (tools s) → Ends m s (fun _ s' => kept (tools s')) fun e s' =>
    match e.cancelledAt? with
    | some stage => stopped stage (tools s')
    | none => kept (tools s')

variable {m : ExceptT Failure (StateM S) α} {f : α → ExceptT Failure (StateM S) β}

theorem Heeds.pure (a : α) :
    Heeds tools kept stopped (Pure.pure a : ExceptT Failure (StateM S) α) := fun _ h => .pure h

theorem Heeds.bind (hm : Heeds tools kept stopped m) (hf : ∀ a, Heeds tools kept stopped (f a)) :
    Heeds tools kept stopped (m >>= f) :=
  fun s h => (hm s h).bind (fun a s' h' => hf a s' h') fun _ _ h' => h'

/-- A program that leaves the tools alone and is not cancelled. -/
theorem Heeds.of_tools_eq (htools : ∀ s, tools (m s).2 = tools s)
    (hresult : ∀ s, cancelledAt? (m s).1 = none) : Heeds tools kept stopped m := by
  intro s h
  have ht := htools s
  have hr := hresult s
  rcases hm : m s with ⟨e | a, s'⟩
  · rw [hm] at ht hr
    refine .of_eq_error hm ?_
    rw [show e.cancelledAt? = none from hr, ht]
    exact h
  · rw [hm] at ht
    refine .of_eq_ok hm ?_
    rw [ht]
    exact h

end Heeds

/-! ## Jobs -/

section Jobs

variable {kept : σ → Prop} {stopped : String → σ → Prop}

abbrev Action.Heeds (kept : σ → Prop) (stopped : String → σ → Prop) (a : Action σ α) : Prop :=
  StorageProof.Heeds Site.tools kept stopped a

abbrev Course.Heeds (kept : σ → Prop) (stopped : String → σ → Prop) (c : Course σ α) : Prop :=
  StorageProof.Heeds (fun st : Site σ × List RunState => st.1.tools) kept stopped c

theorem Course.heeds_act {a : Action σ α} (h : Action.Heeds kept stopped a) :
    Course.Heeds kept stopped (act a) := fun st hst => ends_action (h st.1 hst)

variable (s : Settings) {run : Runner σ}
  (hrun : ∀ {call : Call}, s.Calls call → Action.Heeds kept stopped (run call))

include hrun

theorem Settings.heeds_ask (q : Question) (id : Identifier) :
    Action.Heeds kept stopped (s.account.ask run q id) := by
  intro site h
  obtain ⟨output, site', hs, hs'⟩ | ⟨e, site', hs, hs'⟩ := (hrun (.question q id) site h).cases
  · have hask : s.account.ask run q id site = (.ok output.text, site') := by
      simp only [Account.ask, hs]
    exact .of_eq_ok hask hs'
  · have hask : s.account.ask run q id site =
        (.error (Account.questionFailure q id e), site') := by
      simp only [Account.ask, hs]
    refine .of_eq_error hask ?_
    rwa [Account.cancelledAt?_questionFailure]

/-- A course heeds a cancellation if the runner does. -/
theorem Course.closed_heeds :
    Course.Closed s run (fun _ => True) fun _ => Course.Heeds kept stopped where
  pure := .pure
  bind := .bind
  enter := fun _ => .of_tools_eq (fun _ => rfl) fun _ => rfl
  idle := fun hsite hresult =>
    Course.heeds_act (.of_tools_eq (fun s => congrArg Site.tools (hsite s)) hresult)
  call := fun hcall => Course.heeds_act (hrun hcall.calls)
  ask := fun q id => Course.heeds_act (s.heeds_ask hrun q id)
  clear := fun {p} _ => by
    refine Course.heeds_act (.of_tools_eq (clearStale_tools p) fun s => ?_)
    rcases h : s.files.removeFile p with e | fs
    · by_cases hmissing : e = .notFound
      · simp only [clearStale, h, hmissing, if_true]
        rfl
      · simp only [clearStale, h, hmissing, if_false]
        rfl
    · simp only [clearStale, h]
      rfl
  write := fun context {p} _ bytes => by
    refine Course.heeds_act (.of_tools_eq (Action.changing_tools context _) fun s => ?_)
    rcases h : s.files.write p bytes with e | fs
    · simp only [Action.changing, h]
      rfl
    · simp only [Action.changing, h]
      rfl
  make := fun context {f} _ => by
    refine Course.heeds_act (.of_tools_eq (Action.working_tools context f) fun s => ?_)
    rcases h : f s.files with ⟨e | _, fs⟩
    · simp only [Action.working, h]
      rfl
    · simp only [Action.working, h]
      rfl

namespace Settings

omit hrun in
theorem cancelledAt?_validate (s : Settings) : cancelledAt? s.validate = none := by
  unfold validate
  repeat' split
  all_goals rfl

omit hrun in
theorem cancelledAt?_acquire (root : Path) (site : Site σ) :
    cancelledAt? (Lease.acquire root site).1 = none := by
  show cancelledAt? (Lease.acquireIn root site.files).1 = none
  rcases hmade : site.files.makeDirectories root with ⟨e | _, fs⟩
  · simp only [Lease.acquireIn, hmade]
    rfl
  · simp only [Lease.acquireIn, hmade]
    rcases hopened : fs.opened (root.join Lease.lockName) with e | ⟨at', found⟩
    · simp only [Lease.take, hopened]
      rfl
    · by_cases hlocked : (Lease.holder? fs at').isSome = true
      · simp only [Lease.take, hopened, hlocked, if_true]
        rfl
      · simp only [Lease.take, hopened, hlocked]
        rfl

/-- A job heeds a cancellation if its runner does at the calls that are made with the settings. -/
theorem heeds_undertake (job : Job) :
    StorageProof.Heeds (fun d : Desk σ => d.site.tools) kept stopped (s.undertake run job) := by
  intro d hd
  by_cases hr : job.refused = true
  · exact .of_eq_error (undertake_of_refused s run hr d) hd
  rw [Bool.not_eq_true] at hr
  rw [undertake_of_not_refused s run hr]
  obtain ⟨e, hv, h⟩ | ⟨e, site, -, hl, h⟩ | ⟨lease, site, -, hl, h⟩ :=
    s.conduct_cases job.flow (s.courseOf run job) d
  · refine .of_eq_error h ?_
    have he := s.cancelledAt?_validate
    rw [hv] at he
    rw [show e.cancelledAt? = none from he]
    exact hd
  · have hacquire := cancelledAt?_acquire s.workDir d.site
    rw [hl] at hacquire
    have htools : site.tools = d.site.tools := (congrArg (fun r => Site.tools r.2) hl).symm
    refine .of_eq_error h ?_
    rw [show e.cancelledAt? = none from hacquire]
    show kept site.tools
    rwa [htools]
  · have htools : site.tools = d.site.tools := (congrArg (fun r => Site.tools r.2) hl).symm
    have hsite : kept site.tools := by rwa [htools]
    have hheeds : Course.Heeds kept stopped (s.courseOf run job lease) :=
      (Course.closed_heeds s hrun).courseOf job (fun _ _ => trivial) fun _ => trivial
    obtain ⟨a, st, hcourse, hst⟩ | ⟨e, st, hcourse, hst⟩ := (hheeds (site, [.init]) hsite).cases
    · rw [hcourse] at h
      exact .of_eq_ok h hst
    · rw [hcourse] at h
      exact .of_eq_error h hst

end Settings

end Jobs

theorem eq_error_of_cancelledAt? {r : Except Failure α} {stage : String}
    (h : cancelledAt? r = some stage) : r = .error (.cancelled stage) := by
  rcases r with e | a
  · exact congrArg Except.error (Failure.eq_of_cancelledAt? h)
  · cases h

/-- What the calls of a job have to do with its plan and its result, and what is true of the tools
with them if the observed runner heeds a cancellation. -/
theorem Settings.exists_log_undertake (s : Settings) {run : Runner σ}
    {kept : σ × List Exchange → Prop} {stopped : String → σ × List Exchange → Prop}
    (hrun : ∀ {call : Call}, s.Calls call → Action.Heeds kept stopped (run.observed call))
    (job : Job) {d : Desk σ} (hd : kept (d.site.tools, [])) :
    ∃ log, Follows job.plan log ∧
      (job.transacts = true → ((s.undertake run job d).1.isOk ↔ Completes job.plan log)) ∧
      match cancelledAt? (s.undertake run job d).1 with
      | some stage => stopped stage ((s.undertake run job d).2.site.tools, log)
      | none => kept ((s.undertake run job d).2.site.tools, log) := by
  have hends := s.heeds_undertake hrun job (d.watched []) hd
  obtain ⟨hfollows, hok⟩ := s.follows_undertake run job (d := d.watched []) rfl
  obtain ⟨log, hwatched⟩ := s.undertake_watched run job d []
  rw [hwatched] at hfollows hok
  unfold Ends at hends
  rw [hwatched] at hends
  refine ⟨log, hfollows, hok, ?_⟩
  rcases hu : s.undertake run job d with ⟨e | product, d'⟩
  · rw [hu] at hends
    exact hends
  · rw [hu] at hends
    exact hends

/-! ## Runners of processes -/

structure Attempt where
  held : Held
  call : Call
  turn : Turn held call

/-- What goes on around a runner of processes, the token that it looks at, and the calls that it has
made, oldest first. -/
structure Watchman (ω : Type) where
  world : ω
  held : Held
  log : List Attempt := []

variable {ω : Type}

/-- Whatever determines the turn of a call, and what is done to the files. -/
def Behaviour (ω : Type) : Type :=
  (held : Held) → (call : Call) → FileSystem → ω → Turn held call × FileSystem × ω

/-- Answers a call by whatever its turn comes to. -/
def Runner.watching (behaviour : Behaviour ω) : Runner (Watchman ω) := fun call s =>
  let (turn, files, world) := behaviour s.tools.held call s.files s.tools.world
  (turn.result, ⟨files, ⟨world, turn.after, s.tools.log ++ [⟨s.tools.held, call, turn⟩]⟩⟩)

namespace Attempt

def SawTripped (a : Attempt) : Prop := a.turn.SawTripped

/-- Whether the token or one of its copies is cancelled during a call. -/
def IsCancelled (a : Attempt) : Prop := a.held.CancelledAmid a.turn.events

/-- Whether the token or one of its copies is cancelled during a call and, if this is a transaction,
before anything is started for it. -/
def IsCancelledInTime (a : Attempt) : Prop :=
  a.held.CancelledAmid (if a.call.stage.mutatesLedger then a.turn.onEntry else a.turn.events)

instance (a : Attempt) : Decidable a.IsCancelledInTime :=
  Held.CancelledAmid.decidable a.held _

end Attempt

namespace Watchman

/-- Once the token or a copy has been cancelled, every later call finds it so, and it still is. -/
structure Remembers (start : Held) (w : Watchman ω) : Prop where
  now : (start.isCancelled = true ∨ ∃ a ∈ w.log, a.IsCancelled) → w.held.isCancelled = true
  found : ∀ earlier a later, w.log = earlier ++ a :: later →
    (start.isCancelled = true ∨ ∃ b ∈ earlier, b.IsCancelled) → a.held.isCancelled = true

variable {start : Held} {w : Watchman ω} {call : Call}

theorem remembers_start (h : w.log = []) : w.Remembers w.held where
  now := by
    rintro (hstart | ⟨a, ha, -⟩)
    · exact hstart
    · rw [h] at ha
      cases ha
  found := by
    intro earlier a later hlog
    rw [h] at hlog
    simp at hlog

theorem Remembers.concat (h : w.Remembers start) (turn : Turn w.held call) (world : ω) :
    (⟨world, turn.after, w.log ++ [⟨w.held, call, turn⟩]⟩ : Watchman ω).Remembers start where
  now := by
    rintro (hstart | ⟨a, ha, hcancelled⟩)
    · exact Held.isCancelled_after (.inl (h.now (.inl hstart)))
    · rcases List.mem_append.mp ha with ha | ha
      · exact Held.isCancelled_after (.inl (h.now (.inr ⟨a, ha, hcancelled⟩)))
      · rw [List.mem_singleton.mp ha] at hcancelled
        exact Held.isCancelled_after (.inr hcancelled)
  found := by
    intro earlier a later hlog hearlier
    rcases List.eq_nil_or_concat later with rfl | ⟨later, last, rfl⟩
    · obtain ⟨hsame, hlast⟩ := List.append_inj' hlog rfl
      cases hlast
      rw [← hsame] at hearlier
      exact h.now hearlier
    · rw [List.concat_eq_append, ← List.cons_append, ← List.append_assoc] at hlog
      obtain ⟨hsame, -⟩ := List.append_inj' hlog rfl
      exact h.found earlier a later hsame hearlier

/-- The calls of a watchman are those of the log beside it. -/
structure Tracks (start : Held) (t : Watchman ω × List Exchange) : Prop where
  remembers : t.1.Remembers start
  calls : t.1.log.map Attempt.call = t.2.map Exchange.call

/-- No call has seen the token tripped. -/
def Unaware (start : Held) (t : Watchman ω × List Exchange) : Prop :=
  Tracks start t ∧ ∀ a ∈ t.1.log, ¬ a.SawTripped

/-- The last call, and no other, has seen the token tripped. -/
def Aware (start : Held) (stage : String) (t : Watchman ω × List Exchange) : Prop :=
  Tracks start t ∧ ∃ earlier a, t.1.log = earlier ++ [a] ∧ (∀ b ∈ earlier, ¬ b.SawTripped) ∧
    a.SawTripped ∧ stage = a.call.stage.name

end Watchman

/-- No call but the last one is a transaction. -/
theorem Follows.dropLast_attempts {plan : List Purpose} {trace : List Exchange}
    {attempts : List Attempt} (h : Follows plan trace)
    (hplan : ∀ x ∈ plan.dropLast, x.stage.mutatesLedger = false)
    (hcalls : attempts.map Attempt.call = trace.map Exchange.call) :
    ∀ a ∈ attempts.dropLast, a.call.stage.mutatesLedger = false := by
  intro a ha
  have hmem : a.call ∈ trace.dropLast.map Exchange.call := by
    rw [List.map_dropLast, ← hcalls, ← List.map_dropLast]
    exact List.mem_map_of_mem ha
  obtain ⟨e, he, hcall⟩ := List.mem_map.mp hmem
  rw [← hcall]
  exact h.dropLast_stage hplan e he

theorem Turn.not_sawTripped_iff {held : Held} {call : Call} {t : Turn held call} :
    ¬ t.SawTripped ↔ cancelledAt? t.result = none := by
  constructor
  · intro hunseen
    rcases hresult : t.result with e | output
    · rcases hat : e.cancelledAt? with _ | stage
      · exact hat
      · rw [Failure.eq_of_cancelledAt? hat] at hresult
        exact absurd (t.sawTripped_of_result hresult).1 hunseen
    · rfl
  · intro hresult hsaw
    rw [t.sawTripped_iff.mp hsaw] at hresult
    cases hresult

/-- What a call under observation adds to either log. -/
theorem Runner.observed_watching (behaviour : Behaviour ω) (call : Call) (fs : FileSystem)
    (w : Watchman ω) (log : List Exchange) :
    ∃ (turn : Turn w.held call) (files : FileSystem) (world : ω),
      (Runner.watching behaviour).observed call ⟨fs, w, log⟩ =
        (turn.result, ⟨files, ⟨world, turn.after, w.log ++ [⟨w.held, call, turn⟩]⟩,
          log ++ [⟨call, fs, turn.result, files⟩]⟩) := by
  rcases hturn : behaviour w.held call fs w.world with ⟨turn, files, world⟩
  exact ⟨turn, files, world, by simp only [Runner.observed, Runner.watching, hturn]⟩

/-- A call under observation is cancelled exactly if it has seen the token tripped. -/
theorem Runner.heeds_watching (behaviour : Behaviour ω) (start : Held) (call : Call) :
    Action.Heeds (Watchman.Unaware start) (Watchman.Aware start)
      ((Runner.watching behaviour).observed call) := by
  rintro ⟨fs, w, log⟩ ⟨htracks, hunseen⟩
  obtain ⟨turn, files, world, hcall⟩ := Runner.observed_watching behaviour call fs w log
  have htracks' : Watchman.Tracks start
      ((⟨world, turn.after, w.log ++ [⟨w.held, call, turn⟩]⟩ : Watchman ω),
        log ++ [⟨call, fs, turn.result, files⟩]) :=
    ⟨htracks.remembers.concat turn world, by simp [htracks.calls]⟩
  have hunaware (h : cancelledAt? turn.result = none) : ∀ a ∈ w.log ++ [⟨w.held, call, turn⟩],
      ¬ a.SawTripped := by
    intro a ha
    rcases List.mem_append.mp ha with ha | ha
    · exact hunseen a ha
    · rw [List.mem_singleton.mp ha]
      exact Turn.not_sawTripped_iff.mpr h
  rcases hresult : turn.result with e | output
  · rw [hresult] at hcall htracks' hunaware
    refine .of_eq_error hcall ?_
    rcases hat : e.cancelledAt? with _ | stage
    · exact ⟨htracks', hunaware hat⟩
    · rw [Failure.eq_of_cancelledAt? hat] at hresult
      obtain ⟨hsaw, hstage⟩ := turn.sawTripped_of_result hresult
      exact ⟨htracks', w.log, _, rfl, hunseen, hsaw, hstage⟩
  · rw [hresult] at hcall htracks' hunaware
    exact .of_eq_ok hcall ⟨htracks', hunaware rfl⟩

/-! ## Jobs -/

namespace Settings

/-- The calls of a job with their turns, oldest first. -/
def attemptsOf (s : Settings) (behaviour : Behaviour ω) (job : Job) (d : Desk (Watchman ω)) :
    List Attempt := (s.undertake (Runner.watching behaviour) job d).2.site.tools.log

/-- The token or a copy has been cancelled before it was the transaction's turn, if it ever was. -/
def CancelledInTime (s : Settings) (behaviour : Behaviour ω) (job : Job) (d : Desk (Watchman ω)) :
    Prop :=
  d.site.tools.held.isCancelled = true ∨
    (∃ a ∈ s.attemptsOf behaviour job d, a.IsCancelledInTime) ∨
    ∀ a ∈ s.attemptsOf behaviour job d, a.call.stage.mutatesLedger = false

variable {s : Settings} {behaviour : Behaviour ω} {job : Job} {d : Desk (Watchman ω)}

/-- A transaction comes last, and finds the token tripped if it has been cancelled in time. -/
theorem CancelledInTime.neverStarted {earlier : List Attempt} {a : Attempt}
    (hcancelled : s.CancelledInTime behaviour job d)
    (hremembers : (s.undertake (Runner.watching behaviour) job d).2.site.tools.Remembers
      d.site.tools.held)
    (hlog : s.attemptsOf behaviour job d = earlier ++ [a])
    (hearlier : ∀ b ∈ earlier, b.call.stage.mutatesLedger = false)
    (ha : a.call.stage.mutatesLedger = true) : a.SawTripped ∧ a.turn.fate = .neverStarted := by
  have hfound (h : d.site.tools.held.isCancelled = true ∨ ∃ b ∈ earlier, b.IsCancelled) :
      a.held.isCancelled = true := hremembers.found earlier a [] hlog h
  refine a.turn.neverStarted_of_onEntry ?_
  rcases hcancelled with hstart | ⟨b, hb, htime⟩ | hnone
  · exact .inl (hfound (.inl hstart))
  · rw [hlog] at hb
    rcases List.mem_append.mp hb with hb | hb
    · rw [Attempt.IsCancelledInTime, hearlier b hb] at htime
      exact .inl (hfound (.inr ⟨b, hb, htime⟩))
    · rw [List.mem_singleton.mp hb, Attempt.IsCancelledInTime, if_pos ha] at htime
      exact .inr htime
  · have hno := hnone a (by simp [hlog])
    rw [ha] at hno
    cases hno

/-- The calls of a job at a desk without calls, and what they have to do with its plan and its
result. -/
theorem attemptsOf_cases (s : Settings) (behaviour : Behaviour ω) (job : Job)
    {d : Desk (Watchman ω)} (hd : d.site.tools.log = []) :
    ∃ log, Follows job.plan log ∧
      (job.transacts = true → ((s.undertake (Runner.watching behaviour) job d).1.isOk ↔
        Completes job.plan log)) ∧
      Watchman.Tracks d.site.tools.held
        ((s.undertake (Runner.watching behaviour) job d).2.site.tools, log) ∧
      ((∀ a ∈ s.attemptsOf behaviour job d, ¬ a.SawTripped) ∧
          cancelledAt? (s.undertake (Runner.watching behaviour) job d).1 = none ∨
        ∃ earlier a, s.attemptsOf behaviour job d = earlier ++ [a] ∧
          (∀ b ∈ earlier, ¬ b.SawTripped) ∧ a.SawTripped ∧
          (s.undertake (Runner.watching behaviour) job d).1 =
            .error (.cancelled a.call.stage.name)) := by
  have hstart : Watchman.Unaware d.site.tools.held (d.site.tools, []) := by
    refine ⟨⟨Watchman.remembers_start hd, congrArg (List.map Attempt.call) hd⟩, fun a ha => ?_⟩
    rw [hd] at ha
    cases ha
  obtain ⟨log, hfollows, hok, hheeded⟩ := s.exists_log_undertake
    (fun {call} _ => Runner.heeds_watching behaviour d.site.tools.held call) job hstart
  rcases hat : cancelledAt? (s.undertake (Runner.watching behaviour) job d).1 with _ | stage
  · rw [hat] at hheeded
    obtain ⟨htracks, hunseen⟩ := hheeded
    exact ⟨log, hfollows, hok, htracks, .inl ⟨hunseen, rfl⟩⟩
  · rw [hat] at hheeded
    obtain ⟨htracks, earlier, a, hlog, hearlier, hsaw, rfl⟩ := hheeded
    exact ⟨log, hfollows, hok, htracks,
      .inr ⟨earlier, a, hlog, hearlier, hsaw, eq_error_of_cancelledAt? hat⟩⟩

/-- Cancellation lets no transaction start, whatever happens around the calls of a job and in
whatever order. If the token, or any copy of it, is cancelled before it is the transaction's turn,
no process is started for the transaction, and the job fails. It fails as cancelled at the stage of
the call that has seen the token tripped, which is the last call and the only one, or if none has,
it fails otherwise. No call keeps it waiting: any comes to its end with the fourth look after the
cancellation. -/
theorem transaction_neverStarted (s : Settings) (behaviour : Behaviour ω) {job : Job}
    {d : Desk (Watchman ω)} (htransacts : job.transacts = true) (hd : d.site.tools.log = [])
    (hcancelled : s.CancelledInTime behaviour job d) :
    (∀ a ∈ s.attemptsOf behaviour job d, a.call.stage.mutatesLedger = true →
      a.turn.fate = .neverStarted) ∧
    (∃ e, (s.undertake (Runner.watching behaviour) job d).1 = .error e ∧
      ((∃ earlier a, s.attemptsOf behaviour job d = earlier ++ [a] ∧
          (∀ b ∈ earlier, ¬ b.SawTripped) ∧ a.SawTripped ∧ e = .cancelled a.call.stage.name) ∨
        (∀ a ∈ s.attemptsOf behaviour job d, ¬ a.SawTripped) ∧ ∀ stage, e ≠ .cancelled stage)) ∧
    ∀ (held : Held) (call : Call) (events rest : List Event),
      held.isCancelled = true ∨ held.CancelledAmid events → 4 ≤ rest.count (.scene .looks) →
        ∃ turn : Turn held call, turn.events = events ++ rest := by
  obtain ⟨log, hfollows, hok, htracks, hends⟩ := s.attemptsOf_cases behaviour job hd
  have hcalls : (s.attemptsOf behaviour job d).map Attempt.call = log.map Exchange.call :=
    htracks.calls
  -- whatever is a transaction is the last call, and finds the token tripped
  have htransaction {a : Attempt} (ha : a ∈ s.attemptsOf behaviour job d)
      (hm : a.call.stage.mutatesLedger = true) : a.SawTripped ∧ a.turn.fate = .neverStarted := by
    have hne : s.attemptsOf behaviour job d ≠ [] := List.ne_nil_of_mem ha
    have hearlier := hfollows.dropLast_attempts job.plan_dropLast hcalls
    have hlast : a = (s.attemptsOf behaviour job d).getLast hne := by
      rw [← List.dropLast_concat_getLast hne] at ha
      rcases List.mem_append.mp ha with h | h
      · have hno := hearlier a h
        rw [hm] at hno
        cases hno
      · exact List.mem_singleton.mp h
    have hlog : s.attemptsOf behaviour job d = (s.attemptsOf behaviour job d).dropLast ++ [a] := by
      rw [hlast]
      exact (List.dropLast_concat_getLast hne).symm
    exact hcancelled.neverStarted htracks.remembers hlog hearlier hm
  refine ⟨fun a ha hm => (htransaction ha hm).2, ?_, fun _ call _ _ => Turn.exists_events_eq call⟩
  obtain ⟨hunseen, hresult⟩ | ⟨earlier, a, hlog, hearlier, hsaw, hresult⟩ := hends
  · rcases hu : (s.undertake (Runner.watching behaviour) job d).1 with e | product
    · rw [hu] at hresult
      refine ⟨e, rfl, .inr ⟨hunseen, fun stage he => ?_⟩⟩
      rw [he] at hresult
      cases hresult
    · -- a job that succeeds has made its transaction, which would have seen the token tripped
      have hcompletes := (hok htransacts).mp (by rw [hu]; rfl)
      obtain ⟨e, he, hm, -⟩ :=
        (hfollows.completes_iff job.plan_dropLast (Job.plan_getLast? htransacts)).mp hcompletes
      have hmem : e.call ∈ (s.attemptsOf behaviour job d).map Attempt.call := by
        rw [hcalls]
        exact List.mem_map_of_mem he
      obtain ⟨a, ha, hcall⟩ := List.mem_map.mp hmem
      exact absurd (htransaction ha (hcall ▸ hm)).1 (hunseen a ha)
  · exact ⟨_, hresult, .inl ⟨earlier, a, hlog, hearlier, hsaw, rfl⟩⟩

namespace Specimen

/-- What happens in one call after another, with files written where they are declared. -/
def scripted : Behaviour (List (List Event)) := fun held call fs script =>
  let turn := match h : (held.watch (script.headD [])).found.run call with
    | some (_, _) => .ofRun h
    | none => .refused held call .notFound
  let files := match call.declared with
    | .file p => ((fs.write p [1]).toOption).getD fs
    | _ => fs
  (turn, files, script.tail)

/-- A call that succeeds, and what happens to the tokens once its child has ended. -/
def succeeding (tokens : List TokenPool.Step) : List Event :=
  [.scene .looks, .scene (.writes .stdout [65]), .scene (.closes .stdout), .scene (.closes .stderr),
    .scene (.ends (.code 0))] ++ tokens.map .token ++
    [.scene .looks, .scene .looks, .scene .looks]

/-- A token is copied while frames are sampled, and the copy is cancelled when the challenge has
just been made. -/
def unnoticed : Desk (Watchman (List (List Event))) where
  site := ⟨FileSystem.empty, ⟨[succeeding [.copy 0], succeeding [], succeeding [.cancel 1],
    [.scene .looks]], .fresh .empty, []⟩⟩

def interrupted : Desk (Watchman (List (List Event))) where
  site := ⟨FileSystem.empty.put ["srv", "jobs", "crs.dat"] (.file [1] false none),
    ⟨[[.scene .looks, .scene .looks, .token (.cancel 0), .scene .looks]], .fresh .empty, []⟩⟩

end Specimen

open Specimen in
/-- A cancellation that the challenge has not noticed is noticed by the transaction, and one that a
question has noticed is what comes of the job. -/
theorem transaction_neverStarted_unnoticed :
    settings.CancelledInTime scripted (.publish "in.ts" "out.ts") unnoticed ∧
      (settings.attemptsOf scripted (.publish "in.ts" "out.ts") unnoticed).map (·.call.stage) =
        [.extractFrames, .perceptualHash, .challenge, .ledgerCreate] ∧
      (∀ a ∈ settings.attemptsOf scripted (.publish "in.ts" "out.ts") unnoticed,
        a.call.stage.mutatesLedger = true → a.turn.fate = .neverStarted) ∧
      cancelledAt? (settings.undertake (Runner.watching scripted) (.publish "in.ts" "out.ts")
        unnoticed).1 = some "ledger-create" ∧
      settings.CancelledInTime scripted (.mine name) interrupted ∧
      (settings.undertake (Runner.watching scripted) (.mine name) interrupted).1 =
        .error (.cancelled "ledger-query") := by
  have hcopy : settings.CancelledInTime scripted (.publish "in.ts" "out.ts") unnoticed :=
    .inr (.inl (by decide +kernel))
  have hquestion : settings.CancelledInTime scripted (.mine name) interrupted :=
    .inr (.inl (by decide +kernel))
  have hstage : cancelledAt? (settings.undertake (Runner.watching scripted) (.mine name)
      interrupted).1 = some "ledger-query" := by decide +kernel
  obtain ⟨hnever, -⟩ := settings.transaction_neverStarted scripted rfl rfl hcopy
  obtain ⟨-, ⟨e, he, -⟩, -⟩ := settings.transaction_neverStarted scripted rfl rfl hquestion
  refine ⟨hcopy, by decide +kernel, hnever, by decide +kernel, hquestion, ?_⟩
  rw [he] at hstage ⊢
  rw [Failure.eq_of_cancelledAt? hstage]

end Settings

end StorageProof
