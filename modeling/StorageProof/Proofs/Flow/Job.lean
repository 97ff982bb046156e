import StorageProof.Flow.Course
import StorageProof.Proofs.Call.Observation

/-!
# Jobs

A job is one call of a flow with its arguments. Undertaking it comes to nothing if the flow is
refused, the settings are not valid or the lease is not to be had, and otherwise to the course of
the flow. Under observation it has the same result and leaves the same desk.
-/

namespace StorageProof

variable {σ α : Type}

/-! ## Courses under observation -/

namespace Course

def log (st : Site (σ × List Exchange) × List RunState) : List Exchange := st.1.log

/-- A course with a log beside the tools. -/
def watched (st : Site σ × List RunState) (log : List Exchange) :
    Site (σ × List Exchange) × List RunState := (st.1.watched log, st.2)

/-- With a log beside the tools, the first course does what the second one does without. -/
abbrev Mirrors (m : Course (σ × List Exchange) α) (n : Course σ α) : Prop :=
  StorageProof.Mirrors watched m n

theorem enter_log (next : RunState) (st : Site (σ × List Exchange) × List RunState) :
    log (enter next st).2 = log st := rfl

theorem act_log {a : Action (σ × List Exchange) α} (h : ∀ s, (a s).2.tools = s.tools)
    (st : Site (σ × List Exchange) × List RunState) : log (act a st).2 = log st :=
  congrArg Prod.snd (h st.1)

theorem decides_act {p : List Purpose} {a : Action (σ × List Exchange) α}
    (h : Decides Site.log p a) :
    Decides log p (act a) := fun st => h st.1

theorem mirrors_enter (next : RunState) : Mirrors (σ := σ) (enter next) (enter next) :=
  fun _ log => ⟨log, rfl⟩

theorem mirrors_act {m : Action (σ × List Exchange) α} {n : Action σ α} (h : Action.Mirrors m n) :
    Mirrors (act m) (act n) := by
  intro st log
  obtain ⟨log', h⟩ := h st.1 log
  rcases hn : n st.1 with ⟨r, s'⟩
  rw [hn] at h
  exact ⟨log', by simp only [act, watched, h, hn]⟩

end Course

/-! ## Actions of the flows that make no calls -/

theorem writeBytes_tools (p : Path) (bytes : Bytes) (s : Site σ) :
    (writeBytes p bytes s).2.tools = s.tools := by
  unfold writeBytes
  have hw := Action.working_tools s!"creating parent directory {p.text}" (·.makeParent p) s
  rcases h : Action.working s!"creating parent directory {p.text}" (·.makeParent p) s with
    ⟨e | u, s'⟩
  · rw [h] at hw
    rw [bind_of_error h, hw]
  · rw [h] at hw
    rw [bind_of_ok h, Action.changing_tools, hw]

namespace Settings

theorem requireParameters_site (s : Settings) (site : Site σ) :
    (s.requireParameters site).2 = site := by
  unfold requireParameters
  split <;> rfl

theorem makeParameterDirectory_tools (s : Settings) (site : Site σ) :
    (s.makeParameterDirectory site).2.tools = site.tools := by
  rcases h : s.parameters.parent? with _ | parent
  · simp only [makeParameterDirectory, h]
    rfl
  · simp only [makeParameterDirectory, h]
    exact Action.working_tools _ _ site

/-- A setup that may keep the parameters which it finds does nothing. -/
theorem setupCourse_of_kept (s : Settings) (run : Runner σ) {force : Bool} (lease : Lease)
    {st : Site σ × List RunState}
    (h : (!force && st.1.files.isNonEmptyFile s.parameters) = true) :
    s.setupCourse run force lease st = (.ok false, st) := by
  unfold setupCourse
  rw [bind_of_ok (show Course.act Action.files st = (.ok st.1.files, st) from rfl), if_pos h]
  rfl

/-- Any other setup makes them. -/
theorem setupCourse_of_not_kept (s : Settings) (run : Runner σ) {force : Bool} (lease : Lease)
    {st : Site σ × List RunState}
    (h : ¬ (!force && st.1.files.isNonEmptyFile s.parameters) = true) :
    s.setupCourse run force lease st = (do
      Course.enter .proving
      Course.act s.makeParameterDirectory
      let _ ← Course.act ((s.setupParameters s.parameters).perform run)
      return true : Course σ Bool) st := by
  unfold setupCourse
  rw [bind_of_ok (show Course.act Action.files st = (.ok st.1.files, st) from rfl), if_neg h]

theorem mirrors_requireParameters (s : Settings) :
    Action.Mirrors (σ := σ) s.requireParameters s.requireParameters := by
  intro site log
  refine ⟨log, ?_⟩
  by_cases h : site.files.isNonEmptyFile s.parameters <;> simp [requireParameters, Site.watched, h]

theorem mirrors_makeParameterDirectory (s : Settings) :
    Action.Mirrors (σ := σ) s.makeParameterDirectory s.makeParameterDirectory := by
  unfold makeParameterDirectory
  split
  · exact Action.mirrors_working _ _
  · exact .pure ()

end Settings

theorem ProofBlob.readFrom_site (p : Path) (s : Site σ) : (ProofBlob.readFrom p s).2 = s := by
  unfold ProofBlob.readFrom
  split <;> rfl

/-! ## Jobs -/

inductive Job
  | publish (source target : String)
  | mine (id : Identifier)
  | verify (id : Identifier)
  | setup (force : Bool)
  deriving DecidableEq

namespace Job

/-- What a job hands back beside the report. -/
def Product : Job → Type
  | publish .. => Agreement
  | mine _ => ProofBlob
  | verify _ => Settings.Audit
  | setup _ => Bool

def flow : Job → Flow
  | publish .. => .publish
  | mine _ => .mine
  | verify _ => .verify
  | setup _ => .setup

def transacts : Job → Bool
  | publish .. | mine _ => true
  | verify _ | setup _ => false

def needsParameters : Job → Bool
  | mine _ | verify _ => true
  | publish .. | setup _ => false

end Job

/-- A job without locators is refused before anything is looked at. -/
def Job.refused : Job → Bool
  | .publish source target => Text.isAllBlank source || Text.isAllBlank target
  | _ => false

namespace Settings

def courseOf (s : Settings) (run : Runner σ) : (job : Job) → Lease → Course σ job.Product
  | .publish source target => s.publishCourse run source target
  | .mine id => s.mineCourse run id
  | .verify id => s.verifyCourse run id
  | .setup force => s.setupCourse run force

def undertake (s : Settings) (run : Runner σ) :
    (job : Job) → Desk σ → Except Failure (job.Product × Report) × Desk σ
  | .publish source target => s.publish run source target
  | .mine id => s.mine run id
  | .verify id => s.verify run id
  | .setup force => s.setup run force

theorem undertake_of_not_refused (s : Settings) (run : Runner σ) {job : Job}
    (h : job.refused = false) :
    s.undertake run job = s.conduct job.flow (s.courseOf run job) := by
  cases job with
  | publish source target =>
    funext d
    have hblank : (Text.isAllBlank source || Text.isAllBlank target) = false := h
    exact if_neg (by simp [hblank])
  | mine id => rfl
  | verify id => rfl
  | setup force => rfl

theorem undertake_of_refused (s : Settings) (run : Runner σ) {job : Job} (h : job.refused = true)
    (d : Desk σ) :
    s.undertake run job d =
      (.error (.config "publish needs an input and an output locator"), d) := by
  cases job with
  | publish source target => exact if_pos h
  | mine id => cases h
  | verify id => cases h
  | setup force => cases h

/-- How a run can go: the settings are not valid, the lease is not to be had, or the course is
followed. -/
theorem conduct_cases (s : Settings) (flow : Flow) (course : Lease → Course σ α) (d : Desk σ) :
    (∃ e, s.validate = .error e ∧ s.conduct flow course d = (.error e, d)) ∨
    (∃ e site, s.validate = .ok () ∧ Lease.acquire s.workDir d.site = (.error e, site) ∧
      s.conduct flow course d = (.error e, { d with site })) ∨
    ∃ lease site, s.validate = .ok () ∧ Lease.acquire s.workDir d.site = (.ok lease, site) ∧
      s.conduct flow course d =
        ((concluded flow (course lease (site, [.init])).2.2 (course lease (site, [.init])).1).1,
          ⟨lease.release (course lease (site, [.init])).2.1,
            some (concluded flow (course lease (site, [.init])).2.2
              (course lease (site, [.init])).1).2⟩) := by
  unfold conduct
  rcases hv : s.validate with e | _
  · exact .inl ⟨e, rfl, rfl⟩
  · rcases hl : Lease.acquire s.workDir d.site with ⟨e | lease, site⟩
    · exact .inr (.inl ⟨e, site, rfl, rfl, rfl⟩)
    · exact .inr (.inr ⟨lease, site, rfl, rfl, rfl⟩)

/-- How a job can go: it is turned away and leaves the tools alone, or its course is followed. -/
theorem undertake_cases (s : Settings) (run : Runner σ) (job : Job) (d : Desk σ) :
    (∃ e d', s.undertake run job d = (.error e, d') ∧ d'.site.tools = d.site.tools) ∨
    ∃ lease site, Lease.acquire s.workDir d.site = (.ok lease, site) ∧
      site.tools = d.site.tools ∧
      s.undertake run job d =
        ((concluded job.flow (s.courseOf run job lease (site, [.init])).2.2
            (s.courseOf run job lease (site, [.init])).1).1,
          ⟨lease.release (s.courseOf run job lease (site, [.init])).2.1,
            some (concluded job.flow (s.courseOf run job lease (site, [.init])).2.2
              (s.courseOf run job lease (site, [.init])).1).2⟩) := by
  by_cases hr : job.refused = true
  · exact .inl ⟨_, d, undertake_of_refused _ _ hr d, rfl⟩
  · rw [Bool.not_eq_true] at hr
    rw [undertake_of_not_refused _ _ hr]
    obtain ⟨e, -, h⟩ | ⟨e, site, -, hl, h⟩ | ⟨lease, site, -, hl, h⟩ :=
      s.conduct_cases job.flow (s.courseOf run job) d
    · exact .inl ⟨e, d, h, rfl⟩
    · exact .inl ⟨e, _, h, (congrArg (fun r => Site.tools r.2) hl).symm⟩
    · exact .inr ⟨lease, site, hl, (congrArg (fun r => Site.tools r.2) hl).symm, h⟩

end Settings

theorem isOk_concluded (flow : Flow) (history : List RunState) (r : Except Failure α) :
    (concluded flow history r).1.isOk = r.isOk := by
  cases r <;> rfl

/-! ## Jobs under observation -/

/-- A desk with a log of calls beside the tools. -/
def Desk.watched (d : Desk σ) (log : List Exchange) : Desk (σ × List Exchange) :=
  ⟨d.site.watched log, d.last⟩

namespace Settings

theorem mirrors_sampleAndHash (s : Settings) (run : Runner σ) (lease : Lease) (source : String) :
    Course.Mirrors (s.sampleAndHash run.observed lease source)
      (s.sampleAndHash run lease source) := by
  refine (Course.mirrors_enter _).bind fun _ => ?_
  refine (Course.mirrors_act (Call.mirrors_perform run _)).bind fun _ => ?_
  refine (Course.mirrors_enter _).bind fun _ => ?_
  exact (Course.mirrors_act (Call.mirrors_perform run _)).bind fun _ => .pure ()

theorem mirrors_publishCourse (s : Settings) (run : Runner σ) (source target : String)
    (lease : Lease) :
    Course.Mirrors (s.publishCourse run.observed source target lease)
      (s.publishCourse run source target lease) := by
  refine (s.mirrors_sampleAndHash run lease source).bind fun _ => ?_
  refine (Course.mirrors_enter _).bind fun _ => ?_
  refine (Course.mirrors_act (Call.mirrors_perform run _)).bind fun output => ?_
  refine (Course.mirrors_act (mirrors_writeBytes _ _)).bind fun _ => ?_
  refine (Course.mirrors_enter _).bind fun _ => ?_
  exact (Course.mirrors_act (s.account.mirrors_create run _ _ _)).bind fun _ => .pure _

theorem mirrors_mineCourse (s : Settings) (run : Runner σ) (id : Identifier) (lease : Lease) :
    Course.Mirrors (s.mineCourse run.observed id lease) (s.mineCourse run id lease) := by
  refine (Course.mirrors_act s.mirrors_requireParameters).bind fun parameters => ?_
  refine (Course.mirrors_enter _).bind fun _ => ?_
  refine (Course.mirrors_act (s.account.mirrors_agreement run id)).bind fun agreement => ?_
  refine (s.mirrors_sampleAndHash run lease agreement.locator).bind fun _ => ?_
  refine (Course.mirrors_enter _).bind fun _ => ?_
  refine (Course.mirrors_act (Call.mirrors_perform run _)).bind fun _ => ?_
  refine (Course.mirrors_act (ProofBlob.mirrors_readFrom _)).bind fun proof => ?_
  refine (Course.mirrors_enter _).bind fun _ => ?_
  exact (Course.mirrors_act (s.account.mirrors_commit run id proof)).bind fun _ => .pure _

theorem mirrors_verifyCourse (s : Settings) (run : Runner σ) (id : Identifier) (lease : Lease) :
    Course.Mirrors (s.verifyCourse run.observed id lease) (s.verifyCourse run id lease) := by
  refine (Course.mirrors_act s.mirrors_requireParameters).bind fun parameters => ?_
  refine (Course.mirrors_enter _).bind fun _ => ?_
  refine (Course.mirrors_act (s.account.mirrors_agreement run id)).bind fun agreement => ?_
  refine (Course.mirrors_act (Action.mirrors_ofExcept _)).bind fun input => ?_
  refine (Course.mirrors_act (s.account.mirrors_proof run id)).bind fun proof => ?_
  refine (Course.mirrors_act (mirrors_writeBytes _ _)).bind fun _ => ?_
  refine (Course.mirrors_act (mirrors_writeBytes _ _)).bind fun _ => ?_
  refine (Course.mirrors_enter _).bind fun _ => ?_
  refine (Course.mirrors_act (Call.mirrors_perform run _)).bind fun output => ?_
  cases Verdict.ofOutput? output.text with
  | some accepted => exact .pure _
  | none => exact Course.mirrors_act fun _ log => ⟨log, rfl⟩

theorem mirrors_setupCourse (s : Settings) (run : Runner σ) (force : Bool) (lease : Lease) :
    Course.Mirrors (s.setupCourse run.observed force lease) (s.setupCourse run force lease) := by
  refine (Course.mirrors_act Action.mirrors_files).bind fun fs => ?_
  by_cases h : !force && fs.isNonEmptyFile s.parameters
  · rw [if_pos h, if_pos h]
    exact .pure false
  · rw [if_neg h, if_neg h]
    refine (Course.mirrors_enter _).bind fun _ => ?_
    refine (Course.mirrors_act s.mirrors_makeParameterDirectory).bind fun _ => ?_
    exact (Course.mirrors_act (Call.mirrors_perform run _)).bind fun _ => .pure true

theorem mirrors_courseOf (s : Settings) (run : Runner σ) (job : Job) (lease : Lease) :
    Course.Mirrors (s.courseOf run.observed job lease) (s.courseOf run job lease) := by
  cases job with
  | publish source target => exact s.mirrors_publishCourse run source target lease
  | mine id => exact s.mirrors_mineCourse run id lease
  | verify id => exact s.mirrors_verifyCourse run id lease
  | setup force => exact s.mirrors_setupCourse run force lease

theorem acquire_watched (root : Path) (site : Site σ) (log : List Exchange) :
    Lease.acquire root (site.watched log) =
      ((Lease.acquire root site).1, (Lease.acquire root site).2.watched log) := by
  rcases h : Lease.acquireIn root site.files with ⟨r, fs⟩
  simp only [Lease.acquire, Site.watched, h]

theorem conduct_watched (s : Settings) (flow : Flow) {course : Lease → Course (σ × List Exchange) α}
    {course' : Lease → Course σ α} (h : ∀ lease, Course.Mirrors (course lease) (course' lease))
    (d : Desk σ) (log : List Exchange) :
    ∃ log', s.conduct flow course (d.watched log) =
      ((s.conduct flow course' d).1, (s.conduct flow course' d).2.watched log') := by
  have hacquire := acquire_watched s.workDir d.site log
  rcases hv : s.validate with e | _
  · exact ⟨log, by simp only [conduct, hv]⟩
  · rcases hl : Lease.acquire s.workDir d.site with ⟨e | lease, site⟩
    · rw [hl] at hacquire
      exact ⟨log, by simp only [conduct, hv, hl, Desk.watched, hacquire]⟩
    · rw [hl] at hacquire
      obtain ⟨log', hcourse⟩ := h lease (site, [.init]) log
      have hcourse : course lease (site.watched log, [.init]) =
        ((course' lease (site, [.init])).1,
          Course.watched (course' lease (site, [.init])).2 log') := hcourse
      refine ⟨log', ?_⟩
      simp only [conduct, hv, hl, Desk.watched, hacquire, hcourse]
      rfl

/-- Observation changes nothing in what comes of a job. -/
theorem undertake_watched (s : Settings) (run : Runner σ) (job : Job) (d : Desk σ)
    (log : List Exchange) :
    ∃ log', s.undertake run.observed job (d.watched log) =
      ((s.undertake run job d).1, (s.undertake run job d).2.watched log') := by
  by_cases hr : job.refused = true
  · exact ⟨log, by rw [undertake_of_refused _ _ hr, undertake_of_refused _ _ hr]⟩
  · rw [Bool.not_eq_true] at hr
    rw [undertake_of_not_refused _ _ hr, undertake_of_not_refused _ _ hr]
    exact s.conduct_watched job.flow (s.mirrors_courseOf run job) d log

end Settings

end StorageProof
