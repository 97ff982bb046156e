import StorageProof.Proofs.Flow.Job

/-!
# The order of stages

Every flow has one plan, and whatever the runner answers and does to the files, the calls of a run
follow it: a call is made only if all calls before it were accepted. The one transaction of a plan
comes last, so that nothing is left to be done once it has been made.
-/

namespace StorageProof

variable {σ α : Type}

/-! ## Plans of the flows -/

/-- The sampling and the hashing of frames. -/
def samplingPlan : List Purpose := [⟨.extractFrames, none⟩, ⟨.perceptualHash, none⟩]

def publishPlan : List Purpose := samplingPlan ++ [⟨.challenge, none⟩, ⟨.ledgerCreate, none⟩]

def minePlan (id : Identifier) : List Purpose :=
  ⟨.ledgerQuery, some (.agreement, id.text)⟩ :: samplingPlan ++
    [⟨.generateProof, none⟩, ⟨.ledgerCommit, none⟩]

def verifyPlan (id : Identifier) : List Purpose :=
  [⟨.ledgerQuery, some (.agreement, id.text)⟩, ⟨.ledgerQuery, some (.proof, id.text)⟩,
    ⟨.verifyProof, none⟩]

def setupPlan : List Purpose := [⟨.setupCrs, none⟩]

namespace Settings

theorem decides_sampleAndHash (s : Settings) (run : Runner σ) (lease : Lease) (source : String) :
    Decides Course.log samplingPlan (s.sampleAndHash run.observed lease source) := by
  refine .after_silent (Course.enter_log _) (fun _ => ?_) (List.cons_ne_nil _ _)
  have hframes := Call.decides_perform run (s.extractFrames source lease.frames) ⟨_, rfl⟩
  have hhashes := Call.decides_perform run (s.perceptualHash lease.frames lease.hashes) ⟨_, rfl⟩
  refine .after_call (Course.decides_act hframes) (fun _ => ?_) (List.cons_ne_nil _ _)
  refine .after_silent (Course.enter_log _) (fun _ => ?_) (List.cons_ne_nil _ _)
  exact (Course.decides_act hhashes).then_pure fun _ => ()

theorem decides_publishCourse (s : Settings) (run : Runner σ) (source target : String)
    (lease : Lease) :
    Decides Course.log publishPlan (s.publishCourse run.observed source target lease) := by
  have hchallenge := Call.decides_perform run (s.challenge lease.hashes) rfl
  refine (s.decides_sampleAndHash run lease source).keepsTo.bind_decides (fun _ => ?_)
    (List.cons_ne_nil _ _)
  refine .after_silent (Course.enter_log _) (fun _ => ?_) (List.cons_ne_nil _ _)
  refine .after_call (Course.decides_act hchallenge) (fun output => ?_)
    (List.cons_ne_nil _ _)
  refine .after_silent (Course.act_log (writeBytes_tools _ _)) (fun _ => ?_) (List.cons_ne_nil _ _)
  refine .after_silent (Course.enter_log _) (fun _ => ?_) (List.cons_ne_nil _ _)
  exact (Course.decides_act (s.account.decides_create run _ _ _)).then_pure fun _ => _

theorem decides_mineCourse (s : Settings) (run : Runner σ) (id : Identifier) (lease : Lease) :
    Decides Course.log (minePlan id) (s.mineCourse run.observed id lease) := by
  refine .after_silent
    (Course.act_log fun site => congrArg Site.tools (s.requireParameters_site site))
    (fun parameters => ?_) (List.cons_ne_nil _ _)
  refine .after_silent (Course.enter_log _) (fun _ => ?_) (List.cons_ne_nil _ _)
  refine .after_call (Course.decides_act (s.account.decides_agreement run id)) (fun agreement => ?_)
    (List.cons_ne_nil _ _)
  refine (s.decides_sampleAndHash run lease agreement.locator).keepsTo.bind_decides (fun _ => ?_)
    (List.cons_ne_nil _ _)
  have hproof := Call.decides_perform run
    (s.generateProof parameters lease.proof lease.hashes lease.witness) ⟨_, rfl⟩
  refine .after_silent (Course.enter_log _) (fun _ => ?_) (List.cons_ne_nil _ _)
  refine .after_call (Course.decides_act hproof) (fun _ => ?_) (List.cons_ne_nil _ _)
  refine .after_silent
    (Course.act_log fun site => congrArg Site.tools (ProofBlob.readFrom_site lease.proof site))
    (fun proof => ?_) (List.cons_ne_nil _ _)
  refine .after_silent (Course.enter_log _) (fun _ => ?_) (List.cons_ne_nil _ _)
  exact (Course.decides_act (s.account.decides_commit run id proof)).then_pure fun _ => proof

/-- Verifying completes its plan if it succeeds. It may still fail once the plan is completed, when
the output holds no verdict. -/
theorem keepsTo_verifyCourse (s : Settings) (run : Runner σ) (id : Identifier) (lease : Lease) :
    KeepsTo Course.log (verifyPlan id) (s.verifyCourse run.observed id lease) := by
  refine .after_silent
    (Course.act_log fun site => congrArg Site.tools (s.requireParameters_site site))
    fun parameters => ?_
  refine .after_silent (Course.enter_log _) fun _ => ?_
  refine .after_call (Course.decides_act (s.account.decides_agreement run id)).keepsTo
    fun agreement => ?_
  refine .after_silent (Course.act_log fun site => rfl) fun input => ?_
  refine .after_call (Course.decides_act (s.account.decides_proof run id)).keepsTo fun proof => ?_
  refine .after_silent (Course.act_log (writeBytes_tools _ _)) fun _ => ?_
  refine .after_silent (Course.act_log (writeBytes_tools _ _)) fun _ => ?_
  refine .after_silent (Course.enter_log _) fun _ => ?_
  have hverify := Call.decides_perform run
    (s.verifyProof parameters lease.committedProof lease.publicInputs) rfl
  refine .after_call (Course.decides_act hverify).keepsTo fun output => ?_
  cases Verdict.ofOutput? output.text with
  | some accepted => exact .of_log_eq fun _ => rfl
  | none => exact .of_log_eq fun _ => rfl

/-- The making of proving parameters makes no call where it finds some that it may keep. -/
theorem follows_setupCourse (s : Settings) (run : Runner σ) (force : Bool) (lease : Lease)
    (st : Site (σ × List Exchange) × List RunState) :
    ∃ trace, Course.log (s.setupCourse run.observed force lease st).2 = Course.log st ++ trace ∧
      Follows setupPlan trace := by
  by_cases h : (!force && st.1.files.isNonEmptyFile s.parameters) = true
  · exact ⟨[], by simp [s.setupCourse_of_kept run.observed lease h], .nil _⟩
  · have hcall := Call.decides_perform run (s.setupParameters s.parameters) ⟨_, rfl⟩
    have hmade : KeepsTo Course.log setupPlan (do
        Course.enter .proving
        Course.act s.makeParameterDirectory
        let _ ← Course.act ((s.setupParameters s.parameters).perform run.observed)
        return true) := by
      refine .after_silent (Course.enter_log _) fun _ => ?_
      refine .after_silent (Course.act_log s.makeParameterDirectory_tools) fun _ => ?_
      exact ((Course.decides_act hcall).then_pure fun _ => true).keepsTo
    obtain ⟨trace, hlog, hf, -⟩ := hmade st
    refine ⟨trace, ?_, hf⟩
    rw [s.setupCourse_of_not_kept run.observed lease h]
    exact hlog

/-- Without proving parameters nothing is done that needs them. -/
theorem courseOf_without_parameters (s : Settings) (run : Runner σ) {job : Job} (lease : Lease)
    (st : Site σ × List RunState) (hjob : job.needsParameters = true)
    (h : st.1.files.isNonEmptyFile s.parameters = false) :
    (s.courseOf run job lease st).2 = st := by
  obtain ⟨e, hact⟩ : ∃ e, Course.act s.requireParameters st = (.error e, st) := by
    simp only [Course.act, requireParameters, h]
    exact ⟨_, rfl⟩
  cases job with
  | publish source target => cases hjob
  | mine id => exact congrArg Prod.snd (bind_of_error hact)
  | verify id => exact congrArg Prod.snd (bind_of_error hact)
  | setup force => cases hjob

end Settings

def Job.plan : Job → List Purpose
  | publish .. => publishPlan
  | mine id => minePlan id
  | verify id => verifyPlan id
  | setup _ => setupPlan

/-! ## Transactions -/

theorem Follows.dropLast_stage {plan : List Purpose} {trace : List Exchange}
    (h : Follows plan trace) (hplan : ∀ x ∈ plan.dropLast, x.stage.mutatesLedger = false) :
    ∀ e ∈ trace.dropLast, e.call.stage.mutatesLedger = false := by
  intro e he
  obtain ⟨rest, hrest⟩ := h.purposes
  have hmem : e.call.purpose ∈ (trace.map (·.call.purpose)).dropLast := by
    rw [← List.map_dropLast]
    exact List.mem_map_of_mem he
  refine hplan e.call.purpose ?_
  rw [← hrest]
  by_cases hr : rest = []
  · rwa [hr, List.append_nil]
  · rw [List.dropLast_append_of_ne_nil hr]
    exact List.mem_append_left _ ((List.dropLast_sublist _).subset hmem)

theorem Follows.stage {plan : List Purpose} {trace : List Exchange} (h : Follows plan trace)
    (hplan : ∀ x ∈ plan, x.stage.mutatesLedger = false) :
    ∀ e ∈ trace, e.call.stage.mutatesLedger = false := by
  intro e he
  have hmem : e.call.purpose ∈ trace.map (·.call.purpose) := List.mem_map_of_mem he
  exact hplan e.call.purpose (h.purposes.subset hmem)

/-- A transaction is accepted if it has succeeded. -/
theorem Exchange.accepted_of_mutatesLedger {e : Exchange} (h : e.call.stage.mutatesLedger = true) :
    e.Accepted ↔ e.answer.isOk := by
  rcases ha : e.answer with f | output
  · have hno := Exchange.not_accepted ha
    simp [hno, Except.isOk, Except.toBool]
  · rw [Exchange.accepted_iff ha]
    have hd : e.Delivers output := by
      unfold Exchange.Delivers
      cases hs : e.call.stage <;> rw [hs] at h <;> trivial
    exact ⟨fun _ => rfl, fun _ => hd⟩

/-- A plan that ends in a transaction is completed if and only if a transaction has succeeded. -/
theorem Follows.completes_iff {plan : List Purpose} {trace : List Exchange} (h : Follows plan trace)
    (hplan : ∀ x ∈ plan.dropLast, x.stage.mutatesLedger = false)
    (hend : ∃ x, plan.getLast? = some x ∧ x.stage.mutatesLedger = true) :
    Completes plan trace ↔ ∃ e ∈ trace, e.call.stage.mutatesLedger = true ∧ e.answer.isOk := by
  constructor
  · intro hc
    obtain ⟨x, hx, hm⟩ := hend
    rw [← hc.purposes, List.getLast?_map, Option.map_eq_some_iff] at hx
    obtain ⟨e, he, rfl⟩ := hx
    have hmem := List.mem_of_getLast? he
    exact ⟨e, hmem, hm, (Exchange.accepted_of_mutatesLedger hm).mp (hc.accepted e hmem)⟩
  · rintro ⟨e, he, hm, hok⟩
    have hmem : e.call.purpose ∈ trace.map (·.call.purpose) := List.mem_map_of_mem he
    constructor
    · obtain ⟨rest, hrest⟩ := h.purposes
      by_cases hr : rest = []
      · rwa [hr, List.append_nil] at hrest
      · -- Otherwise the transaction would stand before the end of the plan.
        have hno : e.call.stage.mutatesLedger = false := by
          refine hplan e.call.purpose ?_
          rw [← hrest, List.dropLast_append_of_ne_nil hr]
          exact List.mem_append_left _ hmem
        rw [hm] at hno
        cases hno
    · intro e' he'
      have hne : trace ≠ [] := List.ne_nil_of_mem he
      have hlast : e = trace.getLast hne := by
        rw [← List.dropLast_concat_getLast hne] at he
        rcases List.mem_append.mp he with hd | hl
        · have hno := h.dropLast_stage hplan e hd
          rw [hm] at hno
          cases hno
        · exact List.mem_singleton.mp hl
      rw [← List.dropLast_concat_getLast hne] at he'
      rcases List.mem_append.mp he' with hd | hl
      · exact h.accepted e' hd
      · rw [List.mem_singleton.mp hl, ← hlast]
        exact (Exchange.accepted_of_mutatesLedger hm).mpr hok

/-- Where a transaction can only come last, there is one at most. -/
theorem countP_le_one {p : α → Bool} {l : List α} (h : ∀ a ∈ l.dropLast, p a = false) :
    l.countP p ≤ 1 := by
  by_cases hl : l = []
  · simp [hl]
  · have hnone : l.dropLast.countP p = 0 := List.countP_eq_zero.mpr fun a ha => by simp [h a ha]
    rw [← List.dropLast_concat_getLast hl, List.countP_append, hnone, Nat.zero_add]
    exact List.countP_le_length

theorem Job.plan_dropLast (job : Job) : ∀ x ∈ job.plan.dropLast, x.stage.mutatesLedger = false := by
  cases job <;> simp [plan, publishPlan, minePlan, verifyPlan, setupPlan, samplingPlan,
    Stage.mutatesLedger]

theorem Job.plan_of_not_transacts {job : Job} (h : job.transacts = false) :
    ∀ x ∈ job.plan, x.stage.mutatesLedger = false := by
  cases job with
  | publish source target => cases h
  | mine id => cases h
  | verify id => simp [plan, verifyPlan, Stage.mutatesLedger]
  | setup force => simp [plan, setupPlan, Stage.mutatesLedger]

theorem Job.plan_getLast? {job : Job} (h : job.transacts = true) :
    ∃ x, job.plan.getLast? = some x ∧ x.stage.mutatesLedger = true := by
  cases job with
  | publish source target => exact ⟨_, rfl, rfl⟩
  | mine id => exact ⟨_, rfl, rfl⟩
  | verify id => cases h
  | setup force => cases h

namespace Settings

theorem follows_courseOf (s : Settings) (run : Runner σ) (job : Job) (lease : Lease)
    (st : Site (σ × List Exchange) × List RunState) :
    ∃ trace, Course.log (s.courseOf run.observed job lease st).2 = Course.log st ++ trace ∧
      Follows job.plan trace ∧
      (job.transacts = true →
        ((s.courseOf run.observed job lease st).1.isOk ↔ Completes job.plan trace)) := by
  cases job with
  | publish source target =>
    obtain ⟨trace, hlog, hf, hok⟩ := s.decides_publishCourse run source target lease st
    exact ⟨trace, hlog, hf, fun _ => hok⟩
  | mine id =>
    obtain ⟨trace, hlog, hf, hok⟩ := s.decides_mineCourse run id lease st
    exact ⟨trace, hlog, hf, fun _ => hok⟩
  | verify id =>
    obtain ⟨trace, hlog, hf, -⟩ := s.keepsTo_verifyCourse run id lease st
    exact ⟨trace, hlog, hf, fun h => by cases h⟩
  | setup force =>
    obtain ⟨trace, hlog, hf⟩ := s.follows_setupCourse run force lease st
    exact ⟨trace, hlog, hf, fun h => by cases h⟩

/-- What the calls of a job that starts without calls have to do with its plan and its result. -/
theorem follows_undertake (s : Settings) (run : Runner σ) (job : Job) {d : Desk (σ × List Exchange)}
    (hd : d.site.log = []) :
    Follows job.plan (s.undertake run.observed job d).2.site.log ∧
      (job.transacts = true → ((s.undertake run.observed job d).1.isOk ↔
        Completes job.plan (s.undertake run.observed job d).2.site.log)) := by
  -- A job that makes no calls has not completed its plan.
  have hnone {r : Except Failure (job.Product × Report)} (hr : r.isOk = false) :
      Follows job.plan [] ∧
      (job.transacts = true → (r.isOk ↔ Completes job.plan [])) := by
    have hincomplete : ¬ Completes job.plan [] := by
      intro h
      have hlen := h.length_eq
      cases job <;> simp [Job.plan, publishPlan, minePlan, verifyPlan, setupPlan,
        samplingPlan] at hlen
    exact ⟨.nil _, fun _ => by simp [hr, hincomplete]⟩
  obtain ⟨e, d', h, htools⟩ | ⟨lease, site, -, htools, h⟩ := s.undertake_cases run.observed job d
  · have hlog : d'.site.log = [] := (congrArg Prod.snd htools).trans hd
    rw [h, hlog]
    exact hnone rfl
  · have hsite : site.log = [] := (congrArg Prod.snd htools).trans hd
    obtain ⟨trace, hlog, hf, hok⟩ := s.follows_courseOf run job lease (site, [.init])
    rw [h]
    have htrace : Course.log (s.courseOf run.observed job lease (site, [.init])).2 = trace := by
      rw [hlog]
      simp [Course.log, hsite]
    refine ⟨?_, ?_⟩
    · show Follows job.plan (Course.log (s.courseOf run.observed job lease (site, [.init])).2)
      rw [htrace]
      exact hf
    · intro ht
      rw [isOk_concluded]
      show _ ↔ Completes job.plan
          (Course.log (s.courseOf run.observed job lease (site, [.init])).2)
      rw [htrace]
      exact hok ht

/-- Where the proving parameters are missing once the lease is held, a job that needs them leaves
the tools alone. -/
theorem undertake_without_parameters (s : Settings) (run : Runner σ) {job : Job} {d : Desk σ}
    {lease : Lease} {site : Site σ} (hjob : job.needsParameters = true)
    (hl : Lease.acquire s.workDir d.site = (.ok lease, site))
    (h : site.files.isNonEmptyFile s.parameters = false) :
    (s.undertake run job d).2.site.tools = d.site.tools := by
  obtain ⟨e, d', hu, htools⟩ | ⟨lease', site', hl', htools, hu⟩ := s.undertake_cases run job d
  · rw [hu, htools]
  · rw [hl] at hl'
    cases hl'
    have hcourse := s.courseOf_without_parameters run lease (site, [.init]) hjob h
    rw [hu, hcourse]
    exact htools

/-- The calls of a job follow its plan, whatever the runner answers and does to the files: the trace
is for the purposes of the plan from its beginning on, and every call but the last was accepted.
There is one transaction at most, it comes last, and only publishing and mining make one. Mining and
verifying make no calls if the proving parameters are missing once the lease is held. Publishing and
mining succeed if and only if the trace goes through the whole plan and is accepted throughout, and
if and only if the transaction has been made and has succeeded. -/
theorem undertake_in_order (s : Settings) (run : Runner σ) (job : Job) (d : Desk σ) :
    ∃ trace : List Exchange,
      s.undertake run.observed job (d.watched []) =
        ((s.undertake run job d).1, (s.undertake run job d).2.watched trace) ∧
      trace.map (·.call.purpose) <+: job.plan ∧
      (∀ e ∈ trace.dropLast, e.Accepted) ∧
      trace.countP (·.call.stage.mutatesLedger) ≤ 1 ∧
      (∀ e ∈ trace.dropLast, e.call.stage.mutatesLedger = false) ∧
      (job.transacts = false → ∀ e ∈ trace, e.call.stage.mutatesLedger = false) ∧
      (∀ lease site, job.needsParameters = true →
        Lease.acquire s.workDir d.site = (.ok lease, site) →
        site.files.isNonEmptyFile s.parameters = false → trace = []) ∧
      (job.transacts = true →
        ((s.undertake run job d).1.isOk ↔
          trace.map (·.call.purpose) = job.plan ∧ ∀ e ∈ trace, e.Accepted) ∧
        ((s.undertake run job d).1.isOk ↔
          ∃ e ∈ trace, e.call.stage.mutatesLedger = true ∧ e.answer.isOk)) := by
  obtain ⟨trace, hw⟩ := s.undertake_watched run job d []
  have hlog : (s.undertake run.observed job (d.watched [])).2.site.log = trace := by rw [hw]; rfl
  have hresult : (s.undertake run.observed job (d.watched [])).1 =
      (s.undertake run job d).1 := by rw [hw]
  obtain ⟨hf, hok⟩ := s.follows_undertake run job (d := d.watched []) rfl
  rw [hlog] at hf hok
  rw [hresult] at hok
  have hlast := hf.dropLast_stage job.plan_dropLast
  refine ⟨trace, hw, hf.purposes, hf.accepted, countP_le_one hlast, hlast, ?_, ?_, ?_⟩
  · intro ht
    exact hf.stage (Job.plan_of_not_transacts ht)
  · intro lease site hjob hl hmissing
    have hl' : Lease.acquire s.workDir (d.watched []).site = (.ok lease, site.watched []) := by
      rw [show (d.watched []).site = d.site.watched [] from rfl, acquire_watched, hl]
    have htools := s.undertake_without_parameters run.observed hjob hl' hmissing
    rw [← hlog]
    exact congrArg Prod.snd htools
  · intro ht
    have hcompletes : Completes job.plan trace ↔
        trace.map (·.call.purpose) = job.plan ∧ ∀ e ∈ trace, e.Accepted :=
      ⟨fun h => ⟨h.purposes, h.accepted⟩, fun h => ⟨h.1, h.2⟩⟩
    refine ⟨(hok ht).trans hcompletes, (hok ht).trans ?_⟩
    exact hf.completes_iff job.plan_dropLast (Job.plan_getLast? ht)

end Settings

end StorageProof
