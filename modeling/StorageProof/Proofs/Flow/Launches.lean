import StorageProof.Proofs.Flow.Cancellation
import StorageProof.Proofs.Process.Success

/-!
# Transactions that are made

A transaction is known by the first words of its command line, and of all calls that are made with
settings only those of its stage have them. A job that makes a transaction, and whose token nobody
cancels, succeeds if and only if exactly one process is started for the transaction and this one
ends with code zero.
-/

namespace StorageProof

variable {ω : Type}

/-! ## Command lines of transactions -/

/-- Whether the command line of a call is that of a transaction. -/
def Call.Transacts (call : Call) (name : String) : Prop := ["tx", "sla", name] <+: call.args

instance (call : Call) (name : String) : Decidable (call.Transacts name) :=
  inferInstanceAs (Decidable (_ <+: _))

/-- The name of the transaction that a stage makes. -/
def Stage.transaction? : Stage → Option String
  | ledgerCreate => some "createSla"
  | ledgerCommit => some "commitProof"
  | _ => none

/-- The name of the transaction that a job makes in the end. -/
def Job.transaction? : Job → Option String
  | publish .. => some "createSla"
  | mine _ => some "commitProof"
  | verify _ | setup _ => none

theorem Stage.mutatesLedger_of_transaction? {stage : Stage} {name : String}
    (h : stage.transaction? = some name) : stage.mutatesLedger = true := by
  cases stage with
  | ledgerCreate => rfl
  | ledgerCommit => rfl
  | _ => cases h

theorem Job.transacts_of_transaction? {job : Job} {name : String}
    (h : job.transaction? = some name) : job.transacts = true := by
  cases job with
  | publish source target => rfl
  | mine id => rfl
  | verify id => cases h
  | setup force => cases h

/-- A job makes the transactions of its plan under one name. -/
theorem Job.transaction?_of_mem_plan {job : Job} {x : Purpose} (h : x ∈ job.plan)
    (hm : x.stage.mutatesLedger = true) : x.stage.transaction? = job.transaction? := by
  have hall : ∀ x ∈ job.plan, x.stage.mutatesLedger = true →
      x.stage.transaction? = job.transaction? := by
    cases job <;> simp [plan, publishPlan, minePlan, verifyPlan, setupPlan, samplingPlan,
      Stage.mutatesLedger, Stage.transaction?, transaction?]
  exact hall x h hm

/-- Of all calls that are made with settings, the transactions have the command lines of
transactions. -/
theorem Settings.Calls.transacts_iff {s : Settings} {call : Call} (h : s.Calls call)
    (name : String) : call.Transacts name ↔ call.stage.transaction? = some name := by
  unfold Call.Transacts
  cases h with
  | create id a =>
    simp [Account.createCall, Stage.transaction?, eq_comm]
  | commit id p =>
    simp [Account.commitCall, Stage.transaction?, eq_comm]
  | extractFrames source frames => simp [Settings.extractFrames, Stage.transaction?]
  | perceptualHash frames hashes => simp [Settings.perceptualHash, Stage.transaction?]
  | challenge hashes => simp [Settings.challenge, Stage.transaction?]
  | generateProof parameters proof hashes witness =>
    simp [Settings.generateProof, Stage.transaction?]
  | verifyProof parameters proof publicInputs => simp [Settings.verifyProof, Stage.transaction?]
  | setupParameters parameters => simp [Settings.setupParameters, Stage.transaction?]
  | question q id => simp [Account.questionCall, Stage.transaction?]

/-! ## What becomes of the calls -/

namespace Attempt

/-- Whether a process was started for a transaction. -/
def Launches (a : Attempt) (name : String) : Prop := a.turn.Launched ∧ a.call.Transacts name

instance (a : Attempt) (name : String) : Decidable (a.Launches name) :=
  inferInstanceAs (Decidable (_ ∧ _))

end Attempt

namespace Watchman

/-- Exactly one process has been started for a transaction, and it has ended with code zero. -/
def Submits (w : Watchman ω) (name : String) : Prop :=
  ∃ a, w.log.filter (·.Launches name) = [a] ∧ a.turn.ExitedZero

theorem not_submits {w : Watchman ω} (h : w.log = []) (name : String) : ¬ w.Submits name := by
  rintro ⟨a, hfilter, -⟩
  simp [h] at hfilter

/-- The calls of a watchman are made with the settings, have the answers of the log beside it, and
have seen the token tripped only if it is cancelled. -/
structure Accounts (s : Settings) (t : Watchman ω × List Exchange) : Prop where
  calls : ∀ a ∈ t.1.log, s.Calls a.call
  answers : t.1.log.map (fun a => (a.call, a.turn.result)) = t.2.map fun e => (e.call, e.answer)
  cancelled : ∀ a ∈ t.1.log, a.SawTripped → t.1.held.isCancelled = true

variable {s : Settings} {w : Watchman ω} {log : List Exchange}

theorem accounts_start (h : w.log = []) : Accounts s (w, []) := by
  refine ⟨?_, congrArg _ h, ?_⟩ <;> simp [h]

theorem Accounts.concat (h : Accounts s (w, log)) {call : Call} (hcall : s.Calls call)
    (turn : Turn w.held call) (world : ω) (before after : FileSystem) :
    Accounts s ((⟨world, turn.after, w.log ++ [⟨w.held, call, turn⟩]⟩ : Watchman ω),
      log ++ [⟨call, before, turn.result, after⟩]) where
  calls := by
    intro a ha
    rcases List.mem_append.mp ha with hold | hnew
    · exact h.calls a hold
    · rw [List.mem_singleton.mp hnew]
      exact hcall
  answers := by simp [h.answers]
  cancelled := by
    intro a ha hsaw
    rcases List.mem_append.mp ha with hold | hnew
    · exact Held.isCancelled_after (.inl (h.cancelled a hold hsaw))
    · rw [List.mem_singleton.mp hnew] at hsaw
      exact turn.isCancelled_after hsaw

theorem Accounts.map_call (h : Accounts s (w, log)) :
    w.log.map Attempt.call = log.map Exchange.call := by
  have hcalls := congrArg (List.map Prod.fst) h.answers
  rwa [List.map_map, List.map_map] at hcalls

/-- The log beside a watchman has the same answers to the same calls. -/
theorem Accounts.exists_iff (h : Accounts s (w, log)) (P : Call × Except Failure Output → Prop) :
    (∃ e ∈ log, P (e.call, e.answer)) ↔ ∃ a ∈ w.log, P (a.call, a.turn.result) := by
  have hlog : (∃ e ∈ log, P (e.call, e.answer)) ↔
      ∃ p ∈ log.map fun e => (e.call, e.answer), P p := by simp
  have hwatchman : (∃ a ∈ w.log, P (a.call, a.turn.result)) ↔
      ∃ p ∈ w.log.map fun a => (a.call, a.turn.result), P p := by simp
  rw [hlog, hwatchman, h.answers]

end Watchman

/-- Calls are kept account of, whether they are cancelled or not. -/
theorem Runner.accounts_watching (behaviour : Behaviour ω) {s : Settings} {call : Call}
    (hcall : s.Calls call) :
    Action.Heeds (Watchman.Accounts s) (fun _ => Watchman.Accounts s)
      ((Runner.watching behaviour).observed call) := by
  rintro ⟨fs, w, log⟩ haccounts
  obtain ⟨turn, files, world, hrun⟩ := Runner.observed_watching behaviour call fs w log
  have hconcat := haccounts.concat hcall turn world fs files
  rcases hresult : turn.result with e | output
  · rw [hresult] at hrun hconcat
    refine .of_eq_error hrun ?_
    cases e.cancelledAt? <;> exact hconcat
  · rw [hresult] at hrun hconcat
    exact .of_eq_ok hrun hconcat

/-! ## Jobs -/

/-- A job makes no other transaction than its own, and nothing else looks like this one. -/
theorem Watchman.Accounts.transacts_iff {s : Settings} {w : Watchman ω} {log : List Exchange}
    (h : Accounts s (w, log)) {job : Job} (hfollows : Follows job.plan log) {name : String}
    (hname : job.transaction? = some name) {a : Attempt} (ha : a ∈ w.log) :
    a.call.stage.mutatesLedger = true ↔ a.call.Transacts name := by
  rw [(h.calls a ha).transacts_iff]
  refine ⟨fun hm => ?_, Stage.mutatesLedger_of_transaction?⟩
  have hmem : a.call ∈ log.map Exchange.call := by
    rw [← h.map_call]
    exact List.mem_map_of_mem ha
  obtain ⟨e, he, hcall⟩ := List.mem_map.mp hmem
  have hplan : e.call.purpose ∈ job.plan := hfollows.purposes.subset (List.mem_map_of_mem he)
  rw [hcall] at hplan
  exact (Job.transaction?_of_mem_plan hplan hm).trans hname

/-- What can only come last is the only one of its kind. -/
theorem filter_eq_singleton {α : Type} {p : α → Bool} {l : List α}
    (h : ∀ a ∈ l.dropLast, p a = false) {a : α} (ha : a ∈ l) (hp : p a = true) :
    l.filter p = [a] := by
  have hmem : a ∈ l.filter p := List.mem_filter.mpr ⟨ha, hp⟩
  have hone : (l.filter p).length ≤ 1 := by
    rw [← List.countP_eq_length_filter]
    exact countP_le_one h
  rcases hfilter : l.filter p with _ | ⟨b, _ | ⟨c, rest⟩⟩
  · rw [hfilter] at hmem
    cases hmem
  · rw [hfilter] at hmem
    rw [List.mem_singleton.mp hmem]
  · simp [hfilter] at hone

namespace Settings

/-- A job that makes a transaction, and whose token nobody cancels, succeeds if and only if exactly
one process is started for the transaction and it ends with code zero. -/
theorem isOk_undertake_iff_submits (s : Settings) (behaviour : Behaviour ω) (job : Job)
    {name : String} (hname : job.transaction? = some name) {d : Desk (Watchman ω)}
    (hd : d.site.tools.log = [])
    (huncancelled :
      (s.undertake (Runner.watching behaviour) job d).2.site.tools.held.isCancelled = false) :
    (s.undertake (Runner.watching behaviour) job d).1.isOk ↔
      (s.undertake (Runner.watching behaviour) job d).2.site.tools.Submits name := by
  have htransacts := Job.transacts_of_transaction? hname
  obtain ⟨log, hfollows, hok, hheeded⟩ := s.exists_log_undertake
    (fun hcall => Runner.accounts_watching behaviour hcall) job (Watchman.accounts_start hd)
  have haccounts : Watchman.Accounts s
      ((s.undertake (Runner.watching behaviour) job d).2.site.tools, log) := by
    revert hheeded
    cases cancelledAt? (s.undertake (Runner.watching behaviour) job d).1 <;> exact id
  generalize (s.undertake (Runner.watching behaviour) job d).2.site.tools = w at *
  have hunseen : ∀ a ∈ w.log, ¬ a.SawTripped := by
    intro a ha hsaw
    rw [haccounts.cancelled a ha hsaw] at huncancelled
    cases huncancelled
  have htransaction : ∀ a ∈ w.log, a.call.stage.mutatesLedger = true ↔ a.call.Transacts name :=
    fun a ha => haccounts.transacts_iff hfollows hname ha
  have hearlier : ∀ a ∈ w.log.dropLast, decide (a.Launches name) = false := by
    intro a ha
    have hstage := hfollows.dropLast_attempts job.plan_dropLast haccounts.map_call a ha
    have hno : ¬ a.call.Transacts name := by
      rw [← htransaction a ((List.dropLast_sublist _).subset ha), hstage]
      decide
    exact decide_eq_false fun hlaunches => hno hlaunches.2
  rw [hok htransacts, hfollows.completes_iff job.plan_dropLast (Job.plan_getLast? htransacts),
    haccounts.exists_iff fun p => p.1.stage.mutatesLedger = true ∧ p.2.isOk = true]
  constructor
  · rintro ⟨a, ha, hm, hsucceeds⟩
    obtain ⟨hlaunched, hzero⟩ := (a.turn.isOk_result_iff (hunseen a ha)).mp hsucceeds
    have hlaunches : a.Launches name := ⟨hlaunched, (htransaction a ha).mp hm⟩
    exact ⟨a, filter_eq_singleton hearlier ha (decide_eq_true hlaunches), hzero⟩
  · rintro ⟨a, hfilter, hzero⟩
    have hmem : a ∈ w.log.filter (·.Launches name) := by simp [hfilter]
    obtain ⟨ha, hlaunches⟩ := List.mem_filter.mp hmem
    obtain ⟨hlaunched, htransacts⟩ := of_decide_eq_true hlaunches
    exact ⟨a, ha, (htransaction a ha).mpr htransacts,
      (a.turn.isOk_result_iff (hunseen a ha)).mpr ⟨hlaunched, hzero⟩⟩

end Settings

end StorageProof
