import Mathlib.Data.List.Chain
import StorageProof.Proofs.Flow.Ending

/-!
# What reports tell

A run goes through the states of its kind in their order, whatever the runner answers, and its
report tells which of them it has entered and how it has ended. A desk on which jobs are undertaken
one after the other keeps the report of the last one that has begun, and a job that has not begun
leaves no trace there.
-/

namespace StorageProof

variable {σ α β : Type}

/-! ## The states of each kind of run -/

/-- The states that a run of a kind goes through before its end. -/
def Flow.states : Flow → List RunState
  | publish => [.init, .extracting, .hashing, .challenging, .submitting]
  | mine => [.init, .resolving, .extracting, .hashing, .proving, .submitting]
  | verify => [.init, .resolving, .verifying]
  | setup => [.init, .proving]

/-- The states that a job goes through before its end if it hands something back. Proving parameters
that are kept are not made. -/
def Job.states : (job : Job) → job.Product → List RunState
  | .publish .., _ => Flow.publish.states
  | .mine _, _ => Flow.mine.states
  | .verify _, _ => Flow.verify.states
  | .setup _, true => Flow.setup.states
  | .setup _, false => [.init]

theorem Job.states_prefix (job : Job) (a : job.Product) : job.states a <+: job.flow.states := by
  cases job with
  | publish source target => exact List.prefix_rfl
  | mine id => exact List.prefix_rfl
  | verify id => exact List.prefix_rfl
  | setup force =>
    cases a with
    | true => exact List.prefix_rfl
    | false => exact ⟨[.proving], rfl⟩

namespace RunState

/-- A run may go from each state to the next. -/
abbrev Advances (history : List RunState) : Prop := history.IsChain (·.canAdvanceTo · = true)

/-- A history of a run that has come to an end: it begins at the beginning, goes on only where a run
may, and ends in the only state in it that is an end. -/
structure Ended (history : List RunState) : Prop where
  starts : history.head? = some .init
  advances : Advances history
  ends : ∃ before last, history = before ++ [last] ∧ last.isTerminal = true ∧
    ∀ state ∈ before, state.isTerminal = false

end RunState

open RunState

theorem Flow.advances_states (flow : Flow) : Advances flow.states := by
  cases flow <;> decide

theorem Flow.not_terminal {flow : Flow} {state : RunState} (h : state ∈ flow.states) :
    state.isTerminal = false := by
  have hall : ∀ state ∈ flow.states, state.isTerminal = false := by cases flow <;> decide
  exact hall state h

theorem Flow.canAdvanceTo_done {flow : Flow} {state : RunState} (h : state ∈ flow.states) :
    state.canAdvanceTo .done = true := by
  have hall : ∀ state ∈ flow.states, state.canAdvanceTo .done = true := by cases flow <;> decide
  exact hall state h

/-- A run of a kind may end wherever it has come to. -/
theorem Flow.ended {flow : Flow} {before : List RunState} {last : RunState}
    (hbefore : before <+: flow.states) (hne : before ≠ []) (hlast : last.isTerminal = true)
    (hadvance : ∀ state ∈ flow.states, state.canAdvanceTo last = true) :
    Ended (before ++ [last]) where
  starts := by
    obtain ⟨rest, hrest⟩ := hbefore
    have hhead : flow.states.head? = some .init := by cases flow <;> rfl
    obtain ⟨first, others, rfl⟩ := List.exists_cons_of_ne_nil hne
    rw [← hrest] at hhead
    exact hhead
  advances := by
    have hchain : Advances before := List.IsChain.prefix flow.advances_states hbefore
    refine List.isChain_append.mpr ⟨hchain, .singleton _, ?_⟩
    intro x hx y hy
    obtain rfl : last = y := by simpa using hy
    exact hadvance x (hbefore.subset (List.mem_of_getLast? hx))
  ends := ⟨before, last, rfl, hlast, fun x hx => Flow.not_terminal (hbefore.subset hx)⟩

/-! ## The states that a course enters -/

theorem Ends.trivial {S : Type} (m : ExceptT Failure (StateM S) α) (s : S) :
    Ends m s (fun _ _ => True) (fun _ _ => True) := by
  rcases h : m s with ⟨e | a, s'⟩
  · exact .of_eq_error h True.intro
  · exact .of_eq_ok h True.intro

namespace Course

/-- What a course adds to the history: given states if it comes to its end, and otherwise a first
part of others. -/
def Enters (m : Course σ α) (states : α → List RunState) (all : List RunState) : Prop :=
  ∀ st, Ends m st (fun a st' => st'.2 = st.2 ++ states a)
    (fun _ st' => ∃ entered, entered <+: all ∧ st'.2 = st.2 ++ entered)

variable {m : Course σ α} {f : α → Course σ β} {states all : List RunState}

theorem Enters.pure (a : α) : Enters (σ := σ) (pure a) (fun _ => []) all :=
  fun _ => .pure (List.append_nil _).symm

theorem enters_act (all : List RunState) (a : Action σ α) : Enters (act a) (fun _ => []) all := by
  intro st
  rcases h : a st.1 with ⟨e | x, s'⟩
  · have hact : act a st = (.error e, (s', st.2)) := by simp only [act, h]
    exact .of_eq_error hact ⟨[], List.nil_prefix, (List.append_nil _).symm⟩
  · have hact : act a st = (.ok x, (s', st.2)) := by simp only [act, h]
    exact .of_eq_ok hact (List.append_nil _).symm

theorem enters_enter (all : List RunState) (next : RunState) :
    Enters (σ := σ) (enter next) (fun _ => [next]) all :=
  fun _ => .of_eq_ok rfl rfl

/-- What the first course enters comes before what the second one does. -/
theorem Enters.bind {later : β → List RunState} {rest : List RunState}
    (hm : Enters m (fun _ => states) (states ++ rest)) (hf : ∀ a, Enters (f a) later rest) :
    Enters (m >>= f) (fun b => states ++ later b) (states ++ rest) := by
  intro st
  refine (hm st).bind (fun a st₁ h₁ => ?_) (fun _ _ h => h)
  refine (hf a st₁).weaken (fun b st₂ h₂ => ?_) (fun e st₂ h₂ => ?_)
  · rw [h₂, h₁, List.append_assoc]
  · obtain ⟨entered, hentered, h₂⟩ := h₂
    refine ⟨states ++ entered, (List.prefix_append_right_inj states).mpr hentered, ?_⟩
    rw [h₂, h₁, List.append_assoc]

theorem Enters.enter_bind {f : Unit → Course σ β} {later : β → List RunState} {next : RunState}
    (hf : Enters (f ()) later all) :
    Enters (enter next >>= f) (fun b => next :: later b) (next :: all) :=
  (enters_enter ([next] ++ all) next).bind fun _ => hf

theorem Enters.act_bind {a : Action σ α} {later : β → List RunState}
    (hf : ∀ x, Enters (f x) later all) : Enters (act a >>= f) later all :=
  (enters_act ([] ++ all) a).bind hf

/-- The history of a run that has followed a course. -/
theorem Enters.ends_init {later : α → List RunState} (h : Enters m later all) (site : Site σ) :
    Ends m (site, [.init]) (fun a st => st.2 = .init :: later a)
      (fun _ st => st.2 ≠ [] ∧ st.2 <+: .init :: all) := by
  refine (h (site, [.init])).weaken (fun a st hst => hst) (fun e st hst => ?_)
  obtain ⟨entered, hentered, hst⟩ := hst
  rw [hst]
  exact ⟨List.cons_ne_nil _ _, (List.prefix_cons_inj _).mpr hentered⟩

end Course

namespace Settings

open Course

theorem enters_sampleAndHash (s : Settings) (run : Runner σ) (lease : Lease) (source : String)
    {rest : List RunState} :
    Enters (s.sampleAndHash run lease source) (fun _ => [.extracting, .hashing])
      (.extracting :: .hashing :: rest) :=
  .enter_bind (.act_bind fun _ => .enter_bind (.act_bind fun _ => .pure ()))

theorem enters_publishCourse (s : Settings) (run : Runner σ) (source target : String)
    (lease : Lease) :
    Enters (s.publishCourse run source target lease)
      (fun _ => [.extracting, .hashing, .challenging, .submitting])
      [.extracting, .hashing, .challenging, .submitting] := by
  show Enters _ (fun _ => [.extracting, .hashing] ++ [.challenging, .submitting])
    ([.extracting, .hashing] ++ [.challenging, .submitting])
  refine (s.enters_sampleAndHash run lease source).bind fun _ => ?_
  refine .enter_bind (.act_bind fun output => .act_bind fun _ => ?_)
  exact .enter_bind (.act_bind fun _ => .pure _)

theorem enters_mineCourse (s : Settings) (run : Runner σ) (id : Identifier) (lease : Lease) :
    Enters (s.mineCourse run id lease)
      (fun _ => [.resolving, .extracting, .hashing, .proving, .submitting])
      [.resolving, .extracting, .hashing, .proving, .submitting] := by
  refine .act_bind fun parameters => .enter_bind (.act_bind fun agreement => ?_)
  show Enters _ (fun _ => [.extracting, .hashing] ++ [.proving, .submitting])
    ([.extracting, .hashing] ++ [.proving, .submitting])
  refine (s.enters_sampleAndHash run lease agreement.locator).bind fun _ => ?_
  refine .enter_bind (.act_bind fun _ => .act_bind fun proof => ?_)
  exact .enter_bind (.act_bind fun _ => .pure proof)

theorem enters_verifyCourse (s : Settings) (run : Runner σ) (id : Identifier) (lease : Lease) :
    Enters (s.verifyCourse run id lease) (fun _ => [.resolving, .verifying])
      [.resolving, .verifying] := by
  refine .act_bind fun parameters => .enter_bind (.act_bind fun agreement => ?_)
  refine .act_bind fun input => .act_bind fun proof => .act_bind fun _ => .act_bind fun _ => ?_
  refine .enter_bind (.act_bind fun output => ?_)
  cases Verdict.ofOutput? output.text with
  | some accepted => exact .pure _
  | none => exact enters_act _ _

/-- A setup enters a state of its own only if there is something to be made. -/
theorem enters_setupCourse (s : Settings) (run : Runner σ) (force : Bool) (lease : Lease) :
    Enters (s.setupCourse run force lease) (fun made => if made then [.proving] else [])
      [.proving] := by
  refine .act_bind fun fs st => ?_
  by_cases h : !force && fs.isNonEmptyFile s.parameters
  · rw [if_pos h]
    exact .pure (List.append_nil _).symm
  · rw [if_neg h]
    have hentered : ∃ entered, entered <+: [.proving] ∧ st.2 ++ [.proving] = st.2 ++ entered :=
      ⟨[.proving], List.prefix_rfl, rfl⟩
    -- the result is known only at the end, so the actions are gone through one by one
    refine ends_enter (ends_act (.trivial _ _) (fun _ s₁ _ => ?_) fun _ _ _ => hentered)
    exact ends_act (.trivial _ _) (fun _ _ _ => .pure rfl) fun _ _ _ => hentered

theorem ends_courseOf (s : Settings) (run : Runner σ) (job : Job) (lease : Lease) (site : Site σ) :
    Ends (s.courseOf run job lease) (site, [.init]) (fun a st => st.2 = job.states a)
      (fun _ st => st.2 ≠ [] ∧ st.2 <+: job.flow.states) := by
  cases job with
  | publish source target => exact (s.enters_publishCourse run source target lease).ends_init site
  | mine id => exact (s.enters_mineCourse run id lease).ends_init site
  | verify id => exact (s.enters_verifyCourse run id lease).ends_init site
  | setup force =>
    refine ((s.enters_setupCourse run force lease).ends_init site).weaken (fun made st h => ?_)
      (fun _ _ h => h)
    cases made with
    | true => exact h
    | false => exact h

end Settings

/-! ## Reports of single runs -/

/-- A report tells what has come of a job: its kind, and a history that begins at the beginning,
goes on only where a run may, and has one end. If the job has handed something back, the report is
the one beside it and the history has all states; if the job has failed, the history breaks off
after some of them and gives the failure, with the stage that the failure names or, if it names
none, the state before. -/
structure Report.Tells (report : Report) (job : Job)
    (result : Except Failure (job.Product × Report)) : Prop where
  flow : report.flow = job.flow
  ended : Ended report.history
  succeeded : ∀ a r, result = .ok (a, r) → r = report ∧ report.history = job.states a ++ [.done]
  failed : ∀ e, result = .error e → ∃ (before : List RunState) (h : before ≠ []),
    before <+: job.flow.states ∧
      report.history = before ++ [.failed (e.stage?.getD (before.getLast h).name) e.message]

/-- The report that is kept of a course tells what has come of it. -/
theorem Report.tells_concluded {job : Job} {history : List RunState}
    {r : Except Failure job.Product} (hok : ∀ a, r = .ok a → history = job.states a)
    (herror : ∀ e, r = .error e → history ≠ [] ∧ history <+: job.flow.states) :
    (concluded job.flow history r).2.Tells job (concluded job.flow history r).1 := by
  cases r with
  | ok a =>
    obtain rfl := hok a rfl
    have hne : job.states a ≠ [] := by
      cases job with
      | publish source target => exact List.cons_ne_nil _ _
      | mine id => exact List.cons_ne_nil _ _
      | verify id => exact List.cons_ne_nil _ _
      | setup force => cases a <;> exact List.cons_ne_nil _ _
    refine {
      flow := rfl
      ended := Flow.ended (job.states_prefix a) hne rfl fun _ => Flow.canAdvanceTo_done
      succeeded := fun b r h => ?_
      failed := fun e h => by cases h }
    cases h
    exact ⟨rfl, rfl⟩
  | error e =>
    obtain ⟨hne, hprefix⟩ := herror e rfl
    refine {
      flow := rfl
      ended := Flow.ended hprefix hne rfl fun x hx => canAdvanceTo_failed (Flow.not_terminal hx) _ _
      succeeded := fun b r h => by cases h
      failed := fun f h => ?_ }
    cases h
    refine ⟨history, hne, hprefix, ?_⟩
    show history ++ [.ofFailure history e] = _
    rw [RunState.ofFailure, currentState, List.getLast?_eq_some_getLast hne]
    rfl

namespace Settings

/-- Whether a job gets as far as its course: it is not refused, the settings are valid and the lease
is to be had. -/
def begins (s : Settings) (job : Job) (d : Desk σ) : Bool :=
  !job.refused && s.validate.isOk && (Lease.acquire s.workDir d.site).1.isOk

/-- A job that does not begin leaves no report and does not get to the tools. -/
theorem undertake_of_not_begins (s : Settings) (run : Runner σ) {job : Job} {d : Desk σ}
    (h : s.begins job d = false) :
    ∃ e d', s.undertake run job d = (.error e, d') ∧ d'.last = d.last ∧
      d'.site.tools = d.site.tools := by
  by_cases hr : job.refused = true
  · exact ⟨_, d, undertake_of_refused _ _ hr d, rfl, rfl⟩
  · rw [Bool.not_eq_true] at hr
    rw [undertake_of_not_refused _ _ hr]
    obtain ⟨e, -, hc⟩ | ⟨e, site, -, hl, hc⟩ | ⟨lease, site, hv, hl, -⟩ :=
      s.conduct_cases job.flow (s.courseOf run job) d
    · exact ⟨e, d, hc, rfl, rfl⟩
    · exact ⟨e, _, hc, rfl, (congrArg (fun r => Site.tools r.2) hl).symm⟩
    · simp [begins, hr, hv, hl, Except.isOk, Except.toBool] at h

/-- A job that begins leaves a report that tells what has come of it. -/
theorem undertake_of_begins (s : Settings) (run : Runner σ) {job : Job} {d : Desk σ}
    (h : s.begins job d = true) :
    ∃ report, (s.undertake run job d).2.last = some report ∧
      report.Tells job (s.undertake run job d).1 := by
  simp only [begins, Bool.and_eq_true, Bool.not_eq_true'] at h
  obtain ⟨⟨hr, hv⟩, hl⟩ := h
  rw [undertake_of_not_refused _ _ hr]
  obtain ⟨e, he, -⟩ | ⟨e, site, -, he, -⟩ | ⟨lease, site, -, -, hc⟩ :=
    s.conduct_cases job.flow (s.courseOf run job) d
  · rw [he] at hv
    cases hv
  · rw [he] at hl
    cases hl
  · rw [hc]
    refine ⟨_, rfl, Report.tells_concluded (fun a ha => ?_) (fun e he => ?_)⟩
    · obtain ⟨b, st, hend, hst⟩ | ⟨e, st, hend, -⟩ := (s.ends_courseOf run job lease site).cases
      · rw [hend] at ha ⊢
        cases ha
        exact hst
      · rw [hend] at ha
        cases ha
    · obtain ⟨b, st, hend, -⟩ | ⟨f, st, hend, hst⟩ := (s.ends_courseOf run job lease site).cases
      · rw [hend] at he
        cases he
      · rw [hend]
        exact hst

theorem begins_watched (s : Settings) (job : Job) (d : Desk σ) (log : List Exchange) :
    s.begins job (d.watched log) = s.begins job d := by
  have h : (d.watched log).site = d.site.watched log := rfl
  rw [begins, begins, h, acquire_watched]

theorem callsOf_of_not_begins (s : Settings) (run : Runner σ) {job : Job} {d : Desk σ}
    (h : s.begins job d = false) : s.callsOf run job d = [] := by
  rw [← s.begins_watched job d []] at h
  obtain ⟨e, d', hu, -, htools⟩ := s.undertake_of_not_begins run.observed h
  rw [callsOf, hu]
  exact congrArg Prod.snd htools

/-! ## Reports of jobs one after the other -/

end Settings

/-- What happens at a desk: a job is undertaken, or the site is changed by others. -/
inductive Move (σ : Type)
  | undertakes (job : Job)
  | finds (site : Site σ)

namespace Settings

def step (s : Settings) (run : Runner σ) (d : Desk σ) : Move σ → Desk σ
  | .undertakes job => (s.undertake run job d).2
  | .finds site => { d with site }

def after (s : Settings) (run : Runner σ) (d : Desk σ) (moves : List (Move σ)) : Desk σ :=
  moves.foldl (s.step run) d

/-- The jobs among moves, each with the desk that it is undertaken at. -/
def attempts (s : Settings) (run : Runner σ) : Desk σ → List (Move σ) → List (Job × Desk σ)
  | _, [] => []
  | d, .undertakes job :: moves => (job, d) :: s.attempts run (s.step run d (.undertakes job)) moves
  | d, .finds site :: moves => s.attempts run (s.step run d (.finds site)) moves

def begun (s : Settings) (run : Runner σ) (d : Desk σ) (moves : List (Move σ)) :
    List (Job × Desk σ) := (s.attempts run d moves).filter fun a => s.begins a.1 a.2

/-- The report that is kept is that of the last job that has begun, or else the one from before. -/
theorem last_after (s : Settings) (run : Runner σ) (moves : List (Move σ)) (d : Desk σ) :
    (s.after run d moves).last =
      (s.begun run d moves).getLast?.elim d.last fun a => (s.undertake run a.1 a.2).2.last := by
  induction moves generalizing d with
  | nil => rfl
  | cons move moves ih =>
    have hafter : s.after run d (move :: moves) = s.after run (s.step run d move) moves := rfl
    rw [hafter, ih]
    cases move with
    | finds site => rfl
    | undertakes job =>
      cases hb : s.begins job d with
      | false =>
        obtain ⟨e, d', hu, hlast, -⟩ := s.undertake_of_not_begins run hb
        have hbegun : s.begun run d (.undertakes job :: moves) =
            s.begun run (s.step run d (.undertakes job)) moves := by
          simp [begun, attempts, hb]
        rw [hbegun, step, hu, hlast]
      | true =>
        have hbegun : s.begun run d (.undertakes job :: moves) =
            (job, d) :: s.begun run (s.step run d (.undertakes job)) moves := by
          simp [begun, attempts, hb]
        rw [hbegun, List.getLast?_cons]
        cases (s.begun run (s.step run d (.undertakes job)) moves).getLast? <;> rfl

/-- Reports are faithful over any sequence of jobs. Let a desk without a report see jobs undertaken,
whatever the runner does, and others change the site in between. The report on the desk is then the
one that the last job to begin has left, or none if none has begun. A job that does not begin makes
no calls, fails and leaves the last report as it is. A job that begins leaves a report that tells
what has come of it. -/
theorem last_report (s : Settings) (run : Runner σ) (site : Site σ) (moves : List (Move σ)) :
    (s.after run ⟨site, none⟩ moves).last =
      (s.begun run ⟨site, none⟩ moves).getLast?.bind (fun a => (s.undertake run a.1 a.2).2.last) ∧
    ∀ a ∈ s.attempts run ⟨site, none⟩ moves,
      (s.begins a.1 a.2 = false → s.callsOf run a.1 a.2 = [] ∧
        (∃ e, (s.undertake run a.1 a.2).1 = .error e) ∧
        (s.undertake run a.1 a.2).2.last = a.2.last) ∧
      (s.begins a.1 a.2 = true → ∃ report, (s.undertake run a.1 a.2).2.last = some report ∧
        report.Tells a.1 (s.undertake run a.1 a.2).1) := by
  refine ⟨?_, fun a _ => ⟨fun h => ?_, s.undertake_of_begins run⟩⟩
  · rw [last_after]
    cases (s.begun run ⟨site, none⟩ moves).getLast? <;> rfl
  · obtain ⟨e, d', hu, hlast, -⟩ := s.undertake_of_not_begins run h
    refine ⟨s.callsOf_of_not_begins run h, ?_, ?_⟩
    · rw [hu]
      exact ⟨e, rfl⟩
    · rw [hu]
      exact hlast

namespace Specimen

/-- A publication without a source, and then a mining. -/
def moves : List (Move Book) := [.undertakes (.publish " " "v.ts"), .undertakes (.mine name)]

/-- The desk that the mining is undertaken at. -/
def turnedAway : Desk Book := settings.step run (desk published) (.undertakes (.publish " " "v.ts"))

end Specimen

open Specimen in
/-- A publication that is refused leaves nothing, and the report that is kept is that of the mining
after it. -/
theorem last_report_mined :
    settings.callsOf run (.publish " " "v.ts") (desk published) = [] ∧
    ∃ report, (settings.after run ⟨(desk published).site, none⟩ moves).last = some report ∧
      report.Tells (.mine name) (settings.undertake run (.mine name) turnedAway).1 := by
  obtain ⟨hlast, hjobs⟩ := settings.last_report run (desk published).site moves
  have hrefused : settings.begins (.publish " " "v.ts") (desk published) = false := by
    decide +kernel
  have hbegins : settings.begins (.mine name) turnedAway = true := by decide +kernel
  have hattempts : settings.attempts run ⟨(desk published).site, none⟩ moves =
      [(.publish " " "v.ts", desk published), (.mine name, turnedAway)] := rfl
  have hbegun : settings.begun run ⟨(desk published).site, none⟩ moves =
      [(.mine name, turnedAway)] := by
    rw [begun, hattempts]
    simp [hrefused, hbegins]
  rw [hattempts] at hjobs
  obtain ⟨report, hreport, htells⟩ := (hjobs (.mine name, turnedAway) (by simp)).2 hbegins
  obtain ⟨hcalls, -, -⟩ := (hjobs (.publish " " "v.ts", desk published) (by simp)).1 hrefused
  refine ⟨hcalls, report, ?_, htells⟩
  rw [hlast, hbegun]
  exact hreport

end Settings

end StorageProof
