import Mathlib.Data.List.TakeWhile
import StorageProof.Process.Supervisor
import StorageProof.Proofs.Call.Cancellation
import StorageProof.Proofs.Process.Watching

/-!
# Calls under a token

While a call is watched, anybody who has a copy of the token may cancel it, before the first look,
between two looks or after the child has ended. A call comes to a cancellation exactly if a look has
found the token tripped, and then it carries the stage that was called. If this was the first look,
nothing was started. As in every schedule, waiting for a child, killing it and reading its pipes do
not fail.
-/

namespace StorageProof

/-- One thing that happens during a call, to what is watched or to the tokens. -/
inductive Event
  | scene (happening : Happening)
  | token (step : TokenPool.Step)
  deriving DecidableEq, Repr

namespace Held

/-- The tokens after something has happened. A token is tripped by being cancelled. -/
def meet (held : Held) : Event → Held
  | .scene .trips => held.step (.cancel held.own)
  | .scene _ => held
  | .token s => held.step s

def after (held : Held) (events : List Event) : Held := events.foldl meet held

/-- Whether something cancels the token or one of its copies. -/
def IsCancelledBy (held : Held) (e : Event) : Prop :=
  e = .scene .trips ∨ ∃ k ∈ held.family, e = .token (.cancel k)

instance (held : Held) (e : Event) : Decidable (held.IsCancelledBy e) :=
  inferInstanceAs (Decidable (_ ∨ _))

/-- Whether the token or one of its copies is cancelled while things happen. -/
def CancelledAmid (held : Held) : List Event → Prop
  | [] => False
  | e :: events => held.IsCancelledBy e ∨ (held.meet e).CancelledAmid events

instance CancelledAmid.decidable (held : Held) (events : List Event) :
    Decidable (held.CancelledAmid events) :=
  match events with
  | [] => inferInstanceAs (Decidable False)
  | e :: events =>
    have := CancelledAmid.decidable (held.meet e) events
    inferInstanceAs (Decidable (_ ∨ _))

/-- What comes of events for a call that is watched: the token is tripped while it is cancelled. -/
def happenings (held : Held) : List Event → List Happening
  | [] => []
  | .scene h :: events => h :: (held.meet (.scene h)).happenings events
  | .token s :: events =>
    (if (held.step s).isCancelled then [.trips] else []) ++ (held.step s).happenings events

/-- What has been found of a call, and where the next look goes. -/
def watch (held : Held) (events : List Event) : Watch :=
  (held.happenings events).foldl Watch.step { scene := { tripped := held.isCancelled } }

variable {held : Held} {e : Event} {events before rest : List Event}

theorem isCancelled_meet (h : held.isCancelled = true) (e : Event) :
    (held.meet e).isCancelled = true := by
  cases e with
  | token s => exact isCancelled_step h s
  | scene happening =>
    cases happening with
    | trips => exact isCancelled_step h _
    | ends how => exact h
    | writes stream bytes => exact h
    | closes stream => exact h
    | looks => exact h

theorem IsCancelledBy.isCancelled (h : held.IsCancelledBy e) :
    (held.meet e).isCancelled = true := by
  rcases h with rfl | ⟨k, hk, rfl⟩
  · exact isCancelled_step_cancel List.mem_cons_self
  · exact isCancelled_step_cancel hk

/-- A token that is cancelled at any time is cancelled in the end. -/
theorem isCancelled_after (h : held.isCancelled = true ∨ held.CancelledAmid events) :
    (held.after events).isCancelled = true := by
  induction events generalizing held with
  | nil => exact h.resolve_right id
  | cons e events ih =>
    refine ih ?_
    rcases h with h | h | h
    · exact .inl (isCancelled_meet h e)
    · exact .inl h.isCancelled
    · exact .inr h

/-- Whoever cancels a copy trips the token. -/
theorem trips_mem_happenings (h : held.CancelledAmid events) : .trips ∈ held.happenings events := by
  induction events generalizing held with
  | nil => exact h.elim
  | cons e events ih =>
    rcases h with h | h
    · rcases h with rfl | ⟨k, hk, rfl⟩
      · exact List.mem_cons_self
      · simp [happenings, isCancelled_step_cancel hk]
    · have hrest := ih h
      cases e with
      | scene happening => exact List.mem_cons_of_mem _ hrest
      | token s => exact List.mem_append_right _ hrest

/-- Looks are not made more or fewer by what is done with tokens. -/
theorem count_looks_happenings (held : Held) (events : List Event) :
    (held.happenings events).count .looks = events.count (.scene .looks) := by
  induction events generalizing held with
  | nil => rfl
  | cons e events ih =>
    cases e with
    | scene happening =>
      rw [happenings, List.count_cons, List.count_cons, ih]
      by_cases h : happening = .looks
      · simp [h]
      · simp [h]
    | token s =>
      rw [happenings, List.count_append, ih]
      split <;> simp

theorem looks_mem_happenings : .looks ∈ held.happenings events ↔ .scene .looks ∈ events := by
  rw [← List.count_pos_iff, count_looks_happenings, List.count_pos_iff]

theorem happenings_append (held : Held) (before rest : List Event) :
    held.happenings (before ++ rest) =
      held.happenings before ++ (held.after before).happenings rest := by
  induction before generalizing held with
  | nil => rfl
  | cons e before ih =>
    cases e with
    | scene h => simp [happenings, after, ih]
    | token s =>
      rw [List.cons_append, happenings, ih, happenings, List.append_assoc]
      rfl

/-- With nothing but happenings to what is watched, these are what is watched. -/
theorem happenings_map_scene (held : Held) (happenings : List Happening) :
    held.happenings (happenings.map .scene) = happenings := by
  induction happenings generalizing held with
  | nil => rfl
  | cons h happenings ih => rw [List.map_cons, Held.happenings, ih]

theorem sound_watch (held : Held) (events : List Event) : (held.watch events).Sound := by
  have hstart : ({ scene := { tripped := held.isCancelled } } : Watch).Sound :=
    Watch.sound_start.of_leads ⟨fun _ => id, fun _ => rfl, fun _ => rfl, nofun⟩
  exact hstart.foldl (held.happenings events)

/-- The first look finds a token tripped that has been cancelled by then. -/
theorem trippedBefore_watch (h : held.isCancelled = true ∨ held.CancelledAmid before)
    (hnone : .scene .looks ∉ before) :
    (held.watch (before ++ .scene .looks :: rest)).found.trippedBefore = true := by
  rw [watch, happenings_append]
  refine Watch.trippedBefore_of_entry rfl (h.imp id trips_mem_happenings) ?_
  rwa [looks_mem_happenings]

end Held

/-! ## What has been seen -/

namespace Schedule

/-- A look has found the token tripped: the first one, the one that settles the watching of the
child, or one at a pipe. -/
def SawTripped (s : Schedule) : Prop :=
  s.trippedBefore = true ∨ watch s.looks = some none ∨ true ∈ s.stdout.stillOpen ∨
    true ∈ s.stderr.stillOpen

variable {s : Schedule} {call : Call} {result : Except Failure Output} {fate : Fate}

theorem Pipe.mem_of_collect {p : Pipe} (h : Pipe.collect p = some none) : true ∈ p.stillOpen := by
  unfold Pipe.collect at h
  split at h
  · rename_i hany
    obtain ⟨tripped, hmem, rfl⟩ := List.any_eq_true.mp hany
    exact hmem
  · split at h <;> cases h

theorem classify_ne_cancelled (call : Call) (stdout stderr : Bytes) (how : Exit) (stage : String) :
    classify call stdout stderr how ≠ .error (.cancelled stage) := by
  unfold classify
  split <;> nofun

/-- The reading of the pipes is cancelled only where the token was seen tripped. -/
theorem mem_stillOpen_of_collect {how : Exit} {stage : String}
    (h : s.collect call how = some (.error (.cancelled stage))) :
    (true ∈ s.stdout.stillOpen ∨ true ∈ s.stderr.stillOpen) ∧ stage = call.stage.name := by
  rcases hout : Pipe.collect s.stdout with _ | (_ | stdout)
  · simp only [collect, hout] at h
    cases h
  · simp only [collect, hout] at h
    cases h
    exact ⟨.inl (Pipe.mem_of_collect hout), rfl⟩
  · rcases herr : Pipe.collect s.stderr with _ | (_ | stderr)
    · simp only [collect, hout, herr] at h
      cases h
    · simp only [collect, hout, herr] at h
      cases h
      exact ⟨.inr (Pipe.mem_of_collect herr), rfl⟩
    · simp only [collect, hout, herr] at h
      exact absurd (Option.some.inj h) (classify_ne_cancelled _ _ _ _ _)

theorem collect_of_mem {how : Exit} (hcollect : s.collect call how = some result)
    (h : true ∈ s.stdout.stillOpen ∨ true ∈ s.stderr.stillOpen) :
    result = .error (.cancelled call.stage.name) := by
  rcases hout : Pipe.collect s.stdout with _ | (_ | stdout)
  · simp only [collect, hout] at hcollect
    cases hcollect
  · simp only [collect, hout] at hcollect
    exact (Option.some.inj hcollect).symm
  · rcases h with h | h
    · rw [Pipe.collect_of_mem h] at hout
      cases hout
    · simp only [collect, hout, Pipe.collect_of_mem h] at hcollect
      exact (Option.some.inj hcollect).symm

/-- A call is cancelled only where the token was seen tripped. -/
theorem sawTripped_of_run {stage : String}
    (h : s.run call = some (.error (.cancelled stage), fate)) :
    s.SawTripped ∧ stage = call.stage.name := by
  by_cases hbefore : s.trippedBefore = true
  · simp only [run, hbefore, if_true] at h
    cases h
    exact ⟨.inl hbefore, rfl⟩
  rcases hrefusal : s.refusal with _ | cause
  · rcases hwatch : watch s.looks with _ | (_ | how)
    · simp only [run, hbefore, hrefusal, hwatch] at h
      cases h
    · simp only [run, hbefore, hrefusal, hwatch] at h
      cases h
      exact ⟨.inr (.inl hwatch), rfl⟩
    · simp only [run, hbefore, hrefusal, hwatch] at h
      obtain ⟨r, hcollect, hr⟩ := Option.map_eq_some_iff.mp h
      cases hr
      obtain ⟨hpipe, hstage⟩ := mem_stillOpen_of_collect hcollect
      exact ⟨.inr (.inr hpipe), hstage⟩
  · simp only [run, hbefore, hrefusal] at h
    cases h

/-- A call is cancelled where the token was seen tripped, if the program has started. -/
theorem run_of_sawTripped (hrefusal : s.refusal = none) (hrun : s.run call = some (result, fate))
    (h : s.SawTripped) : result = .error (.cancelled call.stage.name) := by
  by_cases hbefore : s.trippedBefore = true
  · simp only [run, hbefore, if_true] at hrun
    cases hrun
    rfl
  rcases hwatch : watch s.looks with _ | (_ | how)
  · simp only [run, hbefore, hrefusal, hwatch] at hrun
    cases hrun
  · simp only [run, hbefore, hrefusal, hwatch] at hrun
    cases hrun
    rfl
  · simp only [run, hbefore, hrefusal, hwatch] at hrun
    obtain ⟨r, hcollect, hr⟩ := Option.map_eq_some_iff.mp hrun
    cases hr
    rcases h with h | h | h
    · exact absurd h hbefore
    · rw [hwatch] at h
      cases h
    · exact collect_of_mem hcollect h

end Schedule

/-! ## Turns -/

/-- A list up to the first place at which something stands, and from there on. -/
theorem exists_takeWhile_append {α : Type} [DecidableEq α] {a : α} {l : List α} (h : a ∈ l) :
    ∃ rest, l = l.takeWhile (· ≠ a) ++ a :: rest := by
  induction l with
  | nil => cases h
  | cons b l ih =>
    by_cases hb : b = a
    · exact ⟨l, by simp [hb]⟩
    · obtain ⟨rest, hrest⟩ := ih (List.mem_of_ne_of_mem (Ne.symm hb) h)
      refine ⟨rest, ?_⟩
      rw [List.takeWhile_cons_of_pos (by simpa using hb), List.cons_append, ← hrest]

/-- A call from the end of the last one to its own, with all that happens in between. -/
structure Turn (held : Held) (call : Call) where
  events : List Event
  refusal : Option SystemError := none
  result : Except Failure Output
  fate : Fate
  entered : (held.watch events).next ≠ .entry
  unwatched : refusal ≠ none → (held.watch events).found.looks = []
  comes : { (held.watch events).found with refusal }.run call = some (result, fate)

namespace Turn

variable {held : Held} {call : Call}

def seen (t : Turn held call) : Schedule :=
  { (held.watch t.events).found with refusal := t.refusal }

def SawTripped (t : Turn held call) : Prop := t.seen.SawTripped

/-- What happens before the first look. -/
def onEntry (t : Turn held call) : List Event := t.events.takeWhile (· ≠ .scene .looks)

def after (t : Turn held call) : Held := held.after t.events

theorem looks_mem_events (t : Turn held call) : .scene .looks ∈ t.events := by
  by_cases h : .scene .looks ∈ t.events
  · exact h
  · have hnone : .looks ∉ held.happenings t.events := fun hlooks =>
      h (Held.looks_mem_happenings.mp hlooks)
    exact absurd (Watch.next_foldl_entry rfl hnone) t.entered

/-- A program that does not start leaves nothing to be seen but the token on entry. -/
theorem trippedBefore_of_refusal (t : Turn held call) (h : t.refusal ≠ none)
    (hsaw : t.SawTripped) : t.seen.trippedBefore = true := by
  have hlooks := t.unwatched h
  have hentered := t.entered
  obtain ⟨-, hsound⟩ := held.sound_watch t.events
  unfold SawTripped seen at hsaw
  unfold seen
  generalize held.watch t.events = w at *
  obtain ⟨scene, next, found⟩ := w
  have hnowatch : Schedule.watch found.looks = none := by
    rw [show found.looks = [] from hlooks]
    rfl
  have hunseen {how : Exit} (hx : found.Exited scene how) : False := by
    have hseen := hx.seen
    rw [hnowatch] at hseen
    cases hseen
  have hopen (hout : found.stdout.Open) (herr : found.stderr.Open) :
      found.trippedBefore = true := by
    rcases hsaw with h | h | h | h
    · exact h
    · rw [hnowatch] at h
      cases h
    · exact absurd h hout.untripped
    · exact absurd h herr.untripped
  cases next with
  | entry => exact absurd rfl hentered
  | child | childToken => exact hopen hsound.2.1 hsound.2.2
  | stdout | stdoutToken | stderr | stderrToken =>
    obtain ⟨⟨how, hx⟩, -⟩ := hsound
    exact (hunseen hx).elim
  | nowhere =>
    cases (show found.Over scene from hsound) with
    | refused htripped hseen => exact hseen
    | killed htripped hstarted hseen hwatch =>
      rw [hnowatch] at hwatch
      cases hwatch
    | leftStdout hx => exact (hunseen hx).elim
    | leftStderr hx => exact (hunseen hx).elim
    | finished hx => exact (hunseen hx).elim

/-- A call comes to a cancellation if and only if a look has found the token tripped. -/
theorem sawTripped_iff (t : Turn held call) :
    t.SawTripped ↔ t.result = .error (.cancelled call.stage.name) := by
  have hcomes : t.seen.run call = some (t.result, t.fate) := t.comes
  constructor
  · intro hsaw
    by_cases hrefusal : t.refusal = none
    · exact Schedule.run_of_sawTripped hrefusal hcomes hsaw
    · have hbefore := t.trippedBefore_of_refusal hrefusal hsaw
      rw [Schedule.run, if_pos hbefore] at hcomes
      exact (congrArg Prod.fst (Option.some.inj hcomes)).symm
  · intro hresult
    rw [hresult] at hcomes
    exact (Schedule.sawTripped_of_run hcomes).1

/-- A cancellation carries the stage that was called. -/
theorem sawTripped_of_result (t : Turn held call) {stage : String}
    (h : t.result = .error (.cancelled stage)) : t.SawTripped ∧ stage = call.stage.name := by
  have hcomes : t.seen.run call = some (t.result, t.fate) := t.comes
  rw [h] at hcomes
  exact Schedule.sawTripped_of_run hcomes

/-- What happens before the first look, the look, and what happens after it. -/
theorem exists_onEntry (t : Turn held call) :
    ∃ rest, t.events = t.onEntry ++ .scene .looks :: rest :=
  exists_takeWhile_append t.looks_mem_events

/-- Where the token or a copy has been cancelled before the first look, this look finds it tripped
and nothing is started. -/
theorem neverStarted_of_onEntry (t : Turn held call)
    (h : held.isCancelled = true ∨ held.CancelledAmid t.onEntry) :
    t.SawTripped ∧ t.fate = .neverStarted := by
  have hnone : .scene .looks ∉ t.onEntry := by
    intro hmem
    simpa using List.mem_takeWhile_imp hmem
  obtain ⟨rest, hevents⟩ := t.exists_onEntry
  have hbefore : t.seen.trippedBefore = true := by
    show (held.watch t.events).found.trippedBefore = true
    rw [hevents]
    exact Held.trippedBefore_watch h hnone
  have hcomes : t.seen.run call = some (t.result, t.fate) := t.comes
  rw [Schedule.run, if_pos hbefore] at hcomes
  exact ⟨.inl hbefore, (congrArg Prod.snd (Option.some.inj hcomes)).symm⟩

/-- The turn in which a program starts and its call comes to an end. -/
def ofRun {events : List Event} {result : Except Failure Output} {fate : Fate}
    (h : (held.watch events).found.run call = some (result, fate)) : Turn held call where
  events := events
  result := result
  fate := fate
  entered := by
    intro hentry
    obtain ⟨hnone, hsound⟩ := held.sound_watch events
    rw [hentry] at hsound
    rw [hsound.1.run hnone] at h
    cases h
  unwatched := fun h => absurd rfl h
  comes := by
    rw [← (held.sound_watch events).1]
    exact h

def refused (held : Held) (call : Call) (cause : SystemError) : Turn held call where
  events := [.scene .looks]
  refusal := some cause
  result :=
    if held.isCancelled then .error (.cancelled call.stage.name)
    else .error (.stageLaunch call.stage.name call.program.text cause)
  fate := .neverStarted
  entered := by
    cases h : held.isCancelled <;> simp [Held.watch, Held.happenings, Watch.step, Watch.look, h]
  unwatched := by
    cases h : held.isCancelled <;> simp [Held.watch, Held.happenings, Watch.step, Watch.look, h]
  comes := by
    cases h : held.isCancelled <;>
      simp [Held.watch, Held.happenings, Watch.step, Watch.look, Schedule.run, h]

/-- A call comes to its end with the fourth look after the token or a copy has been cancelled. -/
theorem exists_events_eq (call : Call) {events rest : List Event}
    (h : held.isCancelled = true ∨ held.CancelledAmid events)
    (hlooks : 4 ≤ rest.count (.scene .looks)) :
    ∃ t : Turn held call, t.events = events ++ rest := by
  have htripped : (held.watch events).scene.tripped = true :=
    Watch.tripped_foldl_of_mem (h.imp id Held.trips_mem_happenings)
  have hsettled : (held.watch events).scene.isSettled = true := by
    rw [Scene.isSettled, htripped, Bool.true_or]
  have hwatch : held.watch (events ++ rest) =
      ((held.after events).happenings rest).foldl Watch.step (held.watch events) := by
    rw [Held.watch, Held.happenings_append, List.foldl_append]
    rfl
  have hdue : (((held.after events).happenings rest).foldl Watch.step (held.watch events)).due ≤
      (held.watch events).due - ((held.after events).happenings rest).count .looks :=
    Watch.due_foldl hsettled
  rw [← hwatch, Held.count_looks_happenings] at hdue
  have hfour := (held.watch events).due_le_four
  have hover := (held.watch (events ++ rest)).due_eq_zero_iff.mp (by omega)
  obtain ⟨hne, -⟩ | ⟨-, result, fate, hrun, -⟩ := (held.sound_watch (events ++ rest)).run call
  · exact absurd hover hne
  · exact ⟨ofRun hrun, rfl⟩

/-- Whatever a schedule comes to that begins with the token as it is, a turn comes to. -/
theorem exists_turn {s : Schedule} (hbefore : s.trippedBefore = held.isCancelled)
    {result : Except Failure Output} {fate : Fate} (hrun : s.run call = some (result, fate)) :
    ∃ t : Turn held call, t.result = result ∧ t.fate = fate := by
  cases hcancelled : held.isCancelled with
  | true =>
    simp only [Schedule.run, hbefore, hcancelled, if_true] at hrun
    cases hrun
    exact ⟨refused held call .notFound, by simp [refused, hcancelled], rfl⟩
  | false =>
    rw [hcancelled] at hbefore
    cases hrefusal : s.refusal with
    | some cause =>
      simp only [Schedule.run, hbefore, hrefusal, Bool.false_eq_true, if_false] at hrun
      cases hrun
      exact ⟨refused held call cause, by simp [refused, hcancelled], rfl⟩
    | none =>
      obtain ⟨happenings, hafter⟩ := Watch.exists_run_eq hrefusal hrun
      have hwatch : held.watch (happenings.map .scene) = Watch.after happenings := by
        rw [Held.watch, Held.happenings_map_scene, hcancelled]
        rfl
      rw [← hwatch] at hafter
      exact ⟨ofRun hafter, rfl, rfl⟩

end Turn

namespace Supervisor

theorem trippedBefore_observe (s : Supervisor) (fs : FileSystem) (call : Call) :
    (s.observe fs call).1.trippedBefore = s.tripped := by
  cases htripped : s.tripped with
  | true => simp only [observe, htripped, if_true]
  | false =>
    rcases hprogram : Program.ofCall fs call with cause | program
    · simp only [observe, htripped, hprogram, Bool.false_eq_true, if_false]
    · simp only [observe, htripped, hprogram, Bool.false_eq_true, if_false]
      rfl

/-- Every call that processes are run for is such a turn, if it comes to an end. -/
theorem exists_turn {held : Held} {call : Call} {site : Site Supervisor}
    (htripped : site.tools.tripped = held.isCancelled)
    (hends : (site.tools.observe site.files call).1.run call ≠ none) :
    ∃ t : Turn held call, t.result = (Supervisor.runner call site).1 := by
  rcases hrun : (site.tools.observe site.files call).1.run call with _ | ⟨result, fate⟩
  · exact absurd hrun hends
  · obtain ⟨t, hresult, -⟩ :=
      Turn.exists_turn ((trippedBefore_observe _ _ _).trans htripped) hrun
    refine ⟨t, hresult.trans ?_⟩
    simp only [Supervisor.runner, hrun]

end Supervisor

end StorageProof
