import StorageProof.Proofs.Process.Happenings

/-!
# What a watched call comes to

However the end of a child, the output in its pipes, the tripping of the token and the looks
interleave, the result of a call is true to what has happened, and it comes as soon as it can.
-/

namespace StorageProof

/-! ## Results -/

namespace Schedule

variable {s : Schedule} {scene : Scene} {how : Exit} {call : Call}

theorem Exited.run (h : s.Exited scene how) (hrefusal : s.refusal = none) (call : Call) :
    s.run call = (s.collect call how).map (·, .ended) := by
  simp only [Schedule.run, h.started, hrefusal, h.seen, Bool.false_eq_true, if_false]

/-- A call whose child has been found running at every look has not come to an end. -/
theorem Running.run (h : s.Running) (hrefusal : s.refusal = none) (call : Call) :
    s.run call = none := by
  have hwatch : watch s.looks = none := by
    have happend := watch_append h.running []
    rwa [List.append_nil] at happend
  simp only [Schedule.run, h.started, hrefusal, hwatch, Bool.false_eq_true, if_false]

end Schedule

namespace Watch

variable {w : Watch} {call : Call}

/-- A child that has ended, with all that its pipes have delivered. -/
theorem classified_classify {how : Exit} (hending : w.scene.ending = some how)
    (hstdout : w.scene.stdout.closed = true) (hstderr : w.scene.stderr.closed = true)
    (call : Call) :
    w.Classified call (Schedule.classify call w.scene.stdout.bytes w.scene.stderr.bytes how)
      .ended := by
  by_cases hzero : how = .code 0
  · subst hzero
    exact .succeeded hending hstdout hstderr
  · have hclassify : Schedule.classify call w.scene.stdout.bytes w.scene.stderr.bytes how =
        .error (.stageExecution call.stage.name call.program.text call.args how
          (Utf8.lossy w.scene.stderr.bytes)) := by
      unfold Schedule.classify
      split
      · exact absurd rfl hzero
      · rfl
    rw [hclassify]
    exact .failed hzero hending hstdout hstderr

/-- When watching is over, the call has come to an end. -/
theorem run_of_over (h : w.found.Over w.scene) (hrefusal : w.found.refusal = none) (call : Call) :
    ∃ result fate, w.found.run call = some (result, fate) ∧ w.Classified call result fate := by
  cases h with
  | refused htripped hseen =>
    refine ⟨_, _, ?_, .refused htripped hseen⟩
    simp only [Schedule.run, hseen, if_true]
  | killed htripped hstarted hseen hwatch =>
    refine ⟨_, _, ?_, .killed htripped hseen⟩
    simp only [Schedule.run, hstarted, hrefusal, hwatch, Bool.false_eq_true, if_false]
  | leftStdout hexited htripped hseen =>
    refine ⟨_, _, ?_, .abandoned htripped (.inl hseen) hexited.ending⟩
    rw [hexited.run hrefusal]
    simp only [Schedule.collect, Pipe.collect_of_mem hseen]
    rfl
  | leftStderr hexited htripped hstdout hseen =>
    refine ⟨_, _, ?_, .abandoned htripped (.inr hseen) hexited.ending⟩
    rw [hexited.run hrefusal]
    simp only [Schedule.collect, hstdout.collect, Pipe.collect_of_mem hseen]
    rfl
  | finished hexited hstdout hstderr =>
    refine ⟨_, _, ?_, classified_classify hexited.ending hstdout.closed hstderr.closed call⟩
    rw [hexited.run hrefusal]
    simp only [Schedule.collect, hstdout.collect, hstderr.collect]
    rfl

/-- A call has come to an end if and only if watching is over, and then in a result that is true to
what has happened. -/
theorem Sound.run (h : w.Sound) (call : Call) :
    (w.next ≠ .nowhere ∧ w.found.run call = none) ∨
      w.next = .nowhere ∧ ∃ result fate, w.found.run call = some (result, fate) ∧
        w.Classified call result fate := by
  obtain ⟨scene, next, found⟩ := w
  obtain ⟨hrefusal, h⟩ := h
  cases next with
  | entry | child | childToken =>
    refine .inl ⟨nofun, ?_⟩
    exact h.1.run hrefusal call
  | stdout | stdoutToken =>
    obtain ⟨⟨how, hexited⟩, hstdout, -⟩ := h
    refine .inl ⟨nofun, ?_⟩
    rw [hexited.run hrefusal, Schedule.collect, hstdout.collect]
    rfl
  | stderr | stderrToken =>
    obtain ⟨⟨how, hexited⟩, hstdout, hstderr⟩ := h
    refine .inl ⟨nofun, ?_⟩
    rw [hexited.run hrefusal]
    simp only [Schedule.collect, hstdout.collect, hstderr.collect]
    rfl
  | nowhere => exact .inr ⟨rfl, run_of_over h hrefusal call⟩

/-! ## The token -/

theorem look_scene (w : Watch) : w.look.scene = w.scene := by
  unfold look
  split <;> (try split) <;> rfl

theorem tripped_step {h : Happening} (ht : (w.step h).scene.tripped = true) :
    w.scene.tripped = true ∨ h = .trips := by
  obtain ⟨-, hstep⟩ | ⟨-, -, -, hstep⟩ | ⟨-, hstep⟩ := w.step_cases h
  · rw [hstep, look_scene] at ht
    exact .inl ht
  · rw [hstep] at ht
    exact .inl ht
  · rw [hstep] at ht
    exact Scene.tripped_step ht

/-- The token is not tripped by looking. -/
theorem tripped_foldl {happenings : List Happening}
    (h : (happenings.foldl step w).scene.tripped = true) :
    w.scene.tripped = true ∨ .trips ∈ happenings := by
  induction happenings generalizing w with
  | nil => exact .inl h
  | cons happening happenings ih =>
    rcases ih h with h | h
    · rcases tripped_step h with h | rfl
      · exact .inl h
      · exact .inr List.mem_cons_self
    · exact .inr (List.mem_cons_of_mem _ h)

/-- The token is tripped from the time on at which it is. -/
theorem tripped_foldl_of_mem {happenings : List Happening}
    (h : w.scene.tripped = true ∨ .trips ∈ happenings) :
    (happenings.foldl step w).scene.tripped = true := by
  induction happenings generalizing w with
  | nil => exact h.resolve_right List.not_mem_nil
  | cons happening happenings ih =>
    have hkept (ht : w.scene.tripped = true) : (w.step happening).scene.tripped = true := by
      obtain ⟨-, hstep⟩ | ⟨-, -, -, hstep⟩ | ⟨-, hstep⟩ := w.step_cases happening
      · rwa [hstep, look_scene]
      · rwa [hstep]
      · rw [hstep]
        exact (w.scene.leads_step happening).tripped ht
    rcases h with h | h
    · exact ih (.inl (hkept h))
    · rcases List.mem_cons.mp h with rfl | h
      · exact ih (.inl rfl)
      · exact ih (.inr h)

/-- Until the first look nothing is started. -/
theorem next_foldl_entry {happenings : List Happening} (hw : w.next = .entry)
    (hnone : .looks ∉ happenings) : (happenings.foldl step w).next = .entry := by
  induction happenings generalizing w with
  | nil => exact hw
  | cons happening happenings ih =>
    rw [List.mem_cons, not_or] at hnone
    obtain ⟨hne, hrest⟩ := hnone
    refine ih ?_ hrest
    obtain ⟨hlooks, -⟩ | ⟨-, -, -, hstep⟩ | ⟨-, hstep⟩ := w.step_cases happening
    · exact absurd hlooks.symm hne
    · rwa [hstep]
    · rwa [hstep]

theorem look_of_nowhere (hw : w.next = .nowhere) : w.look = w := by
  unfold look
  rw [hw]

/-- Nothing is found any more once watching is over. -/
theorem foldl_over {happenings : List Happening} (hw : w.next = .nowhere) :
    (happenings.foldl step w).found = w.found := by
  induction happenings generalizing w with
  | nil => rfl
  | cons happening happenings ih =>
    have hkept : (w.step happening).next = .nowhere ∧ (w.step happening).found = w.found := by
      obtain ⟨-, hstep⟩ | ⟨-, -, -, hstep⟩ | ⟨-, hstep⟩ := w.step_cases happening
      · rw [hstep, look_of_nowhere hw]
        exact ⟨hw, rfl⟩
      · rw [hstep]
        exact ⟨hw, rfl⟩
      · rw [hstep]
        exact ⟨hw, rfl⟩
    rw [List.foldl_cons, ih hkept.1, hkept.2]

/-- Whatever happens after a first look that finds the token tripped, this has been seen. -/
theorem trippedBefore_of_entry {before rest : List Happening} (hw : w.next = .entry)
    (htripped : w.scene.tripped = true ∨ .trips ∈ before) (hnone : .looks ∉ before) :
    ((before ++ .looks :: rest).foldl step w).found.trippedBefore = true := by
  have hnext := next_foldl_entry hw hnone
  have hscene := tripped_foldl_of_mem htripped
  have hlook : (before.foldl step w).look = { before.foldl step w with
      next := .nowhere, found := { (before.foldl step w).found with trippedBefore := true } } := by
    unfold look
    rw [hnext]
    simp only [hscene, if_true]
  rw [List.foldl_append, List.foldl_cons]
  show (rest.foldl step (before.foldl step w).look).found.trippedBefore = true
  rw [hlook, foldl_over rfl]

/-- A call with the token tripped on entry is over at once. -/
theorem found_of_tripped {before rest : List Happening} (htrips : .trips ∈ before)
    (hnone : .looks ∉ before) :
    (after (before ++ .looks :: rest)).found.trippedBefore = true :=
  trippedBefore_of_entry rfl (.inr htrips) hnone

/-! ## The end -/

end Watch

namespace Scene

def isDone (s : Scene) : Bool := s.ending.isSome && s.stdout.closed && s.stderr.closed

/-- Whether nothing stands in the way of the end of the call. -/
def isSettled (s : Scene) : Bool := s.tripped || s.isDone

variable {s s' : Scene}

theorem Leads.isDone (h : s.Leads s') (hs : s.isDone = true) : s'.isDone = true := by
  simp only [Scene.isDone, Bool.and_eq_true, Option.isSome_iff_exists] at hs ⊢
  obtain ⟨⟨⟨how, hending⟩, hstdout⟩, hstderr⟩ := hs
  refine ⟨⟨⟨how, h.ending how hending⟩, ?_⟩, ?_⟩
  · rw [h.stdout hstdout, hstdout]
  · rw [h.stderr hstderr, hstderr]

theorem Leads.isSettled (h : s.Leads s') (hs : s.isSettled = true) : s'.isSettled = true := by
  rw [Scene.isSettled, Bool.or_eq_true] at hs ⊢
  exact hs.imp h.tripped h.isDone

end Scene

namespace Watch

variable {w : Watch}

/-- How many looks it takes at most until watching is over, once nothing stands in the way. -/
def due (w : Watch) : Nat :=
  match w.next with
  | .entry | .childToken => if w.scene.tripped then 1 else 4
  | .child => if w.scene.isDone then 3 else 4
  | .stdoutToken => if w.scene.tripped then 1 else 3
  | .stdout => if w.scene.isDone then 2 else 3
  | .stderrToken => if w.scene.tripped then 1 else 2
  | .stderr => if w.scene.isDone then 1 else 2
  | .nowhere => 0

theorem due_le_four (w : Watch) : w.due ≤ 4 := by
  unfold due
  split <;> (try split) <;> decide

theorem due_eq_zero_iff (w : Watch) : w.due = 0 ↔ w.next = .nowhere := by
  unfold due
  split <;> (try split) <;> simp [*]

/-- What happens brings the end no further away. -/
theorem due_of_leads {scene : Scene} (h : w.scene.Leads scene) :
    ({ w with scene } : Watch).due ≤ w.due := by
  have hless {before after : Bool} {a b : Nat} (hkept : before = true → after = true)
      (hab : a ≤ b) : (if after then a else b) ≤ if before then a else b := by
    cases before with
    | true => simp only [hkept rfl, if_true, Nat.le_refl]
    | false => cases after <;> simp [hab]
  obtain ⟨scene', next, found⟩ := w
  cases next with
  | entry | childToken | stdoutToken | stderrToken => exact hless h.tripped (by decide)
  | child | stdout | stderr => exact hless h.isDone (by decide)
  | nowhere => exact Nat.le_refl 0

/-- A look brings the end closer, once nothing stands in the way. -/
theorem due_look (hsettled : w.scene.isSettled = true) (hw : w.next ≠ .nowhere) :
    w.look.due < w.due := by
  obtain ⟨scene, next, found⟩ := w
  have hdone (htripped : scene.tripped = false) : scene.isDone = true := by
    have hor : (scene.tripped || scene.isDone) = true := hsettled
    rwa [htripped, Bool.false_or] at hor
  have htripped (hdone : scene.isDone = false) : scene.tripped = true := by
    have hor : (scene.tripped || scene.isDone) = true := hsettled
    rwa [hdone, Bool.or_false] at hor
  cases next with
  | entry | childToken | stdoutToken | stderrToken =>
    cases ht : scene.tripped with
    | true => simp [look, due, ht]
    | false => simp [look, due, ht, hdone ht]
  | child =>
    cases he : scene.ending with
    | some how =>
      simp only [look, due, he]
      split <;> decide
    | none =>
      have hd : scene.isDone = false := by simp [Scene.isDone, he]
      simp [look, due, he, hd, htripped hd]
  | stdout =>
    cases hc : scene.stdout.closed with
    | true =>
      simp only [look, due, hc, if_true]
      split <;> decide
    | false =>
      have hd : scene.isDone = false := by simp [Scene.isDone, hc]
      simp [look, due, hc, hd, htripped hd]
  | stderr =>
    cases hc : scene.stderr.closed with
    | true =>
      simp only [look, due, hc, if_true]
      split <;> decide
    | false =>
      have hd : scene.isDone = false := by simp [Scene.isDone, hc]
      simp [look, due, hc, hd, htripped hd]
  | nowhere => exact absurd rfl hw

/-- Looks bring the end closer whatever else happens, once nothing stands in the way. -/
theorem due_foldl {happenings : List Happening} (hsettled : w.scene.isSettled = true) :
    (happenings.foldl step w).due ≤ w.due - happenings.count .looks := by
  induction happenings generalizing w with
  | nil => exact Nat.le_refl _
  | cons happening happenings ih =>
    rw [List.foldl_cons]
    obtain ⟨rfl, hstep⟩ | ⟨hlooks, -, -, hstep⟩ | ⟨hlooks, hstep⟩ := w.step_cases happening
    · have hsettled' : w.look.scene.isSettled = true := by rw [look_scene, hsettled]
      have hrest := ih hsettled'
      rw [hstep, List.count_cons_self]
      by_cases hover : w.next = .nowhere
      · have hzero := w.due_eq_zero_iff.mpr hover
        rw [look_of_nowhere hover] at hrest ⊢
        omega
      · have hlook := due_look hsettled hover
        omega
    · rw [hstep, List.count_cons_of_ne hlooks]
      exact ih hsettled
    · have hleads := w.scene.leads_step happening
      have hle := due_of_leads hleads
      rw [hstep, List.count_cons_of_ne hlooks]
      have hrest := ih (w := { w with scene := w.scene.step happening }) (hleads.isSettled hsettled)
      omega

/-- A call comes to its end four looks after the token has been tripped, or after the child has
ended and both pipes are closed. -/
theorem run_of_isSettled (happenings rest : List Happening)
    (hsettled : (after happenings).scene.isSettled = true) (hlooks : 4 ≤ rest.count .looks)
    (call : Call) : (after (happenings ++ rest)).found.run call ≠ none := by
  have hdue : (after (happenings ++ rest)).due ≤ (after happenings).due - rest.count .looks := by
    rw [after, List.foldl_append]
    exact due_foldl hsettled
  have hfour := (after happenings).due_le_four
  have hover := (after (happenings ++ rest)).due_eq_zero_iff.mp (by omega)
  obtain ⟨hne, -⟩ | ⟨-, result, fate, hrun, -⟩ := (sound_after (happenings ++ rest)).run call
  · exact absurd hover hne
  · rw [hrun]
    nofun

/-- What any schedule of a program that starts comes to, some course of events comes to. -/
theorem exists_run_eq {s : Schedule} (hrefusal : s.refusal = none) {call : Call}
    {result : Except Failure Output} {fate : Fate} (hrun : s.run call = some (result, fate)) :
    ∃ happenings, (after happenings).found.run call = some (result, fate) := by
  cases hbefore : s.trippedBefore with
  | true =>
    rw [Schedule.run, if_pos hbefore] at hrun
    exact ⟨[.trips, .looks], hrun⟩
  | false =>
    simp only [Schedule.run, hbefore, hrefusal, Bool.false_eq_true, if_false] at hrun
    cases hwatch : Schedule.watch s.looks with
    | none => simp [hwatch] at hrun
    | some seen =>
      simp only [hwatch] at hrun
      cases seen with
      | none => exact ⟨[.looks, .looks, .trips, .looks], hrun⟩
      | some how =>
        -- the child has ended, and its pipes decide
        simp only [Schedule.collect] at hrun
        cases hstdout : Schedule.Pipe.collect s.stdout with
        | none => simp [hstdout] at hrun
        | some stdout =>
          cases stdout with
          | none =>
            simp only [hstdout] at hrun
            exact ⟨[.looks, .ends how, .looks, .looks, .trips, .looks], hrun⟩
          | some stdout =>
            cases hstderr : Schedule.Pipe.collect s.stderr with
            | none => simp [hstdout, hstderr] at hrun
            | some stderr =>
              simp only [hstdout, hstderr] at hrun
              cases stderr with
              | none =>
                exact ⟨[.looks, .ends how, .looks, .closes .stdout, .looks, .looks, .trips, .looks],
                  hrun⟩
              | some stderr =>
                exact ⟨[.looks, .ends how, .looks, .writes .stdout stdout, .closes .stdout, .looks,
                  .writes .stderr stderr, .closes .stderr, .looks], hrun⟩

/-- A call is classified soundly, whatever happens in whatever order. When it has come to an end, it
has succeeded, with all the bytes of both pipes, only if the child has ended with code zero and both
pipes are closed; it has failed, with its stage, its command line, the end of the child and all of
its standard error, only if the child has ended otherwise and both pipes are closed; and otherwise
it is cancelled, which it is only if the token was seen tripped, and then the child was not started,
or was killed, or had ended by itself. A token that is never tripped cancels nothing, and one that
is tripped before the first look lets nothing be started. The call comes to its end with the fourth
look at the latest after nothing stands in its way any longer. And no schedule is left out: what any
schedule of a program that starts comes to, some course of events comes to. -/
theorem run_classified (happenings : List Happening) (call : Call) :
    (∀ result fate, (after happenings).found.run call = some (result, fate) →
      (after happenings).Classified call result fate) ∧
    (.trips ∉ happenings → ∀ stage fate,
      (after happenings).found.run call ≠ some (.error (.cancelled stage), fate)) ∧
    (∀ before rest, happenings = before ++ .looks :: rest → .trips ∈ before → .looks ∉ before →
      (after happenings).found.run call =
        some (.error (.cancelled call.stage.name), .neverStarted)) ∧
    (∀ before rest, happenings = before ++ rest → (after before).scene.isSettled = true →
      4 ≤ rest.count .looks → (after happenings).found.run call ≠ none) ∧
    ∀ (s : Schedule) (result : Except Failure Output) (fate : Fate), s.refusal = none →
      s.run call = some (result, fate) →
        ∃ others, (after others).found.run call = some (result, fate) := by
  have hsound {result : Except Failure Output} {fate : Fate}
      (h : (after happenings).found.run call = some (result, fate)) :
      (after happenings).Classified call result fate := by
    obtain ⟨-, hnone⟩ | ⟨-, result', fate', hrun, hclassified⟩ :=
      (sound_after happenings).run call
    · rw [hnone] at h
      cases h
    · rw [hrun] at h
      cases h
      exact hclassified
  refine ⟨fun _ _ => hsound, ?never, ?onEntry, ?settled,
    fun _ _ _ hrefusal hrun => exists_run_eq hrefusal hrun⟩
  case never =>
    intro hnever stage fate hrun
    have htripped : (after happenings).scene.tripped = true := by
      cases hsound hrun with
      | refused htripped => exact htripped
      | killed htripped => exact htripped
      | abandoned htripped => exact htripped
    rcases tripped_foldl htripped with h | h
    · cases h
    · exact hnever h
  case onEntry =>
    intro before rest h htrips hnone
    have hseen : (after (before ++ .looks :: rest)).found.trippedBefore = true :=
      found_of_tripped htrips hnone
    rw [← h] at hseen
    simp only [Schedule.run, hseen, if_true]
  case settled =>
    intro before rest h hsettled hlooks
    rw [h]
    exact run_of_isSettled before rest hsettled hlooks call

/-- A child leaves its standard error to another program and ends. If that one is done before the
next look, the call succeeds with what both have written, although the token is tripped by then; if
not, it is cancelled. A call is cancelled on entry too, one whose token is left alone comes to its
end, and a child that is seen ended by a signal does so in some course of events. -/
theorem run_classified_grandchild :
    let call : Call := { stage := .setupCrs, program := ⟨"/opt/zkpor"⟩, args := ["setup"] }
    let ended : List Happening := [.looks, .looks, .writes .stdout [79, 75], .ends (.code 0),
      .closes .stdout, .looks, .looks]
    let done := ended ++ [.looks, .trips, .writes .stderr [33], .closes .stderr, .looks]
    let held := ended ++ [.looks, .trips, .looks, .looks]
    let alone := ended ++ [.closes .stderr, .looks, .looks, .looks, .looks]
    let signalled : Schedule :=
      { looks := [.running false, .ended .signal], stdout := { bytes := [], stillOpen := [false] },
        stderr := { bytes := [33] } }
    (after done).scene.tripped = true ∧
    (after done).Classified call (.ok ⟨[79, 75], Utf8.lossy [33]⟩) .ended ∧
    (after held).Classified call (.error (.cancelled "setup-crs")) .ended ∧
    (after [.trips, .looks]).found.run call =
      some (.error (.cancelled "setup-crs"), .neverStarted) ∧
    (after alone).found.run call ≠ none ∧
    (∀ stage fate, (after alone).found.run call ≠ some (.error (.cancelled stage), fate)) ∧
    signalled.run call = some (.error (.stageExecution "setup-crs" "/opt/zkpor" ["setup"] .signal
      (Utf8.lossy [33])), .ended) ∧
    ∃ others, (after others).found.run call = signalled.run call := by
  intro call ended done held alone signalled
  exact ⟨rfl, (run_classified done call).1 _ _ rfl, (run_classified held call).1 _ _ rfl,
    (run_classified [.trips, .looks] call).2.2.1 [.trips] [] rfl (by decide) (by decide),
    (run_classified alone call).2.2.2.1 (ended ++ [.closes .stderr]) _ rfl (by decide) (by decide),
    (run_classified alone call).2.1 (by decide), rfl,
    (run_classified [] call).2.2.2.2 signalled _ _ rfl rfl⟩

end Watch

end StorageProof
