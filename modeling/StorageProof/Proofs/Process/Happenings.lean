import StorageProof.Process.Schedule

/-!
# Watching while things happen

A child ends, its pipes deliver and close, the cancel token is tripped, and in between somebody
looks: on entry at the token, then in turn at the child and the token until the child is seen to
have ended, and after that in the same way at either pipe until it is seen closed. What the looks
find is a schedule. However all of this interleaves, what has been found is true to what has
happened.
-/

namespace StorageProof

/-! ## What happens -/

inductive Stream
  | stdout
  | stderr
  deriving DecidableEq, Repr

inductive Happening
  /-- The child ends. -/
  | ends (how : Exit)
  /-- A pipe delivers bytes, from the child or from what the child has started. -/
  | writes (stream : Stream) (bytes : Bytes)
  /-- Nobody holds a pipe open any longer. -/
  | closes (stream : Stream)
  /-- The token is tripped. -/
  | trips
  /-- A look is taken. -/
  | looks
  deriving DecidableEq, Repr

structure Channel where
  bytes : Bytes := []
  closed : Bool := false
  deriving DecidableEq, Repr

namespace Channel

/-- Nothing comes through a closed pipe. -/
def write (c : Channel) (bytes : Bytes) : Channel :=
  if c.closed then c else { c with bytes := c.bytes ++ bytes }

def close (c : Channel) : Channel := { c with closed := true }

end Channel

structure Scene where
  ending : Option Exit := none
  stdout : Channel := {}
  stderr : Channel := {}
  tripped : Bool := false
  deriving DecidableEq, Repr

namespace Scene

/-- A scene after something has happened. A child ends once. -/
def step (s : Scene) : Happening → Scene
  | .ends how => { s with ending := s.ending.or (some how) }
  | .writes .stdout bytes => { s with stdout := s.stdout.write bytes }
  | .writes .stderr bytes => { s with stderr := s.stderr.write bytes }
  | .closes .stdout => { s with stdout := s.stdout.close }
  | .closes .stderr => { s with stderr := s.stderr.close }
  | .trips => { s with tripped := true }
  | .looks => s

/-- One scene comes to another: what has ended has ended, and what is closed is closed. -/
structure Leads (s s' : Scene) : Prop where
  ending : ∀ how, s.ending = some how → s'.ending = some how
  stdout : s.stdout.closed = true → s'.stdout = s.stdout
  stderr : s.stderr.closed = true → s'.stderr = s.stderr
  tripped : s.tripped = true → s'.tripped = true

theorem leads_step (s : Scene) (h : Happening) : s.Leads (s.step h) := by
  have hwrite (c : Channel) (bytes : Bytes) (hc : c.closed = true) : c.write bytes = c := if_pos hc
  have hclose (c : Channel) (hc : c.closed = true) : c.close = c := by
    cases c
    cases hc
    rfl
  cases h with
  | ends how => exact ⟨fun _ h => by simp [step, h], fun _ => rfl, fun _ => rfl, id⟩
  | writes stream bytes =>
    cases stream with
    | stdout => exact ⟨fun _ => id, hwrite _ bytes, fun _ => rfl, id⟩
    | stderr => exact ⟨fun _ => id, fun _ => rfl, hwrite _ bytes, id⟩
  | closes stream =>
    cases stream with
    | stdout => exact ⟨fun _ => id, hclose _, fun _ => rfl, id⟩
    | stderr => exact ⟨fun _ => id, fun _ => rfl, hclose _, id⟩
  | trips => exact ⟨fun _ => id, fun _ => rfl, fun _ => rfl, fun _ => rfl⟩
  | looks => exact ⟨fun _ => id, fun _ => rfl, fun _ => rfl, id⟩

/-- Only the tripping of the token trips it. -/
theorem tripped_step {s : Scene} {h : Happening} (ht : (s.step h).tripped = true) :
    s.tripped = true ∨ h = .trips := by
  cases h with
  | trips => exact .inr rfl
  | ends how => exact .inl ht
  | looks => exact .inl ht
  | writes stream bytes => cases stream <;> exact .inl ht
  | closes stream => cases stream <;> exact .inl ht

end Scene

/-! ## What is seen -/

inductive Attention
  /-- The token, before anything is started. -/
  | entry
  | child
  | childToken
  | stdout
  | stdoutToken
  | stderr
  | stderrToken
  /-- Watching is over. -/
  | nowhere
  deriving DecidableEq, Repr

/-- A scene with what the looks have found so far, and where the next one goes. -/
structure Watch where
  scene : Scene := {}
  next : Attention := .entry
  found : Schedule :=
    { looks := [], stdout := { bytes := [], closes := false },
      stderr := { bytes := [], closes := false } }
  deriving DecidableEq, Repr

/-- A look at the token while a pipe is open. -/
def Pipe.seeOpen (p : Pipe) (tripped : Bool) : Pipe :=
  { p with stillOpen := p.stillOpen ++ [tripped] }

/-- A look that finds a pipe closed. -/
def Pipe.seeClosed (p : Pipe) (bytes : Bytes) : Pipe := { p with bytes, closes := true }

namespace Watch

/-- A look. What it finds, and at what the next one is, is determined by how things stand. -/
def look (w : Watch) : Watch :=
  match w.next with
  | .entry =>
    if w.scene.tripped then
      { w with next := .nowhere, found := { w.found with trippedBefore := true } }
    else { w with next := .child }
  | .child =>
    match w.scene.ending with
    | some how =>
      { w with next := .stdout, found := { w.found with looks := w.found.looks ++ [.ended how] } }
    | none => { w with next := .childToken }
  | .childToken =>
    { w with
      next := if w.scene.tripped then .nowhere else .child
      found := { w.found with looks := w.found.looks ++ [.running w.scene.tripped] } }
  | .stdout =>
    if w.scene.stdout.closed then
      { w with
        next := .stderr
        found := { w.found with stdout := w.found.stdout.seeClosed w.scene.stdout.bytes } }
    else { w with next := .stdoutToken }
  | .stdoutToken =>
    { w with
      next := if w.scene.tripped then .nowhere else .stdout
      found := { w.found with stdout := w.found.stdout.seeOpen w.scene.tripped } }
  | .stderr =>
    if w.scene.stderr.closed then
      { w with
        next := .nowhere
        found := { w.found with stderr := w.found.stderr.seeClosed w.scene.stderr.bytes } }
    else { w with next := .stderrToken }
  | .stderrToken =>
    { w with
      next := if w.scene.tripped then .nowhere else .stderr
      found := { w.found with stderr := w.found.stderr.seeOpen w.scene.tripped } }
  | .nowhere => w

/-- Something happens, or a look is taken. Before anything is started there is no child. -/
def step (w : Watch) : Happening → Watch
  | .looks => w.look
  | .trips => { w with scene := w.scene.step .trips }
  | h => if w.next = .entry then w else { w with scene := w.scene.step h }

/-- How things stand, and what has been found, after one thing and another has happened. -/
def after (happenings : List Happening) : Watch := happenings.foldl step {}

/-- What a call may come to, by what has happened: a success if the child has ended with code zero
and a failure if it has ended otherwise, either with all that the pipes have delivered up to their
closing; or it is cancelled, with the token seen tripped, and then no child was started, or it was
killed, or it had ended. -/
inductive Classified (w : Watch) (call : Call) : Except Failure Output → Fate → Prop
  | succeeded (hending : w.scene.ending = some (.code 0)) (hstdout : w.scene.stdout.closed = true)
      (hstderr : w.scene.stderr.closed = true) :
      Classified w call (.ok ⟨w.scene.stdout.bytes, Utf8.lossy w.scene.stderr.bytes⟩) .ended
  | failed {how : Exit} (hne : how ≠ .code 0) (hending : w.scene.ending = some how)
      (hstdout : w.scene.stdout.closed = true) (hstderr : w.scene.stderr.closed = true) :
      Classified w call (.error (.stageExecution call.stage.name call.program.text call.args how
        (Utf8.lossy w.scene.stderr.bytes))) .ended
  | refused (htripped : w.scene.tripped = true) (hseen : w.found.trippedBefore = true) :
      Classified w call (.error (.cancelled call.stage.name)) .neverStarted
  | killed (htripped : w.scene.tripped = true) (hseen : .running true ∈ w.found.looks) :
      Classified w call (.error (.cancelled call.stage.name)) .killed
  | abandoned {how : Exit} (htripped : w.scene.tripped = true)
      (hseen : true ∈ w.found.stdout.stillOpen ∨ true ∈ w.found.stderr.stillOpen)
      (hending : w.scene.ending = some how) :
      Classified w call (.error (.cancelled call.stage.name)) .ended

end Watch

/-! ## What is found of each part -/

namespace Schedule

/-- Looks that settle nothing. -/
theorem watch_append {looks : List Look} (h : ∀ look ∈ looks, look = .running false)
    (rest : List Look) : watch (looks ++ rest) = watch rest := by
  induction looks with
  | nil => rfl
  | cons look looks ih =>
    obtain rfl := h look List.mem_cons_self
    exact ih fun look hlook => h look (List.mem_cons_of_mem _ hlook)

end Schedule

namespace Pipe

/-- A pipe that has been open at every look so far, with the token not tripped. -/
structure Open (p : Pipe) : Prop where
  untripped : true ∉ p.stillOpen
  noEnd : p.closes = false

/-- A pipe that has been found closed, with all that it has delivered. -/
structure Drained (p : Pipe) (c : Channel) : Prop where
  untripped : true ∉ p.stillOpen
  closes : p.closes = true
  bytes : p.bytes = c.bytes
  closed : c.closed = true

variable {p : Pipe} {c : Channel}

theorem any_stillOpen (h : true ∉ p.stillOpen) : p.stillOpen.any id = false := by
  rw [List.any_eq_false]
  intro tripped ht htripped
  obtain rfl : tripped = true := htripped
  exact h ht

theorem Open.collect (h : p.Open) : Schedule.Pipe.collect p = none := by
  simp [Schedule.Pipe.collect, any_stillOpen h.untripped, h.noEnd]

theorem Drained.collect (h : p.Drained c) : Schedule.Pipe.collect p = some (some c.bytes) := by
  simp [Schedule.Pipe.collect, any_stillOpen h.untripped, h.closes, h.bytes]

theorem collect_of_mem (h : true ∈ p.stillOpen) : Schedule.Pipe.collect p = some none := by
  have hany : p.stillOpen.any id = true := List.any_eq_true.mpr ⟨true, h, rfl⟩
  simp [Schedule.Pipe.collect, hany]

theorem Open.seeOpen (h : p.Open) : (p.seeOpen false).Open where
  untripped := by simp [Pipe.seeOpen, h.untripped]
  noEnd := h.noEnd

theorem mem_seeOpen (p : Pipe) : true ∈ (p.seeOpen true).stillOpen := by simp [Pipe.seeOpen]

theorem Open.seeClosed (h : p.Open) (hc : c.closed = true) : (p.seeClosed c.bytes).Drained c where
  untripped := h.untripped
  closes := rfl
  bytes := rfl
  closed := hc

end Pipe

namespace Schedule

variable {s : Schedule} {scene : Scene} {how : Exit}

/-- The child has been found running at every look so far, with the token not tripped. -/
structure Running (s : Schedule) : Prop where
  started : s.trippedBefore = false
  running : ∀ look ∈ s.looks, look = .running false

structure Exited (s : Schedule) (scene : Scene) (how : Exit) : Prop where
  started : s.trippedBefore = false
  ending : scene.ending = some how
  seen : watch s.looks = some (some how)

inductive Over (s : Schedule) (scene : Scene) : Prop
  | refused (htripped : scene.tripped = true) (hseen : s.trippedBefore = true)
  | killed (htripped : scene.tripped = true) (hstarted : s.trippedBefore = false)
      (hseen : .running true ∈ s.looks) (hwatch : watch s.looks = some none)
  | leftStdout {how : Exit} (hexited : s.Exited scene how) (htripped : scene.tripped = true)
      (hseen : true ∈ s.stdout.stillOpen)
  | leftStderr {how : Exit} (hexited : s.Exited scene how) (htripped : scene.tripped = true)
      (hstdout : s.stdout.Drained scene.stdout) (hseen : true ∈ s.stderr.stillOpen)
  | finished {how : Exit} (hexited : s.Exited scene how)
      (hstdout : s.stdout.Drained scene.stdout) (hstderr : s.stderr.Drained scene.stderr)

theorem Running.exited (h : s.Running) (hending : scene.ending = some how) :
    ({ s with looks := s.looks ++ [.ended how] } : Schedule).Exited scene how :=
  ⟨h.started, hending, watch_append h.running _⟩

theorem Running.concat (h : s.Running) :
    ({ s with looks := s.looks ++ [.running false] } : Schedule).Running := by
  refine ⟨h.started, fun look hlook => ?_⟩
  rcases List.mem_append.mp hlook with hold | hnew
  · exact h.running look hold
  · exact List.mem_singleton.mp hnew

theorem Running.over_of_tripped (h : s.Running) (htripped : scene.tripped = true) :
    ({ s with looks := s.looks ++ [.running true] } : Schedule).Over scene :=
  .killed htripped h.started (by simp) (watch_append h.running _)

/-- How a child has ended does not depend on its pipes. -/
theorem Exited.withPipes (h : s.Exited scene how) (stdout stderr : Pipe) :
    ({ s with stdout, stderr } : Schedule).Exited scene how := ⟨h.started, h.ending, h.seen⟩

theorem Exited.of_leads {scene' : Scene} (h : s.Exited scene how) (hleads : scene.Leads scene') :
    s.Exited scene' how := ⟨h.started, hleads.ending how h.ending, h.seen⟩

end Schedule

namespace Watch

variable {w : Watch}

/-- What has been found is true to what has happened. -/
def Sound (w : Watch) : Prop :=
  w.found.refusal = none ∧
  match w.next with
  | .entry | .child | .childToken => w.found.Running ∧ w.found.stdout.Open ∧ w.found.stderr.Open
  | .stdout | .stdoutToken =>
    (∃ how, w.found.Exited w.scene how) ∧ w.found.stdout.Open ∧ w.found.stderr.Open
  | .stderr | .stderrToken =>
    (∃ how, w.found.Exited w.scene how) ∧ w.found.stdout.Drained w.scene.stdout ∧
      w.found.stderr.Open
  | .nowhere => w.found.Over w.scene

/-! ## Looks and happenings -/

/-- What has been found stays true when something happens. -/
theorem Sound.of_leads {scene : Scene} (h : w.Sound) (hleads : w.scene.Leads scene) :
    ({ w with scene } : Watch).Sound := by
  have hexited (h : ∃ how, w.found.Exited w.scene how) : ∃ how, w.found.Exited scene how := by
    obtain ⟨how, h⟩ := h
    exact ⟨how, h.of_leads hleads⟩
  have hout (h : w.found.stdout.Drained w.scene.stdout) : w.found.stdout.Drained scene.stdout := by
    rw [hleads.stdout h.closed]
    exact h
  have herr (h : w.found.stderr.Drained w.scene.stderr) : w.found.stderr.Drained scene.stderr := by
    rw [hleads.stderr h.closed]
    exact h
  obtain ⟨before, next, found⟩ := w
  obtain ⟨hrefusal, h⟩ := h
  refine ⟨hrefusal, ?_⟩
  cases next with
  | entry | child | childToken => exact h
  | stdout | stdoutToken => exact ⟨hexited h.1, h.2⟩
  | stderr | stderrToken => exact ⟨hexited h.1, hout h.2.1, h.2.2⟩
  | nowhere =>
    cases (show found.Over before from h) with
    | refused htripped hseen => exact .refused (hleads.tripped htripped) hseen
    | killed htripped hstarted hseen hwatch =>
      exact .killed (hleads.tripped htripped) hstarted hseen hwatch
    | leftStdout hx htripped hseen =>
      exact .leftStdout (hx.of_leads hleads) (hleads.tripped htripped) hseen
    | leftStderr hx htripped hstdout hseen =>
      exact .leftStderr (hx.of_leads hleads) (hleads.tripped htripped) (hout hstdout) hseen
    | finished hx hstdout hstderr =>
      exact .finished (hx.of_leads hleads) (hout hstdout) (herr hstderr)

theorem Sound.look (h : w.Sound) : w.look.Sound := by
  obtain ⟨scene, next, found⟩ := w
  obtain ⟨hrefusal, h⟩ := h
  cases next with
  | entry =>
    obtain ⟨hrunning, hpipes⟩ := h
    cases htripped : scene.tripped with
    | true =>
      simp only [Watch.look, htripped, if_true]
      exact ⟨hrefusal, .refused htripped rfl⟩
    | false =>
      simp only [Watch.look, htripped, Bool.false_eq_true, if_false]
      exact ⟨hrefusal, hrunning, hpipes⟩
  | child =>
    obtain ⟨hrunning, hpipes⟩ := h
    cases hending : scene.ending with
    | none =>
      simp only [Watch.look, hending]
      exact ⟨hrefusal, hrunning, hpipes⟩
    | some how =>
      simp only [Watch.look, hending]
      exact ⟨hrefusal, ⟨how, hrunning.exited hending⟩, hpipes⟩
  | childToken =>
    obtain ⟨hrunning, hpipes⟩ := h
    cases htripped : scene.tripped with
    | true =>
      simp only [Watch.look, htripped, if_true]
      exact ⟨hrefusal, hrunning.over_of_tripped htripped⟩
    | false =>
      simp only [Watch.look, htripped, Bool.false_eq_true, if_false]
      exact ⟨hrefusal, hrunning.concat, hpipes⟩
  | stdout =>
    obtain ⟨⟨how, hx⟩, hstdout, hstderr⟩ := h
    cases hclosed : scene.stdout.closed with
    | true =>
      simp only [Watch.look, hclosed, if_true]
      exact ⟨hrefusal, ⟨how, hx.withPipes _ _⟩, hstdout.seeClosed hclosed, hstderr⟩
    | false =>
      simp only [Watch.look, hclosed, Bool.false_eq_true, if_false]
      exact ⟨hrefusal, ⟨how, hx⟩, hstdout, hstderr⟩
  | stdoutToken =>
    obtain ⟨⟨how, hx⟩, hstdout, hstderr⟩ := h
    cases htripped : scene.tripped with
    | true =>
      simp only [Watch.look, htripped, if_true]
      exact ⟨hrefusal, .leftStdout (hx.withPipes _ _) htripped
        found.stdout.mem_seeOpen⟩
    | false =>
      simp only [Watch.look, htripped, Bool.false_eq_true, if_false]
      exact ⟨hrefusal, ⟨how, hx.withPipes _ _⟩, hstdout.seeOpen, hstderr⟩
  | stderr =>
    obtain ⟨⟨how, hx⟩, hstdout, hstderr⟩ := h
    cases hclosed : scene.stderr.closed with
    | true =>
      simp only [Watch.look, hclosed, if_true]
      exact ⟨hrefusal, .finished (hx.withPipes _ _) hstdout
        (hstderr.seeClosed hclosed)⟩
    | false =>
      simp only [Watch.look, hclosed, Bool.false_eq_true, if_false]
      exact ⟨hrefusal, ⟨how, hx⟩, hstdout, hstderr⟩
  | stderrToken =>
    obtain ⟨⟨how, hx⟩, hstdout, hstderr⟩ := h
    cases htripped : scene.tripped with
    | true =>
      simp only [Watch.look, htripped, if_true]
      exact ⟨hrefusal, .leftStderr (hx.withPipes _ _) htripped hstdout
        found.stderr.mem_seeOpen⟩
    | false =>
      simp only [Watch.look, htripped, Bool.false_eq_true, if_false]
      exact ⟨hrefusal, ⟨how, hx.withPipes _ _⟩, hstdout, hstderr.seeOpen⟩
  | nowhere => exact ⟨hrefusal, h⟩

/-- What a step can be: a look, nothing at all before the child is started, or a change of scene. -/
theorem step_cases (w : Watch) (h : Happening) :
    (h = .looks ∧ w.step h = w.look) ∨
    (h ≠ .looks ∧ h ≠ .trips ∧ w.next = .entry ∧ w.step h = w) ∨
    (h ≠ .looks ∧ w.step h = { w with scene := w.scene.step h }) := by
  have hguarded (hlooks : h ≠ .looks) (htrips : h ≠ .trips)
      (hstep : w.step h = if w.next = .entry then w else { w with scene := w.scene.step h }) :
      (h ≠ .looks ∧ h ≠ .trips ∧ w.next = .entry ∧ w.step h = w) ∨
        (h ≠ .looks ∧ w.step h = { w with scene := w.scene.step h }) := by
    by_cases hentry : w.next = .entry
    · rw [if_pos hentry] at hstep
      exact .inl ⟨hlooks, htrips, hentry, hstep⟩
    · rw [if_neg hentry] at hstep
      exact .inr ⟨hlooks, hstep⟩
  cases h with
  | looks => exact .inl ⟨rfl, rfl⟩
  | trips => exact .inr (.inr ⟨nofun, rfl⟩)
  | ends how => exact .inr (hguarded nofun nofun rfl)
  | writes stream bytes => exact .inr (hguarded nofun nofun rfl)
  | closes stream => exact .inr (hguarded nofun nofun rfl)

theorem Sound.step (h : w.Sound) (happening : Happening) : (w.step happening).Sound := by
  obtain ⟨-, hstep⟩ | ⟨-, -, -, hstep⟩ | ⟨-, hstep⟩ := w.step_cases happening
  · rw [hstep]
    exact h.look
  · rw [hstep]
    exact h
  · rw [hstep]
    exact h.of_leads (w.scene.leads_step happening)

theorem Sound.foldl (h : w.Sound) (happenings : List Happening) :
    (happenings.foldl Watch.step w).Sound := by
  induction happenings generalizing w with
  | nil => exact h
  | cons happening happenings ih => exact ih (h.step happening)

theorem sound_start : ({} : Watch).Sound := by
  have hrunning : ({} : Watch).found.Running := ⟨rfl, fun _ h => absurd h List.not_mem_nil⟩
  exact ⟨rfl, hrunning, ⟨List.not_mem_nil, rfl⟩, ⟨List.not_mem_nil, rfl⟩⟩

theorem sound_after (happenings : List Happening) : (after happenings).Sound :=
  sound_start.foldl happenings

end Watch

end StorageProof
