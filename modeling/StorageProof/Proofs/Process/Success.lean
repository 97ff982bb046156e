import StorageProof.Proofs.Process.Turn

/-!
# Calls that succeed

The token of a call is seen tripped only if somebody cancels it. A call that has not seen its token
tripped succeeds if and only if its program was started and has ended with code zero.
-/

namespace StorageProof

namespace Held

variable {held : Held} {events : List Event}

/-- Where the token is tripped, it is cancelled in the end. -/
theorem isCancelled_after_of_trips (h : .trips ∈ held.happenings events) :
    (held.after events).isCancelled = true := by
  induction events generalizing held with
  | nil => cases h
  | cons e events ih =>
    show ((held.meet e).after events).isCancelled = true
    cases e with
    | scene happening =>
      rcases List.mem_cons.mp h with rfl | hrest
      · exact isCancelled_after (.inl (isCancelled_step_cancel List.mem_cons_self))
      · exact ih hrest
    | token s =>
      rcases List.mem_append.mp h with htrips | hrest
      · by_cases hcancelled : (held.step s).isCancelled = true
        · exact isCancelled_after (.inl hcancelled)
        · simp [hcancelled] at htrips
      · exact ih hrest

theorem isCancelled_after_of_tripped (h : (held.watch events).scene.tripped = true) :
    (held.after events).isCancelled = true := by
  rcases Watch.tripped_foldl h with hstart | htrips
  · exact isCancelled_after (.inl hstart)
  · exact isCancelled_after_of_trips htrips

end Held

namespace Watch

variable {w : Watch} {call : Call} {result : Except Failure Output} {fate : Fate}

theorem classified_of_run (h : w.Sound) (hrun : w.found.run call = some (result, fate)) :
    w.Classified call result fate := by
  obtain ⟨-, hnone⟩ | ⟨-, result', fate', hrun', hclassified⟩ := h.run call
  · rw [hnone] at hrun
    cases hrun
  · rw [hrun'] at hrun
    cases hrun
    exact hclassified

theorem Classified.tripped {stage : String}
    (h : w.Classified call (.error (.cancelled stage)) fate) : w.scene.tripped = true := by
  cases h with
  | refused htripped => exact htripped
  | killed htripped => exact htripped
  | abandoned htripped => exact htripped

end Watch

namespace Turn

variable {held : Held} {call : Call} (t : Turn held call)

def Launched : Prop := t.fate ≠ .neverStarted

def ExitedZero : Prop := (held.watch t.events).scene.ending = some (.code 0)

instance : Decidable t.Launched := inferInstanceAs (Decidable (_ ≠ _))

instance : Decidable t.ExitedZero := inferInstanceAs (Decidable (_ = _))

/-- What comes of a call is true to what has happened, if its program starts. -/
theorem classified (hrefusal : t.refusal = none) :
    (held.watch t.events).Classified call t.result t.fate := by
  have hsound := held.sound_watch t.events
  have hcomes := t.comes
  rw [hrefusal, ← hsound.1] at hcomes
  exact Watch.classified_of_run hsound hcomes

theorem run_of_refusal {cause : SystemError} (hrefusal : t.refusal = some cause)
    (hunseen : ¬ t.SawTripped) :
    t.result = .error (.stageLaunch call.stage.name call.program.text cause) ∧
      t.fate = .neverStarted := by
  have hbefore : ¬ t.seen.trippedBefore = true := fun h => hunseen (.inl h)
  have hcomes : t.seen.run call = some (t.result, t.fate) := t.comes
  rw [Schedule.run, if_neg hbefore, show t.seen.refusal = some cause from hrefusal] at hcomes
  obtain ⟨hresult, hfate⟩ := Prod.mk.inj (Option.some.inj hcomes)
  exact ⟨hresult.symm, hfate.symm⟩

/-- A call that has seen the token tripped leaves it cancelled. -/
theorem isCancelled_after (h : t.SawTripped) : t.after.isCancelled = true := by
  refine Held.isCancelled_after_of_tripped ?_
  by_cases hrefusal : t.refusal = none
  · have hclassified := t.classified hrefusal
    rw [t.sawTripped_iff.mp h] at hclassified
    exact hclassified.tripped
  · have hbefore : (held.watch t.events).found.trippedBefore = true :=
      t.trippedBefore_of_refusal hrefusal h
    have hrun : (held.watch t.events).found.run call =
        some (.error (.cancelled call.stage.name), .neverStarted) := by
      rw [Schedule.run, if_pos hbefore]
    exact (Watch.classified_of_run (held.sound_watch t.events) hrun).tripped

/-- A call that has not seen the token tripped succeeds if and only if its process has ended with
code zero. -/
theorem isOk_result_iff (hunseen : ¬ t.SawTripped) :
    t.result.isOk ↔ t.Launched ∧ t.ExitedZero := by
  rcases hrefusal : t.refusal with _ | cause
  · have hclassified := t.classified hrefusal
    have huncancelled : t.result ≠ .error (.cancelled call.stage.name) := fun h =>
      hunseen (t.sawTripped_iff.mpr h)
    unfold Launched ExitedZero
    generalize t.result = result at *
    generalize t.fate = fate at *
    cases hclassified with
    | succeeded hending => simp [hending, Except.isOk, Except.toBool]
    | failed hne hending => simp [hending, hne, Except.isOk, Except.toBool]
    | refused => exact absurd rfl huncancelled
    | killed => exact absurd rfl huncancelled
    | abandoned => exact absurd rfl huncancelled
  · obtain ⟨hresult, hfate⟩ := t.run_of_refusal hrefusal hunseen
    simp [Launched, hresult, hfate, Except.isOk, Except.toBool]

end Turn

end StorageProof
