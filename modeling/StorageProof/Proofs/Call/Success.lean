import StorageProof.Flow.Course
import StorageProof.Proofs.Call.Acceptance

/-!
# When steps succeed

For each step of a course, what it takes to succeed and what has then been done. The success of a
whole course is taken apart into that of its steps, and put together from it.
-/

namespace StorageProof

variable {σ α β : Type}

theorem Action.ofExcept_eq_ok_iff {r : Except Failure α} {a : α} {s s' : Site σ} :
    Action.ofExcept r s = (.ok a, s') ↔ r = .ok a ∧ s' = s := by
  rw [Action.ofExcept, Prod.mk.injEq, eq_comm (a := s)]

/-- A check after which something else is the result. -/
theorem Action.ofExcept_bind_pure (r : Except Failure α) (b : β) (s : Site σ) :
    (Action.ofExcept r >>= fun _ => pure b) s = (r.map fun _ => b, s) :=
  bind_pure_apply (Action.ofExcept r) (fun _ => b) s

/-! ## Calls and questions -/

theorem Call.perform_of_stdout (run : Runner σ) {call : Call} (hd : call.declared = .stdout) :
    call.perform run = (run call >>= fun output =>
      Action.ofExcept (call.stage.requireStdout output) >>= fun _ => pure output) := by
  unfold Call.perform
  rw [hd]

/-- What is printed is there, or it is blank and its want is the failure. -/
theorem Stage.requireStdout_cases (stage : Stage) (output : Output) :
    (Text.isAllBlank output.text = true ∧
      stage.requireStdout output = .error (stage.withoutOutput "stdout")) ∨
    stage.requireStdout output = .ok (Text.trim output.text) := by
  by_cases hblank : Text.trim output.text = ""
  · exact .inl ⟨(Text.trim_eq_empty_iff output.text).mp hblank, if_pos hblank⟩
  · exact .inr (if_neg hblank)

/-- A call that is judged by what it prints succeeds if it prints something. -/
theorem Call.perform_stdout_eq_ok_iff {run : Runner σ} {call : Call} (hd : call.declared = .stdout)
    {output : Output} {s s' : Site σ} :
    call.perform run s = (.ok output, s') ↔
      run call s = (.ok output, s') ∧ Text.isAllBlank output.text = false := by
  rw [Call.perform_of_stdout run hd, bind_eq_ok_iff]
  constructor
  · rintro ⟨o, s₁, hrun, h⟩
    rw [Action.ofExcept_bind_pure, Prod.mk.injEq] at h
    obtain ⟨text, htext, rfl⟩ := map_eq_ok h.1
    have hok := call.stage.isOk_requireStdout o
    rw [htext] at hok
    exact ⟨h.2 ▸ hrun, by simpa [Except.isOk, Except.toBool] using hok⟩
  · rintro ⟨hrun, hb⟩
    have hok := call.stage.isOk_requireStdout output
    rw [hb] at hok
    obtain ⟨text, htext⟩ := exists_of_isOk hok
    refine ⟨output, s', hrun, ?_⟩
    rw [Action.ofExcept_bind_pure, htext]
    rfl

namespace Account

variable {account : Account} {run : Runner σ} {q : Question} {id : Identifier} {s s' : Site σ}

/-- A question whose answer is read succeeds if its call does and the answer can be read. -/
theorem ask_eq_ok_iff {read : String → Except Failure α} {a : α} :
    (account.ask run q id >>= fun answer => Action.ofExcept (read answer)) s = (.ok a, s') ↔
      ∃ output, run (account.questionCall q id) s = (.ok output, s') ∧
        read output.text = .ok a := by
  constructor
  · intro h
    obtain ⟨answer, s₁, hask, h⟩ := bind_eq_ok_iff.mp h
    obtain ⟨hread, rfl⟩ := Action.ofExcept_eq_ok_iff.mp h
    unfold ask at hask
    rcases hrun : run (account.questionCall q id) s with ⟨e | output, s₂⟩
    · rw [hrun] at hask
      cases hask
    · rw [hrun] at hask
      cases hask
      exact ⟨output, rfl, hread⟩
  · rintro ⟨output, hrun, hread⟩
    refine bind_eq_ok_iff.mpr ⟨output.text, s', ?_, Action.ofExcept_eq_ok_iff.mpr ⟨hread, rfl⟩⟩
    simp only [ask, hrun]

theorem agreement_eq_ok_iff {a : Agreement} :
    account.agreement run id s = (.ok a, s') ↔
      ∃ output, run (account.questionCall .agreement id) s = (.ok output, s') ∧
        Agreement.ofAnswer id output.text = .ok a := ask_eq_ok_iff

theorem proof_eq_ok_iff {p : ProofBlob} :
    account.proof run id s = (.ok p, s') ↔
      ∃ output, run (account.questionCall .proof id) s = (.ok output, s') ∧
        ProofBlob.ofAnswer id output.text = .ok p := ask_eq_ok_iff

end Account

/-- Only one scheme has a Merkle statement in its public inputs. -/
theorem Agreement.merkleInput_eq_ok_iff {a : Agreement} {input : PublicInput} :
    a.merkleInput = .ok input ↔ a.kind = .phashMerkle ∧
      PublicInput.parse (Utf8.ofString a.publicInputs) = .ok input := by
  unfold merkleInput
  cases a.kind with
  | phashMerkle => simp
  | ssim => simp

/-- An answer without a proof in it is not one with an empty proof. -/
theorem ProofBlob.ne_nil_of_ofAnswer {id : Identifier} {answer : String} {p : ProofBlob}
    (h : ofAnswer id answer = .ok p) : p.bytes ≠ [] := by
  unfold ofAnswer at h
  simp only at h
  split at h
  · cases h
  obtain ⟨q, -, h⟩ := exists_of_bind_eq_ok h
  cases hempty : q.isEmpty with
  | true =>
    rw [hempty] at h
    cases h
  | false =>
    rw [hempty] at h
    cases h
    exact List.isEmpty_eq_false_iff.mp hempty

/-! ## Courses and runs -/

namespace Course

theorem act_eq_ok_iff {a : Action σ α} {st st' : Site σ × List RunState} {x : α} :
    act a st = (.ok x, st') ↔ ∃ site, a st.1 = (.ok x, site) ∧ st' = (site, st.2) := by
  rcases h : a st.1 with ⟨r, site⟩
  have hact : act a st = (r, (site, st.2)) := by simp only [act, h]
  rw [hact]
  constructor
  · intro heq
    cases heq
    exact ⟨site, rfl, rfl⟩
  · rintro ⟨site', heq, rfl⟩
    cases heq
    rfl

theorem enter_bind (next : RunState) (f : Unit → Course σ β) (st : Site σ × List RunState) :
    (enter next >>= f) st = f () (st.1, st.2 ++ [next]) := rfl

theorem act_bind_eq_ok_iff {a : Action σ α} {f : α → Course σ β}
    {st st' : Site σ × List RunState} {b : β} :
    (act a >>= f) st = (.ok b, st') ↔
      ∃ x site, a st.1 = (.ok x, site) ∧ f x (site, st.2) = (.ok b, st') := by
  rw [bind_eq_ok_iff]
  constructor
  · rintro ⟨x, _, hact, hf⟩
    obtain ⟨site, ha, rfl⟩ := act_eq_ok_iff.mp hact
    exact ⟨x, site, ha, hf⟩
  · rintro ⟨x, site, ha, hf⟩
    exact ⟨x, _, act_eq_ok_iff.mpr ⟨site, ha, rfl⟩, hf⟩

end Course

end StorageProof
