import StorageProof.Proofs.Flow.Verification
import StorageProof.Proofs.Text.Lines

/-!
# Which line decides

A verdict is that of the last line that mentions the result and has a readable value. As long as the
last line that mentions the result is readable, this is the last such line itself; where it is not,
the lines before it decide. A check that ended well without a verdict fails for the want of one.
-/

namespace StorageProof

variable {σ : Type}

namespace Verdict

/-- A line that mentions the result somewhere, in any case. -/
def Mentions (line : List Char) : Prop :=
  ∃ before word after, line = before ++ word ++ after ∧ Text.lowerList word = "result".toList

def word : Bool → String
  | true => "true"
  | false => "false"

/-- A line that says `b`: what stands behind its last mark is, without blanks around it and in any
case, the word for `b`. -/
def Says (line : List Char) (b : Bool) : Prop :=
  ∃ name mark value, line = name ++ mark :: value ∧ isMark mark = true ∧
    (∀ c ∈ value, isMark c = false) ∧
    Text.lowerList (Text.trimList value) = (word b).toList

/-- A line that mentions the result and says what it is. -/
def Readable (line : List Char) : Prop := Mentions line ∧ ∃ b, Says line b

/-- The verdict of a text if the last line that mentions the result decides, whatever the lines
before it say. -/
def LastDecides (text : String) (b : Bool) : Prop :=
  ∃ line, IsLast Mentions (Text.lines text.toList) line ∧ Says line b

/-! ## One line -/

theorem mentionsResult_iff (line : List Char) : mentionsResult line = true ↔ Mentions line :=
  Text.containsList_lowerList_iff "result".toList line

/-- The value of a line stands behind its last mark. -/
theorem valueText?_eq_some_iff (line value : List Char) :
    valueText? line = some value ↔
      ∃ name mark, line = name ++ mark :: value ∧ isMark mark = true ∧
        ∀ c ∈ value, isMark c = false := by
  rw [valueText?, Option.ite_none_right_eq_some, Option.some.injEq]
  constructor
  · rintro ⟨hany, hvalue⟩
    -- what is left of the reversed line begins with its last mark
    have hsplit := List.takeWhile_append_dropWhile (p := (!isMark ·)) (l := line.reverse)
    rcases hrest : line.reverse.dropWhile (!isMark ·) with _ | ⟨mark, rest⟩
    · rw [List.dropWhile_eq_nil_iff] at hrest
      obtain ⟨c, hc, hmark⟩ := List.any_eq_true.mp hany
      have hfree := hrest c (List.mem_reverse.mpr hc)
      rw [hmark] at hfree
      cases hfree
    · rw [hrest] at hsplit
      have hmark : (!isMark mark) = false := by
        have h := List.head?_dropWhile_not (!isMark ·) line.reverse
        rwa [hrest] at h
      refine ⟨rest.reverse, mark, ?_, by simpa using hmark, fun c hc => ?_⟩
      · have hline := congrArg List.reverse hsplit
        rw [List.reverse_reverse, List.reverse_append, List.reverse_cons, hvalue] at hline
        simpa using hline.symm
      · rw [← hvalue, List.mem_reverse] at hc
        have hfree := List.all_eq_true.mp List.all_takeWhile c hc
        simpa using hfree
  · rintro ⟨name, mark, rfl, hmark, hfree⟩
    refine ⟨List.any_eq_true.mpr ⟨mark, by simp, hmark⟩, ?_⟩
    have hvalue : ∀ c ∈ value.reverse, (!isMark c) = true := by
      intro c hc
      rw [hfree c (List.mem_reverse.mp hc)]
      rfl
    rw [List.reverse_append, List.reverse_cons, List.append_assoc,
      List.takeWhile_append_of_pos hvalue, List.singleton_append,
      List.takeWhile_cons_of_neg (by simp [hmark]), List.append_nil, List.reverse_reverse]

theorem truth?_eq_some_iff (text : List Char) (b : Bool) :
    truth? text = some b ↔ Text.lowerList (Text.trimList text) = (word b).toList := by
  unfold truth?
  generalize Text.lowerList (Text.trimList text) = value
  have hne : "true".toList ≠ "false".toList := by decide
  by_cases htrue : value = "true".toList
  · rw [if_pos htrue, htrue]
    cases b <;> simp [word]
  · rw [if_neg htrue]
    by_cases hfalse : value = "false".toList
    · rw [if_pos hfalse, hfalse]
      cases b <;> simp [word]
    · rw [if_neg hfalse]
      cases b with
      | true => exact iff_of_false (fun h => nomatch h) htrue
      | false => exact iff_of_false (fun h => nomatch h) hfalse

theorem ofLine?_eq_some_iff (line : List Char) (b : Bool) :
    ofLine? line = some b ↔ Says line b := by
  rw [ofLine?, Option.bind_eq_some_iff]
  constructor
  · rintro ⟨value, hvalue, htruth⟩
    obtain ⟨name, mark, hline, hmark, hfree⟩ := (valueText?_eq_some_iff line value).mp hvalue
    exact ⟨name, mark, value, hline, hmark, hfree, (truth?_eq_some_iff value b).mp htruth⟩
  · rintro ⟨name, mark, value, hline, hmark, hfree, hword⟩
    exact ⟨value, (valueText?_eq_some_iff line value).mpr ⟨name, mark, hline, hmark, hfree⟩,
      (truth?_eq_some_iff value b).mpr hword⟩

/-- A line does not say two things. -/
theorem Says.unique {line : List Char} {b b' : Bool} (h : Says line b) (h' : Says line b') :
    b = b' := by
  rw [← ofLine?_eq_some_iff] at h h'
  exact Option.some.inj (h.symm.trans h')

/-! ## All lines -/

/-- What is found in lines without a readable one. -/
theorem findSome?_eq_none_iff (ls : List (List Char)) :
    (ls.filter mentionsResult).findSome? ofLine? = none ↔ ∀ line ∈ ls, ¬ Readable line := by
  rw [List.findSome?_eq_none_iff]
  refine ⟨fun h line hline hreadable => ?_, fun h line hline => ?_⟩
  · obtain ⟨hmentions, b, hsaid⟩ := hreadable
    have hnone := h line (List.mem_filter.mpr ⟨hline, (mentionsResult_iff line).mpr hmentions⟩)
    rw [(ofLine?_eq_some_iff line b).mpr hsaid] at hnone
    cases hnone
  · obtain ⟨hmem, hmentions⟩ := List.mem_filter.mp hline
    cases hsaid : ofLine? line with
    | none => rfl
    | some b =>
      refine absurd ⟨(mentionsResult_iff line).mp hmentions, b, ?_⟩ (h line hmem)
      exact (ofLine?_eq_some_iff line b).mp hsaid

theorem ofOutput?_eq_none_iff (text : String) :
    ofOutput? text = none ↔ ∀ line ∈ Text.lines text.toList, ¬ Readable line := by
  rw [ofOutput?, findSome?_eq_none_iff]
  simp only [List.mem_reverse]

/-- The last readable line decides. -/
theorem ofOutput?_of_isLast {text : String} {line : List Char} {b : Bool}
    (h : IsLast Readable (Text.lines text.toList) line) (hsaid : Says line b) :
    ofOutput? text = some b := by
  obtain ⟨before, after, hlines, hreadable, hafter⟩ := h
  have hnone : (after.reverse.filter mentionsResult).findSome? ofLine? = none := by
    refine (findSome?_eq_none_iff after.reverse).mpr fun l hl => ?_
    exact hafter l (List.mem_reverse.mp hl)
  have hmentions : mentionsResult line = true := (mentionsResult_iff line).mpr hreadable.1
  have hreverse : (before ++ line :: after).reverse = after.reverse ++ line :: before.reverse := by
    simp
  rw [ofOutput?, hlines, hreverse, List.filter_append, List.findSome?_append, hnone,
    List.filter_cons_of_pos hmentions, List.findSome?_cons,
    (ofLine?_eq_some_iff line b).mpr hsaid]
  rfl

/-- A verdict is what the last readable line says. -/
theorem ofOutput?_eq_some_iff (text : String) (b : Bool) :
    ofOutput? text = some b ↔
      ∃ line, IsLast Readable (Text.lines text.toList) line ∧ Says line b := by
  refine ⟨fun h => ?_, fun ⟨_, hlast, hsaid⟩ => ofOutput?_of_isLast hlast hsaid⟩
  have hsome : ∃ line ∈ Text.lines text.toList, Readable line := by
    by_contra hno
    have hnone := (ofOutput?_eq_none_iff text).mpr fun line hline hreadable =>
      hno ⟨line, hline, hreadable⟩
    rw [h] at hnone
    cases hnone
  obtain ⟨line, hlast⟩ := exists_isLast hsome
  obtain ⟨-, b', hsaid⟩ := hlast.mem.2
  rw [ofOutput?_of_isLast hlast hsaid] at h
  cases h
  exact ⟨line, hlast, hsaid⟩

theorem ofOutput?_of_isAllBlank {text : String} (h : Text.isAllBlank text = true) :
    ofOutput? text = none := by
  refine (ofOutput?_eq_none_iff text).mpr fun line hline hreadable => ?_
  obtain ⟨before, word, after, hsplit, hword⟩ := hreadable.1
  obtain ⟨c, hc, hlower⟩ : ∃ c ∈ word, Text.lowerChar c = 'r' := by
    have hr : 'r' ∈ Text.lowerList word := by
      rw [hword]
      decide
    exact List.mem_map.mp hr
  have hmem : c ∈ line := by
    rw [hsplit]
    exact List.mem_append_left _ (List.mem_append_right _ hc)
  have hblank : Text.isBlank c = true :=
    List.all_eq_true.mp h c ((Text.lined_lines text.toList).mem hline hmem)
  rw [Text.lowerChar_of_isBlank hblank] at hlower
  rw [hlower] at hblank
  exact absurd hblank (by decide)

/-- That the last line that mentions the result decides is true of a text unless this line cannot
be read and one before it can. -/
theorem ofOutput?_eq_lastDecides_iff (text : String) :
    (∀ b, ofOutput? text = some b ↔ LastDecides text b) ↔
      ∀ line, IsLast Mentions (Text.lines text.toList) line → Readable line ∨
        ∀ l ∈ Text.lines text.toList, ¬ Readable l := by
  constructor
  · intro hlaw line hlast
    refine or_iff_not_imp_right.mpr fun hsome => ?_
    have hverdict : ofOutput? text ≠ none := fun hnone =>
      hsome ((ofOutput?_eq_none_iff text).mp hnone)
    obtain ⟨b, hb⟩ := Option.ne_none_iff_exists'.mp hverdict
    obtain ⟨line', hlast', hsaid⟩ := (hlaw b).mp hb
    rw [hlast.unique hlast']
    exact ⟨hlast'.mem.2, b, hsaid⟩
  · intro hlast b
    rw [ofOutput?_eq_some_iff]
    constructor
    · rintro ⟨line, hreadable, hsaid⟩
      obtain ⟨line', hlast'⟩ := exists_isLast ⟨line, hreadable.mem.1, hreadable.mem.2.1⟩
      rcases hlast line' hlast' with hline' | hnone
      · rw [hreadable.unique (hlast'.of_imp (fun _ h => h.1) hline')] at hsaid
        exact ⟨line', hlast', hsaid⟩
      · exact absurd hreadable.mem.2 (hnone line hreadable.mem.1)
    · rintro ⟨line, hlast', hsaid⟩
      exact ⟨line, hlast'.of_imp (fun _ h => h.1) ⟨hlast'.mem.2, b, hsaid⟩, hsaid⟩

/-- The proving engine takes back, in a way that cannot be read, what it has said before. -/
def wavering : String := "result = true\nresult = maybe\n"

/-- The last line that mentions the result does not always decide: what has been said before it
stands where it cannot be read. -/
theorem not_lastDecides_wavering :
    ¬ ∀ b, ofOutput? wavering = some b ↔ LastDecides wavering b := by
  intro hlaw
  have hlines : Text.lines wavering.toList =
      ["result = true".toList, "result = maybe".toList] := by decide +kernel
  have hlast : IsLast Mentions (Text.lines wavering.toList) "result = maybe".toList := by
    rw [hlines]
    exact ⟨["result = true".toList], [], rfl, (mentionsResult_iff _).mp (by decide +kernel),
      fun _ h => absurd h List.not_mem_nil⟩
  rcases (ofOutput?_eq_lastDecides_iff wavering).mp hlaw _ hlast with hreadable | hnone
  · obtain ⟨-, b, hsaid⟩ := hreadable
    have hunreadable : ofLine? "result = maybe".toList = none := by decide +kernel
    rw [(ofLine?_eq_some_iff _ b).mpr hsaid] at hunreadable
    cases hunreadable
  · have hverdict : ofOutput? wavering = some true := by decide +kernel
    rw [(ofOutput?_eq_none_iff wavering).mpr hnone] at hverdict
    cases hverdict

end Verdict

/-! ## Verifications with a check -/

namespace Settings

/-- What a check that has ended well makes of a verification: its verdict, or a failure for the want
of one. -/
structure Judges (output : Output) (r : Except Failure Audit) : Prop where
  verdict : ∀ b, Verdict.ofOutput? output.text = some b → ∃ digest, r = .ok ⟨b, digest⟩
  none : Verdict.ofOutput? output.text = none →
    ∃ artifact, r = .error (.artifactMissing Stage.verifyProof.name artifact)

/-- Every check that has ended well is what a verification comes to. -/
def Judged (log : List Exchange) (r : Except Failure Audit) : Prop :=
  ∀ v ∈ log, v.call.stage = .verifyProof → ∀ output, v.answer = .ok output → Judges output r

end Settings

theorem Action.ends_ofExcept_bind_pure {α β : Type} {r : Except Failure α} {b : β} {s : Site σ}
    {done : β → Site σ → Prop} {failed : Failure → Site σ → Prop}
    (hok : ∀ a, r = .ok a → done b s) (herror : ∀ f, r = .error f → failed f s) :
    Ends (Action.ofExcept r >>= fun _ => pure b) s done failed := by
  rcases r with f | a
  · exact .of_eq_error (ofExcept_bind_pure _ b s) (herror f rfl)
  · exact .of_eq_ok (ofExcept_bind_pure _ b s) (hok a rfl)

/-- A call that is judged by what it prints. Where it has ended well and fails, it has printed
nothing. -/
theorem Call.ends_perform_stdout (run : Runner σ) {call : Call} (hd : call.declared = .stdout)
    (s : Site (σ × List Exchange)) :
    Ends (call.perform run.observed) s
      (fun output s' => (run.exchange call s).answer = .ok output ∧
        s'.log = s.log ++ [run.exchange call s])
      (fun f s' => s'.log = s.log ++ [run.exchange call s] ∧
        ∀ output, (run.exchange call s).answer = .ok output →
          Text.isAllBlank output.text = true ∧ f = call.stage.withoutOutput "stdout") := by
  have hobserved := run.observed_eq call s
  rw [Call.perform_of_stdout run.observed hd]
  rcases hrun : run call s.inner with ⟨f | output, s'⟩
  · rw [hrun] at hobserved
    refine .of_eq_error (bind_of_error hobserved) ⟨rfl, fun output houtput => ?_⟩
    have hanswer : (run.exchange call s).answer = .error f := congrArg Prod.fst hrun
    rw [hanswer] at houtput
    cases houtput
  · rw [hrun] at hobserved
    have hanswer : (run.exchange call s).answer = .ok output := congrArg Prod.fst hrun
    refine .after_ok hobserved ?_
    refine Action.ends_ofExcept_bind_pure (fun _ _ => ⟨hanswer, rfl⟩) fun f hfails => ?_
    refine ⟨rfl, fun output' houtput' => ?_⟩
    rw [hanswer] at houtput'
    cases houtput'
    obtain ⟨hblank, hcheck⟩ | hcheck := call.stage.requireStdout_cases output
    · rw [hcheck] at hfails
      cases hfails
      exact ⟨hblank, rfl⟩
    · rw [hcheck] at hfails
      cases hfails

namespace Settings

theorem judged_of_allCalls {log : List Exchange} {r : Except Failure Audit}
    (h : AllCalls (·.stage ≠ .verifyProof) log) : Judged log r :=
  fun v hv hstage => absurd hstage (h v hv)

/-- The last call is the only check. -/
theorem judged_concat {log : List Exchange} {e : Exchange} {r : Except Failure Audit}
    (h : AllCalls (·.stage ≠ .verifyProof) log)
    (he : ∀ output, e.answer = .ok output → Judges output r) : Judged (log ++ [e]) r := by
  intro v hv hstage
  rcases List.mem_append.mp hv with hv | hv
  · exact absurd hstage (h v hv)
  · rw [List.mem_singleton] at hv
    rwa [hv]

/-- The last part of a verification comes to what its check does. -/
theorem Fetched.judged_check {s : Settings} {run : Runner σ} {id : Identifier} {lease : Lease}
    {q c : Exchange} {a : Agreement} {input : PublicInput} {p : ProofBlob}
    (h : s.Fetched id q c a input p)
    {st : Site (σ × List Exchange) × List RunState} (hst : st.1.log = [q, c]) :
    Ends (s.checkCourse run.observed lease input p) st
      (fun audit st' => Judged (Course.log st') (.ok audit))
      (fun f st' => Judged (Course.log st') (.error f)) := by
  have hnone {s' : Site (σ × List Exchange)} (hlog : s'.log = [q, c]) :
      AllCalls (·.stage ≠ .verifyProof) s'.log := by
    rw [hlog]
    simp [h.asked, h.fetched, Account.questionCall]
  refine Course.ends_act (ends_writeBytes lease.committedProof p.bytes st.1)
    (fun _ s₁ h₁ => ?_) (fun _ _ h₁ => judged_of_allCalls (hnone (h₁.trans hst)))
  have hlog₁ : s₁.log = [q, c] := h₁.1.trans hst
  refine Course.ends_act (ends_writeBytes lease.publicInputs input.toJson.canonicalBytes s₁)
    (fun _ s₂ h₂ => ?_) (fun _ _ h₂ => judged_of_allCalls (hnone (h₂.trans hlog₁)))
  have hnone₂ := hnone (h₂.1.trans hlog₁)
  have hdeclared : (s.verifyProof s.parameters lease.committedProof
      lease.publicInputs).declared = .stdout := rfl
  have hcheck := Call.ends_perform_stdout run hdeclared s₂
  refine Course.ends_enter (Course.ends_act hcheck (fun output s₃ h₃ => ?_) fun f s₃ h₃ => ?_)
  · obtain ⟨hanswer, hlog₃⟩ := h₃
    -- whatever is read from the output is read from what the check has answered
    have hjudged {r : Except Failure Audit} (hr : Judges output r) : Judged s₃.log r := by
      rw [hlog₃]
      refine judged_concat hnone₂ fun output' houtput' => ?_
      rw [hanswer] at houtput'
      cases houtput'
      exact hr
    cases hverdict : Verdict.ofOutput? output.text with
    | some accepted =>
      refine .pure (hjudged ⟨fun b hb => ?_, fun hno => ?_⟩)
      · rw [hverdict] at hb
        cases hb
        exact ⟨p.digest, rfl⟩
      · rw [hverdict] at hno
        cases hno
    | none =>
      refine .of_eq_error rfl (hjudged ⟨fun b hb => ?_, fun _ => ⟨_, rfl⟩⟩)
      rw [hverdict] at hb
      cases hb
  · obtain ⟨hlog₃, hblank⟩ := h₃
    show Judged s₃.log _
    rw [hlog₃]
    refine judged_concat hnone₂ fun output houtput => ?_
    obtain ⟨hempty, rfl⟩ := hblank output houtput
    refine ⟨fun b hb => ?_, fun _ => ⟨_, rfl⟩⟩
    rw [Verdict.ofOutput?_of_isAllBlank hempty] at hb
    cases hb

/-- A verification with a check that has ended well comes to the verdict of the check, or fails for
the want of one. -/
theorem judged_verify (s : Settings) (run : Runner σ) (id : Identifier) (d : Desk σ) :
    Judged (s.callsOf run (.verify id) d) ((s.verify run id d).1.map (·.1)) := by
  have hcourse (lease : Lease) (site : Site (σ × List Exchange)) (hsite : site.log = []) :
      Ends (s.verifyCourse run.observed id lease) (site, [.init])
        (fun audit st => Judged (Course.log st) (.ok audit))
        (fun f st => Judged (Course.log st) (.error f)) := by
    have hlog : Course.log (site, [RunState.init]) = [] := hsite
    exact s.ends_verifyCourse_of_check run id hlog (fun _ _ hnone => judged_of_allCalls hnone)
      fun _ _ _ _ _ _ hfetched hcalls => hfetched.judged_check hcalls
  have hends := s.undertake_of_ends run (.verify id) d (fun audit log => Judged log (.ok audit))
    (fun f log => Judged log (.error f)) (fun _ => judged_of_allCalls allCalls_nil)
    fun lease site _ hsite => hcourse lease site hsite
  obtain ⟨audit, r, hresult, h⟩ | ⟨f, hresult, h⟩ := hends
  · have hresult : (s.verify run id d).1 = .ok (audit, r) := hresult
    rw [hresult]
    exact h
  · have hresult : (s.verify run id d).1 = .error f := hresult
    rw [hresult]
    exact h

open Verdict in
/-- The last readable line among those that mention the result decides, and there is no verdict if
none of them is readable. That the last line that mentions the result decides, readable or not, is
true of a text unless this line cannot be read and one before it can: what stands before it decides
then. A verification whose check has ended well comes to the verdict in the output of the check, and
fails for the want of an output if there is none. -/
theorem verify_by_last_readable_line :
    (∀ text : String, Text.Lined text.toList (Text.lines text.toList) ∧
      (∀ b, ofOutput? text = some b ↔
        ∃ line, IsLast Readable (Text.lines text.toList) line ∧ Says line b) ∧
      (ofOutput? text = none ↔ ∀ line ∈ Text.lines text.toList, ¬ Readable line) ∧
      ((∀ b, ofOutput? text = some b ↔ LastDecides text b) ↔
        ∀ line, IsLast Mentions (Text.lines text.toList) line → Readable line ∨
          ∀ l ∈ Text.lines text.toList, ¬ Readable l) ∧
      ∀ before line after, Text.lines text.toList = before ++ line :: after →
        (∀ l ∈ after, ¬ Mentions l) → ¬ Readable line →
          ∀ b, ofOutput? text = some b ↔ ∃ l, IsLast Readable before l ∧ Says l b) ∧
    ∀ (s : Settings) (run : Runner σ) (id : Identifier) (d : Desk σ),
      Judged (s.callsOf run (.verify id) d) ((s.verify run id d).1.map (·.1)) := by
  refine ⟨fun text => ?_, judged_verify⟩
  refine ⟨Text.lined_lines text.toList, ofOutput?_eq_some_iff text, ofOutput?_eq_none_iff text,
    ofOutput?_eq_lastDecides_iff text, ?_⟩
  intro before line after hlines hafter hline b
  have hunreadable : ∀ l ∈ line :: after, ¬ Readable l := by
    intro l hl
    rcases List.mem_cons.mp hl with rfl | hl
    · exact hline
    · exact fun h => hafter l hl h.1
  simp only [ofOutput?_eq_some_iff, hlines, isLast_append hunreadable]

namespace Specimen

/-- An honest runner, but for a proving engine that ends well and takes its verdict back. -/
def retracting : Runner Book := fun call s =>
  match call.stage with
  | .verifyProof => (.ok ⟨Utf8.ofString Verdict.wavering, ""⟩, s)
  | _ => run call s

theorem checked_retracting :
    ∃ e ∈ settings.callsOf retracting (.verify name) revisited, e.call.stage = .verifyProof ∧
      e.answer = .ok ⟨Utf8.ofString Verdict.wavering, ""⟩ := by
  decide +kernel

end Specimen

open Specimen in
/-- A proof is accepted on the word of an engine that has taken it back. -/
theorem verify_by_last_readable_line_retracting :
    ∃ digest, (settings.verify retracting name revisited).1.map (·.1) = .ok ⟨true, digest⟩ := by
  obtain ⟨e, he, hstage, hanswer⟩ := checked_retracting
  have hjudges := verify_by_last_readable_line.2 settings retracting name revisited e he hstage _
    hanswer
  have hverdict : Verdict.ofOutput? (Output.mk (Utf8.ofString Verdict.wavering) "").text =
      some true := by decide +kernel
  exact hjudges.verdict true hverdict

end Settings

end StorageProof
