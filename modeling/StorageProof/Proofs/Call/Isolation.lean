import StorageProof.Call.Script
import StorageProof.Proofs.Call.Making
import StorageProof.Proofs.Call.Success
import StorageProof.Proofs.Files.Alike

/-!
# Calls are judged by their own output

A call that declares a file is made once the path of the file has been cleared, and is held to what
is found there afterwards. What stood there before therefore makes no difference: a call comes to
the same whether an earlier run has left a file there or not, and it succeeds only with a file that
was made since. Each way in which the path can be found after the call has an outcome of its own.
-/

namespace StorageProof

open FileSystem (Alike)

variable {σ : Type}

/-! ## Clearing a path -/

/-- Nothing stands where a path leads to, or a file does that can be removed. -/
def FileSystem.Clearable (fs : FileSystem) (p : Path) : Prop :=
  fs.entryAt? p.destination = none ∨ ∃ g, fs.removeFile p = .ok g

section Clearing

variable {fs fs' g : FileSystem} {p : Path}

/-- The last step to a file that is removed is one to a name, with no slash behind it. -/
theorem FileSystem.lastStep_of_removeFile (h : fs.removeFile p = .ok g) :
    ∃ directory last, fs.lastStep p = .ok (.name directory last false) ∧
      checkName last = .ok () ∧ directory ++ [last] = p.destination := by
  obtain ⟨step, hstep, h⟩ := exists_of_bind_eq_ok h
  cases step with
  | noName => cases h
  | name directory last slash =>
    obtain ⟨_, hlast, h⟩ := exists_of_bind_eq_ok h
    refine ⟨directory, last, ?_, hlast, (lastStep_eq_name hstep).1⟩
    rcases he : fs.entryAt? (directory ++ [last]) with _ | (_ | _)
    · simp only [he] at h
      cases h
    · simp only [he] at h
      cases h
    · cases slash with
      | true =>
        simp only [he] at h
        cases h
      | false => exact hstep

/-- Without what stands at the only spot, the file systems are the same. -/
theorem FileSystem.Alike.drop_eq {at' : Location} (h : Alike {at'} fs fs') :
    fs.drop at' = fs'.drop at' := by
  ext l : 1
  · by_cases hl : at' = l
    · rw [entryAt?_drop, entryAt?_drop, if_pos hl, if_pos hl]
    · rw [entryAt?_drop, entryAt?_drop, if_neg hl, if_neg hl, h.elsewhere l fun h' => hl h'.symm]
  · exact h.locks

/-- Once the path to the only spot has been cleared, the file systems are the same. -/
theorem clearStale_eq_of_alike (h : Alike {p.destination} fs fs') (hclear : fs.Clearable p)
    (hclear' : fs'.Clearable p) (tools : σ) :
    clearStale p ⟨fs, tools⟩ = clearStale p ⟨fs', tools⟩ := by
  by_cases hremoved : (∃ g, fs.removeFile p = .ok g) ∨ ∃ g, fs'.removeFile p = .ok g
  · -- The way to the file is the same in both, so that it is open in both.
    have hstep : ∃ directory last, fs.lastStep p = .ok (.name directory last false) ∧
        FileSystem.checkName last = .ok () ∧ directory ++ [last] = p.destination := by
      rcases hremoved with ⟨g, hg⟩ | ⟨g, hg⟩
      · exact FileSystem.lastStep_of_removeFile hg
      · obtain ⟨directory, last, hlast, hrest⟩ := FileSystem.lastStep_of_removeFile hg
        exact ⟨directory, last, h.lastStep_eq_ok_iff.mpr hlast, hrest⟩
    obtain ⟨directory, last, hlast, hname, hend⟩ := hstep
    have hleft : fs.entryAt? (directory ++ [last]) ≠ some .directory := h.left _ hend
    have hright : fs'.entryAt? (directory ++ [last]) ≠ some .directory := h.right _ hend
    rw [clearStale_eq_drop (s := ⟨fs, tools⟩) hlast hname hleft,
      clearStale_eq_drop (s := ⟨fs', tools⟩) (h.lastStep_eq_ok_iff.mp hlast) hname hright, hend]
    simp only [h.drop_eq]
  · rw [not_or] at hremoved
    have hnone := hclear.resolve_right hremoved.1
    have hnone' := hclear'.resolve_right hremoved.2
    have hsame := h.drop_eq
    rw [FileSystem.drop_of_none hnone, FileSystem.drop_of_none hnone'] at hsame
    rw [hsame]

/-- A path is cleared, or the removal of what stands there fails and nothing is changed. -/
theorem clearStale_cases (p : Path) (s : Site σ) :
    (∃ fs, clearStale p s = (.ok (), { s with files := fs })) ∨
      ∃ cause, s.files.removeFile p = .error cause ∧ cause ≠ .notFound := by
  rcases hr : s.files.removeFile p with cause | fs
  · by_cases hcause : cause = .notFound
    · exact .inl ⟨s.files, by simp only [clearStale, hr, if_pos hcause]⟩
    · exact .inr ⟨cause, rfl, hcause⟩
  · exact .inl ⟨fs, by simp only [clearStale, hr]⟩

end Clearing

/-! ## Calls that declare a file -/

namespace Call

variable {run : Runner σ} {call : Call} {p : Path} {s s₁ s' : Site σ} {output : Output}

/-- The path of the declared file is cleared, the call is made, and the file is looked for. -/
theorem perform_of_file (run : Runner σ) (hp : call.declared = .file p) :
    call.perform run = (clearStale p >>= fun _ => run call >>= fun output =>
      call.stage.requireFile p >>= fun _ => pure output) := by
  unfold Call.perform
  rw [hp]

theorem perform_uncleared (run : Runner σ) (hp : call.declared = .file p) {cause : SystemError}
    (hr : s.files.removeFile p = .error cause) (hcause : cause ≠ .notFound) :
    call.perform run s = (.error (.io s!"removing stale {p.text}" cause), s) := by
  have hclear : clearStale p s = (.error (.io s!"removing stale {p.text}" cause), s) := by
    simp only [clearStale, hr, if_neg hcause]
  rw [perform_of_file run hp, bind_of_error hclear]

theorem perform_failed (hp : call.declared = .file p) {e : Failure}
    (hclear : clearStale p s = (.ok (), s₁)) (hrun : run call s₁ = (.error e, s')) :
    call.perform run s = (.error e, s') := by
  rw [perform_of_file run hp, bind_of_ok hclear, bind_of_error hrun]

/-- After the call, its outcome is what the search for the file comes to. -/
theorem perform_answered (hp : call.declared = .file p) (hclear : clearStale p s = (.ok (), s₁))
    (hrun : run call s₁ = (.ok output, s')) :
    call.perform run s = ((call.stage.requireFile p s').1.map fun _ => output, s') := by
  rw [perform_of_file run hp, bind_of_ok hclear, bind_of_ok hrun, bind_pure_apply,
    call.stage.requireFile_site]

/-- A call succeeds if and only if its runner does so with the path cleared, and then a file that is
not empty is found there. -/
theorem perform_file_eq_ok_iff (hp : call.declared = .file p) :
    call.perform run s = (.ok output, s') ↔ ∃ s₁, clearStale p s = (.ok (), s₁) ∧
      run call s₁ = (.ok output, s') ∧ s'.files.isNonEmptyFile p = true := by
  constructor
  · intro h
    rw [perform_of_file run hp] at h
    obtain ⟨_, s₁, hclear, h⟩ := bind_eq_ok_iff.mp h
    obtain ⟨output', s₂, hrun, h⟩ := bind_eq_ok_iff.mp h
    rw [bind_pure_apply, call.stage.requireFile_site, Prod.mk.injEq] at h
    obtain ⟨hrequired, rfl⟩ := h
    obtain ⟨size, hsize, rfl⟩ := map_eq_ok hrequired
    refine ⟨s₁, hclear, hrun, ?_⟩
    rw [← call.stage.isOk_requireFile, hsize]
    rfl
  · rintro ⟨s₁, hclear, hrun, hfile⟩
    rw [← call.stage.isOk_requireFile] at hfile
    obtain ⟨size, hsize⟩ := exists_of_isOk hfile
    rw [perform_answered hp hclear hrun, hsize]
    rfl

/-- A call whose path has been cleared leaves the site as its runner does. -/
theorem perform_site (hp : call.declared = .file p) (hclear : clearStale p s = (.ok (), s₁)) :
    (call.perform run s).2 = (run call s₁).2 := by
  rcases hrun : run call s₁ with ⟨e | output, s'⟩
  · rw [perform_failed hp hclear hrun]
  · rw [perform_answered hp hclear hrun]

/-- The call is made at most once, and then with nothing at the path of the declared file. -/
theorem log_perform_file (run : Runner σ) (hp : call.declared = .file p) (s : Site σ)
    (log : List Exchange) :
    (call.perform run.observed (s.watched log)).2.log = log ∨
      ∃ e : Exchange, (call.perform run.observed (s.watched log)).2.log = log ++ [e] ∧
        e.call = call ∧ e.before.inspect p = .error .notFound := by
  rcases clearStale_cases p (s.watched log) with ⟨fs, hclear⟩ | ⟨cause, hr, hcause⟩
  · refine .inr
      ⟨run.exchange call { s.watched log with files := fs }, ?_, rfl, clearStale_ok hclear⟩
    rw [perform_site hp hclear]
    rfl
  · left
    rw [perform_uncleared run.observed hp hr hcause]
    rfl

/-- What comes of a call that declares a file, told by what stood at the path before, what the
runner does, and what stands there after it. -/
structure JudgedByFile (run : Runner σ) (call : Call) (p : Path) : Prop where
  /-- Whether a file stood at the path, and which one, makes no difference to anything. -/
  isolated : ∀ (fs fs' : FileSystem) (tools : σ), Alike {p.destination} fs fs' →
    fs.Clearable p → fs'.Clearable p →
    call.perform run ⟨fs, tools⟩ = call.perform run ⟨fs', tools⟩
  /-- If the path cannot be cleared, the runner is not called and nothing is changed. -/
  uncleared : ∀ (s : Site σ) (log : List Exchange) (cause : SystemError),
    s.files.removeFile p = .error cause → cause ≠ .notFound →
    call.perform run.observed (s.watched log) =
      (.error (.io s!"removing stale {p.text}" cause), s.watched log)
  /-- The runner is called once at most, and finds nothing at the path. -/
  launched : ∀ (s : Site σ) (log : List Exchange),
    (call.perform run.observed (s.watched log)).2.log = log ∨
      ∃ e : Exchange, (call.perform run.observed (s.watched log)).2.log = log ++ [e] ∧
        e.call = call ∧ e.before.inspect p = .error .notFound
  /-- Success takes a runner that has succeeded and a file that is not empty, which it has made. -/
  accepted : ∀ (s : Site σ) (output : Output) (s' : Site σ),
    call.perform run s = (.ok output, s') ↔
      ∃ s₁, clearStale p s = (.ok (), s₁) ∧ s₁.files.inspect p = .error .notFound ∧
        run call s₁ = (.ok output, s') ∧ s'.files.isNonEmptyFile p = true
  /-- A runner that fails has the last word. -/
  failed : ∀ (s s₁ : Site σ) (e : Failure) (s' : Site σ), clearStale p s = (.ok (), s₁) →
    run call s₁ = (.error e, s') → call.perform run s = (.error e, s')
  /-- After a runner that has succeeded, the file is missing if nothing is found at the path, or a
  directory or an empty file. -/
  missing : ∀ (s s₁ : Site σ) (output : Output) (s' : Site σ), clearStale p s = (.ok (), s₁) →
    run call s₁ = (.ok output, s') →
    (s'.files.inspect p = .error .notFound ∨
      ∃ e, s'.files.inspect p = .ok e ∧ e.isNonEmptyFile = false) →
    call.perform run s = (.error (.artifactMissing call.stage.name p.text), s')
  /-- If it cannot be told what stands at the path, this is the failure. -/
  hidden : ∀ (s s₁ : Site σ) (output : Output) (s' : Site σ) (cause : SystemError),
    clearStale p s = (.ok (), s₁) → run call s₁ = (.ok output, s') →
    s'.files.inspect p = .error cause → cause ≠ .notFound →
    call.perform run s = (.error (.io s!"inspecting {p.text}" cause), s')

theorem judgedByFile (run : Runner σ) (hp : call.declared = .file p) : call.JudgedByFile run p where
  isolated := by
    intro fs fs' tools halike hclear hclear'
    rw [perform_of_file run hp]
    exact bind_congr_state (clearStale_eq_of_alike halike hclear hclear' tools)
  uncleared := fun s log cause hr hcause => perform_uncleared run.observed hp hr hcause
  launched := log_perform_file run hp
  accepted := by
    intro s output s'
    rw [perform_file_eq_ok_iff hp]
    constructor
    · rintro ⟨s₁, hclear, hrest⟩
      exact ⟨s₁, hclear, clearStale_ok hclear, hrest⟩
    · rintro ⟨s₁, hclear, -, hrest⟩
      exact ⟨s₁, hclear, hrest⟩
  failed := fun s s₁ e s' hclear hrun => perform_failed hp hclear hrun
  missing := by
    intro s s₁ output s' hclear hrun hfound
    have hrequired : (call.stage.requireFile p s').1 =
        .error (.artifactMissing call.stage.name p.text) := by
      rcases hfound with hnone | ⟨e, he, hempty⟩
      · simp only [Stage.requireFile, hnone, if_true, Stage.withoutOutput]
      · cases e with
        | directory => simp only [Stage.requireFile, he, Stage.withoutOutput]
        | file bytes executable holder =>
          have hbytes : bytes.isEmpty = true := by simpa [Entry.isNonEmptyFile] using hempty
          simp only [Stage.requireFile, he, hbytes, if_true, Stage.withoutOutput]
    rw [perform_answered hp hclear hrun, hrequired]
    rfl
  hidden := by
    intro s s₁ output s' cause hclear hrun hfound hcause
    rw [perform_answered hp hclear hrun]
    simp only [Stage.requireFile, hfound, if_neg hcause]
    rfl

/-- A call is judged by its own output and by nothing that was there before. With a declared file,
it comes to the same whatever file stood at the path, the runner finds nothing there, and success
takes a file that the runner has made and that is not empty; a file that is missing is told apart
from one that cannot be looked for. With declared output, success takes output that is not blank,
and this is what is given, as the runner has given it. -/
theorem judged_by_own_output (run : Runner σ) (call : Call) :
    (∀ p, call.declared = .file p → call.JudgedByFile run p) ∧
    (call.declared = .stdout → ∀ s output s', call.perform run s = (.ok output, s') ↔
      run call s = (.ok output, s') ∧ Text.isAllBlank output.text = false) :=
  ⟨fun _ hp => judgedByFile run hp, fun hd _ _ _ => perform_stdout_eq_ok_iff hd⟩

/-- A call that declares a file, and a runner that writes it. -/
def plainCall : Call where
  stage := .perceptualHash
  program := ⟨"rust-phash"⟩
  args := []
  declared := .file ⟨"out.txt"⟩

def plainRunner : Runner Unit := Reply.answer { written := some [0x31] }

/-- A file that an earlier run has left where the call declares its own. -/
def staleFiles : FileSystem :=
  FileSystem.empty.put (FileSystem.workplace ++ ["out.txt"]) (.file [0x30, 0x30] false none)

theorem judged_by_own_output_plainCall :
    plainCall.declared = .file ⟨"out.txt"⟩ ∧
    Alike {(Path.mk "out.txt").destination} staleFiles FileSystem.empty ∧
    staleFiles.Clearable ⟨"out.txt"⟩ ∧ FileSystem.empty.Clearable ⟨"out.txt"⟩ ∧
    plainCall.perform plainRunner ⟨staleFiles, ()⟩ =
      plainCall.perform plainRunner ⟨FileSystem.empty, ()⟩ ∧
    (plainCall.perform plainRunner ⟨FileSystem.empty, ()⟩).1.isOk = true := by
  have hdestination : (Path.mk "out.txt").destination = FileSystem.workplace ++ ["out.txt"] := by
    decide +kernel
  have hempty : FileSystem.empty.entryAt? (FileSystem.workplace ++ ["out.txt"]) = none := by
    decide +kernel
  have halike : Alike {(Path.mk "out.txt").destination} staleFiles FileSystem.empty := by
    rw [hdestination]
    refine ⟨rfl, fun l hl => ?_, fun l hl => ?_, fun l hl => ?_⟩
    · rw [staleFiles, FileSystem.entryAt?_put, if_neg fun h => hl h.symm]
    · rw [Set.mem_singleton_iff.mp hl, staleFiles, FileSystem.entryAt?_put, if_pos rfl]
      exact fun h => nomatch h
    · rw [Set.mem_singleton_iff.mp hl, hempty]
      exact fun h => nomatch h
  have hstale : staleFiles.Clearable ⟨"out.txt"⟩ := .inr (exists_of_isOk (by decide +kernel))
  have hclear : FileSystem.empty.Clearable ⟨"out.txt"⟩ := .inl (hdestination ▸ hempty)
  have hjudged := (judged_by_own_output plainRunner plainCall).1 ⟨"out.txt"⟩ rfl
  exact ⟨rfl, halike, hstale, hclear, hjudged.isolated _ _ () halike hstale hclear,
    by decide +kernel⟩

/-- A call whose runner succeeds and leaves a file in the place of the directory that the declared
file should lie in. -/
def blockedCall : Call where
  stage := .extractFrames
  program := ⟨"x"⟩
  args := []
  declared := .file ⟨"d/out.txt"⟩

def blockingRunner : Runner Unit := Reply.answer { edits := [.write ⟨"d"⟩ [0x78]] }

/-- Nothing stands where the declared file should, but what the call fails with is that the place
cannot be inspected. -/
theorem perform_blockedCall :
    (blockingRunner blockedCall ⟨FileSystem.empty, ()⟩).1 = .ok {} ∧
    (blockedCall.perform blockingRunner ⟨FileSystem.empty, ()⟩).2.files.entryAt?
      (Path.mk "d/out.txt").destination = none ∧
    (blockedCall.perform blockingRunner ⟨FileSystem.empty, ()⟩).1 =
      .error (.io "inspecting d/out.txt" .notADirectory) ∧
    (blockedCall.perform blockingRunner ⟨FileSystem.empty, ()⟩).1 ≠
      .error (.artifactMissing blockedCall.stage.name "d/out.txt") := by
  have hresult : (blockedCall.perform blockingRunner ⟨FileSystem.empty, ()⟩).1 =
      .error (.io "inspecting d/out.txt" .notADirectory) := by decide +kernel
  refine ⟨rfl, by decide +kernel, hresult, ?_⟩
  rw [hresult]
  exact fun h => nomatch h

end Call

end StorageProof
