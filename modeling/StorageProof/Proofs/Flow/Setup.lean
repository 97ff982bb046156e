import StorageProof.Proofs.Flow.Exclusion
import StorageProof.Proofs.Flow.Parameters

/-!
# Setting up

A setup that succeeds leaves proving parameters behind, whether it has made them or found them, so
that mining and verifying have what they ask for. The next setup finds them too, and what it finds
it keeps: it makes no call, and the lease that it takes changes no file but the one with the lock.
-/

namespace StorageProof

open FileSystem (KeepsFiles)

variable {σ : Type}

/-! ## What a lease does to files -/

namespace Lease

variable {root : Path} {fs fs' : FileSystem}

/-- Locking changes no file but the one that is locked. -/
theorem keepsFiles_locked {at' : Location} (hfree : fs.entryAt? at' ≠ some .directory) :
    KeepsFiles {at'} fs (locked fs at') := by
  refine FileSystem.keepsFiles_of_entries (fun l hl => ?_) fun l hl _ executable holder he => ?_
  · rw [entryAt?_locked, if_neg, hl]
    rintro rfl
    exact hfree hl
  · exact ⟨executable, holder, by rw [entryAt?_locked, if_neg fun h => hl h.symm, he]⟩

/-- Asking for a lease changes no file but the one with the lock. -/
theorem keepsFiles_acquireIn {r : Except Failure Lease} (h : acquireIn root fs = (r, fs')) :
    KeepsFiles {(root.join lockName).destination} fs fs' := by
  cases r with
  | error e => exact (acquireIn_error h).keepsFiles
  | ok lease =>
    obtain ⟨fs₁, at', found, hmade, hopened, -, -, rfl⟩ := acquireIn_ok h
    have hdirectories := FileSystem.onlyMakesDirectories_makeDirectories fs root
    rw [hmade] at hdirectories
    obtain ⟨before, last, directory, hopens, rfl, rfl, hfree⟩ := FileSystem.opened_ok hopened
    rw [← FileSystem.resolve_eq_ok (hopens.resolve fun _ hl => hl)]
    exact hdirectories.keepsFiles.trans (keepsFiles_locked hfree)

theorem keepsFiles_releaseIn (lease : Lease) (fs : FileSystem) :
    KeepsFiles ∅ fs (lease.releaseIn fs) := by
  rcases he : fs.entryAt? lease.lockFile with _ | (_ | ⟨bytes, executable, _ | lock⟩)
  · simp only [releaseIn, he]
    exact .refl _ _
  · simp only [releaseIn, he]
    exact .refl _ _
  · simp only [releaseIn, he]
    exact .refl _ _
  · by_cases hlock : lock = lease.lock
    · simp only [releaseIn, he, if_pos hlock]
      have hfree : fs.entryAt? lease.lockFile ≠ some .directory := by simp [he]
      refine FileSystem.keepsFiles_of_entries (FileSystem.keepsDirectories_put hfree _) ?_
      intro l _ bytes' executable' holder hl
      by_cases hat : lease.lockFile = l
      · rw [← hat, he] at hl
        cases hl
        exact ⟨executable, none, by rw [FileSystem.entryAt?_put, if_pos hat]⟩
      · exact ⟨executable', holder, by rw [FileSystem.entryAt?_put, if_neg hat, hl]⟩
    · simp only [releaseIn, he, if_neg hlock]
      exact .refl _ _

theorem isNonEmptyFile_release {lease : Lease} {site : Site σ} {p : Path}
    (hp : site.files.isNonEmptyFile p = true) :
    (lease.release site).files.isNonEmptyFile p = true := by
  obtain ⟨bytes, hread, hne⟩ := FileSystem.isNonEmptyFile_iff.mp hp
  exact FileSystem.isNonEmptyFile_iff.mpr
    ⟨bytes, keepsFiles_releaseIn lease site.files p bytes (Set.notMem_empty _) hread, hne⟩

end Lease

namespace Settings

section Runs

variable {s : Settings} {run : Runner σ} {force made : Bool} {d : Desk σ} {r : Report}

/-! ## Parameters that are made -/

/-- The calls of a setup that comes to its end, told by whether it has made parameters. -/
def setupCalls (s : Settings) : Bool → List Call
  | true => [s.setupParameters s.parameters]
  | false => []

theorem ends_makeParameterDirectory (s : Settings) (site : Site (σ × List Exchange)) :
    Ends s.makeParameterDirectory site (fun _ site' => site'.log = site.log) (fun _ _ => True) := by
  have htools := s.makeParameterDirectory_tools site
  rcases hm : s.makeParameterDirectory site with ⟨e | _, site'⟩
  · exact .of_eq_error hm trivial
  · rw [hm] at htools
    exact .of_eq_ok hm (congrArg Prod.snd htools)

/-- A setup that comes to its end leaves parameters, which it has made by one call or found. -/
theorem ends_setupCourse (s : Settings) (run : Runner σ) (force : Bool) (lease : Lease)
    (st : Site (σ × List Exchange) × List RunState) :
    Ends (s.setupCourse run.observed force lease) st
      (fun made st' => st'.1.files.isNonEmptyFile s.parameters = true ∧
        ∃ trace, Course.log st' = Course.log st ++ trace ∧
          trace.map (·.call) = s.setupCalls made)
      (fun _ _ => True) := by
  by_cases h : (!force && st.1.files.isNonEmptyFile s.parameters) = true
  · have hfound := (Bool.and_eq_true_iff.mp h).2
    exact .of_eq_ok (s.setupCourse_of_kept run.observed lease h) ⟨hfound, [], by simp, rfl⟩
  · unfold Ends
    rw [s.setupCourse_of_not_kept run.observed lease h]
    have hdirectory := s.ends_makeParameterDirectory st.1
    refine Course.ends_enter (Course.ends_act hdirectory (fun _ s₁ hlog => ?_) fun _ _ _ => trivial)
    have hcall := Call.ends_perform run (s.setupParameters s.parameters) ⟨_, rfl⟩ s₁
    refine Course.ends_act hcall (fun output s₂ hmade => ?_) fun _ _ _ => trivial
    obtain ⟨e, hlaunched, -, hdelivers, hlog', hfiles⟩ := hmade
    refine .pure ⟨?_, [e], ?_, ?_⟩
    · have hfile := (Exchange.delivers_file (hlaunched.call_eq ▸ ⟨_, rfl⟩)
        (congrArg Call.declared hlaunched.call_eq)).mp hdelivers
      rw [← hfiles] at hfile
      exact hfile
    · rw [Course.log, hlog', hlog]
      rfl
    · rw [List.map_singleton, hlaunched.call_eq]
      rfl

/-- A setup that hands something back has left parameters, and has made the calls for them. -/
theorem setup_ok (h : (s.setup run force d).1 = .ok (made, r)) :
    (s.setup run force d).2.site.files.isNonEmptyFile s.parameters = true ∧
      (s.callsOf run (.setup force) d).map (·.call) = s.setupCalls made := by
  have hundertaken : s.setup run force d = s.undertake run (.setup force) d := rfl
  rw [hundertaken] at h ⊢
  obtain ⟨e, hturned, -⟩ | ⟨lease, site, result, st, -, hst, hmade, hu⟩ :=
    s.undertake_followed run (.setup force) d
  · cases h.symm.trans hturned
  · rw [hu] at h ⊢
    obtain ⟨made', st', hst', hfile, trace, hlog, hcalls⟩ | ⟨e, st', hst', -⟩ :=
      (s.ends_setupCourse run force lease (site.watched [], [.init])).cases
    · cases hst.symm.trans hst'
      cases h
      refine ⟨Lease.isNonEmptyFile_release hfile, ?_⟩
      have hlog : st.1.log = trace := hlog
      rw [hmade, hlog, hcalls]
    · cases hst.symm.trans hst'
      cases h

/-! ## Parameters that are kept -/

/-- A setup that finds parameters does not get to the tools, changes no file but the one with the
lock, and has made nothing. -/
theorem setup_of_isNonEmptyFile (s : Settings) (run : Runner σ) {d : Desk σ}
    (hp : d.site.files.isNonEmptyFile s.parameters = true) :
    (s.setup run false d).2.site.tools = d.site.tools ∧
      KeepsFiles {(s.workDir.join Lease.lockName).destination} d.site.files
        (s.setup run false d).2.site.files ∧
      (s.begins (.setup false) d = true → ∃ r, (s.setup run false d).1 = .ok (false, r)) := by
  obtain ⟨e, hv, h⟩ | ⟨e, site, -, hl, h⟩ | ⟨lease, site, -, hl, h⟩ :=
    s.conduct_cases .setup (s.setupCourse run false) d
  · rw [setup, h]
    refine ⟨rfl, .refl _ _, fun hb => ?_⟩
    simp [begins, hv, Except.isOk, Except.toBool] at hb
  · obtain ⟨hacquired, htools⟩ := Lease.acquireIn_of_acquire hl
    rw [setup, h]
    refine ⟨htools, Lease.keepsFiles_acquireIn hacquired, fun hb => ?_⟩
    simp [begins, hl, Except.isOk, Except.toBool] at hb
  · obtain ⟨hacquired, htools⟩ := Lease.acquireIn_of_acquire hl
    have hcourse : s.setupCourse run false lease (site, [.init]) = (.ok false, (site, [.init])) :=
      s.setupCourse_of_kept run lease (Lease.isNonEmptyFile_acquire hl hp)
    rw [hcourse] at h
    rw [setup, h]
    have hreleased := Lease.keepsFiles_releaseIn lease site.files
    refine ⟨htools, (Lease.keepsFiles_acquireIn hacquired).trans ?_, fun _ => ⟨_, rfl⟩⟩
    exact hreleased.mono (Set.empty_subset _)

/-- A setup that need not make parameters makes no calls and leaves the file of the parameters as it
is, unless it is the one with the lock. -/
structure KeepsSetup (s : Settings) (run : Runner σ) (d : Desk σ) : Prop where
  calls : s.callsOf run (.setup false) d = []
  kept : s.Spares (s.workDir.join Lease.lockName) →
    (s.setup run false d).2.site.files.read s.parameters = d.site.files.read s.parameters

theorem keepsSetup_of_isNonEmptyFile (s : Settings) (run : Runner σ) {d : Desk σ}
    (hp : d.site.files.isNonEmptyFile s.parameters = true) : s.KeepsSetup run d where
  calls := congrArg Prod.snd (s.setup_of_isNonEmptyFile run.observed (d := d.watched []) hp).1
  kept := by
    intro hspared
    obtain ⟨bytes, hread, -⟩ := FileSystem.isNonEmptyFile_iff.mp hp
    obtain ⟨-, hkeeps, -⟩ := s.setup_of_isNonEmptyFile run hp
    rw [hread]
    exact hkeeps _ bytes (Set.mem_singleton_iff.not.mpr hspared) hread

structure SetsUp (s : Settings) (run : Runner σ) (force : Bool) (d : Desk σ) : Prop where
  /-- After success there are parameters, and a job that requires them gets them. -/
  established : ∀ made r, (s.setup run force d).1 = .ok (made, r) →
    (s.setup run force d).2.site.files.isNonEmptyFile s.parameters = true ∧
      s.requireParameters (s.setup run force d).2.site =
        (.ok s.parameters, (s.setup run force d).2.site)
  /-- A setup after success, whatever its runner, makes nothing and keeps them once it has its
  lease. -/
  repeated : ∀ made r, (s.setup run force d).1 = .ok (made, r) → ∀ run' : Runner σ,
    s.begins (.setup false) (s.setup run force d).2 = true →
      (∃ r', (s.setup run' false (s.setup run force d).2).1 = .ok (false, r')) ∧
        s.KeepsSetup run' (s.setup run force d).2
  /-- Parameters that are there are kept, unless new ones are asked for. -/
  kept : force = false → d.site.files.isNonEmptyFile s.parameters = true → s.KeepsSetup run d
  /-- Parameters have been made if and only if one call for them has been made, and kept if and only
  if there was no call. -/
  counted : ∀ made r, (s.setup run force d).1 = .ok (made, r) →
    (made = true ↔ (s.callsOf run (.setup force) d).countP (·.call.stage = .setupCrs) = 1) ∧
      (made = false ↔ s.callsOf run (.setup force) d = [])
  /-- The report of a setup that has got its lease and fails tells in the end that it has failed. -/
  reported : ∀ e, s.begins (.setup force) d = true → (s.setup run force d).1 = .error e →
    ∃ (report : Report) (before : List RunState) (stage : String),
      (s.setup run force d).2.last = some report ∧ report.flow = .setup ∧
        report.history = before ++ [.failed stage e.message]

/-- Setting up gives mining and verifying what they require, and doing so again changes nothing:
whatever the runner does and the files are, a setup that succeeds leaves parameters that are not
empty, and any later setup keeps them without a call. What it hands back tells whether the one call
for the parameters has been made, and a failure is told by the report. -/
theorem setup_establishes_parameters (s : Settings) (run : Runner σ) (force : Bool) (d : Desk σ) :
    s.SetsUp run force d where
  established := by
    intro made r h
    obtain ⟨hfile, -⟩ := setup_ok h
    exact ⟨hfile, if_pos hfile⟩
  repeated := by
    intro made r h run' hbegins
    obtain ⟨hfile, -⟩ := setup_ok h
    obtain ⟨-, -, hagain⟩ := s.setup_of_isNonEmptyFile run' hfile
    exact ⟨hagain hbegins, s.keepsSetup_of_isNonEmptyFile run' hfile⟩
  kept := by
    rintro - hp
    exact s.keepsSetup_of_isNonEmptyFile run hp
  counted := by
    intro made r h
    obtain ⟨-, hcalls⟩ := setup_ok h
    have hcount : (s.callsOf run (.setup force) d).countP (·.call.stage = .setupCrs) =
        (s.setupCalls made).countP (·.stage = .setupCrs) := by
      rw [← hcalls, List.countP_map]
      rfl
    have hnone : s.callsOf run (.setup force) d = [] ↔ s.setupCalls made = [] := by
      rw [← hcalls, List.map_eq_nil_iff]
    rw [hcount, hnone]
    cases made <;> simp [setupCalls, setupParameters]
  reported := by
    intro e hbegins h
    obtain ⟨report, hlast, htells⟩ := s.undertake_of_begins run hbegins
    obtain ⟨before, hne, -, hhistory⟩ := htells.failed e h
    exact ⟨report, before, _, hlast, htells.flow, hhistory⟩

end Runs

open Specimen in
/-- New parameters take the place of those that lie beside the working directory, and are kept. -/
theorem setup_establishes_parameters_specimen :
    let renewed := (settings.setup run true (desk blank)).2
    (∃ r, (settings.setup run true (desk blank)).1 = .ok (true, r)) ∧
      renewed.site.files.read settings.parameters = .ok [0x0A] ∧
      (settings.requireParameters renewed.site).1 = .ok settings.parameters ∧
      (∃ r, (settings.setup run false renewed).1 = .ok (false, r)) ∧
      settings.KeepsSetup run renewed := by
  have hmade : (settings.setup run true (desk blank)).1.map (·.1) = .ok true := by decide +kernel
  obtain ⟨⟨made, r⟩, hmade, rfl⟩ := map_eq_ok hmade
  have hsets := settings.setup_establishes_parameters run true (desk blank)
  obtain ⟨hagain, hkeeps⟩ := hsets.repeated _ r hmade run (by decide +kernel)
  obtain ⟨-, hrequired⟩ := hsets.established _ r hmade
  exact ⟨⟨r, hmade⟩, by decide +kernel, congrArg Prod.fst hrequired, hagain, hkeeps⟩

end Settings

end StorageProof
