import StorageProof.Proofs.Files.Contents
import StorageProof.Proofs.Flow.Composition
import StorageProof.Proofs.Flow.Ending
import StorageProof.Proofs.Flow.Steps

/-!
# The parameters that are checked are those that are used

A job that needs the proving parameters looks for them before its first call, and hands their path
to the proving engine in a later one. In between it clears away and writes files in its working
directory, each under a name that is fixed for the job. Unless the path of the parameters leads to
one of these files, the engine finds the bytes that have been checked. The settings do not rule out
that it does.
-/

namespace StorageProof

variable {σ : Type}

/-- The places of files that a call declares. -/
def Declared.places : Declared → Set Location
  | file p => {p.destination}
  | _ => ∅

/-- Calls change no file but the one that they declare. -/
def Runner.ChangesDeclaredOnly (run : Runner σ) : Prop :=
  ∀ call s, FileSystem.KeepsFiles call.declared.places s.files (run call s).2.files

/-- A call that has found certain bytes in the file of the proving parameters, and that was given
the path of this file if it is a call of the proving engine. -/
structure Settings.Finds (s : Settings) (bytes : Bytes) (e : Exchange) : Prop where
  read : e.before.read s.parameters = .ok bytes
  given : e.call.stage = .generateProof ∨ e.call.stage = .verifyProof →
    e.call.args[1]? = some s.parameters.text

/-- The proving parameters are certain bytes, and have been so at every call. -/
structure Settings.KeepsParameters (s : Settings) (bytes : Bytes)
    (site : Site (σ × List Exchange)) : Prop where
  read : site.files.read s.parameters = .ok bytes
  calls : ∀ e ∈ site.log, s.Finds bytes e

namespace Settings

variable {s : Settings} {run : Runner σ} {bytes : Bytes}

/-- A path that does not lead to the file of the proving parameters. -/
def Spares (s : Settings) (p : Path) : Prop := s.parameters.destination ≠ p.destination

theorem KeepsParameters.change {site : Site (σ × List Exchange)} (h : s.KeepsParameters bytes site)
    {spots : Set Location} (hspots : s.parameters.destination ∉ spots) {fs : FileSystem}
    (hfs : FileSystem.KeepsFiles spots site.files fs) :
    s.KeepsParameters bytes { site with files := fs } :=
  ⟨hfs _ bytes hspots h.read, h.calls⟩

/-- A call that declares another file leaves the proving parameters, and has found them. -/
theorem upholds_keepsParameters_observed (hrun : run.ChangesDeclaredOnly) {call : Call}
    (hcall : s.Admits s.Spares call) : Upholds (s.KeepsParameters bytes) (run.observed call) := by
  intro site hsite
  have hplaces : s.parameters.destination ∉ call.declared.places := by
    cases hd : call.declared with
    | file p => exact fun h => hcall.declared p hd (Set.mem_singleton_iff.mp h)
    | stdout => exact Set.notMem_empty _
    | exitOnly => exact Set.notMem_empty _
  rw [run.observed_eq]
  refine ⟨hrun call site.inner _ bytes hplaces hsite.read, ?_⟩
  intro e he
  rcases List.mem_append.mp he with he | he
  · exact hsite.calls e he
  · rw [List.mem_singleton.mp he]
    exact ⟨hsite.read, hcall.parameters⟩

/-- The proving parameters are kept from step to step, as long as no other step than one on another
file is taken. -/
theorem closed_keepsParameters (s : Settings) (bytes : Bytes) (hrun : run.ChangesDeclaredOnly) :
    Course.Closed s run.observed s.Spares fun _ =>
      Upholds fun st => s.KeepsParameters bytes st.1 :=
  Course.closed_upholds (fun _ hcall => upholds_keepsParameters_observed hrun hcall)
    (fun _ _ _ hp hsite hr => hsite.change (Set.mem_singleton_iff.not.mpr hp)
      (FileSystem.keepsFiles_removeFile hr))
    (fun _ _ _ _ hp hsite hw => hsite.change (Set.mem_singleton_iff.not.mpr hp)
      (FileSystem.keepsFiles_write hw))
    fun _ _ hsite hmade => hsite.change (Set.notMem_empty _) hmade.keepsFiles

/-- Without proving parameters, a job that needs them does nothing. -/
theorem courseOf_of_not_isNonEmptyFile {job : Job} (hneeds : job.needsParameters = true)
    {lease : Lease} {st : Site σ × List RunState}
    (hp : ¬ st.1.files.isNonEmptyFile s.parameters = true) :
    (s.courseOf run job lease st).2 = st := by
  obtain ⟨e, hact⟩ := Course.act_requireParameters_of_not_isNonEmptyFile hp
  cases job with
  | publish source target => cases hneeds
  | mine id => exact congrArg Prod.snd (bind_of_error hact)
  | verify id => exact congrArg Prod.snd (bind_of_error hact)
  | setup force => cases hneeds

/-- The calls of a job have been made in its course. -/
theorem exists_course_of_mem_callsOf {job : Job} {d : Desk σ} {e : Exchange}
    (he : e ∈ s.callsOf run job d) :
    ∃ lease site, Lease.acquire s.workDir d.site = (.ok lease, site) ∧
      e ∈ (s.courseOf run.observed job lease (site.watched [], [.init])).2.1.log := by
  obtain ⟨-, -, hcalls⟩ | ⟨lease, site, r, st, hacquired, hst, hcalls, -⟩ :=
    s.undertake_followed run job d
  · rw [hcalls] at he
    cases he
  · rw [hcalls] at he
    exact ⟨lease, site, hacquired, by rwa [hst]⟩

/-- The proving parameters that a job has checked are those that its calls find. Let the runner
change no file but the one that is declared, and let the path of the parameters lead to none of the
files that the job has in its working directory. Then a job that needs parameters makes its calls
only after it has found the file of the parameters not empty, the file has the same bytes at each of
them, and a call of the proving engine is given its path. -/
theorem checked_parameters_are_used (hrun : run.ChangesDeclaredOnly) {job : Job}
    (hneeds : job.needsParameters = true)
    (hspared : ∀ name ∈ job.fileNames, s.Spares (s.workDir.join name)) (d : Desk σ) :
    ∀ e ∈ s.callsOf run job d, ∃ lease site bytes,
      Lease.acquire s.workDir d.site = (.ok lease, site) ∧
      site.files.read s.parameters = .ok bytes ∧ bytes ≠ [] ∧
      e.before.read s.parameters = .ok bytes ∧
      (e.call.stage = .generateProof ∨ e.call.stage = .verifyProof →
        e.call.args[1]? = some s.parameters.text) := by
  intro e he
  obtain ⟨lease, site, hacquired, he⟩ := exists_course_of_mem_callsOf he
  have hroot := Lease.root_of_acquire hacquired
  by_cases hp : site.files.isNonEmptyFile s.parameters = true
  · obtain ⟨bytes, hread, hne⟩ := FileSystem.isNonEmptyFile_iff.mp hp
    have hcourse : Upholds (fun st => s.KeepsParameters bytes st.1)
        (s.courseOf run.observed job lease) := by
      refine (s.closed_keepsParameters bytes hrun).courseOf job (fun name hname => ?_)
        fun hsetup => ?_
      · rw [Lease.file, hroot]
        exact hspared name hname
      · cases job <;> cases hsetup
        cases hneeds
    have hstart : s.KeepsParameters bytes (site.watched []) :=
      ⟨hread, by simp [Site.watched, Site.log]⟩
    have hfinds := (hcourse (site.watched [], [.init]) hstart).calls e he
    exact ⟨lease, site, bytes, hacquired, hread, hne, hfinds.read, hfinds.given⟩
  · -- without parameters, no call is made
    have hnothing : (s.courseOf run.observed job lease (site.watched [], [.init])).2 =
        (site.watched [], [.init]) := s.courseOf_of_not_isNonEmptyFile hneeds hp
    rw [hnothing] at he
    cases he

/-- Parameters without a place of their own are none of the files that a job has. -/
theorem spares_of_default (h : s.parameterFile = none) {job : Job} {name : String}
    (hname : name ∈ job.fileNames) : s.Spares (s.workDir.join name) := by
  have hleftover := job.fileNames_subset hname
  have hplain : Path.IsPlainName parameterName := ⟨by decide, by decide, by decide, by decide⟩
  have hother : ∀ name ∈ Lease.leftoverNames, parameterName ≠ name := by decide
  rw [Spares, parameters, h, Option.getD_none, Path.destination_join hplain,
    Path.destination_join (Lease.isPlainName_leftover hleftover)]
  intro heq
  exact hother name hleftover (List.singleton_inj.mp (List.append_cancel_left heq))

end Settings

theorem Runner.changesDeclaredOnly_honest (input : PublicInput) (blob : Bytes) :
    (Runner.honest input blob).ChangesDeclaredOnly := by
  intro call s
  have hleave (bytes : Bytes) :
      FileSystem.KeepsFiles call.declared.places s.files (leave bytes call s).2.files := by
    unfold leave
    cases hd : call.declared with
    | file p =>
      rcases hw : s.files.write p bytes with e | fs
      · simp only [hw]
        exact .refl _ _
      · simp only [hw]
        exact FileSystem.keepsFiles_write hw
    | stdout => exact .refl _ _
    | exitOnly => exact .refl _ _
  unfold honest
  cases call.stage with
  | extractFrames | perceptualHash | setupCrs | generateProof => exact hleave _
  | ledgerQuery => cases lookUp s.tools call.args <;> exact .refl _ _
  | _ => exact .refl _ _

namespace Settings.Specimen

theorem changesDeclaredOnly_run : run.ChangesDeclaredOnly :=
  Runner.changesDeclaredOnly_honest input blob

theorem exists_generateProof :
    ∃ e ∈ settings.callsOf run (.mine agreement.identifier) (desk published),
      e.call.stage = .generateProof := by
  have hfavours : settings.Favours run (.mine agreement.identifier) (desk published) lease := by
    rw [identifier_agreement]
    exact favours_mine
  have hok : (settings.mine run agreement.identifier (desk published)).1.isOk := by
    rw [identifier_agreement, ← mine_ok.2]
    exact congrArg Except.isOk (settings.undertake_observed run (.mine name) (desk published)).symm
  have hrecord : (id (desk published).site.tools).agreement? agreement.identifier.text =
      some agreement.canonical := by rw [← recorded_published]; rfl
  obtain ⟨r, -, hcalls⟩ | ⟨f, hf, -⟩ :=
    (hfavours.mines keepsBook_run proves_run (by decide) hrecord).1.outcome
  · have hmem : settings.generateProof settings.parameters lease.proof lease.hashes lease.witness ∈
        settings.mineCalls lease agreement ⟨blob⟩ := by simp [mineCalls]
    rw [← hcalls] at hmem
    obtain ⟨e, he, hcall⟩ := List.mem_map.mp hmem
    exact ⟨e, he, congrArg Call.stage hcall⟩
  · rw [hf] at hok
    cases hok

/-- The proving engine is given the parameters beside the working directory, as they were. -/
theorem checked_parameters_are_used_specimen :
    run.ChangesDeclaredOnly ∧ (Job.mine agreement.identifier).needsParameters = true ∧
    (∀ file ∈ (Job.mine agreement.identifier).fileNames,
      settings.Spares (settings.workDir.join file)) ∧
    ∃ e ∈ settings.callsOf run (.mine agreement.identifier) (desk published),
      e.call.stage = .generateProof ∧
      ∃ bytes, bytes ≠ [] ∧ e.before.read settings.parameters = .ok bytes ∧
        e.call.args[1]? = some settings.parameters.text := by
  have hspared : ∀ file ∈ (Job.mine agreement.identifier).fileNames,
      settings.Spares (settings.workDir.join file) := by
    unfold Spares Job.fileNames
    decide +kernel
  have hneeds : (Job.mine agreement.identifier).needsParameters = true := rfl
  obtain ⟨e, he, hstage⟩ := exists_generateProof
  obtain ⟨_, _, bytes, -, -, hne, hread, hgiven⟩ :=
    settings.checked_parameters_are_used changesDeclaredOnly_run hneeds hspared (desk published) e
      he
  exact ⟨changesDeclaredOnly_run, hneeds, hspared, e, he, hstage, bytes, hne, hread,
    hgiven (.inl hstage)⟩

/-- Settings with the parameters in the place of a file of the working directory. -/
def crossed (file : String) : Settings := { settings with parameterFile := some ⟨"work/" ++ file⟩ }

/-- A ledger that has the same agreement and the same proof under every identifier, which are as
short as they can be. -/
def brief : Book where
  agreement? _ := some (Agreement.mk "" .phashMerkle "[\"\",\"\",\"\"]").canonical
  proof? _ := some (ProofBlob.mk [0]).canonical

/-- A desk with parameters in that place. -/
def crossedDesk (file : String) : Desk Book where
  site := ⟨(FileSystem.empty.put ["srv", "jobs", "work"] .directory).put
    ["srv", "jobs", "work", file] (.file [1] false none), brief⟩

/-- A call of a stage in a job on such a desk that does not find the parameters which were there
when the job began. -/
def Loses (file : String) (job : Job) (stage : Stage) : Prop :=
  (crossed file).validate = .ok () ∧
  (Lease.acquire (crossed file).workDir (crossedDesk file).site).2.files.read
    (crossed file).parameters = .ok [1] ∧
  ∃ e ∈ (crossed file).callsOf run job (crossedDesk file), e.call.stage = stage ∧
    e.before.read (crossed file).parameters ≠ .ok [1]

/-- Every file that a job has in its working directory can be that of the parameters, and they are
lost then, though the settings are valid and the runner changes no file but the declared one. -/
theorem checked_parameters_are_lost :
    run.ChangesDeclaredOnly ∧
    (∀ file ∈ (Job.mine name).fileNames, Loses file (.mine name) .generateProof) ∧
    ∀ file ∈ (Job.verify name).fileNames, Loses file (.verify name) .verifyProof := by
  refine ⟨changesDeclaredOnly_run, ?_, ?_⟩
  · unfold Loses
    decide +kernel
  · unfold Loses
    decide +kernel

end Settings.Specimen

end StorageProof
