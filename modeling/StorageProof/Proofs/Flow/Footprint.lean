import StorageProof.Proofs.Call.Isolation
import StorageProof.Proofs.Files.Footprint
import StorageProof.Proofs.Flow.Exclusion
import StorageProof.Proofs.Flow.Parameters

/-!
# A job touches its own files only

The files of a job are the one with the lock, those that its calls declare and those that it writes
itself. Whatever comes of it, nothing else is changed, but for directories that were missing. The
course of a job is told by its calls: between them it adds files and directories, and before each of
them it clears away the file that the call declares. After a call that has failed it only gives up
its lease.
-/

namespace StorageProof

variable {σ α β : Type}

/-- Calls leave every location as it is but that of the file that they declare. -/
def Runner.TouchesDeclaredOnly (run : Runner σ) : Prop :=
  ∀ call s, ∀ l ∉ call.declared.places, (run call s).2.files.entryAt? l = s.files.entryAt? l

/-! ## Actions that add files -/

theorem Action.working_files (context : String)
    (f : FileSystem → Except SystemError Unit × FileSystem) (s : Site σ) :
    (Action.working context f s).2.files = (f s.files).2 := by
  rcases h : f s.files with ⟨_ | _, fs⟩ <;> simp [Action.working, h]

theorem adds_writeBytes (p : Path) (bytes : Bytes) (s : Site σ) :
    FileSystem.Adds {p.destination} {l | l ∈ p.passes} s.files (writeBytes p bytes s).2.files := by
  have hparent := (FileSystem.adds_makeParent s.files p).mono (Set.empty_subset {p.destination})
    (Set.Subset.refl _)
  have hfiles := Action.working_files s!"creating parent directory {p.text}" (·.makeParent p) s
  rw [← hfiles] at hparent
  unfold writeBytes
  rcases hm : Action.working s!"creating parent directory {p.text}" (·.makeParent p) s with
    ⟨e | _, s'⟩
  · rw [hm] at hparent
    rw [bind_of_error hm]
    exact hparent
  · rw [hm] at hparent
    rw [bind_of_ok hm]
    rcases hw : s'.files.write p bytes with e | fs
    · simp only [Action.changing, hw]
      exact hparent
    · simp only [Action.changing, hw]
      exact hparent.trans ((FileSystem.adds_write hw).mono (Set.Subset.refl _) (Set.empty_subset _))

theorem Settings.adds_makeParameterDirectory (s : Settings) (site : Site σ) :
    FileSystem.Adds ∅ {l | l ∈ s.parameters.passes} site.files
      (s.makeParameterDirectory site).2.files := by
  have hparent := FileSystem.adds_makeParent site.files s.parameters
  unfold FileSystem.makeParent at hparent
  unfold makeParameterDirectory
  rcases hp : s.parameters.parent? with _ | parent
  · exact .refl _ _ _
  · rw [hp] at hparent
    simp only [Action.working_files]
    exact hparent

namespace Lease

variable {root : Path} {fs fs' : FileSystem} {lease : Lease}

theorem lockFile_of_acquireIn (h : acquireIn root fs = (.ok lease, fs')) :
    lease.lockFile = (root.join lockName).destination := by
  obtain ⟨fs₁, at', found, -, hopened, -, rfl, -⟩ := acquireIn_ok h
  obtain ⟨before, last, directory, hopens, rfl, -, -⟩ := FileSystem.opened_ok hopened
  exact FileSystem.resolve_eq_ok (hopens.resolve fun _ hl => hl)

/-- Asking for a lease adds the directory that it is on and the file with the lock. -/
theorem adds_acquireIn {r : Except Failure Lease} (h : acquireIn root fs = (r, fs')) :
    FileSystem.Adds {(root.join lockName).destination} root.route fs fs' := by
  have hdirectories := (FileSystem.adds_makeDirectories fs root).mono
    (Set.empty_subset {(root.join lockName).destination}) (Set.Subset.refl _)
  cases r with
  | error e =>
    rw [files_of_acquireIn_error h]
    exact hdirectories
  | ok lease =>
    have hlock := lockFile_of_acquireIn h
    obtain ⟨fs₁, at', found, hmade, hopened, -, rfl, rfl⟩ := acquireIn_ok h
    obtain ⟨-, -, -, -, -, rfl, hfree⟩ := FileSystem.opened_ok hopened
    rw [hmade] at hdirectories
    have hlocked : FileSystem.Adds {(root.join lockName).destination} root.route fs₁
        (fs₁.put at' (.file mark false (some fs₁.locks))) :=
      FileSystem.adds_put (Set.mem_singleton_iff.mpr hlock) hfree false _
    exact hdirectories.trans hlocked

/-- Giving up a lease does nothing but to the file with the lock. -/
theorem adds_releaseIn (lease : Lease) (fs : FileSystem) :
    FileSystem.Adds {lease.lockFile} ∅ fs (lease.releaseIn fs) := by
  unfold releaseIn
  rcases he : fs.entryAt? lease.lockFile with _ | (_ | ⟨bytes, executable, _ | lock⟩)
  · exact .refl _ _ fs
  · exact .refl _ _ fs
  · exact .refl _ _ fs
  · by_cases hlock : lock = lease.lock
    · simp only [if_pos hlock]
      exact FileSystem.adds_put (Set.mem_singleton _) (by simp [he]) executable none
    · simp only [if_neg hlock]
      exact .refl _ _ fs

end Lease

/-! ## One call -/

/-- Nothing is done, or the file that a call declares is cleared away. -/
def Call.Clears (call : Call) (fs fs' : FileSystem) : Prop :=
  fs' = fs ∨ ∃ p, call.declared = .file p ∧ fs' = fs.drop p.destination

/-- An action that makes a certain call, with nothing cleared away before it but the file that the
call declares, and succeeds only if the call does. It may also fail and do nothing. -/
def Action.MakesOne (run : Runner σ) (call : Call) (a : Action σ α) : Prop :=
  ∀ s, (∃ e, a s = (.error e, s)) ∨
    ∃ s₁, s₁.tools = s.tools ∧ call.Clears s.files s₁.files ∧ (a s).2 = (run call s₁).2 ∧
      ((a s).1.isOk = true → (run call s₁).1.isOk = true)

theorem Call.clears_of_clearStale {call : Call} {p : Path} (hp : call.declared = .file p)
    {s s' : Site σ} (h : clearStale p s = (.ok (), s')) : call.Clears s.files s'.files := by
  rcases hr : s.files.removeFile p with e | fs
  · simp only [clearStale, hr] at h
    split at h
    · cases h
      exact .inl rfl
    · cases h
  · simp only [clearStale, hr] at h
    cases h
    exact .inr ⟨p, hp, FileSystem.removeFile_eq_drop hr⟩

theorem Call.makesOne_perform (run : Runner σ) (call : Call) :
    Action.MakesOne run call (call.perform run) := by
  intro s
  cases hd : call.declared with
  | file p =>
    rcases clearStale_cases p s with ⟨fs, hclear⟩ | ⟨cause, hr, hcause⟩
    · refine .inr ⟨{ s with files := fs }, rfl, clears_of_clearStale hd hclear,
        perform_site hd hclear, fun hok => ?_⟩
      rcases hrun : run call { s with files := fs } with ⟨e | output, s'⟩
      · rw [perform_failed hd hclear hrun] at hok
        cases hok
      · rfl
    · exact .inl ⟨_, perform_uncleared run hd hr hcause⟩
  | stdout =>
    refine .inr ⟨s, rfl, .inl rfl, ?_⟩
    rw [perform_of_stdout run hd]
    rcases hrun : run call s with ⟨e | output, s'⟩
    · rw [bind_of_error hrun]
      exact ⟨rfl, id⟩
    · rw [bind_of_ok hrun, Action.ofExcept_bind_pure]
      exact ⟨rfl, fun _ => rfl⟩
  | exitOnly =>
    refine .inr ⟨s, rfl, .inl rfl, ?_⟩
    unfold perform
    rw [hd]
    exact ⟨rfl, id⟩

theorem Account.makesOne_ask (account : Account) (run : Runner σ) (q : Question)
    (id : Identifier) : Action.MakesOne run (account.questionCall q id) (account.ask run q id) := by
  intro s
  refine .inr ⟨s, rfl, .inl rfl, ?_⟩
  rcases hrun : run (account.questionCall q id) s with ⟨e | output, s'⟩
  · simp only [ask, hrun]
    refine ⟨trivial, fun hok => ?_⟩
    cases hok
  · simp only [ask, hrun]
    exact ⟨trivial, fun _ => rfl⟩

/-! ## Chronicles -/

/-- The locations that a job has to do with: where its calls declare files, where it writes files
itself, where the one with the lock is, and where it makes directories if there are none. -/
structure Footprint where
  declared : Set Location
  written : Set Location
  lock : Location
  made : Set Location

namespace Footprint

variable {f : Footprint} {first fs fs' : FileSystem} {log : List Exchange} {l : Location}

def files (f : Footprint) : Set Location := insert f.lock (f.declared ∪ f.written)

/-- What the job itself does between calls: it writes files and makes directories. -/
abbrev Adds (f : Footprint) : FileSystem → FileSystem → Prop :=
  FileSystem.Adds (insert f.lock f.written) f.made

/-- A call that is made where there are certain files. The file that it declares is at a location
for such files; it alone may have been cleared away for the call, and it alone may have changed in
the call. -/
structure Hosts (f : Footprint) (fs : FileSystem) (e : Exchange) : Prop where
  places : e.call.declared.places ⊆ f.declared
  before : e.call.Clears fs e.before
  after : ∀ l ∉ e.call.declared.places, e.after.entryAt? l = e.before.entryAt? l

/-- How the files have come to be what they are, as long as no call has failed: something may have
been added in the beginning, and after each call. -/
inductive Chronicle (f : Footprint) (first : FileSystem) : List Exchange → FileSystem → Prop
  | begun {fs : FileSystem} (h : f.Adds first fs) : Chronicle f first [] fs
  | called {log : List Exchange} {fs fs' : FileSystem} {e : Exchange} (h : Chronicle f first log fs)
      (he : f.Hosts fs e) (hok : e.answer.isOk = true) (hrest : f.Adds e.after fs') :
      Chronicle f first (log ++ [e]) fs'

/-- How the files have come to be what they are in the end: no call has failed, or the last one has,
and then nothing has been done since but to the file with the lock. -/
inductive Ended (f : Footprint) (first : FileSystem) : List Exchange → FileSystem → Prop
  | whole {log : List Exchange} {fs : FileSystem} (h : Chronicle f first log fs) :
      Ended f first log fs
  | stopped {log : List Exchange} {fs fs' : FileSystem} {e : Exchange}
      (h : Chronicle f first log fs) (he : f.Hosts fs e) (hno : e.answer.isOk = false)
      (hrest : FileSystem.Adds {f.lock} ∅ e.after fs') :
      Ended f first (log ++ [e]) fs'

theorem Chronicle.add (h : f.Chronicle first log fs) (hadds : f.Adds fs fs') :
    f.Chronicle first log fs' := by
  cases h with
  | begun h => exact .begun (h.trans hadds)
  | called h he hok hrest => exact .called h he hok (hrest.trans hadds)

theorem Ended.release (h : f.Ended first log fs) (hlock : FileSystem.Adds {f.lock} ∅ fs fs') :
    f.Ended first log fs' := by
  cases h with
  | whole h =>
    apply Ended.whole
    apply h.add
    exact hlock.mono (Set.singleton_subset_iff.mpr (Set.mem_insert _ _)) (Set.empty_subset _)
  | stopped h he hno hrest => exact .stopped h he hno (hrest.trans hlock)

/-- A call changes nothing but the file that it declares. -/
theorem Hosts.entryAt?_after {e : Exchange} (h : f.Hosts fs e) (hl : l ∉ e.call.declared.places) :
    e.after.entryAt? l = fs.entryAt? l := by
  rw [h.after l hl]
  rcases h.before with hsame | ⟨p, hp, hdrop⟩
  · rw [hsame]
  · have hne : p.destination ≠ l := by
      rintro rfl
      apply hl
      rw [hp]
      exact Set.mem_singleton _
    rw [hdrop, FileSystem.entryAt?_drop, if_neg hne]

theorem Hosts.changesOnly {e : Exchange} (h : f.Hosts fs e) :
    FileSystem.ChangesOnly f.files f.made fs e.after := by
  apply FileSystem.changesOnly_of_entries
  intro l hl
  apply h.entryAt?_after
  exact fun hplace => hl (.inr (.inl (h.places hplace)))

theorem changesOnly_of_adds (h : f.Adds fs fs') :
    FileSystem.ChangesOnly f.files f.made fs fs' := by
  refine (h.mono ?_ (Set.Subset.refl _)).changesOnly
  exact Set.insert_subset_insert Set.subset_union_right

theorem Chronicle.changesOnly (h : f.Chronicle first log fs) :
    FileSystem.ChangesOnly f.files f.made first fs := by
  induction h with
  | begun h => exact changesOnly_of_adds h
  | called h he hok hrest ih => exact (ih.trans he.changesOnly).trans (changesOnly_of_adds hrest)

/-- Nothing is changed but files of the footprint, and directories that were missing. -/
theorem Ended.changesOnly (h : f.Ended first log fs) :
    FileSystem.ChangesOnly f.files f.made first fs := by
  cases h with
  | whole h => exact h.changesOnly
  | stopped h he hno hrest =>
    have hlock : f.Adds _ fs :=
      hrest.mono (Set.singleton_subset_iff.mpr (Set.mem_insert _ _)) (Set.empty_subset _)
    exact (h.changesOnly.trans he.changesOnly).trans (changesOnly_of_adds hlock)

/-- What is gone after a call was gone before, or was in the place of the declared file. -/
theorem Hosts.gone {e : Exchange} (h : f.Hosts fs e) (hgone : e.after.entryAt? l = none) :
    fs.entryAt? l = none ∨ l ∈ e.call.declared.places := by
  by_cases hplace : l ∈ e.call.declared.places
  · exact .inr hplace
  · left
    rw [← h.entryAt?_after hplace, hgone]

/-- What is gone was in the place of a file that a call declares. -/
theorem Chronicle.gone (h : f.Chronicle first log fs) (hl : first.entryAt? l ≠ none)
    (hgone : fs.entryAt? l = none) : ∃ e ∈ log, l ∈ e.call.declared.places := by
  induction h with
  | begun h => exact absurd (h.eq_none hgone) hl
  | @called log mid fs e h he hok hrest ih =>
    rcases he.gone (hrest.eq_none hgone) with hmid | hplace
    · obtain ⟨e', he', hplace⟩ := ih hmid
      exact ⟨e', List.mem_append_left _ he', hplace⟩
    · exact ⟨e, by simp, hplace⟩

theorem Ended.gone (h : f.Ended first log fs) (hl : first.entryAt? l ≠ none)
    (hgone : fs.entryAt? l = none) : ∃ e ∈ log, l ∈ e.call.declared.places := by
  cases h with
  | whole h => exact h.gone hl hgone
  | @stopped log mid fs e h he hno hrest =>
    rcases he.gone (hrest.eq_none hgone) with hmid | hplace
    · obtain ⟨e', he', hplace⟩ := h.gone hl hmid
      exact ⟨e', List.mem_append_left _ he', hplace⟩
    · exact ⟨e, by simp, hplace⟩

/-! ## Courses -/

/-- A course that goes on with a chronicle. -/
def Keeps (f : Footprint) (first : FileSystem) (m : Course (σ × List Exchange) α) : Prop :=
  ∀ st, f.Chronicle first st.1.log st.1.files →
    Ends m st (fun _ st' => f.Chronicle first st'.1.log st'.1.files)
      (fun _ st' => f.Ended first st'.1.log st'.1.files)

theorem Keeps.pure (a : α) : f.Keeps first (Pure.pure a : Course (σ × List Exchange) α) :=
  fun _ h => .pure h

theorem Keeps.bind {m : Course (σ × List Exchange) α} {g : α → Course (σ × List Exchange) β}
    (hm : f.Keeps first m) (hg : ∀ a, f.Keeps first (g a)) : f.Keeps first (m >>= g) :=
  fun st h => (hm st h).bind (fun a st' h' => hg a st' h') fun _ _ h' => h'

/-- What adds files and makes no call goes on with the chronicle, whatever comes of it. -/
theorem keeps_of_adds {a : Action (σ × List Exchange) α} (htools : ∀ s, (a s).2.tools = s.tools)
    (hadds : ∀ s, f.Adds s.files (a s).2.files) : f.Keeps first (Course.act a) := by
  intro st h
  have hafter : f.Chronicle first (a st.1).2.log (a st.1).2.files := by
    rw [show (a st.1).2.log = st.1.log from congrArg Prod.snd (htools st.1)]
    exact h.add (hadds st.1)
  apply Course.ends_action
  exact (Ends.of_state hafter).weaken (fun _ _ h => h) fun _ _ h => .whole h

/-- What makes one call goes on with the chronicle, or ends it if the call fails. -/
theorem keeps_of_makesOne {run : Runner σ} (hrun : run.TouchesDeclaredOnly) {call : Call}
    (hplaces : call.declared.places ⊆ f.declared) {a : Action (σ × List Exchange) α}
    (ha : a.MakesOne run.observed call) : f.Keeps first (Course.act a) := by
  intro st h
  apply Course.ends_action
  obtain ⟨e, hnothing⟩ | ⟨s₁, htools, hclears, hstate, hok⟩ := ha st.1
  · exact .of_eq_error hnothing (.whole h)
  have hhosts : f.Hosts st.1.files (run.exchange call s₁) :=
    ⟨hplaces, hclears, hrun call s₁.inner⟩
  have hlog : (a st.1).2.log = st.1.log ++ [run.exchange call s₁] := by
    rw [hstate, run.observed_eq, ← show s₁.log = st.1.log from congrArg Prod.snd htools]
    rfl
  have hfiles : (a st.1).2.files = (run.exchange call s₁).after := by
    rw [hstate]
    rfl
  rcases hanswer : (run.exchange call s₁).answer.isOk with _ | _
  · -- the call has failed, and so has what was to come after it
    have hended : f.Ended first (a st.1).2.log (a st.1).2.files := by
      rw [hlog, hfiles]
      exact .stopped h hhosts hanswer (.refl _ _ _)
    rcases hx : a st.1 with ⟨e | x, s'⟩
    · rw [hx] at hended
      exact .of_eq_error hx hended
    · rw [hx] at hok
      cases hanswer.symm.trans (hok rfl)
  · have hafter : f.Chronicle first (a st.1).2.log (a st.1).2.files := by
      rw [hlog, hfiles]
      exact .called h hhosts hanswer (.refl _ _ _)
    exact (Ends.of_state hafter).weaken (fun _ _ h => h) fun _ _ h => .whole h

def AllowsDeclared (f : Footprint) (p : Path) : Prop :=
  p.destination ∈ f.declared ∧ {l | l ∈ p.passes} ⊆ f.made

def AllowsWritten (f : Footprint) (p : Path) : Prop :=
  p.destination ∈ f.written ∧ {l | l ∈ p.passes} ⊆ f.made

/-- Every step of a course goes on with the chronicle. -/
theorem stepwise_keeps (s : Settings) {run : Runner σ} (hrun : run.TouchesDeclaredOnly)
    (f : Footprint) (first : FileSystem) :
    Course.Stepwise s run.observed f.AllowsDeclared f.AllowsWritten fun _ => f.Keeps first where
  pure := .pure
  bind := .bind
  enter := fun _ _ h => h
  idle := fun {_ a} hsite _ => by
    refine keeps_of_adds (fun s => congrArg Site.tools (hsite s)) fun s => ?_
    rw [hsite s]
    exact .refl _ _ _
  perform := fun {call} hcall => by
    refine keeps_of_makesOne hrun ?_ (call.makesOne_perform run.observed)
    intro l hl
    cases hd : call.declared with
    | file p =>
      rw [hd] at hl
      rw [Set.mem_singleton_iff.mp hl]
      exact (hcall.declared p hd).1
    | stdout =>
      rw [hd] at hl
      cases hl
    | exitOnly =>
      rw [hd] at hl
      cases hl
  ask := fun q id =>
    keeps_of_makesOne hrun (Set.empty_subset _) (s.account.makesOne_ask run.observed q id)
  writeBytes := fun {p} hp bytes => by
    refine keeps_of_adds (writeBytes_tools p bytes) fun s => ?_
    apply (adds_writeBytes p bytes s).mono
    · exact Set.singleton_subset_iff.mpr (.inr hp.1)
    · exact hp.2
  makeParameterDirectory := fun hp => by
    refine keeps_of_adds s.makeParameterDirectory_tools fun site => ?_
    exact (s.adds_makeParameterDirectory site).mono (Set.empty_subset _) hp.2

end Footprint

/-! ## Jobs -/

namespace Settings

variable {s : Settings} {run : Runner σ}

/-- The files of a job: the one with the lock of the working directory, those that it has in there,
and that of the proving parameters if it is there to make them. -/
def ownFiles (s : Settings) (job : Job) : Set Location :=
  {l | l = (s.workDir.join Lease.lockName).destination ∨
    (∃ name ∈ job.fileNames, l = (s.workDir.join name).destination) ∨
    job.flow = .setup ∧ l = s.parameters.destination}

/-- The directories that a job makes if they are missing: the working directory and those on the way
to it, and those on the way to the proving parameters if it is there to make them. -/
def ownDirectories (s : Settings) (job : Job) : Set Location :=
  {l | l ∈ s.workDir.route ∨ job.flow = .setup ∧ l ∈ s.parameters.passes}

/-- The files and directories of a job, told by what it does to them. -/
def footprint (s : Settings) (job : Job) : Footprint where
  declared := {l | (∃ name ∈ job.declaredNames, l = (s.workDir.join name).destination) ∨
    job.flow = .setup ∧ l = s.parameters.destination}
  written := {l | ∃ name ∈ job.writtenNames, l = (s.workDir.join name).destination}
  lock := (s.workDir.join Lease.lockName).destination
  made := s.ownDirectories job

theorem files_footprint (s : Settings) (job : Job) : (s.footprint job).files = s.ownFiles job := by
  ext l
  constructor
  · rintro (rfl | (⟨name, hname, rfl⟩ | hsetup) | ⟨name, hname, rfl⟩)
    · exact .inl rfl
    · exact .inr (.inl ⟨name, Job.mem_fileNames_iff.mpr (.inl hname), rfl⟩)
    · exact .inr (.inr hsetup)
    · exact .inr (.inl ⟨name, Job.mem_fileNames_iff.mpr (.inr hname), rfl⟩)
  · rintro (rfl | ⟨name, hname, rfl⟩ | hsetup)
    · exact .inl rfl
    · rcases Job.mem_fileNames_iff.mp hname with hname | hname
      · exact .inr (.inl (.inl ⟨name, hname, rfl⟩))
      · exact .inr (.inr ⟨name, hname, rfl⟩)
    · exact .inr (.inl (.inr hsetup))

/-- The directories on the way to a file of a job are those that it makes. -/
theorem passes_subset_ownDirectories (s : Settings) {job : Job} {name : String}
    (hname : name ∈ job.fileNames) :
    {l | l ∈ (s.workDir.join name).passes} ⊆ s.ownDirectories job := by
  have hplain := Lease.isPlainName_leftover (job.fileNames_subset hname)
  rw [Path.route_join hplain]
  exact fun l hl => .inl hl

theorem keeps_courseOf (hrun : run.TouchesDeclaredOnly) (s : Settings) (job : Job) {lease : Lease}
    (hroot : lease.root = s.workDir) (first : FileSystem) :
    (s.footprint job).Keeps first (s.courseOf run.observed job lease) := by
  apply (Footprint.stepwise_keeps s hrun (s.footprint job) first).courseOf
  · intro name hname
    rw [Lease.file, hroot]
    have hmade := s.passes_subset_ownDirectories (Job.mem_fileNames_iff.mpr (.inl hname))
    exact ⟨.inl ⟨name, hname, rfl⟩, hmade⟩
  · intro name hname
    rw [Lease.file, hroot]
    have hmade := s.passes_subset_ownDirectories (Job.mem_fileNames_iff.mpr (.inr hname))
    exact ⟨⟨name, hname, rfl⟩, hmade⟩
  · intro hsetup
    exact ⟨.inr ⟨hsetup, rfl⟩, fun l hl => .inr ⟨hsetup, hl⟩⟩

theorem files_undertake_observed (s : Settings) (run : Runner σ) (job : Job) (d : Desk σ) :
    (s.undertake run.observed job (d.watched [])).2.site.files =
      (s.undertake run job d).2.site.files := by
  obtain ⟨log, hwatched⟩ := s.undertake_watched run job d []
  rw [hwatched]
  rfl

/-- The course of a job, told by its calls, from the files before it to those after it. -/
theorem ended_undertake (hrun : run.TouchesDeclaredOnly) (s : Settings) (job : Job) (d : Desk σ) :
    (s.footprint job).Ended d.site.files (s.callsOf run job d)
      (s.undertake run job d).2.site.files := by
  have hadds {r : Except Failure Lease} {fs : FileSystem}
      (h : Lease.acquireIn s.workDir d.site.files = (r, fs)) :
      (s.footprint job).Adds d.site.files fs := by
    apply (Lease.adds_acquireIn h).mono
    · exact Set.singleton_subset_iff.mpr (Set.mem_insert _ _)
    · exact fun l hl => .inl hl
  rw [← s.files_undertake_observed run, callsOf]
  by_cases hrefused : job.refused = true
  · rw [undertake_of_refused _ _ hrefused]
    exact .whole (.begun (.refl _ _ _))
  rw [Bool.not_eq_true] at hrefused
  rw [undertake_of_not_refused _ _ hrefused]
  obtain ⟨e, -, h⟩ | ⟨e, begun, -, ha, h⟩ | ⟨lease, begun, -, ha, h⟩ :=
    s.conduct_cases job.flow (s.courseOf run.observed job) (d.watched [])
  · rw [h]
    exact .whole (.begun (.refl _ _ _))
  · obtain ⟨hrefused, htools⟩ := Lease.acquireIn_of_acquire ha
    rw [h, show begun.log = [] from congrArg Prod.snd htools]
    exact .whole (.begun (hadds hrefused))
  · obtain ⟨htaken, htools⟩ := Lease.acquireIn_of_acquire ha
    have hbegun : (s.footprint job).Chronicle d.site.files begun.log begun.files := by
      rw [show begun.log = [] from congrArg Prod.snd htools]
      exact .begun (hadds htaken)
    have hreleased (fs : FileSystem) :
        FileSystem.Adds {(s.footprint job).lock} ∅ fs (lease.releaseIn fs) := by
      have hlock : lease.lockFile = (s.footprint job).lock := Lease.lockFile_of_acquireIn htaken
      rw [← hlock]
      exact lease.adds_releaseIn fs
    rw [h]
    apply Footprint.Ended.release _ (hreleased _)
    have hkeeps := keeps_courseOf hrun s job (Lease.root_of_acquire ha) d.site.files
    obtain ⟨a, st, hcourse, hst⟩ | ⟨e, st, hcourse, hst⟩ := (hkeeps (begun, [.init]) hbegun).cases
    · rw [hcourse]
      exact .whole hst
    · rw [hcourse]
      exact hst

/-- The files of a job other than a setup have its names. -/
theorem getLast?_of_mem_ownFiles {job : Job} (hsetup : job.flow ≠ .setup) {l : Location}
    (hl : l ∈ s.ownFiles job) :
    ∃ name ∈ Lease.lockName :: job.fileNames, l.getLast? = some name := by
  rcases hl with rfl | ⟨name, hname, rfl⟩ | ⟨h, -⟩
  · refine ⟨Lease.lockName, List.mem_cons_self, ?_⟩
    rw [Path.destination_join Lease.isPlainName_lockName, List.getLast?_concat]
  · refine ⟨name, List.mem_cons_of_mem _ hname, ?_⟩
    rw [Path.destination_join (Lease.isPlainName_leftover (job.fileNames_subset hname)),
      List.getLast?_concat]
  · exact absurd h hsetup

/-- What a job leaves alone, and what it does to the rest. -/
structure TouchesOwnFilesOnly (s : Settings) (run : Runner σ) (job : Job) (d : Desk σ) : Prop where
  /-- Every location has what it had but for the files of the job and for directories of it that
  were missing. -/
  files : d.site.files.ChangesOnly (s.ownFiles job) (s.ownDirectories job)
    (s.undertake run job d).2.site.files
  /-- The same is found at every path that does not lead to or through any of these. -/
  paths : ∀ p : Path, (∀ l ∈ p.route, l ∉ s.ownFiles job ∧
      (l ∈ s.ownDirectories job → d.site.files.entryAt? l ≠ none)) →
    (s.undertake run job d).2.site.files.inspect p = d.site.files.inspect p
  /-- A job that is no setup leaves everything that stands under another name than those of its
  files, and so proving parameters too. -/
  named : job.flow ≠ .setup → ∀ l e,
    (∀ name ∈ Lease.lockName :: job.fileNames, l.getLast? ≠ some name) →
    d.site.files.entryAt? l = some e → (s.undertake run job d).2.site.files.entryAt? l = some e
  /-- The job adds files and directories between its calls, and clears away a file that a call
  declares right before this call. After a call that has failed, it gives up its lease and does
  nothing else. -/
  course : (s.footprint job).Ended d.site.files (s.callsOf run job d)
    (s.undertake run job d).2.site.files
  /-- What is gone was in the place of a file that a call of the job has declared. -/
  gone : ∀ l, d.site.files.entryAt? l ≠ none →
    (s.undertake run job d).2.site.files.entryAt? l = none →
    ∃ e ∈ s.callsOf run job d, l ∈ e.call.declared.places

/-- A job touches its own files only, whatever comes of it. Let the runner leave every location as
it is but that of the file which a call declares. Then a job changes nothing but the file with the
lock and the files of its flow, and makes the directories of these that are missing. Every job but a
setup leaves files under other names alone. Nothing is taken back after a failure, and no file is
cleared away but that which the next call declares. -/
theorem touches_own_files_only (hrun : run.TouchesDeclaredOnly) (s : Settings) (job : Job)
    (d : Desk σ) : s.TouchesOwnFilesOnly run job d := by
  have hended := ended_undertake hrun s job d
  have hfiles := hended.changesOnly
  rw [files_footprint] at hfiles
  refine ⟨hfiles, fun p hp => hfiles.inspect_eq hp, ?_, hended, fun l => hended.gone⟩
  intro hsetup l e hother he
  apply hfiles.entry _ he
  intro hl
  obtain ⟨name, hname, hlast⟩ := getLast?_of_mem_ownFiles hsetup hl
  exact hother name hname hlast

end Settings

theorem Runner.touchesDeclaredOnly_honest (input : PublicInput) (blob : Bytes) :
    (Runner.honest input blob).TouchesDeclaredOnly := by
  intro call s l hl
  have hleave (bytes : Bytes) : (leave bytes call s).2.files.entryAt? l = s.files.entryAt? l := by
    unfold leave
    cases hd : call.declared with
    | file p =>
      rcases hw : s.files.write p bytes with e | fs
      · simp only [hw]
      · rw [hd] at hl
        simp only [hw]
        exact ((FileSystem.adds_write hw).changesOnly l hl).resolve_right fun h => h.1.elim
    | stdout => rfl
    | exitOnly => rfl
  unfold honest
  cases call.stage with
  | extractFrames | perceptualHash | setupCrs | generateProof => exact hleave _
  | ledgerQuery => cases lookUp s.tools call.args <;> rfl
  | _ => rfl

open Settings.Specimen in
/-- The parameters beside the working directory stay what they are while a proof is made in it. -/
theorem Settings.touches_own_files_only_specimen :
    run.TouchesDeclaredOnly ∧
    (∃ e ∈ settings.callsOf run (.mine agreement.identifier) (desk published),
      e.call.stage = .generateProof) ∧
    settings.TouchesOwnFilesOnly run (.mine agreement.identifier) (desk published) ∧
    (settings.undertake run (.mine agreement.identifier) (desk published)).2.site.files.entryAt?
      settings.parameters.destination = some (.file [1] false none) := by
  have hrun : run.TouchesDeclaredOnly := Runner.touchesDeclaredOnly_honest input blob
  have htouches :=
    touches_own_files_only hrun settings (.mine agreement.identifier) (desk published)
  have hsetup : (Job.mine agreement.identifier).flow ≠ .setup := fun h => nomatch h
  refine ⟨hrun, exists_generateProof, htouches, htouches.named hsetup _ _ ?_ ?_⟩
  · -- none of the names is that of the parameters
    have hname : settings.parameters.destination.getLast? = some "crs.dat" := by decide +kernel
    rw [hname]
    unfold Job.fileNames
    decide
  · decide +kernel

end StorageProof
