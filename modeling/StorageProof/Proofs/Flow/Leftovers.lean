import StorageProof.Proofs.Files.Alike
import StorageProof.Proofs.Flow.Composition
import StorageProof.Proofs.Flow.Steps

/-!
# Leftovers of earlier runs

A job takes no notice of the files that earlier runs have left in its working directory. From two
desks that are the same but for these files it comes to the same: what a stage is held to is cleared
away first, and what is written for a stage takes the place of whatever was there.
-/

namespace StorageProof

/-- Where runs may leave files in a working directory. -/
def Path.leftovers (root : Path) : Set Location :=
  {l | ∃ name ∈ Lease.leftoverNames, l = root.destination ++ [name]}

instance (root : Path) : DecidablePred (· ∈ root.leftovers) := fun l =>
  inferInstanceAs (Decidable (∃ name ∈ Lease.leftoverNames, l = root.destination ++ [name]))

/-! ## Runners that cannot look -/

inductive Touch
  | write (path : Path) (bytes : Bytes)
  | remove (path : Path)

/-- The files with one of them written or removed, or as they were if that is refused. -/
def FileSystem.touch (fs : FileSystem) : Touch → FileSystem
  | .write p bytes => fs.overwrite p bytes
  | .remove p => fs.discard p

/-- Answers, and touches files, by the calls that have been made so far and by nothing else. -/
def Runner.blind (respond : List Call → Except Failure Output × List Touch) :
    Runner (List Call) := fun call s =>
  let calls := s.tools ++ [call]
  ((respond calls).1, ⟨(respond calls).2.foldl FileSystem.touch s.files, calls⟩)

namespace FileSystem

variable {fs fs' : FileSystem} {spots : Set Location}

theorem keepsDirectories_touch (fs : FileSystem) (t : Touch) :
    KeepsDirectories fs (fs.touch t) := by
  cases t with
  | write p bytes =>
    rcases hw : fs.write p bytes with e | g
    · simp only [touch, overwrite, hw]
      exact fun _ h => h
    · simp only [touch, overwrite, hw]
      obtain ⟨_, _, _, _, _, -, hfree, rfl⟩ := write_ok hw
      exact keepsDirectories_put hfree _
  | remove p =>
    rcases hr : fs.removeFile p with e | g
    · simp only [touch, discard, hr]
      exact fun _ h => h
    · simp only [touch, discard, hr]
      obtain ⟨_, _, -, hfree, rfl⟩ := removeFile_ok hr
      exact keepsDirectories_drop hfree

theorem keepsDirectories_touches (fs : FileSystem) (ts : List Touch) :
    KeepsDirectories fs (ts.foldl touch fs) := by
  induction ts generalizing fs with
  | nil => exact fun _ h => h
  | cons t ts ih => exact (keepsDirectories_touch fs t).trans (ih _)

theorem Alike.touches (h : Alike spots fs fs') (ts : List Touch) :
    Alike spots (ts.foldl touch fs) (ts.foldl touch fs') := by
  induction ts generalizing fs fs' with
  | nil => exact h
  | cons t ts ih =>
    apply ih
    cases t with
    | write p bytes => exact h.overwrite p bytes
    | remove p => exact h.discard p

end FileSystem

open FileSystem (Alike Avoids KeepsDirectories Matches)

/-! ## Twins -/

/-- Two sites with the same calls behind them and with the same files but for certain spots, where a
working directory is in place. -/
structure Site.Twins (root : Path) (spots : Set Location) (s s' : Site (List Call)) : Prop where
  rooted : s.files.walk (FileSystem.start root) (root.names ++ ["."]) = .ok root.destination
  alike : Alike spots s.files s'.files
  tools : s.tools = s'.tools

def Site.SameCalls (s s' : Site (List Call)) : Prop := s.tools = s'.tools

namespace Site.Twins

variable {root p : Path} {spots spots' : Set Location} {s s' : Site (List Call)} {name : String}

/-- Directories stay in place while files change. -/
theorem change (h : Twins root spots s s') {fs fs' : FileSystem} (hfs : Alike spots' fs fs')
    (hkeeps : KeepsDirectories s.files fs) :
    Twins root spots' { s with files := fs } { s' with files := fs' } :=
  ⟨FileSystem.walk_of_keepsDirectories hkeeps h.rooted, hfs, h.tools⟩

/-- A name in the working directory is found there, if there can be such a path at all. -/
theorem lastStep_join (h : Twins root spots s s') (hname : Path.IsPlainName name) :
    s.files.lastStep (root.join name) =
      (FileSystem.checkPath (root.join name)).map fun _ => .name root.destination name false := by
  have hreverse : (root.join name).names.reverse = name :: root.names.reverse := by
    rw [Path.names_join hname]
    simp
  unfold FileSystem.lastStep
  rw [hreverse]
  simp only [Path.start_join hname, List.reverse_reverse, h.rooted, hname.ne_dot, hname.ne_dots,
    Path.endsInSlash_join hname, or_self, if_false]
  rcases FileSystem.checkPath (root.join name) with e | _
  · rfl
  · rfl

theorem sameCalls (h : Twins root spots s s') : s.SameCalls s' := h.tools

end Site.Twins

section Paths

variable {root : Path} {spots : Set Location} {name : String}

theorem FileSystem.Avoids.mono {spots' : Set Location} {p : Path} (h : Avoids spots p)
    (hsub : spots' ⊆ spots) : Avoids spots' p := fun l hl hspot => h l hl (hsub hspot)

/-- A working directory is none of the files in it. -/
theorem Path.destination_not_mem_leftovers (root : Path) : root.destination ∉ root.leftovers := by
  rintro ⟨name, -, h⟩
  have hlength := congrArg List.length h
  simp at hlength

/-- The files in a working directory are reached through none of them, if the directory is. -/
theorem Path.avoids_join (hroot : Avoids root.leftovers root) (hsub : spots ⊆ root.leftovers)
    (hname : Path.IsPlainName name) : Avoids spots (root.join name) := by
  intro l hl
  rw [FileSystem.passes_join hname] at hl
  rcases List.mem_append.mp hl with hl | hl
  · exact hroot.mono hsub l hl
  · rw [List.mem_singleton.mp hl]
    exact fun hspot => root.destination_not_mem_leftovers (hsub hspot)

end Paths

/-! ## Actions -/

section Actions

variable {root : Path} {spots : Set Location} {name : String} {p : Path} {α : Type}
  (respond : List Call → Except Failure Output × List Touch)

/-- A call is answered in the same way, and the same files are touched. -/
theorem couples_blind (call : Call) :
    Couples (Runner.blind respond call) (Site.Twins root spots) (Site.Twins root spots)
      Site.SameCalls := by
  refine .of_eq (fun s s' h => ?_) fun _ _ => Site.Twins.sameCalls
  have htouched := (h.change (h.alike.touches (respond (s.tools ++ [call])).2)
    (FileSystem.keepsDirectories_touches _ _))
  unfold Runner.blind
  rw [← h.tools]
  exact ⟨rfl, htouched.rooted, htouched.alike, rfl⟩

/-- What is the same in both comes to the same. -/
theorem couples_of_site_eq {a : Action (List Call) α}
    (hsite : ∀ s, (a s).2 = s)
    (hresult : ∀ s s', s.Twins root spots s' → (a s).1 = (a s').1) :
    Couples a (Site.Twins root spots) (Site.Twins root spots) Site.SameCalls := by
  refine .of_eq (fun s s' h => ⟨hresult s s' h, ?_⟩) fun _ _ => Site.Twins.sameCalls
  rwa [hsite, hsite]

theorem couples_requireFile (stage : Stage) (hp : Avoids spots p) (hd : p.destination ∉ spots) :
    Couples (stage.requireFile p) (Site.Twins root spots) (Site.Twins root spots)
      Site.SameCalls := by
  refine couples_of_site_eq (stage.requireFile_site p) fun s s' h => ?_
  have hinspect := h.alike.inspect_eq hp hd
  rcases hi : s'.files.inspect p with e | (_ | _)
  · simp only [Stage.requireFile, hinspect, hi]
  · simp only [Stage.requireFile, hinspect, hi]
  · simp only [Stage.requireFile, hinspect, hi]

theorem ProofBlob.couples_readFrom (hp : Avoids spots p) (hd : p.destination ∉ spots) :
    Couples (ProofBlob.readFrom p) (Site.Twins root spots) (Site.Twins root spots)
      Site.SameCalls := by
  refine couples_of_site_eq (readFrom_site p) fun s s' h => ?_
  have hread := h.alike.read_eq hp hd
  rcases hr : s'.files.read p with e | bytes
  · simp only [readFrom, hread, hr]
  · simp only [readFrom, hread, hr]

/-- What is written through no spot is written in both. -/
theorem couples_changing_write (context : String) (hp : Avoids spots p) (bytes : Bytes) :
    Couples (Action.changing context (·.write p bytes)) (Site.Twins root spots)
      (Site.Twins root spots) Site.SameCalls := by
  intro s s' h
  have hw := h.alike.write hp bytes
  rcases hs : s.files.write p bytes with e | g
  · rw [hs] at hw
    generalize hs' : s'.files.write p bytes = r at hw
    cases hw
    refine .inr ⟨.io context e, s, s', ?_, ?_, h.tools⟩
    · simp only [Action.changing, hs]
    · simp only [Action.changing, hs']
  · obtain ⟨_, _, _, _, _, -, hfree, hput⟩ := FileSystem.write_ok hs
    have hkeeps : KeepsDirectories s.files g := hput ▸ FileSystem.keepsDirectories_put hfree _
    rw [hs] at hw
    generalize hs' : s'.files.write p bytes = r at hw
    cases hw with
    | ok hg =>
      refine .inl ⟨(), _, _, ?_, ?_, h.change hg hkeeps⟩
      · simp only [Action.changing, hs]
      · simp only [Action.changing, hs']

/-- What comes to the same in both, and keeps directories, may be done step by step. -/
theorem couples_working (context : String)
    {f : FileSystem → Except SystemError Unit × FileSystem}
    (hf : ∀ fs fs', Alike spots fs fs' → (f fs).1 = (f fs').1 ∧ Alike spots (f fs).2 (f fs').2)
    (hkeeps : ∀ fs, KeepsDirectories fs (f fs).2) :
    Couples (Action.working context f) (Site.Twins root spots) (Site.Twins root spots)
      Site.SameCalls := by
  intro s s' h
  obtain ⟨hresult, halike⟩ := hf _ _ h.alike
  have hchanged := h.change halike (hkeeps s.files)
  rcases hs : f s.files with ⟨r, g⟩
  rcases hs' : f s'.files with ⟨r', g'⟩
  rw [hs, hs'] at hresult hchanged
  cases hresult
  rcases r with e | _
  · refine .inr ⟨.io context e, _, _, ?_, ?_, hchanged.tools⟩
    · simp only [Action.working, hs]
    · simp only [Action.working, hs']
  · refine .inl ⟨(), _, _, ?_, ?_, hchanged⟩
    · simp only [Action.working, hs]
    · simp only [Action.working, hs']

theorem couples_writeBytes (hp : Avoids spots p) (bytes : Bytes) :
    Couples (writeBytes p bytes) (Site.Twins root spots) (Site.Twins root spots)
      Site.SameCalls := by
  refine (couples_working _ (fun _ _ h => h.makeParent hp) fun fs => ?_).bind fun _ => ?_
  · exact (FileSystem.keeps_makeParent fs p).directories
  · exact couples_changing_write _ hp bytes

/-- A path that neither leads to a spot nor through one is cleared in both. -/
theorem couples_clearStale (hp : Avoids spots p) (hd : p.destination ∉ spots) :
    Couples (clearStale p) (Site.Twins root spots) (Site.Twins root spots) Site.SameCalls := by
  intro s s' h
  have hr := h.alike.removeFile (h.alike.lastStep_eq hp) hd
  rcases hs : s.files.removeFile p with e | g
  · rw [hs] at hr
    generalize hs' : s'.files.removeFile p = r at hr
    cases hr
    by_cases hmissing : e = .notFound
    · refine .inl ⟨(), s, s', ?_, ?_, h⟩
      · simp only [clearStale, hs, hmissing, if_true]
      · simp only [clearStale, hs', hmissing, if_true]
    · refine .inr ⟨.io s!"removing stale {p.text}" e, s, s', ?_, ?_, h.tools⟩
      · simp only [clearStale, hs, hmissing, if_false]
      · simp only [clearStale, hs', hmissing, if_false]
  · obtain ⟨_, _, -, hfree, hdrop⟩ := FileSystem.removeFile_ok hs
    have hkeeps : KeepsDirectories s.files g := hdrop ▸ FileSystem.keepsDirectories_drop hfree
    rw [hs] at hr
    generalize hs' : s'.files.removeFile p = r at hr
    cases hr with
    | ok hg =>
      refine .inl ⟨(), _, _, ?_, ?_, h.change hg hkeeps⟩
      · simp only [clearStale, hs]
      · simp only [clearStale, hs']

theorem checkPath_ne_notFound {e : SystemError} (hp : p.text ≠ "")
    (h : FileSystem.checkPath p = .error e) : e ≠ .notFound := by
  unfold FileSystem.checkPath at h
  rw [if_neg hp] at h
  split at h
  · cases h
    nofun
  · split at h
    · cases h
      nofun
    · cases h

theorem Lease.checkName_leftover {name : String} (h : name ∈ Lease.leftoverNames) :
    FileSystem.checkName name = .ok () := by
  have hall : ∀ name ∈ Lease.leftoverNames, FileSystem.checkName name = .ok () := by decide
  exact hall name h

/-- The clearing of a path makes its spot one no more, if it is one. -/
theorem couples_clearStale_leftover (hroot : Avoids root.leftovers root)
    (hsub : spots ⊆ root.leftovers) (hname : name ∈ Lease.leftoverNames) :
    Couples (clearStale (root.join name)) (Site.Twins root spots)
      (Site.Twins root (spots \ {root.destination ++ [name]})) Site.SameCalls := by
  have hplain := Lease.isPlainName_leftover hname
  have havoids := Path.avoids_join hroot hsub hplain
  by_cases hspot : root.destination ++ [name] ∈ spots
  · intro s s' h
    have hs := h.lastStep_join hplain
    have hs' : s'.files.lastStep (root.join name) = s.files.lastStep (root.join name) :=
      (h.alike.lastStep_eq havoids).symm
    rcases hcheck : FileSystem.checkPath (root.join name) with e | _
    · -- there can be no such path, and so nothing is cleared
      have hne := checkPath_ne_notFound (Path.text_join_ne hplain root) hcheck
      rw [hs, hcheck] at hs'
      rw [hcheck] at hs
      refine .inr ⟨.io s!"removing stale {(root.join name).text}" e, s, s', ?_, ?_, h.tools⟩
      · simp only [clearStale, FileSystem.removeFile, hs, Except.map, bind, Except.bind, hne,
          if_false]
      · simp only [clearStale, FileSystem.removeFile, hs', Except.map, bind, Except.bind, hne,
          if_false]
    · rw [hs, hcheck] at hs'
      rw [hcheck] at hs
      have hleft := h.alike.left _ hspot
      have hlast := Lease.checkName_leftover hname
      refine .inl ⟨(), _, _, clearStale_eq_drop hs hlast hleft,
        clearStale_eq_drop hs' hlast (h.alike.right _ hspot), h.change ?_ ?_⟩
      · exact (h.alike.drop _).without (by simp)
      · exact FileSystem.keepsDirectories_drop hleft
  · have hnone : spots \ {root.destination ++ [name]} = spots := by
      ext l
      constructor
      · exact fun hl => hl.1
      · exact fun hl => ⟨hl, fun heq => hspot (heq ▸ hl)⟩
    rw [hnone]
    refine couples_clearStale havoids ?_
    rwa [Path.destination_join hplain]

/-- A call that declares a file which cannot be told apart any more once it is cleared. -/
theorem Call.couples_perform_file {spots' : Set Location} {call : Call}
    (hdeclared : call.declared = .file p)
    (hclear : Couples (clearStale p) (Site.Twins root spots) (Site.Twins root spots')
      Site.SameCalls)
    (hp : Avoids spots' p) (hd : p.destination ∉ spots') :
    Couples (call.perform (Runner.blind respond)) (Site.Twins root spots) (Site.Twins root spots')
      Site.SameCalls := by
  unfold Call.perform
  rw [hdeclared]
  refine hclear.bind fun _ => ?_
  refine (couples_blind respond call).bind fun output => ?_
  exact (couples_requireFile call.stage hp hd).bind fun _ => .pure output

/-- A call that declares one of the files that runs leave makes its spot one no more. -/
theorem Call.couples_perform_leftover {call : Call} (hroot : Avoids root.leftovers root)
    (hsub : spots ⊆ root.leftovers) (hname : name ∈ Lease.leftoverNames)
    (hdeclared : call.declared = .file (root.join name)) :
    Couples (call.perform (Runner.blind respond)) (Site.Twins root spots)
      (Site.Twins root (spots \ {root.destination ++ [name]})) Site.SameCalls := by
  have hplain := Lease.isPlainName_leftover hname
  refine Call.couples_perform_file respond hdeclared
    (couples_clearStale_leftover hroot hsub hname) ?_ ?_
  · exact Path.avoids_join hroot (fun l hl => hsub hl.1) hplain
  · rw [Path.destination_join hplain]
    exact fun h => h.2 rfl

theorem Call.couples_perform {call : Call} (hdeclared : ∀ p, call.declared ≠ .file p) :
    Couples (call.perform (Runner.blind respond)) (Site.Twins root spots) (Site.Twins root spots)
      Site.SameCalls := by
  have hcall : Couples (Runner.blind respond call) (Site.Twins root spots) (Site.Twins root spots)
      Site.SameCalls := couples_blind respond call
  unfold Call.perform
  cases hd : call.declared with
  | file p => exact absurd hd (hdeclared p)
  | stdout =>
    refine hcall.bind fun output => ?_
    exact (couples_of_site_eq (fun _ => rfl) fun _ _ _ => rfl).bind fun _ => .pure output
  | exitOnly => exact hcall

theorem Call.couples_transaction {call : Call} (hdeclared : call.declared = .exitOnly) :
    Couples (call.perform (Runner.blind respond) >>= fun _ => pure ()) (Site.Twins root spots)
      (Site.Twins root spots) Site.SameCalls := by
  refine (Call.couples_perform respond fun p hp => ?_).bind fun _ => .pure ()
  cases hdeclared.symm.trans hp

theorem Account.couples_ask (account : Account) (q : Question) (id : Identifier) :
    Couples (account.ask (Runner.blind respond) q id) (Site.Twins root spots)
      (Site.Twins root spots) Site.SameCalls := by
  intro s s' h
  obtain ⟨output, t, t', hs, hs', ht⟩ | ⟨e, t, t', hs, hs', ht⟩ :=
    couples_blind respond (account.questionCall q id) s s' h
  · exact .inl ⟨output.text, t, t', by simp only [ask, hs], by simp only [ask, hs'], ht⟩
  · exact .inr ⟨questionFailure q id e, t, t', by simp only [ask, hs], by simp only [ask, hs'], ht⟩

/-- A question, and the reading of its answer. -/
theorem Account.couples_answer (account : Account) (q : Question) (id : Identifier)
    (read : String → Except Failure α) :
    Couples (account.ask (Runner.blind respond) q id >>= fun answer =>
      Action.ofExcept (read answer)) (Site.Twins root spots) (Site.Twins root spots)
      Site.SameCalls :=
  (account.couples_ask respond q id).bind fun _ =>
    couples_of_site_eq (fun _ => rfl) fun _ _ _ => rfl

end Actions

/-! ## Courses -/

namespace Course

variable {α : Type}

/-- Two states of a course with related sites and the same history. -/
def Lifts (R : Site (List Call) → Site (List Call) → Prop)
    (st st' : Site (List Call) × List RunState) : Prop := R st.1 st'.1 ∧ st.2 = st'.2

variable {R R' failed : Site (List Call) → Site (List Call) → Prop}

theorem couples_enter (next : RunState) :
    Couples (enter next) (Lifts R) (Lifts R) (Lifts failed) := by
  rintro ⟨s, history⟩ ⟨s', history'⟩ ⟨hs, hhistory⟩
  exact .inl ⟨(), _, _, rfl, rfl, hs, congrArg (· ++ [next]) hhistory⟩

theorem couples_act {a : Action (List Call) α} (h : Couples a R R' failed) :
    Couples (act a) (Lifts R) (Lifts R') (Lifts failed) := by
  rintro ⟨s, history⟩ ⟨s', history'⟩ ⟨hs, hhistory⟩
  obtain ⟨a, t, t', ht, ht', hend⟩ | ⟨e, t, t', ht, ht', hend⟩ := h s s' hs
  · refine .inl ⟨a, (t, history), (t', history'), ?_, ?_, hend, hhistory⟩
    · simp only [act, ht]
    · simp only [act, ht']
  · refine .inr ⟨e, (t, history), (t', history'), ?_, ?_, hend, hhistory⟩
    · simp only [act, ht]
    · simp only [act, ht']

/-- What is done with the files of a site, as far as it is the same with both. -/
theorem couples_files {β : Type} {f : FileSystem → Course (List Call) β}
    {Q Q' broken : Site (List Call) × List RunState → Site (List Call) × List RunState → Prop}
    (heq : ∀ st st', Q st st' → f st.1.files = f st'.1.files)
    (hf : ∀ fs, Couples (f fs) Q Q' broken) : Couples (act Action.files >>= f) Q Q' broken := by
  intro st st' h
  have hlook (st : Site (List Call) × List RunState) :
      (act Action.files >>= f) st = f st.1.files st := rfl
  rw [hlook, hlook, heq st st' h]
  exact hf _ st st' h

/-- Two states of a course at twin sites. -/
abbrev Twins (root : Path) (spots : Set Location) := Lifts (Site.Twins root spots)

/-- The same calls have been made, and the same states entered. -/
abbrev SameTrace := Lifts Site.SameCalls

theorem sameTrace_of_twins {root : Path} {spots : Set Location}
    (st st' : Site (List Call) × List RunState) (h : Twins root spots st st') : SameTrace st st' :=
  ⟨h.1.sameCalls, h.2⟩

end Course

namespace Settings

section Courses

variable {root : Path} {lease : Lease}
  (respond : List Call → Except Failure Output × List Touch)

theorem couples_requireParameters (s : Settings) {spots : Set Location}
    (hd : s.parameters.destination ∉ spots) :
    Couples s.requireParameters (Site.Twins root spots) (Site.Twins root spots)
      Site.SameCalls := by
  refine couples_of_site_eq s.requireParameters_site fun site site' h => ?_
  have hsame := h.alike.isNonEmptyFile_eq hd
  by_cases hp : site'.files.isNonEmptyFile s.parameters = true
  · simp only [requireParameters, hsame, hp, if_true]
  · simp only [requireParameters, hsame, hp]
    rfl

theorem couples_makeParameterDirectory (s : Settings) {spots : Set Location}
    (hp : Avoids spots s.parameters) :
    Couples s.makeParameterDirectory (Site.Twins root spots) (Site.Twins root spots)
      Site.SameCalls := by
  unfold makeParameterDirectory
  rcases hparent : s.parameters.parent? with _ | parent
  · exact .pure ()
  · refine couples_working _ (fun _ _ h => h.makeDirectories (hp.parent hparent)) fun fs => ?_
    exact (FileSystem.keeps_makeDirectories fs parent).directories

variable (hroot : Avoids root.leftovers root) (hlease : lease.root = root)

include hroot hlease

/-- The spots that are left once frames and hashes have been made. -/
theorem couples_sampleAndHash (s : Settings) (source : String) :
    Couples (s.sampleAndHash (Runner.blind respond) lease source)
      (Course.Twins root root.leftovers)
      (Course.Twins root ((root.leftovers \ {root.destination ++ ["scaled-frames.txt"]}) \
        {root.destination ++ ["phashes.txt"]})) Course.SameTrace := by
  subst hlease
  have hextract := Call.couples_perform_leftover respond hroot (fun _ hl => hl)
    (show "scaled-frames.txt" ∈ Lease.leftoverNames by decide)
    (show (s.extractFrames source lease.frames).declared = _ from rfl)
  have hhash := Call.couples_perform_leftover respond hroot
    (show lease.root.leftovers \ {lease.root.destination ++ ["scaled-frames.txt"]} ⊆ _ from
      fun _ hl => hl.1)
    (show "phashes.txt" ∈ Lease.leftoverNames by decide)
    (show (s.perceptualHash lease.frames lease.hashes).declared = _ from rfl)
  refine (Course.couples_enter _).bind fun _ => ?_
  refine (Course.couples_act hextract).bind fun _ => ?_
  refine (Course.couples_enter _).bind fun _ => ?_
  exact (Course.couples_act hhash).bind fun _ => .pure ()

/-- A file in the working directory is written in the same way, whatever is there. -/
theorem couples_write {name : String} (hname : name ∈ Lease.leftoverNames) {spots : Set Location}
    (hsub : spots ⊆ root.leftovers) (bytes : Bytes) :
    Couples (writeBytes (lease.file name) bytes) (Site.Twins root spots) (Site.Twins root spots)
      Site.SameCalls := by
  subst hlease
  exact couples_writeBytes
    (Path.avoids_join hroot hsub (Lease.isPlainName_leftover hname)) bytes

theorem couples_publishCourse (s : Settings) (source target : String) :
    Couples (s.publishCourse (Runner.blind respond) source target lease)
      (Course.Twins root root.leftovers) Course.SameTrace Course.SameTrace := by
  have hsub : (root.leftovers \ {root.destination ++ ["scaled-frames.txt"]}) \
      {root.destination ++ ["phashes.txt"]} ⊆ root.leftovers := fun _ hl => hl.1.1
  refine (s.couples_sampleAndHash respond hroot hlease source).bind fun _ => ?_
  refine (Course.couples_enter _).bind fun _ => ?_
  refine (Course.couples_act (Call.couples_perform respond fun p hp => ?_)).bind fun output => ?_
  · cases hp
  refine (Course.couples_act (couples_write hroot hlease (by decide) hsub _)).bind fun _ => ?_
  refine (Course.couples_enter _).bind fun _ => ?_
  exact ((Course.couples_act (Call.couples_transaction respond rfl)).bind fun _ => .pure _).weaken
    Course.sameTrace_of_twins

theorem couples_mineCourse (s : Settings) (id : Identifier)
    (hd : s.parameters.destination ∉ root.leftovers) :
    Couples (s.mineCourse (Runner.blind respond) id lease)
      (Course.Twins root root.leftovers) Course.SameTrace Course.SameTrace := by
  have hsub : (root.leftovers \ {root.destination ++ ["scaled-frames.txt"]}) \
      {root.destination ++ ["phashes.txt"]} ⊆ root.leftovers := fun _ hl => hl.1.1
  have hproof := Lease.isPlainName_leftover (show "zkpor_proof.dat" ∈ Lease.leftoverNames by decide)
  refine (Course.couples_act (s.couples_requireParameters hd)).bind fun parameters => ?_
  refine (Course.couples_enter _).bind fun _ => ?_
  refine (Course.couples_act (s.account.couples_answer respond .agreement id _)).bind
    fun agreement => ?_
  refine (s.couples_sampleAndHash respond hroot hlease _).bind fun _ => ?_
  refine (Course.couples_enter _).bind fun _ => ?_
  subst hlease
  have hgenerate := Call.couples_perform_leftover respond hroot hsub
    (show "zkpor_proof.dat" ∈ Lease.leftoverNames by decide)
    (show (s.generateProof parameters lease.proof lease.hashes lease.witness).declared = _ from rfl)
  refine (Course.couples_act hgenerate).bind fun _ => ?_
  refine (Course.couples_act (ProofBlob.couples_readFrom ?_ ?_)).bind fun proof => ?_
  · exact Path.avoids_join hroot (fun _ hl => hl.1.1.1) hproof
  · rw [Lease.proof, Lease.file, Path.destination_join hproof]
    exact fun hl => hl.2 rfl
  refine (Course.couples_enter _).bind fun _ => ?_
  exact ((Course.couples_act (Call.couples_transaction respond rfl)).bind fun _ => .pure _).weaken
    Course.sameTrace_of_twins

theorem couples_verifyCourse (s : Settings) (id : Identifier)
    (hd : s.parameters.destination ∉ root.leftovers) :
    Couples (s.verifyCourse (Runner.blind respond) id lease)
      (Course.Twins root root.leftovers) Course.SameTrace Course.SameTrace := by
  refine (Course.couples_act (s.couples_requireParameters hd)).bind fun parameters => ?_
  refine (Course.couples_enter _).bind fun _ => ?_
  refine (Course.couples_act (s.account.couples_answer respond .agreement id _)).bind
    fun agreement => ?_
  refine (Course.couples_act (couples_of_site_eq (fun _ => rfl) fun _ _ _ => rfl)).bind
    fun input => ?_
  refine (Course.couples_act (s.account.couples_answer respond .proof id _)).bind fun proof => ?_
  refine (Course.couples_act (couples_write hroot hlease (by decide) (fun _ hl => hl) _)).bind
    fun _ => ?_
  refine (Course.couples_act (couples_write hroot hlease (by decide) (fun _ hl => hl) _)).bind
    fun _ => ?_
  refine (Course.couples_enter _).bind fun _ => ?_
  refine (Course.couples_act (Call.couples_perform respond fun p hp => ?_)).bind fun output => ?_
  · cases hp
  cases Verdict.ofOutput? output.text with
  | some accepted => exact (Couples.pure _).weaken Course.sameTrace_of_twins
  | none =>
    exact (Course.couples_act (couples_of_site_eq (fun _ => rfl) fun _ _ _ => rfl)).weaken
      Course.sameTrace_of_twins

omit hroot hlease in
variable (lease) in
/-- Proving parameters that neither lie at a spot nor are reached through one are kept or made in
both. -/
theorem couples_setupCourse (s : Settings) (force : Bool)
    (hd : s.parameters.destination ∉ root.leftovers) (hp : Avoids root.leftovers s.parameters) :
    Couples (s.setupCourse (Runner.blind respond) force lease)
      (Course.Twins root root.leftovers) Course.SameTrace Course.SameTrace := by
  have hmake : Couples ((s.setupParameters s.parameters).perform (Runner.blind respond))
      (Site.Twins root root.leftovers) (Site.Twins root root.leftovers) Site.SameCalls :=
    Call.couples_perform_file respond rfl (couples_clearStale hp hd) hp hd
  refine Course.couples_files (fun st st' h => ?_) fun fs => ?_
  · rw [h.1.alike.isNonEmptyFile_eq hd]
  by_cases hkeep : (!force && fs.isNonEmptyFile s.parameters) = true
  · rw [if_pos hkeep]
    exact (Couples.pure false).weaken Course.sameTrace_of_twins
  · rw [if_neg hkeep]
    refine (Course.couples_enter _).bind fun _ => ?_
    refine (Course.couples_act (s.couples_makeParameterDirectory hp)).bind fun _ => ?_
    exact ((Course.couples_act hmake).bind fun _ => .pure true).weaken Course.sameTrace_of_twins

/-- Every course comes to the same at twin sites, if the proving parameters are none of the files
that runs leave, and are not made where they would be reached through one. -/
theorem couples_courseOf (s : Settings) (job : Job)
    (hd : s.parameters.destination ∉ root.leftovers)
    (hp : job.flow = .setup → Avoids root.leftovers s.parameters) :
    Couples (s.courseOf (Runner.blind respond) job lease)
      (Course.Twins root root.leftovers) Course.SameTrace Course.SameTrace := by
  cases job with
  | publish source target => exact s.couples_publishCourse respond hroot hlease source target
  | mine id => exact s.couples_mineCourse respond hroot hlease id hd
  | verify id => exact s.couples_verifyCourse respond hroot hlease id hd
  | setup force => exact s.couples_setupCourse lease respond force hd (hp rfl)

end Courses

end Settings

/-! ## Leases -/

namespace Lease

variable {root : Path} {fs fs' : FileSystem}

theorem not_mem_leftovers_lock (root : Path) :
    (root.join lockName).destination ∉ root.leftovers := by
  rintro ⟨name, hname, heq⟩
  rw [Path.destination_join isPlainName_lockName] at heq
  have hlast : lockName = name := by simpa using heq
  subst hlast
  exact absurd hname (by decide)

/-- The directory of a file that can be opened is in place. -/
theorem walk_of_opened {name : String} (hname : Path.IsPlainName name) {at' : Location}
    {found : Option Entry} (h : fs.opened (root.join name) = .ok (at', found)) :
    at' = (root.join name).destination ∧
      fs.walk (FileSystem.start root) (root.names ++ ["."]) = .ok root.destination := by
  obtain ⟨before, last, directory, hopens, rfl, -, -⟩ := FileSystem.opened_ok h
  have hnames := (Path.names_join hname root).symm.trans hopens.names
  obtain ⟨hbefore, hlast⟩ := List.append_inj' hnames rfl
  cases hlast
  have hwalk := hopens.walk
  rw [← hbefore, Path.start_join hname] at hwalk
  have hdirectory : directory = root.destination := FileSystem.walk_eq_ok hwalk
  subst hdirectory
  refine ⟨(Path.destination_join hname root).symm, ?_⟩
  rw [FileSystem.walk_append, hwalk]
  exact FileSystem.walk_cons hopens.isDirectory "." []

theorem locked_alike {spots : Set Location} {at' : Location} (h : Alike spots fs fs') :
    Alike spots (locked fs at') (locked fs' at') := by
  have hput : Alike spots (fs.put at' (.file mark false (some fs.locks)))
      (fs'.put at' (.file mark false (some fs'.locks))) := by
    rw [← h.locks]
    exact h.put _ fun _ => nofun
  exact ⟨congrArg (· + 1) h.locks, hput.elsewhere, hput.left, hput.right⟩

/-- The file with the lock is none of those that make the difference. -/
theorem take_alike (h : Alike root.leftovers fs fs') (hroot : Avoids root.leftovers root) :
    (∃ e, (take root fs).1 = .error e ∧ (take root fs').1 = .error e) ∨
      ∃ lease g g', take root fs = (.ok lease, g) ∧ take root fs' = (.ok lease, g') ∧
        lease.root = root ∧
        g.walk (FileSystem.start root) (root.names ++ ["."]) = .ok root.destination ∧
        Alike root.leftovers g g' := by
  have hd := not_mem_leftovers_lock root
  have havoids := Path.avoids_join hroot (fun _ hl => hl) isPlainName_lockName
  have hopened := h.opened_eq havoids hd
  rcases ho : fs'.opened (root.join lockName) with e | ⟨at', found⟩
  · rw [ho] at hopened
    refine .inl ⟨.io s!"open {(root.join lockName).text}" e, ?_, ?_⟩
    · simp only [take, hopened]
    · simp only [take, ho]
  rw [ho] at hopened
  obtain ⟨hat, hwalk⟩ := walk_of_opened isPlainName_lockName hopened
  obtain ⟨_, _, _, -, -, he, hfree⟩ := FileSystem.opened_ok hopened
  rw [← hat] at hd
  have hholder : holder? fs at' = holder? fs' at' := by
    rw [holder?, holder?, h.elsewhere at' hd]
  by_cases hlocked : (holder? fs' at').isSome
  · refine .inl ⟨.workDirBusy root.text, ?_, ?_⟩
    · simp only [take, hopened, hholder, hlocked, if_true]
    · simp only [take, ho, hlocked, if_true]
  · refine .inr ⟨⟨root, at', fs'.locks⟩, locked fs at', locked fs' at', ?_, ?_, rfl, ?_,
      locked_alike h⟩
    · simp only [take, hopened, hholder, hlocked, h.locks]
      rfl
    · simp only [take, ho, hlocked]
      rfl
    · have hkeeps : KeepsDirectories fs (locked fs at') :=
        FileSystem.keepsDirectories_put (he ▸ hfree) _
      exact FileSystem.walk_of_keepsDirectories hkeeps hwalk

/-- A lease is had in both or in neither. -/
theorem acquireIn_alike (h : Alike root.leftovers fs fs') (hroot : Avoids root.leftovers root) :
    (∃ e, (acquireIn root fs).1 = .error e ∧ (acquireIn root fs').1 = .error e) ∨
      ∃ lease g g', acquireIn root fs = (.ok lease, g) ∧ acquireIn root fs' = (.ok lease, g') ∧
        lease.root = root ∧
        g.walk (FileSystem.start root) (root.names ++ ["."]) = .ok root.destination ∧
        Alike root.leftovers g g' := by
  obtain ⟨hresult, halike⟩ :=
    h.makeDirectories fun _ => ⟨hroot, root.destination_not_mem_leftovers⟩
  rcases hmade : fs.makeDirectories root with ⟨r, g⟩
  rcases hmade' : fs'.makeDirectories root with ⟨r', g'⟩
  rw [hmade, hmade'] at hresult halike
  cases hresult
  rcases r with e | _
  · exact .inl ⟨.io s!"create work dir {root.text}" e, by simp only [acquireIn, hmade],
      by simp only [acquireIn, hmade']⟩
  · simp only [acquireIn, hmade, hmade']
    exact take_alike halike hroot

end Lease

/-! ## Jobs -/

/-- Two runs end in the same way: with the same result, the same calls behind them and the same
report. -/
structure SameEnd {β : Type} (r r' : β × Desk (List Call)) : Prop where
  result : r.1 = r'.1
  calls : r.2.site.tools = r'.2.site.tools
  report : r.2.last = r'.2.last

namespace Settings

theorem sameEnd_conduct (s : Settings) {α : Type} (flow : Flow)
    {course : Lease → Course (List Call) α} {d d' : Desk (List Call)}
    (hcourse : ∀ lease, lease.root = s.workDir → Couples (course lease)
      (Course.Twins s.workDir s.workDir.leftovers) Course.SameTrace Course.SameTrace)
    (hroot : Avoids s.workDir.leftovers s.workDir)
    (hfiles : Alike s.workDir.leftovers d.site.files d'.site.files)
    (hcalls : d.site.tools = d'.site.tools) (hlast : d.last = d'.last) :
    SameEnd (s.conduct flow course d) (s.conduct flow course d') := by
  unfold conduct
  cases s.validate with
  | error e => exact ⟨rfl, hcalls, hlast⟩
  | ok _ =>
    obtain ⟨e, he, he'⟩ | ⟨lease, g, g', hg, hg', hlease, hwalk, halike⟩ :=
      Lease.acquireIn_alike hfiles hroot
    · simp only [Lease.acquire, he, he']
      exact ⟨rfl, hcalls, hlast⟩
    · simp only [Lease.acquire, hg, hg']
      have htwins : Course.Twins s.workDir s.workDir.leftovers
          (({ d.site with files := g }, [.init])) ({ d'.site with files := g' }, [.init]) :=
        ⟨⟨hwalk, halike, hcalls⟩, rfl⟩
      obtain ⟨a, t, t', ht, ht', hsame, hhistory⟩ | ⟨e, t, t', ht, ht', hsame, hhistory⟩ :=
        hcourse lease hlease _ _ htwins
      · simp only [ht, ht', hhistory]
        exact ⟨rfl, hsame, rfl⟩
      · simp only [ht, ht', hhistory]
        exact ⟨rfl, hsame, rfl⟩

/-- What earlier runs have left in the working directory makes no difference to a job, if the
directory is reached through none of it and the proving parameters are none of it. Where they are to
be made, they must not be reached through it either. -/
theorem sameEnd_undertake_of_leftovers (s : Settings)
    (respond : List Call → Except Failure Output × List Touch) (job : Job)
    {d d' : Desk (List Call)} (hroot : Avoids s.workDir.leftovers s.workDir)
    (hparameters : s.parameters.destination ∉ s.workDir.leftovers)
    (hsetup : job.flow = .setup → Avoids s.workDir.leftovers s.parameters)
    (hfiles : Alike s.workDir.leftovers d.site.files d'.site.files)
    (hcalls : d.site.tools = d'.site.tools) (hlast : d.last = d'.last) :
    SameEnd (s.undertake (Runner.blind respond) job d)
      (s.undertake (Runner.blind respond) job d') := by
  by_cases hr : job.refused = true
  · rw [undertake_of_refused s _ hr, undertake_of_refused s _ hr]
    exact ⟨rfl, hcalls, hlast⟩
  · rw [Bool.not_eq_true] at hr
    rw [undertake_of_not_refused s _ hr]
    refine s.sameEnd_conduct job.flow (fun lease hlease => ?_) hroot hfiles hcalls hlast
    exact s.couples_courseOf respond hroot hlease job hparameters hsetup

namespace Specimen

/-- A runner that takes a silent tool for every stage after the first one. -/
def silent (calls : List Call) : Except Failure Output × List Touch :=
  match calls with
  | [_] => (.ok {}, [.write ⟨"work/scaled-frames.txt"⟩ [1]])
  | _ => (.ok {}, [])

def tidy : Desk (List Call) where
  site := ⟨FileSystem.empty.put ["srv", "jobs", "work"] .directory, []⟩

/-- The same desk with a file that an earlier run has left. -/
def used (name : String) : Desk (List Call) where
  site := ⟨tidy.site.files.put ["srv", "jobs", "work", name] (.file [9] false none), []⟩

theorem alike_used {root : Path} (hroot : root.destination = ["srv", "jobs", "work"])
    {name : String} (hname : name ∈ Lease.leftoverNames) :
    Alike root.leftovers tidy.site.files (used name).site.files := by
  have hspot : ["srv", "jobs", "work", name] ∈ root.leftovers := ⟨name, hname, by rw [hroot]; rfl⟩
  refine .of_put_file ?_ hspot
  rintro l ⟨last, hlast, rfl⟩
  have hfree : ∀ last ∈ Lease.leftoverNames,
      tidy.site.files.entryAt? (["srv", "jobs", "work"] ++ [last]) ≠ some .directory := by
    decide +kernel
  rw [hroot]
  exact hfree last hlast

end Specimen

open Specimen in
/-- Hashes that an earlier run has left do not pass for those of a tool that leaves none. -/
theorem sameEnd_undertake_of_leftovers_silent :
    SameEnd (settings.undertake (Runner.blind silent) (.publish "in.ts" "out.ts") tidy)
        (settings.undertake (Runner.blind silent) (.publish "in.ts" "out.ts")
          (used "phashes.txt")) ∧
      (settings.undertake (Runner.blind silent) (.publish "in.ts" "out.ts")
          (used "phashes.txt")).1.isOk = false ∧
      (settings.undertake (Runner.blind silent) (.publish "in.ts" "out.ts")
        (used "phashes.txt")).2.site.tools.length = 2 := by
  refine ⟨?_, by decide +kernel, by decide +kernel⟩
  exact settings.sameEnd_undertake_of_leftovers silent (.publish "in.ts" "out.ts")
    (by decide +kernel) (by decide +kernel) nofun
    (alike_used (by decide +kernel) (by decide)) rfl rfl

/-- A runner that makes the proving parameters where it is told to. -/
def Specimen.making (calls : List Call) : Except Failure Output × List Touch :=
  match calls.getLast?.map Call.declared with
  | some (.file p) => (.ok {}, [.write p [1]])
  | _ => (.ok {}, [])

namespace Specimen

/-- Settings by which the proving parameters lie below a file that runs leave. -/
def below : Settings :=
  { workDir := ⟨"work"⟩, parameterFile := some ⟨"work/agreement.json/crs.dat"⟩ }

/-- Settings by which the working directory is reached through a file that runs leave there. -/
def through : Settings :=
  { workDir := ⟨"work/agreement.json/.."⟩, parameterFile := some ⟨"crs.dat"⟩ }

/-- Settings by which the proving parameters are a file that runs leave, by another path. -/
def respelled : Settings :=
  { workDir := ⟨"work"⟩, parameterFile := some ⟨"work/../work/agreement.json"⟩ }

/-- The proving parameters have a path of their own, and yet it makes a difference to the making of
them whether an agreement has been left. -/
structure Affected (s : Settings) : Prop where
  path : ∀ name ∈ Lease.leftoverNames, s.parameters ≠ s.workDir.join name
  alike : Alike s.workDir.leftovers tidy.site.files (used "agreement.json").site.files
  differs : ¬ SameEnd (s.undertake (Runner.blind making) (.setup false) tidy)
    (s.undertake (Runner.blind making) (.setup false) (used "agreement.json"))

theorem affected_of_length {s : Settings}
    (hpath : ∀ name ∈ Lease.leftoverNames, s.parameters ≠ s.workDir.join name)
    (hdirectory : s.workDir.destination = ["srv", "jobs", "work"])
    (hcalls : (s.undertake (Runner.blind making) (.setup false) tidy).2.site.tools.length ≠
      (s.undertake (Runner.blind making) (.setup false)
        (used "agreement.json")).2.site.tools.length) :
    Affected s where
  path := hpath
  alike := alike_used hdirectory (by decide)
  differs := fun h => hcalls (congrArg List.length h.calls)

end Specimen

open Specimen in
/-- Where paths are entangled with what runs leave, this does make a difference. -/
theorem affected_where_entangled : Affected below ∧ Affected through ∧ Affected respelled := by
  refine ⟨affected_of_length ?_ ?_ ?_, affected_of_length ?_ ?_ ?_, affected_of_length ?_ ?_ ?_⟩
  all_goals decide +kernel

end Settings

end StorageProof
