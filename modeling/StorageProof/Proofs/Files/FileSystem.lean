import StorageProof.Files.FileSystem
import StorageProof.Proofs.Files.Path
import StorageProof.Proofs.Sequencing

/-!
# What is written is read

A file that has been written is read back, also after directories have been made and after a file of
another name in the same directory has been written. All of it rests on one fact: a path leads to
the same location as long as the directories on its way stay.
-/

namespace StorageProof.FileSystem

variable {fs fs' : FileSystem} {p q : Path} {bytes : Bytes}

/-- Every directory of the first file system is one of the second. -/
def KeepsDirectories (fs fs' : FileSystem) : Prop :=
  ∀ l, fs.entryAt? l = some .directory → fs'.entryAt? l = some .directory

/-- Everything that stands in the first file system stands in the second. -/
def Keeps (fs fs' : FileSystem) : Prop := ∀ l e, fs.entryAt? l = some e → fs'.entryAt? l = some e

theorem Keeps.refl (fs : FileSystem) : Keeps fs fs := fun _ _ h => h

theorem Keeps.trans {fs'' : FileSystem} (h : Keeps fs fs') (h' : Keeps fs' fs'') : Keeps fs fs'' :=
  fun l e he => h' l e (h l e he)

theorem Keeps.directories (h : Keeps fs fs') : KeepsDirectories fs fs' := fun l => h l .directory

/-- A file takes the place of no directory. -/
theorem keepsDirectories_put {at' : Location} (h : fs.entryAt? at' ≠ some .directory) (e : Entry) :
    KeepsDirectories fs (fs.put at' e) := by
  intro l hl
  have hne : at' ≠ l := fun h' => h (h' ▸ hl)
  rw [entryAt?_put, if_neg hne, hl]

/-! ## Following paths -/

theorem walk_append (fs : FileSystem) (at' : Location) (xs ys : List String) :
    fs.walk at' (xs ++ ys) = fs.walk at' xs >>= fun at' => fs.walk at' ys := by
  induction xs generalizing at' with
  | nil => rfl
  | cons name xs ih =>
    rw [List.cons_append, walk, walk]
    cases fs.entryAt? at' with
    | none => rfl
    | some e =>
      cases e with
      | file _ _ _ => rfl
      | directory =>
        by_cases hdot : name = "."
        · simp only [hdot, if_true, ih]
        by_cases hdots : name = ".."
        · simp [hdots, ih]
        by_cases hlong : maxName < name.utf8ByteSize
        · simp only [hdot, hdots, hlong, if_true, if_false]
          rfl
        · simp only [hdot, hdots, hlong, if_false, ih]

/-- A path leads to the same location as long as the directories stay. -/
theorem walk_of_keepsDirectories (h : KeepsDirectories fs fs') {at' l : Location}
    {names : List String} (hw : fs.walk at' names = .ok l) : fs'.walk at' names = .ok l := by
  induction names generalizing at' with
  | nil => exact hw
  | cons name names ih =>
    rw [walk] at hw
    cases he : fs.entryAt? at' with
    | none =>
      rw [he] at hw
      cases hw
    | some e =>
      rw [he] at hw
      cases e with
      | file _ _ _ => cases hw
      | directory =>
        rw [walk, h at' he]
        by_cases hdot : name = "."
        · simp only [hdot, if_true] at hw ⊢
          exact ih hw
        by_cases hdots : name = ".."
        · simp only [hdots] at hw ⊢
          exact ih hw
        by_cases hlong : maxName < name.utf8ByteSize
        · simp [hdot, hdots, hlong] at hw
        · simp only [hdot, hdots, hlong, if_false] at hw ⊢
          exact ih hw

theorem walk_dot {at' l : Location} (h : fs.walk at' ["."] = .ok l) :
    l = at' ∧ fs.entryAt? at' = some .directory := by
  rw [walk] at h
  cases he : fs.entryAt? at' with
  | none =>
    rw [he] at h
    cases h
  | some e =>
    rw [he] at h
    cases e with
    | file _ _ _ => cases h
    | directory =>
      cases h
      exact ⟨rfl, rfl⟩

/-! ## Opening files -/

/-- How a file is opened at a location: the directories before its last name are followed, and no
directory stands where they lead to. -/
structure OpensAt (fs : FileSystem) (p : Path) (before : List String) (last : String)
    (directory : Location) :
    Prop where
  names : p.names = before ++ [last]
  check : checkPath p = .ok ()
  noSlash : p.endsInSlash = false
  ne_dot : last ≠ "."
  ne_dots : last ≠ ".."
  short : ¬ maxName < last.utf8ByteSize
  walk : fs.walk (start p) before = .ok directory
  isDirectory : fs.entryAt? directory = some .directory

theorem checkName_ok {name : String} {u : Unit} (h : checkName name = .ok u) :
    ¬ maxName < name.utf8ByteSize := by
  intro hlong
  rw [checkName, if_pos hlong] at h
  cases h

theorem resolve_of_check (h : checkPath p = .ok ()) :
    fs.resolve p = fs.walk (start p) (p.names ++ if p.endsInSlash then ["."] else []) := by
  rw [resolve, h]
  rfl

theorem lastStep_ok {directory : Location} {last : String} {slash : Bool}
    (h : fs.lastStep p = .ok (.name directory last slash)) :
    slash = p.endsInSlash ∧ checkPath p = .ok () ∧ last ≠ "." ∧ last ≠ ".." ∧
      ∃ before, p.names = before ++ [last] ∧ fs.walk (start p) before = .ok directory ∧
        fs.entryAt? directory = some .directory := by
  obtain ⟨_, hcheck, h⟩ := exists_of_bind_eq_ok h
  cases hnames : p.names.reverse with
  | nil =>
    rw [hnames] at h
    cases h
  | cons last' before =>
    rw [hnames] at h
    obtain ⟨directory', hwalk, h⟩ := exists_of_bind_eq_ok h
    by_cases hdots : last' = "." ∨ last' = ".."
    · rw [if_pos hdots] at h
      cases h
    rw [if_neg hdots] at h
    cases h
    rw [not_or] at hdots
    rw [walk_append] at hwalk
    obtain ⟨directory', hwalk, hdot⟩ := exists_of_bind_eq_ok hwalk
    obtain ⟨rfl, hdirectory⟩ := walk_dot hdot
    refine ⟨rfl, hcheck, hdots.1, hdots.2, before.reverse, ?_, hwalk, hdirectory⟩
    rw [← List.reverse_reverse p.names, hnames, List.reverse_cons]

theorem opened_ok {at' : Location} {e : Option Entry} (h : fs.opened p = .ok (at', e)) :
    ∃ before last directory, OpensAt fs p before last directory ∧ at' = directory ++ [last] ∧
      fs.entryAt? at' = e ∧ e ≠ some .directory := by
  obtain ⟨step, hstep, h⟩ := exists_of_bind_eq_ok h
  cases step with
  | noName => cases h
  | name directory last slash =>
    obtain ⟨rfl, hcheck, hdot, hdots, before, hnames, hwalk, hdirectory⟩ := lastStep_ok hstep
    cases hslash : p.endsInSlash with
    | true =>
      rw [hslash] at h
      cases h
    | false =>
      rw [hslash] at h
      obtain ⟨_, hname, h⟩ := exists_of_bind_eq_ok h
      refine ⟨before, last, directory,
        ⟨hnames, hcheck, hslash, hdot, hdots, checkName_ok hname, hwalk, hdirectory⟩, ?_⟩
      rcases he : fs.entryAt? (directory ++ [last]) with _ | (_ | ⟨contents, executable, holder⟩)
      · simp only [he] at h
        cases h
        exact ⟨rfl, he, by simp⟩
      · simp only [he] at h
        cases h
      · simp only [he] at h
        cases h
        exact ⟨rfl, he, by simp⟩

/-- The last step of a path is the same as long as the directories stay. -/
theorem lastStep_of_keepsDirectories (h : KeepsDirectories fs fs') {step : LastStep}
    (hp : fs.lastStep p = .ok step) : fs'.lastStep p = .ok step := by
  unfold lastStep at hp ⊢
  obtain ⟨_, hcheck, hp⟩ := exists_of_bind_eq_ok hp
  rw [hcheck]
  rcases hnames : p.names.reverse with _ | ⟨last, before⟩
  · rw [hnames] at hp
    exact hp
  rw [hnames] at hp
  obtain ⟨directory, hwalk, hp⟩ := exists_of_bind_eq_ok hp
  simp only [bind, Except.bind, walk_of_keepsDirectories h hwalk]
  exact hp

/-- A path that could be opened leads to the same location as long as the directories stay. -/
theorem OpensAt.resolve {before : List String} {last : String} {directory : Location}
    (h : OpensAt fs p before last directory) (hk : KeepsDirectories fs fs') :
    fs'.resolve p = .ok (directory ++ [last]) := by
  have hwalk := walk_of_keepsDirectories hk h.walk
  have hlast : fs'.walk directory [last] = .ok (directory ++ [last]) := by
    rw [FileSystem.walk, hk directory h.isDirectory]
    simp only [h.ne_dot, h.ne_dots, h.short, if_false]
    rfl
  have hall : fs'.walk (start p) (before ++ [last]) = .ok (directory ++ [last]) := by
    rw [walk_append, hwalk]
    exact hlast
  rw [resolve_of_check h.check, h.noSlash, h.names]
  simp only [Bool.false_eq_true, if_false, List.append_nil]
  exact hall

theorem write_ok (h : fs.write p bytes = .ok fs') :
    ∃ before last directory executable holder, OpensAt fs p before last directory ∧
      fs.entryAt? (directory ++ [last]) ≠ some .directory ∧
      fs' = fs.put (directory ++ [last]) (.file bytes executable holder) := by
  obtain ⟨⟨at', e⟩, hopened, h⟩ := exists_of_bind_eq_ok h
  obtain ⟨before, last, directory, hopens, rfl, he, hne⟩ := opened_ok hopened
  rw [← he] at hne
  refine ⟨before, last, directory, ?_⟩
  rcases e with _ | (_ | ⟨contents, executable, holder⟩)
  · cases h
    exact ⟨false, none, hopens, hne, rfl⟩
  · cases h
    exact ⟨false, none, hopens, hne, rfl⟩
  · cases h
    exact ⟨executable, holder, hopens, hne, rfl⟩

theorem read_of_entry {at' : Location} {executable : Bool} {holder : Option Nat}
    (hr : fs.resolve p = .ok at') (he : fs.entryAt? at' = some (.file bytes executable holder)) :
    fs.read p = .ok bytes := by
  simp only [read, inspect, hr, bind, Except.bind, he, pure, Except.pure]

theorem read_write (h : fs.write p bytes = .ok fs') : fs'.read p = .ok bytes := by
  obtain ⟨before, last, directory, executable, holder, hopens, hne, rfl⟩ := write_ok h
  have hentry : (fs.put (directory ++ [last]) (.file bytes executable holder)).entryAt?
      (directory ++ [last]) =
      some (.file bytes executable holder) := by rw [entryAt?_put, if_pos rfl]
  exact read_of_entry (hopens.resolve (keepsDirectories_put hne _)) hentry

theorem KeepsDirectories.trans {fs'' : FileSystem} (h : KeepsDirectories fs fs')
    (h' : KeepsDirectories fs' fs'') : KeepsDirectories fs fs'' := fun l hl => h' l (h l hl)

/-- What has been written is read after a file of another name has been written too. -/
theorem read_write_write {fs₁ fs₂ fs₃ : FileSystem} {other : Bytes} (h : fs.write p bytes = .ok fs₁)
    (hk : Keeps fs₁ fs₂) (h' : fs₂.write q other = .ok fs₃)
    (hne : p.names.getLast? ≠ q.names.getLast?) : fs₃.read p = .ok bytes := by
  obtain ⟨before, last, directory, executable, holder, hopens, hfree, rfl⟩ := write_ok h
  obtain ⟨before', last', directory', executable', holder', hopens', hfree', rfl⟩ := write_ok h'
  have hlast : last ≠ last' := by
    intro heq
    apply hne
    rw [hopens.names, hopens'.names, List.getLast?_concat, List.getLast?_concat, heq]
  have hlocation : directory' ++ [last'] ≠ directory ++ [last] := by
    intro heq
    have hend := congrArg List.getLast? heq
    rw [List.getLast?_concat, List.getLast?_concat] at hend
    exact hlast (Option.some.inj hend).symm
  have hdirectories :=
    ((keepsDirectories_put hfree (.file bytes executable holder)).trans hk.directories).trans
    (keepsDirectories_put hfree' (.file other executable' holder'))
  have hkept : fs₂.entryAt? (directory ++ [last]) = some (.file bytes executable holder) :=
    hk _ _ (by rw [entryAt?_put, if_pos rfl])
  have hentry : (fs₂.put (directory' ++ [last']) (.file other executable' holder')).entryAt?
      (directory ++ [last]) = some (.file bytes executable holder) := by
    rw [entryAt?_put, if_neg hlocation, hkept]
  exact read_of_entry (hopens.resolve hdirectories) hentry

/-! ## Making directories -/

theorem keeps_makeDirectory (h : fs.makeDirectory p = .ok fs') : Keeps fs fs' := by
  obtain ⟨step, hstep, h⟩ := exists_of_bind_eq_ok h
  cases step with
  | noName => cases h
  | name directory last slash =>
    obtain ⟨_, -, h⟩ := exists_of_bind_eq_ok h
    cases he : fs.entryAt? (directory ++ [last]) with
    | some e =>
      simp only [he] at h
      cases h
    | none =>
      simp only [he] at h
      cases h
      intro l e hl
      have hne : directory ++ [last] ≠ l := by
        rintro rfl
        rw [he] at hl
        cases hl
      rw [entryAt?_put, if_neg hne, hl]

theorem keeps_makeDirectoriesOf (fs : FileSystem) (ps : List Path) :
    Keeps fs (fs.makeDirectoriesOf ps).2 := by
  induction ps generalizing fs with
  | nil => exact .refl fs
  | cons p ps ih =>
    unfold makeDirectoriesOf
    split
    · exact .refl fs
    split
    · next h => exact keeps_makeDirectory h
    split
    · have hps := ih fs
      split
      · next h =>
        rw [h] at hps
        exact hps
      · next h =>
        rw [h] at hps
        split
        · next h' => exact hps.trans (keeps_makeDirectory h')
        · exact hps
    · exact .refl fs

theorem keeps_makeDirectories (fs : FileSystem) (p : Path) : Keeps fs (fs.makeDirectories p).2 := by
  unfold makeDirectories
  split
  · exact .refl fs
  · exact keeps_makeDirectoriesOf fs _

theorem keeps_makeParent (fs : FileSystem) (p : Path) : Keeps fs (fs.makeParent p).2 := by
  unfold makeParent
  split
  · exact keeps_makeDirectories fs _
  · exact .refl fs

/-! ## Files that are not empty -/

theorem isNonEmptyFile_iff :
    fs.isNonEmptyFile p = true ↔ ∃ bytes, fs.read p = .ok bytes ∧ bytes ≠ [] := by
  unfold isNonEmptyFile read
  rcases fs.inspect p with e | (_ | ⟨bytes, executable, holder⟩)
  · constructor
    · intro h
      cases h
    · rintro ⟨_, h, -⟩
      cases h
  · constructor
    · intro h
      cases h
    · rintro ⟨_, h, -⟩
      cases h
  · constructor
    · intro h
      exact ⟨bytes, rfl, by simpa [Entry.isNonEmptyFile] using h⟩
    · rintro ⟨_, h, hne⟩
      cases h
      simpa [Entry.isNonEmptyFile] using hne

theorem resolve_of_keepsDirectories (h : KeepsDirectories fs fs') {l : Location}
    (hr : fs.resolve p = .ok l) :
    fs'.resolve p = .ok l := by
  obtain ⟨_, hcheck, hwalk⟩ := exists_of_bind_eq_ok hr
  unfold resolve
  rw [hcheck]
  exact walk_of_keepsDirectories h hwalk

/-- Files that are not empty stay so as long as the directories stay and nothing is emptied. -/
theorem isNonEmptyFile_of_keepsDirectories (h : KeepsDirectories fs fs')
    (hfiles : ∀ l e, fs.entryAt? l = some e → e.isNonEmptyFile = true →
      ∃ e', fs'.entryAt? l = some e' ∧ e'.isNonEmptyFile = true)
    (hp : fs.isNonEmptyFile p = true) : fs'.isNonEmptyFile p = true := by
  unfold isNonEmptyFile at hp
  cases hi : fs.inspect p with
  | error e =>
    rw [hi] at hp
    cases hp
  | ok e =>
    rw [hi] at hp
    obtain ⟨l, hr, hl⟩ := exists_of_bind_eq_ok hi
    cases he : fs.entryAt? l with
    | none =>
      rw [he] at hl
      cases hl
    | some e =>
      rw [he] at hl
      cases hl
      obtain ⟨e', he', hne⟩ := hfiles l _ he hp
      have hr' := resolve_of_keepsDirectories h hr
      simp only [isNonEmptyFile, inspect, hr', bind, Except.bind, he', pure, Except.pure, hne]

theorem Keeps.isNonEmptyFile (h : Keeps fs fs') (hp : fs.isNonEmptyFile p = true) :
    fs'.isNonEmptyFile p = true :=
  isNonEmptyFile_of_keepsDirectories h.directories (fun l e he hne => ⟨e, h l e he, hne⟩) hp

/-- Putting a file that is not empty where no directory stands empties nothing. -/
theorem isNonEmptyFile_put {at' : Location} {e : Entry} (hfree : fs.entryAt? at' ≠ some .directory)
    (he : e.isNonEmptyFile = true) (hp : fs.isNonEmptyFile p = true) :
    (fs.put at' e).isNonEmptyFile p = true := by
  refine isNonEmptyFile_of_keepsDirectories (keepsDirectories_put hfree e)
    (fun l e' he' hne => ?_) hp
  by_cases hl : at' = l
  · exact ⟨e, by rw [entryAt?_put, if_pos hl], he⟩
  · exact ⟨e', by rw [entryAt?_put, if_neg hl, he'], hne⟩

end StorageProof.FileSystem
