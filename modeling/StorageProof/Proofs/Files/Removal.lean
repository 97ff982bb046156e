import StorageProof.Call.Declared
import StorageProof.Proofs.Files.FileSystem

/-!
# What is removed is gone

Nothing is found at a path from which a file has been removed, and nothing was there if the removal
has found none. The removal takes the last step of the path on its own, so both rest on what that
step says about the way of the whole path. Files of other names are left as they are.
-/

namespace StorageProof.FileSystem

variable {fs fs' : FileSystem} {p q : Path}

/-! ## The last step and the whole path -/

/-- Where no step can be taken, not even to stay, none leads further. -/
theorem walk_of_dot_error {at' : Location} {e : SystemError} (h : fs.walk at' ["."] = .error e)
    (name : String) (rest : List String) : fs.walk at' (name :: rest) = .error e := by
  rw [walk] at h ⊢
  rcases he : fs.entryAt? at' with _ | (_ | _)
  · rw [he] at h
    exact h
  · rw [he] at h
    cases h
  · rw [he] at h
    exact h

/-- A path whose last step cannot be taken leads nowhere. -/
theorem resolve_of_lastStep_error {e : SystemError} (h : fs.lastStep p = .error e) :
    fs.resolve p = .error e := by
  unfold lastStep at h
  rcases hcheck : checkPath p with e' | _
  · rw [hcheck] at h
    cases h
    rw [resolve, hcheck]
    rfl
  rw [hcheck] at h
  rcases hnames : p.names.reverse with _ | ⟨last, before⟩
  · rw [hnames] at h
    cases h
  rw [hnames] at h
  have hnames : p.names = before.reverse ++ [last] := by
    rw [← List.reverse_reverse p.names, hnames, List.reverse_cons]
  have hdot : fs.walk (start p) (before.reverse ++ ["."]) = .error e := by
    rcases hwalk : fs.walk (start p) (before.reverse ++ ["."]) with e' | directory
    · simp only [hwalk, bind, Except.bind] at h
      cases h
      rfl
    · simp only [hwalk, bind, Except.bind] at h
      split at h <;> cases h
  rw [walk_append] at hdot
  rw [resolve_of_check hcheck, hnames, List.append_assoc, List.singleton_append, walk_append]
  rcases hwalk : fs.walk (start p) before.reverse with e' | directory
  · rw [hwalk] at hdot
    exact hdot
  · rw [hwalk] at hdot
    exact walk_of_dot_error hdot last _

/-- Nothing is found at a path whose last name nothing has. -/
theorem inspect_of_lastStep {directory : Location} {last : String} {slash : Bool}
    (h : fs.lastStep p = .ok (.name directory last slash)) (hlast : checkName last = .ok ())
    (hnone : fs.entryAt? (directory ++ [last]) = none) : fs.inspect p = .error .notFound := by
  obtain ⟨rfl, hcheck, hdot, hdots, before, hnames, hwalk, hdirectory⟩ := lastStep_ok h
  have hstep (rest : List String) :
      fs.walk directory (last :: rest) = fs.walk (directory ++ [last]) rest := by
    rw [walk, hdirectory]
    simp only [hdot, hdots, checkName_ok hlast, if_false]
  have hresolve : fs.resolve p =
      fs.walk (directory ++ [last]) (if p.endsInSlash then ["."] else []) := by
    rw [resolve_of_check hcheck, hnames, List.append_assoc, List.singleton_append, walk_append,
      hwalk, ← hstep]
    rfl
  rw [inspect, hresolve]
  cases p.endsInSlash with
  | true =>
    rw [if_pos rfl, walk, hnone]
    rfl
  | false =>
    rw [if_neg (by decide), walk]
    simp only [bind, Except.bind, hnone]

/-! ## Removing files -/

theorem keepsDirectories_drop {at' : Location} (h : fs.entryAt? at' ≠ some .directory) :
    KeepsDirectories fs (fs.drop at') := by
  intro l hl
  have hne : at' ≠ l := fun h' => h (h' ▸ hl)
  rw [entryAt?_drop, if_neg hne, hl]

theorem drop_of_none {at' : Location} (h : fs.entryAt? at' = none) : fs.drop at' = fs := by
  ext l : 1
  · by_cases hl : at' = l
    · rw [entryAt?_drop, if_pos hl, ← hl, h]
    · rw [entryAt?_drop, if_neg hl]
  · rfl

theorem inspect_removeFile (h : fs.removeFile p = .ok fs') : fs'.inspect p = .error .notFound := by
  obtain ⟨step, hstep, h⟩ := exists_of_bind_eq_ok h
  cases step with
  | noName => cases h
  | name directory last slash =>
    obtain ⟨_, hlast, h⟩ := exists_of_bind_eq_ok h
    rcases he : fs.entryAt? (directory ++ [last]) with _ | (_ | ⟨contents, executable, holder⟩)
    · simp only [he] at h
      cases h
    · simp only [he] at h
      cases h
    · simp only [he] at h
      cases slash with
      | true => cases h
      | false =>
        cases h
        have hkeeps : KeepsDirectories fs (fs.drop (directory ++ [last])) :=
          keepsDirectories_drop (by simp [he])
        refine inspect_of_lastStep (lastStep_of_keepsDirectories hkeeps hstep) hlast ?_
        rw [entryAt?_drop, if_pos rfl]

/-- Nothing is found where there was no file to be removed. -/
theorem inspect_of_removeFile_notFound (h : fs.removeFile p = .error .notFound) :
    fs.inspect p = .error .notFound := by
  rcases hstep : fs.lastStep p with e | (⟨directory, last, slash⟩ | _)
  · have he : e = .notFound := by
      rw [removeFile, hstep] at h
      cases h
      rfl
    rw [inspect, resolve_of_lastStep_error hstep, he]
    rfl
  · rcases hlast : checkName last with e | _
    · -- a name that is too long is another failure
      simp only [removeFile, hstep, bind, Except.bind, hlast] at h
      rw [checkName] at hlast
      split at hlast
      · cases hlast
        cases h
      · cases hlast
    rcases he : fs.entryAt? (directory ++ [last]) with _ | (_ | _)
    · exact inspect_of_lastStep hstep hlast he
    · simp only [removeFile, hstep, bind, Except.bind, hlast, he] at h
      cases h
    · simp only [removeFile, hstep, bind, Except.bind, hlast, he] at h
      cases slash <;> cases h
  · simp only [removeFile, hstep, bind, Except.bind] at h
    cases h

/-! ## What a removal leaves -/

theorem read_ok {bytes : Bytes} (h : fs.read p = .ok bytes) :
    ∃ l executable holder, fs.resolve p = .ok l ∧
      fs.entryAt? l = some (.file bytes executable holder) := by
  obtain ⟨e, hi, h⟩ := exists_of_bind_eq_ok h
  obtain ⟨l, hr, hl⟩ := exists_of_bind_eq_ok hi
  rcases he : fs.entryAt? l with _ | e'
  · rw [he] at hl
    cases hl
  · rw [he] at hl
    cases hl
    cases e with
    | directory => cases h
    | file contents executable holder =>
      cases h
      exact ⟨l, executable, holder, hr, he⟩

/-- A path that leads to a file leads to one with the last name of the path. -/
theorem getLast?_resolve {l : Location} {name : String} (hname : Path.IsPlainName name)
    (hlast : p.names.getLast? = some name) (hr : fs.resolve p = .ok l)
    (hfile : fs.entryAt? l ≠ some .directory) : l.getLast? = some name := by
  obtain ⟨before, hnames⟩ := List.getLast?_eq_some_iff.mp hlast
  obtain ⟨_, -, hwalk⟩ := exists_of_bind_eq_ok hr
  cases hslash : p.endsInSlash with
  | true =>
    -- a slash at the end would ask for a directory
    rw [hslash, if_pos rfl, walk_append] at hwalk
    obtain ⟨l', -, hdot⟩ := exists_of_bind_eq_ok hwalk
    obtain ⟨rfl, hdirectory⟩ := walk_dot hdot
    exact absurd hdirectory hfile
  | false =>
    rw [hslash, if_neg (by decide), List.append_nil, hnames, walk_append] at hwalk
    obtain ⟨directory, -, hstep⟩ := exists_of_bind_eq_ok hwalk
    rw [walk] at hstep
    split at hstep
    · cases hstep
    · cases hstep
    · rw [if_neg hname.ne_dot, if_neg hname.ne_dots] at hstep
      split at hstep
      · cases hstep
      · cases hstep
        exact List.getLast?_concat

/-- A removal takes one file away, which has the last name of the path. -/
theorem removeFile_ok (h : fs.removeFile q = .ok fs') :
    ∃ directory last, q.names.getLast? = some last ∧
      fs.entryAt? (directory ++ [last]) ≠ some .directory ∧
      fs' = fs.drop (directory ++ [last]) := by
  obtain ⟨step, hstep, h⟩ := exists_of_bind_eq_ok h
  cases step with
  | noName => cases h
  | name directory last slash =>
    obtain ⟨-, -, -, -, before, hnames, -⟩ := lastStep_ok hstep
    obtain ⟨_, -, h⟩ := exists_of_bind_eq_ok h
    refine ⟨directory, last, by rw [hnames, List.getLast?_concat], ?_⟩
    rcases he : fs.entryAt? (directory ++ [last]) with _ | (_ | _)
    · simp only [he] at h
      cases h
    · simp only [he] at h
      cases h
    · simp only [he] at h
      cases slash with
      | true => cases h
      | false =>
        cases h
        exact ⟨by simp, rfl⟩

/-- Files with a plain name are read in the second file system as in the first, unless their name is
the last one of a path. -/
def KeepsOthers (fs fs' : FileSystem) (q : Path) : Prop :=
  ∀ (p : Path) (name : String) (bytes : Bytes), Path.IsPlainName name →
    p.names.getLast? = some name → q.names.getLast? ≠ some name → fs.read p = .ok bytes →
    fs'.read p = .ok bytes

theorem keepsOthers_removeFile (h : fs.removeFile q = .ok fs') : KeepsOthers fs fs' q := by
  intro p name bytes hname hp hne hread
  obtain ⟨directory, last, hq, hfree, rfl⟩ := removeFile_ok h
  obtain ⟨l, executable, holder, hr, he⟩ := read_ok hread
  have hl := getLast?_resolve hname hp hr (by simp [he])
  have hlocation : directory ++ [last] ≠ l := by
    rintro rfl
    rw [List.getLast?_concat] at hl
    exact hne (hq.trans hl)
  have hentry : (fs.drop (directory ++ [last])).entryAt? l =
      some (.file bytes executable holder) := by rw [entryAt?_drop, if_neg hlocation, he]
  exact read_of_entry (resolve_of_keepsDirectories (keepsDirectories_drop hfree) hr) hentry

end StorageProof.FileSystem

namespace StorageProof

variable {σ : Type}

/-- The clearing of a path leaves files of other names. -/
theorem keepsOthers_clearStale {p : Path} {s s' : Site σ} (h : clearStale p s = (.ok (), s')) :
    FileSystem.KeepsOthers s.files s'.files p := by
  unfold clearStale at h
  rcases hr : s.files.removeFile p with e | fs
  · simp only [hr] at h
    split at h
    · cases h
      exact fun _ _ _ _ _ _ hread => hread
    · cases h
  · simp only [hr] at h
    cases h
    exact FileSystem.keepsOthers_removeFile hr

/-- Where no directory stands, a file is cleared away if there is one. -/
theorem clearStale_eq_drop {s : Site σ} {p : Path} {directory : Location} {last : String}
    (hp : s.files.lastStep p = .ok (.name directory last false))
    (hlast : FileSystem.checkName last = .ok ())
    (hfree : s.files.entryAt? (directory ++ [last]) ≠ some .directory) :
    clearStale p s = (.ok (), { s with files := s.files.drop (directory ++ [last]) }) := by
  rcases he : s.files.entryAt? (directory ++ [last]) with _ | (_ | _)
  · have hr : s.files.removeFile p = .error .notFound := by
      simp only [FileSystem.removeFile, hp, hlast, he, bind, Except.bind]
    simp only [clearStale, hr, if_true, FileSystem.drop_of_none he]
  · exact absurd he hfree
  · have hr : s.files.removeFile p = .ok (s.files.drop (directory ++ [last])) := by
      simp only [FileSystem.removeFile, hp, hlast, he, bind, Except.bind, Bool.false_eq_true,
        if_false]
      rfl
    simp only [clearStale, hr]

theorem clearStale_ok {p : Path} {s s' : Site σ} (h : clearStale p s = (.ok (), s')) :
    s'.files.inspect p = .error .notFound := by
  unfold clearStale at h
  rcases hr : s.files.removeFile p with e | fs
  · simp only [hr] at h
    split at h
    · next he =>
      cases h
      exact FileSystem.inspect_of_removeFile_notFound (he ▸ hr)
    · cases h
  · simp only [hr] at h
    cases h
    exact FileSystem.inspect_removeFile hr

end StorageProof
