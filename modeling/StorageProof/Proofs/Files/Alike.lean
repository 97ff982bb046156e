import Mathlib.Data.Set.Insert
import StorageProof.Files.Edit
import StorageProof.Proofs.Files.Removal
import StorageProof.Proofs.Files.Route

/-!
# Files that are alike

Two file systems are alike but for certain spots if everything else is the same in both and no
directory stands at a spot in either. Operations come to the same in both as long as no path leads
through a spot, and leave them alike; so does a file that is written, or removed, wherever it may
be. A spot that has been cleared in both is none any more.
-/

namespace StorageProof.FileSystem

/-- Everything is the same, but for what stands at certain spots, and this is a file if it is
anything. -/
structure Alike (spots : Set Location) (fs fs' : FileSystem) : Prop where
  locks : fs.locks = fs'.locks
  elsewhere : ∀ l, l ∉ spots → fs.entryAt? l = fs'.entryAt? l
  left : ∀ l ∈ spots, fs.entryAt? l ≠ some .directory
  right : ∀ l ∈ spots, fs'.entryAt? l ≠ some .directory

/-- A path that leads through none of certain spots. -/
def Avoids (spots : Set Location) (p : Path) : Prop := ∀ l ∈ p.passes, l ∉ spots

instance (spots : Set Location) [DecidablePred (· ∈ spots)] (p : Path) :
    Decidable (Avoids spots p) :=
  inferInstanceAs (Decidable (∀ l ∈ p.passes, l ∉ spots))

/-- The files with a file removed, or as they were if that is refused. -/
def discard (fs : FileSystem) (p : Path) : FileSystem :=
  match fs.removeFile p with
  | .ok fs => fs
  | .error _ => fs

/-- Two results, equal as failures and related as successes. -/
inductive Matches {ε α : Type} (R : α → α → Prop) : Except ε α → Except ε α → Prop
  | ok {a a' : α} (h : R a a') : Matches R (.ok a) (.ok a')
  | error (e : ε) : Matches R (.error e) (.error e)

variable {spots : Set Location} {fs fs' g g' : FileSystem} {p q : Path} {at' : Location}
  {bytes : Bytes}

theorem Avoids.of_above (h : Avoids spots p) (hq : Path.Above q p) (hne : q.text ≠ "") :
    Avoids spots q := by
  intro l hl
  apply h l
  rw [Path.passes] at hl ⊢
  rw [hq.start.resolve_left hne] at hl
  exact passes_subset_of_prefix hq.names hl

/-- The directory that a path lies in, if the path leads through no spot. -/
theorem Avoids.parent (h : Avoids spots p) (hparent : p.parent? = some q) (hne : q.text ≠ "") :
    Avoids spots q ∧ q.destination ∉ spots :=
  ⟨h.of_above (Path.above_of_parent? hparent).1 hne, h _ (Path.destination_parent?_mem hparent hne)⟩

namespace Alike

theorem symm (h : Alike spots fs fs') : Alike spots fs' fs :=
  ⟨h.locks.symm, fun l hl => (h.elsewhere l hl).symm, h.right, h.left⟩

theorem mono {spots' : Set Location} (h : Alike spots fs fs')
    (hsame : ∀ l ∈ spots, l ∉ spots' → fs.entryAt? l = fs'.entryAt? l) (hsub : spots' ⊆ spots) :
    Alike spots' fs fs' where
  locks := h.locks
  elsewhere := by
    intro l hl
    by_cases hspot : l ∈ spots
    · exact hsame l hspot hl
    · exact h.elsewhere l hspot
  left := fun l hl => h.left l (hsub hl)
  right := fun l hl => h.right l (hsub hl)

theorem keepsDirectories (h : Alike spots fs fs') : KeepsDirectories fs fs' := by
  intro l hl
  by_cases hspot : l ∈ spots
  · exact absurd hl (h.left l hspot)
  · rw [← h.elsewhere l hspot, hl]

theorem put (h : Alike spots fs fs') (e : Entry) (he : at' ∈ spots → e ≠ .directory) :
    Alike spots (fs.put at' e) (fs'.put at' e) := by
  refine ⟨h.locks, fun l hl => ?_, fun l hl => ?_, fun l hl => ?_⟩
  · simp [h.elsewhere l hl]
  · by_cases hat : at' = l
    · subst hat
      simpa using he hl
    · simpa [hat] using h.left l hl
  · by_cases hat : at' = l
    · subst hat
      simpa using he hl
    · simpa [hat] using h.right l hl

/-- What is done at a spot makes no difference as long as no directory comes there. -/
theorem of_spot (h : Alike spots fs fs') (hspot : at' ∈ spots) (hl : g.locks = fs.locks)
    (hl' : g'.locks = fs'.locks) (hg : ∀ l, at' ≠ l → g.entryAt? l = fs.entryAt? l)
    (hg' : ∀ l, at' ≠ l → g'.entryAt? l = fs'.entryAt? l) (hd : g.entryAt? at' ≠ some .directory)
    (hd' : g'.entryAt? at' ≠ some .directory) : Alike spots g g' := by
  refine ⟨by rw [hl, hl', h.locks], fun l hnot => ?_, fun l hmem => ?_, fun l hmem => ?_⟩
  · have hne : at' ≠ l := by
      rintro rfl
      exact hnot hspot
    rw [hg l hne, hg' l hne, h.elsewhere l hnot]
  · by_cases hat : at' = l
    · rwa [← hat]
    · rw [hg l hat]
      exact h.left l hmem
  · by_cases hat : at' = l
    · rwa [← hat]
    · rw [hg' l hat]
      exact h.right l hmem

theorem drop (h : Alike spots fs fs') (at' : Location) :
    Alike spots (fs.drop at') (fs'.drop at') := by
  refine ⟨h.locks, fun l hl => ?_, fun l hl => ?_, fun l hl => ?_⟩
  · simp [h.elsewhere l hl]
  · by_cases hat : at' = l
    · simp [hat]
    · simpa [hat] using h.left l hl
  · by_cases hat : at' = l
    · simp [hat]
    · simpa [hat] using h.right l hl

/-- A file that is put at a spot makes no difference anywhere else. -/
theorem of_put_file (hfree : ∀ l ∈ spots, fs.entryAt? l ≠ some .directory) (hspot : at' ∈ spots)
    {executable : Bool} {holder : Option Nat} :
    Alike spots fs (fs.put at' (.file bytes executable holder)) := by
  refine (show Alike spots fs fs from ⟨rfl, fun _ _ => rfl, hfree, hfree⟩).of_spot hspot rfl rfl
    (fun _ _ => rfl) (fun l hl => ?_) (hfree at' hspot) ?_
  · simp [hl]
  · simp

/-- A spot with the same at it is none. -/
theorem without (h : Alike spots fs fs') (hat : fs.entryAt? at' = fs'.entryAt? at') :
    Alike (spots \ {at'}) fs fs' := by
  refine h.mono (fun l hl hnot => ?_) fun l hl => hl.1
  have heq : l = at' := by
    by_contra hne
    exact hnot ⟨hl, hne⟩
  rw [heq, hat]

/-! ## Paths -/

theorem lastStep_eq_ok_iff (h : Alike spots fs fs') {step : LastStep} :
    fs.lastStep p = .ok step ↔ fs'.lastStep p = .ok step :=
  ⟨lastStep_of_keepsDirectories h.keepsDirectories,
    lastStep_of_keepsDirectories h.symm.keepsDirectories⟩

theorem resolve_eq_ok_iff (h : Alike spots fs fs') {l : Location} :
    fs.resolve p = .ok l ↔ fs'.resolve p = .ok l :=
  ⟨resolve_of_keepsDirectories h.keepsDirectories,
    resolve_of_keepsDirectories h.symm.keepsDirectories⟩

theorem lastStep_eq (h : Alike spots fs fs') (hp : Avoids spots p) :
    fs.lastStep p = fs'.lastStep p :=
  lastStep_congr fun l hl => h.elsewhere l (hp l hl)

theorem inspect_eq (h : Alike spots fs fs') (hp : Avoids spots p) (hd : p.destination ∉ spots) :
    fs.inspect p = fs'.inspect p :=
  inspect_congr (fun l hl => h.elsewhere l (hp l hl)) (h.elsewhere _ hd)

theorem read_eq (h : Alike spots fs fs') (hp : Avoids spots p) (hd : p.destination ∉ spots) :
    fs.read p = fs'.read p := by
  unfold read
  rw [h.inspect_eq hp hd]

/-- Whether there is a file that is not empty is the same in both where a path does not lead to a
spot, even if it leads through one. -/
theorem isNonEmptyFile_eq (h : Alike spots fs fs') (hd : p.destination ∉ spots) :
    fs.isNonEmptyFile p = fs'.isNonEmptyFile p := by
  have hone : ∀ {fs fs'}, Alike spots fs fs' → fs.isNonEmptyFile p = true →
      fs'.isNonEmptyFile p = true := by
    intro fs fs' h hp
    rcases hr : fs.resolve p with e | l
    · simp [isNonEmptyFile, inspect, hr, bind, Except.bind] at hp
    · have hr' := h.resolve_eq_ok_iff.mp hr
      have hl := resolve_eq_ok hr
      subst hl
      simp only [isNonEmptyFile, inspect, hr, hr', bind, Except.bind] at hp ⊢
      rwa [← h.elsewhere _ hd]
  rw [Bool.eq_iff_iff]
  exact ⟨hone h, hone h.symm⟩

end Alike

/-! ## Writing and removing -/

/-- Where no directory stands, a file is written. -/
theorem exists_write {directory : Location} {last : String}
    (hp : fs.lastStep p = .ok (.name directory last false)) (hlast : checkName last = .ok ())
    (hfree : fs.entryAt? (directory ++ [last]) ≠ some .directory) (bytes : Bytes) :
    ∃ executable holder,
      fs.write p bytes = .ok (fs.put (directory ++ [last]) (.file bytes executable holder)) := by
  rcases he : fs.entryAt? (directory ++ [last]) with _ | (_ | ⟨_, executable, holder⟩)
  · exact ⟨false, none, by
      simp [write, opened, hp, hlast, he, bind, Except.bind, pure, Except.pure]⟩
  · exact absurd he hfree
  · exact ⟨executable, holder, by
      simp [write, opened, hp, hlast, he, bind, Except.bind, pure, Except.pure]⟩

namespace Alike

theorem put_files (h : Alike spots fs fs') (hspot : at' ∈ spots) {x x' : Bool} {k k' : Option Nat}
    {bytes bytes' : Bytes} :
    Alike spots (fs.put at' (.file bytes x k)) (fs'.put at' (.file bytes' x' k')) :=
  h.of_spot hspot rfl rfl (fun l hl => by simp [hl]) (fun l hl => by simp [hl]) (by simp) (by simp)

/-- A file is written in both or in neither, if the last step of its path is the same. -/
theorem write_of_lastStep (h : Alike spots fs fs') (hp : fs.lastStep p = fs'.lastStep p)
    (bytes : Bytes) : Matches (Alike spots) (fs.write p bytes) (fs'.write p bytes) := by
  rcases hstep : fs'.lastStep p with e | (⟨directory, last, slash⟩ | _)
  · rw [hstep] at hp
    simp only [write, opened, hp, hstep]
    exact .error e
  · rw [hstep] at hp
    cases slash with
    | true =>
      simp only [write, opened, hp, hstep, bind, Except.bind, if_true]
      exact .error _
    | false =>
      rcases hlast : checkName last with e | _
      · simp only [write, opened, hp, hstep, hlast, bind, Except.bind, Bool.false_eq_true, if_false]
        exact .error e
      by_cases hspot : directory ++ [last] ∈ spots
      · obtain ⟨x, k, hw⟩ := exists_write hp hlast (h.left _ hspot) bytes
        obtain ⟨x', k', hw'⟩ := exists_write hstep hlast (h.right _ hspot) bytes
        rw [hw, hw']
        exact .ok (h.put_files hspot)
      · simp only [write, opened, hp, hstep, hlast, bind, Except.bind, Bool.false_eq_true, if_false,
          h.elsewhere _ hspot]
        rcases fs'.entryAt? (directory ++ [last]) with _ | (_ | _)
        · exact .ok (h.put _ fun _ => by simp)
        · exact .error _
        · exact .ok (h.put _ fun _ => by simp)
  · rw [hstep] at hp
    simp only [write, opened, hp, hstep, bind, Except.bind]
    exact .error _

theorem write (h : Alike spots fs fs') (hp : Avoids spots p) (bytes : Bytes) :
    Matches (Alike spots) (fs.write p bytes) (fs'.write p bytes) :=
  h.write_of_lastStep (h.lastStep_eq hp) bytes

/-- The last step of a path is the same in both, or cannot be taken in either. -/
theorem lastStep_or (h : Alike spots fs fs') (p : Path) :
    fs.lastStep p = fs'.lastStep p ∨
      ∃ e e', fs.lastStep p = .error e ∧ fs'.lastStep p = .error e' := by
  rcases hp : fs.lastStep p with e | step
  · rcases hp' : fs'.lastStep p with e' | step
    · exact .inr ⟨e, e', rfl, rfl⟩
    · rw [h.lastStep_eq_ok_iff.mpr hp'] at hp
      cases hp
  · exact .inl (h.lastStep_eq_ok_iff.mp hp).symm

/-- A file is opened at the same place in both, and with the same there, if it is at no spot. -/
theorem opened_eq (h : Alike spots fs fs') (hp : Avoids spots p) (hd : p.destination ∉ spots) :
    fs.opened p = fs'.opened p := by
  have hstep := h.lastStep_eq hp
  rcases hstep' : fs'.lastStep p with e | (⟨directory, last, slash⟩ | _)
  · rw [hstep'] at hstep
    simp only [opened, hstep, hstep']
    rfl
  · rw [hstep'] at hstep
    rw [← (lastStep_eq_name hstep').1] at hd
    simp only [opened, hstep, hstep', bind, Except.bind, h.elsewhere _ hd]
  · rw [hstep'] at hstep
    simp only [opened, hstep, hstep', bind, Except.bind]

theorem overwrite (h : Alike spots fs fs') (p : Path) (bytes : Bytes) :
    Alike spots (fs.overwrite p bytes) (fs'.overwrite p bytes) := by
  unfold FileSystem.overwrite
  rcases h.lastStep_or p with hp | ⟨e, e', hp, hp'⟩
  · have hw := h.write_of_lastStep hp bytes
    generalize fs.write p bytes = r at hw
    generalize fs'.write p bytes = r' at hw
    cases hw with
    | ok hg => exact hg
    | error e => exact h
  · simp only [FileSystem.write, opened, hp, hp', bind, Except.bind]
    exact h

/-- A file is removed in both or in neither, if the last step of its path is the same and leads to
no spot. -/
theorem removeFile (h : Alike spots fs fs') (hp : fs.lastStep p = fs'.lastStep p)
    (hd : p.destination ∉ spots) : Matches (Alike spots) (fs.removeFile p) (fs'.removeFile p) := by
  rcases hstep : fs'.lastStep p with e | (⟨directory, last, slash⟩ | _)
  · rw [hstep] at hp
    simp only [FileSystem.removeFile, hp, hstep]
    exact .error e
  · rw [hstep] at hp
    rw [← (lastStep_eq_name hstep).1] at hd
    rcases hlast : checkName last with e | _
    · simp only [FileSystem.removeFile, hp, hstep, hlast, bind, Except.bind]
      exact .error e
    · simp only [FileSystem.removeFile, hp, hstep, hlast, bind, Except.bind, h.elsewhere _ hd]
      rcases fs'.entryAt? (directory ++ [last]) with _ | (_ | _)
      · exact .error _
      · exact .error _
      · cases slash with
        | true => exact .error _
        | false => exact .ok (h.drop _)
  · rw [hstep] at hp
    simp only [FileSystem.removeFile, hp, hstep, bind, Except.bind]
    exact .error _

theorem discard (h : Alike spots fs fs') (p : Path) :
    Alike spots (fs.discard p) (fs'.discard p) := by
  by_cases hd : p.destination ∈ spots
  · have hone : ∀ fs : FileSystem, fs.discard p = fs ∨ fs.discard p = fs.drop p.destination := by
      intro fs
      unfold FileSystem.discard
      rcases hr : fs.removeFile p with e | g
      · exact .inl rfl
      · exact .inr (removeFile_eq_drop hr)
    rcases hone fs with hg | hg <;> rcases hone fs' with hg' | hg' <;> rw [hg, hg']
    · exact h
    · exact h.of_spot hd rfl rfl (fun _ _ => rfl) (fun l hl => by simp [hl]) (h.left _ hd) (by simp)
    · exact h.of_spot hd rfl rfl (fun l hl => by simp [hl]) (fun _ _ => rfl) (by simp)
        (h.right _ hd)
    · exact h.drop _
  · unfold FileSystem.discard
    rcases h.lastStep_or p with hp | ⟨e, e', hp, hp'⟩
    · have hr := h.removeFile hp hd
      generalize fs.removeFile p = r at hr
      generalize fs'.removeFile p = r' at hr
      cases hr with
      | ok hg => exact hg
      | error e => exact h
    · simp only [FileSystem.removeFile, hp, hp', bind, Except.bind]
      exact h

/-! ## Making directories -/

theorem makeDirectory (h : Alike spots fs fs') (hp : Avoids spots p) (hd : p.destination ∉ spots) :
    Matches (Alike spots) (fs.makeDirectory p) (fs'.makeDirectory p) := by
  have hstep := h.lastStep_eq hp
  rcases hstep' : fs'.lastStep p with e | (⟨directory, last, slash⟩ | _)
  · rw [hstep'] at hstep
    simp only [FileSystem.makeDirectory, hstep, hstep']
    exact .error e
  · rw [hstep'] at hstep
    rw [← (lastStep_eq_name hstep').1] at hd
    rcases hlast : checkName last with e | _
    · simp only [FileSystem.makeDirectory, hstep, hstep', hlast, bind, Except.bind]
      exact .error e
    · simp only [FileSystem.makeDirectory, hstep, hstep', hlast, bind, Except.bind,
        h.elsewhere _ hd]
      rcases fs'.entryAt? (directory ++ [last]) with _ | _
      · exact .ok (h.put _ fun hspot => absurd hspot hd)
      · exact .error _
  · rw [hstep'] at hstep
    simp only [FileSystem.makeDirectory, hstep, hstep', bind, Except.bind]
    exact .error _

theorem isDirectory_eq (h : Alike spots fs fs') (hp : Avoids spots p) (hd : p.destination ∉ spots) :
    fs.isDirectory p = fs'.isDirectory p := by
  unfold FileSystem.isDirectory
  rw [h.inspect_eq hp hd]

/-- A directory is made, or found, in both or in neither. -/
theorem makeDirectory_or (h : Alike spots fs fs') (hp : Avoids spots p)
    (hd : p.destination ∉ spots) :
    (∃ e, fs.makeDirectory p = .error e ∧ fs'.makeDirectory p = .error e) ∨
      ∃ g g', fs.makeDirectory p = .ok g ∧ fs'.makeDirectory p = .ok g' ∧ Alike spots g g' := by
  have hm := h.makeDirectory hp hd
  generalize fs.makeDirectory p = r at hm
  generalize fs'.makeDirectory p = r' at hm
  cases hm with
  | ok hg => exact .inr ⟨_, _, rfl, rfl, hg⟩
  | error e => exact .inl ⟨e, rfl, rfl⟩

theorem makeDirectoriesOf {ps : List Path}
    (hps : ∀ p ∈ ps, p.text ≠ "" → Avoids spots p ∧ p.destination ∉ spots)
    (h : Alike spots fs fs') :
    (fs.makeDirectoriesOf ps).1 = (fs'.makeDirectoriesOf ps).1 ∧
      Alike spots (fs.makeDirectoriesOf ps).2 (fs'.makeDirectoriesOf ps).2 := by
  induction ps with
  | nil => exact ⟨rfl, h⟩
  | cons p ps ih =>
    unfold FileSystem.makeDirectoriesOf
    by_cases hempty : p.text = ""
    · rw [if_pos hempty, if_pos hempty]
      exact ⟨rfl, h⟩
    rw [if_neg hempty, if_neg hempty]
    obtain ⟨hp, hd⟩ := hps p List.mem_cons_self hempty
    obtain ⟨e, hm, hm'⟩ | ⟨g, g', hm, hm', hg⟩ := h.makeDirectory_or hp hd
    · simp only [hm, hm', h.isDirectory_eq hp hd]
      by_cases hmissing : e = .notFound
      · simp only [hmissing, if_true]
        obtain ⟨hresult, halike⟩ := ih fun q hq => hps q (List.mem_cons_of_mem p hq)
        rcases hmore : fs.makeDirectoriesOf ps with ⟨r, g⟩
        rcases hmore' : fs'.makeDirectoriesOf ps with ⟨r', g'⟩
        rw [hmore, hmore'] at hresult halike
        cases hresult
        rcases r with e | _
        · exact ⟨rfl, halike⟩
        · obtain ⟨e, hm, hm'⟩ | ⟨g₁, g₁', hm, hm', hg⟩ := halike.makeDirectory_or hp hd
          · simp only at hm hm'
            simp only [hm, hm', halike.isDirectory_eq hp hd]
            exact ⟨trivial, halike⟩
          · simp only at hm hm'
            simp only [hm, hm']
            exact ⟨trivial, hg⟩
      · simp only [hmissing, if_false]
        exact ⟨trivial, h⟩
    · simp only [hm, hm']
      exact ⟨trivial, hg⟩

/-- The same directories are made in both where a path neither leads through a spot nor to one. -/
theorem makeDirectories (h : Alike spots fs fs')
    (hp : p.text ≠ "" → Avoids spots p ∧ p.destination ∉ spots) :
    (fs.makeDirectories p).1 = (fs'.makeDirectories p).1 ∧
      Alike spots (fs.makeDirectories p).2 (fs'.makeDirectories p).2 := by
  unfold FileSystem.makeDirectories
  by_cases hempty : p.text = ""
  · rw [if_pos hempty, if_pos hempty]
    exact ⟨rfl, h⟩
  rw [if_neg hempty, if_neg hempty]
  obtain ⟨havoids, hd⟩ := hp hempty
  refine h.makeDirectoriesOf fun q hq hne => ?_
  have habove := Path.above_of_mem_ancestors hq
  refine ⟨havoids.of_above habove hne, ?_⟩
  rcases habove.destination hne with heq | hpass
  · rwa [heq]
  · exact havoids _ hpass

/-- The directory that a path lies in is made in both where the path leads through no spot. -/
theorem makeParent (h : Alike spots fs fs') (hp : Avoids spots p) :
    (fs.makeParent p).1 = (fs'.makeParent p).1 ∧
      Alike spots (fs.makeParent p).2 (fs'.makeParent p).2 := by
  unfold FileSystem.makeParent
  rcases hparent : p.parent? with _ | q
  · exact ⟨rfl, h⟩
  · exact h.makeDirectories (hp.parent hparent)

end Alike

end StorageProof.FileSystem
