import StorageProof.Flow.Lease
import StorageProof.Proofs.Files.Removal

/-!
# Locks on files

The making of directories leaves everything that stands where it is, writing a file leaves its lock,
and removing one takes away no lock but its own.
-/

namespace StorageProof

theorem Lease.isPlainName_lockName : Path.IsPlainName lockName :=
  ⟨by decide, by decide, by decide, by decide⟩

namespace FileSystem

variable {fs fs' : FileSystem} {p : Path}

/-- Nothing has changed, but for directories where nothing stood. -/
def OnlyMakesDirectories (fs fs' : FileSystem) : Prop :=
  ∀ l, fs'.entryAt? l = fs.entryAt? l ∨ fs.entryAt? l = none ∧ fs'.entryAt? l = some .directory

theorem OnlyMakesDirectories.refl (fs : FileSystem) : OnlyMakesDirectories fs fs :=
  fun _ => .inl rfl

theorem OnlyMakesDirectories.trans {fs'' : FileSystem} (h : OnlyMakesDirectories fs fs')
    (h' : OnlyMakesDirectories fs' fs'') : OnlyMakesDirectories fs fs'' := by
  intro l
  rcases h l with heq | ⟨hnone, hmade⟩
  · rw [← heq]
    exact h' l
  · rcases h' l with heq' | ⟨hnone', -⟩
    · exact .inr ⟨hnone, heq'.trans hmade⟩
    · rw [hmade] at hnone'
      cases hnone'

theorem onlyMakesDirectories_makeDirectory (h : fs.makeDirectory p = .ok fs') :
    OnlyMakesDirectories fs fs' := by
  obtain ⟨step, -, h⟩ := exists_of_bind_eq_ok h
  cases step with
  | noName => cases h
  | name directory last slash =>
    obtain ⟨_, -, h⟩ := exists_of_bind_eq_ok h
    cases he : fs.entryAt? (directory ++ [last]) with
    | some e =>
      simp only [he] at h
      cases h
    | none =>
      simp only [he] at h
      cases h
      intro l
      by_cases hl : directory ++ [last] = l
      · subst hl
        exact .inr ⟨he, by simp⟩
      · exact .inl (by simp [hl])

theorem onlyMakesDirectories_makeDirectoriesOf (fs : FileSystem) (ps : List Path) :
    OnlyMakesDirectories fs (fs.makeDirectoriesOf ps).2 := by
  induction ps generalizing fs with
  | nil => exact .refl fs
  | cons p ps ih =>
    unfold makeDirectoriesOf
    split
    · exact .refl fs
    split
    · next h => exact onlyMakesDirectories_makeDirectory h
    split
    · have hps := ih fs
      split
      · next h =>
        rw [h] at hps
        exact hps
      · next h =>
        rw [h] at hps
        split
        · next h' => exact hps.trans (onlyMakesDirectories_makeDirectory h')
        · exact hps
    · exact .refl fs

theorem onlyMakesDirectories_makeDirectories (fs : FileSystem) (p : Path) :
    OnlyMakesDirectories fs (fs.makeDirectories p).2 := by
  unfold makeDirectories
  split
  · exact .refl fs
  · exact onlyMakesDirectories_makeDirectoriesOf fs _

theorem onlyMakesDirectories_makeParent (fs : FileSystem) (p : Path) :
    OnlyMakesDirectories fs (fs.makeParent p).2 := by
  unfold makeParent
  split
  · exact onlyMakesDirectories_makeDirectories fs _
  · exact .refl fs

/-- The same files have the same locks. -/
def LeavesLocks (fs fs' : FileSystem) : Prop := ∀ l, Lease.holder? fs' l = Lease.holder? fs l

theorem LeavesLocks.refl (fs : FileSystem) : LeavesLocks fs fs := fun _ => rfl

theorem holder?_of_entry {l : Location} (h : fs'.entryAt? l = fs.entryAt? l) :
    Lease.holder? fs' l = Lease.holder? fs l := by
  rw [Lease.holder?, Lease.holder?, h]

theorem holder?_empty (l : Location) : Lease.holder? empty l = none := by
  have hentry : empty.entryAt? l = some .directory ∨ empty.entryAt? l = none := by
    simp only [entryAt?, empty, Std.ExtTreeMap.ofList_cons, Std.ExtTreeMap.insertMany_cons,
      Std.ExtTreeMap.insertMany_nil, Std.ExtTreeMap.getElem?_insert]
    repeat' split
    · exact .inl rfl
    · exact .inl rfl
    · exact .inl rfl
    · exact .inr Std.ExtTreeMap.getElem?_empty
  rcases hentry with he | he
  · rw [Lease.holder?, he]
  · rw [Lease.holder?, he]

theorem OnlyMakesDirectories.leavesLocks (h : OnlyMakesDirectories fs fs') :
    LeavesLocks fs fs' := by
  intro l
  rcases h l with heq | ⟨hnone, hmade⟩
  · exact holder?_of_entry heq
  · rw [Lease.holder?, Lease.holder?, hnone, hmade]

/-- What holds of the lock at one location after something has been put there. -/
theorem leavesLocks_put {at' : Location} {e : Entry}
    (h : Lease.holder? (fs.put at' e) at' = Lease.holder? fs at') :
    LeavesLocks fs (fs.put at' e) := by
  intro l
  by_cases hl : at' = l
  · subst hl
    exact h
  · exact holder?_of_entry (by simp [hl])

theorem leavesLocks_write {bytes : Bytes} (h : fs.write p bytes = .ok fs') :
    LeavesLocks fs fs' := by
  obtain ⟨⟨at', e⟩, hopened, h⟩ := exists_of_bind_eq_ok h
  obtain ⟨before, last, directory, -, -, he, hne⟩ := opened_ok hopened
  rcases e with _ | (_ | ⟨contents, executable, holder⟩)
  · cases h
    exact leavesLocks_put (by simp [Lease.holder?, he])
  · exact absurd rfl hne
  · cases h
    exact leavesLocks_put (by simp [Lease.holder?, he])

/-- A removal leaves the locks of the files that have another name. -/
theorem leavesLocks_removeFile {name : String} (h : fs.removeFile p = .ok fs')
    (hlocks : ∀ l k, Lease.holder? fs l = some k → l.getLast? = some name)
    (hp : p.names.getLast? ≠ some name) : LeavesLocks fs fs' := by
  obtain ⟨directory, last, hlast, -, rfl⟩ := removeFile_ok h
  intro l
  by_cases hl : directory ++ [last] = l
  · -- a lock there would be one on a file of the other name
    have hfree : Lease.holder? fs l = none := by
      rw [Option.eq_none_iff_forall_ne_some]
      intro k hk
      have hend := hlocks l k hk
      rw [← hl, List.getLast?_concat] at hend
      exact hp (hlast.trans hend)
    rw [hfree, Lease.holder?, entryAt?_drop, if_pos hl]
  · exact holder?_of_entry (by simp [hl])

end FileSystem

end StorageProof
