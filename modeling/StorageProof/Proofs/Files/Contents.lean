import Mathlib.Data.Set.Insert
import StorageProof.Proofs.Files.Locks
import StorageProof.Proofs.Files.Route

/-!
# What files hold

The content of a file stays what it is as long as the directories on the way to it stay and nothing
is done where the path to it leads. Operations on one path therefore leave every file that this path
does not lead to, however the paths are spelled, and making directories leaves all of them.
-/

namespace StorageProof.FileSystem

variable {spots spots' : Set Location} {fs fs' fs'' : FileSystem} {p : Path}

/-- Files are read in the second file system as in the first, at every path that leads to none of
certain spots. -/
def KeepsFiles (spots : Set Location) (fs fs' : FileSystem) : Prop :=
  ∀ (q : Path) (bytes : Bytes), q.destination ∉ spots → fs.read q = .ok bytes →
    fs'.read q = .ok bytes

theorem KeepsFiles.refl (spots : Set Location) (fs : FileSystem) : KeepsFiles spots fs fs :=
  fun _ _ _ h => h

theorem KeepsFiles.trans (h : KeepsFiles spots fs fs') (h' : KeepsFiles spots fs' fs'') :
    KeepsFiles spots fs fs'' := fun q bytes hq hread => h' q bytes hq (h q bytes hq hread)

theorem KeepsFiles.mono (h : KeepsFiles spots fs fs') (hsub : spots ⊆ spots') :
    KeepsFiles spots' fs fs' := fun q bytes hq => h q bytes fun hspot => hq (hsub hspot)

/-- Files hold what they held as long as directories stay and no file is given other bytes, but for
those at certain spots. -/
theorem keepsFiles_of_entries (hd : KeepsDirectories fs fs')
    (hfiles : ∀ l ∉ spots, ∀ bytes executable holder,
      fs.entryAt? l = some (.file bytes executable holder) →
      ∃ executable' holder', fs'.entryAt? l = some (.file bytes executable' holder')) :
    KeepsFiles spots fs fs' := by
  intro q bytes hq hread
  obtain ⟨l, executable, holder, hresolve, hentry⟩ := read_ok hread
  have hl : l ∉ spots := resolve_eq_ok hresolve ▸ hq
  obtain ⟨_, _, hentry'⟩ := hfiles l hl bytes executable holder hentry
  exact read_of_entry (resolve_of_keepsDirectories hd hresolve) hentry'

/-- Nothing is done to files by making directories. -/
theorem OnlyMakesDirectories.keepsFiles (h : OnlyMakesDirectories fs fs') :
    KeepsFiles spots fs fs' := by
  refine keepsFiles_of_entries (fun l hl => ?_) fun l _ bytes executable holder hl => ?_
  · rcases h l with heq | ⟨hnone, -⟩
    · rw [heq, hl]
    · rw [hl] at hnone
      cases hnone
  · rcases h l with heq | ⟨hnone, -⟩
    · exact ⟨executable, holder, by rw [heq, hl]⟩
    · rw [hl] at hnone
      cases hnone

/-- A file that is put where no directory stands is the only one that changes. -/
theorem keepsFiles_put {at' : Location} (hfree : fs.entryAt? at' ≠ some .directory) (e : Entry) :
    KeepsFiles {at'} fs (fs.put at' e) := by
  refine keepsFiles_of_entries (keepsDirectories_put hfree e) fun l hl _ x k he => ⟨x, k, ?_⟩
  rw [entryAt?_put, if_neg fun h => hl h.symm, he]

theorem keepsFiles_write {bytes : Bytes} (h : fs.write p bytes = .ok fs') :
    KeepsFiles {p.destination} fs fs' := by
  obtain ⟨before, last, directory, executable, holder, hopens, hfree, rfl⟩ := write_ok h
  rw [← resolve_eq_ok (hopens.resolve fun _ hl => hl)]
  exact keepsFiles_put hfree _

theorem keepsFiles_removeFile (h : fs.removeFile p = .ok fs') :
    KeepsFiles {p.destination} fs fs' := by
  have hdrop := removeFile_eq_drop h
  obtain ⟨directory, last, -, hfree, hdrop'⟩ := removeFile_ok h
  subst hdrop'
  refine keepsFiles_of_entries (keepsDirectories_drop hfree) fun l hl _ x k he => ⟨x, k, ?_⟩
  rw [hdrop, entryAt?_drop, if_neg fun h => hl h.symm, he]

end StorageProof.FileSystem
