import StorageProof.Proofs.Files.Contents

/-!
# What operations leave alone

The writing of a file and the making of directories add to a file system: a file comes to stand
where there was no directory, or a directory where there was nothing. Each of them does so where its
path leads to or through, and leaves every other location as it is. Nothing is taken away by either.
-/

namespace StorageProof

/-- The locations that a path leads through, and the one that it leads to. -/
def Path.route (p : Path) : Set Location := {l | l ∈ p.passes ∨ l = p.destination}

/-- The directory that a path lies in, and those on the way to it, are on the way of the path. -/
theorem Path.route_parent_subset {p q : Path} (h : p.parent? = some q) (hne : q.text ≠ "") :
    q.route ⊆ {l | l ∈ p.passes} := by
  obtain ⟨habove, rest, hrest, hnames⟩ := above_of_parent? h
  rintro l (hl | rfl)
  · rw [passes, habove.start.resolve_left hne] at hl
    exact FileSystem.passes_subset_of_prefix habove.names hl
  · exact destination_parent?_mem h hne

theorem Path.route_join {name : String} (h : IsPlainName name) (root : Path) :
    {l | l ∈ (root.join name).passes} = root.route := by
  ext l
  simp [FileSystem.passes_join h, route]

namespace FileSystem

variable {spots spots' ways ways' : Set Location} {l : Location} {fs fs' fs'' : FileSystem}
  {p : Path} {bytes : Bytes}

/-! ## Adding -/

/-- What may become of a location when files are written at certain spots and missing directories
are made on certain ways. -/
inductive Added (spots ways : Set Location) (l : Location) : Option Entry → Option Entry → Prop
  | same (e : Option Entry) : Added spots ways l e e
  | written {e : Option Entry} (hspot : l ∈ spots) (hfree : e ≠ some .directory) (bytes : Bytes)
      (executable : Bool) (holder : Option Nat) :
      Added spots ways l e (some (.file bytes executable holder))
  | made (hway : l ∈ ways) : Added spots ways l none (some .directory)

theorem Added.trans {e e' e'' : Option Entry} (h : Added spots ways l e e')
    (h' : Added spots ways l e' e'') : Added spots ways l e e'' := by
  cases h with
  | same => exact h'
  | written hspot hfree =>
    cases h' with
    | same => exact .written hspot hfree ..
    | written => exact .written hspot hfree ..
  | made hway =>
    cases h' with
    | same => exact .made hway
    | written _ hfree => exact absurd rfl hfree

theorem Added.mono {e e' : Option Entry} (h : Added spots ways l e e') (hspots : spots ⊆ spots')
    (hways : ways ⊆ ways') : Added spots' ways' l e e' := by
  cases h with
  | same => exact .same e
  | written hspot hfree => exact .written (hspots hspot) hfree ..
  | made hway => exact .made (hways hway)

/-- Nothing has changed, but for files that were written at certain spots and missing directories
that were made on certain ways. -/
def Adds (spots ways : Set Location) (fs fs' : FileSystem) : Prop :=
  ∀ l, Added spots ways l (fs.entryAt? l) (fs'.entryAt? l)

theorem Adds.refl (spots ways : Set Location) (fs : FileSystem) : Adds spots ways fs fs :=
  fun _ => .same _

theorem Adds.trans (h : Adds spots ways fs fs') (h' : Adds spots ways fs' fs'') :
    Adds spots ways fs fs'' := fun l => (h l).trans (h' l)

theorem Adds.mono (h : Adds spots ways fs fs') (hspots : spots ⊆ spots') (hways : ways ⊆ ways') :
    Adds spots' ways' fs fs' := fun l => (h l).mono hspots hways

/-- Nothing is taken away. -/
theorem Adds.eq_none (h : Adds spots ways fs fs') (hnone : fs'.entryAt? l = none) :
    fs.entryAt? l = none := by
  have hl := h l
  rw [hnone] at hl
  generalize fs.entryAt? l = e at hl ⊢
  cases hl with
  | same => rfl

theorem adds_put {at' : Location} (hspot : at' ∈ spots) (hfree : fs.entryAt? at' ≠ some .directory)
    (executable : Bool) (holder : Option Nat) :
    Adds spots ways fs (fs.put at' (.file bytes executable holder)) := by
  intro l
  by_cases hl : at' = l
  · subst hl
    rw [entryAt?_put, if_pos rfl]
    exact .written hspot hfree ..
  · rw [entryAt?_put, if_neg hl]
    exact .same _

theorem adds_write (h : fs.write p bytes = .ok fs') : Adds {p.destination} ∅ fs fs' := by
  obtain ⟨before, last, directory, executable, holder, hopens, hfree, rfl⟩ := write_ok h
  have hwhere := resolve_eq_ok (hopens.resolve fun _ hl => hl)
  exact adds_put (Set.mem_singleton_iff.mpr hwhere) hfree executable holder

theorem adds_makeDirectory (h : fs.makeDirectory p = .ok fs') : Adds ∅ {p.destination} fs fs' := by
  obtain ⟨step, hstep, h⟩ := exists_of_bind_eq_ok h
  cases step with
  | noName => cases h
  | name directory last slash =>
    obtain ⟨_, -, h⟩ := exists_of_bind_eq_ok h
    rw [(lastStep_eq_name hstep).1] at h
    rcases he : fs.entryAt? p.destination with _ | e
    · simp only [he] at h
      cases h
      intro l
      by_cases hl : p.destination = l
      · subst hl
        rw [entryAt?_put, if_pos rfl, he]
        exact .made (Set.mem_singleton _)
      · rw [entryAt?_put, if_neg hl]
        exact .same _
    · simp only [he] at h
      cases h

theorem adds_makeDirectoriesOf (fs : FileSystem) {ps : List Path}
    (h : ∀ p ∈ ps, p.text ≠ "" → p.destination ∈ ways) :
    Adds ∅ ways fs (fs.makeDirectoriesOf ps).2 := by
  induction ps generalizing fs with
  | nil => exact .refl _ _ fs
  | cons p ps ih =>
    have hps := ih fs fun q hq => h q (List.mem_cons_of_mem p hq)
    unfold makeDirectoriesOf
    by_cases hempty : p.text = ""
    · rw [if_pos hempty]
      exact .refl _ _ fs
    have hone {fs fs' : FileSystem} (hmade : fs.makeDirectory p = .ok fs') : Adds ∅ ways fs fs' :=
      (adds_makeDirectory hmade).mono (Set.Subset.refl _)
        (Set.singleton_subset_iff.mpr (h p List.mem_cons_self hempty))
    rw [if_neg hempty]
    rcases hmade : fs.makeDirectory p with e | fs₁
    · by_cases hmissing : e = .notFound
      · simp only [if_pos hmissing]
        rcases hparents : fs.makeDirectoriesOf ps with ⟨e' | _, fs₂⟩
        · rw [hparents] at hps
          exact hps
        · rw [hparents] at hps
          rcases hmade' : fs₂.makeDirectory p with e' | fs₃
          · simp only [hmade']
            exact hps
          · simp only [hmade']
            exact hps.trans (hone hmade')
      · simp only [if_neg hmissing]
        exact .refl _ _ fs
    · exact hone hmade

theorem adds_makeDirectories (fs : FileSystem) (p : Path) :
    Adds ∅ p.route fs (fs.makeDirectories p).2 := by
  unfold makeDirectories
  by_cases hempty : p.text = ""
  · rw [if_pos hempty]
    exact .refl _ _ fs
  · rw [if_neg hempty]
    apply adds_makeDirectoriesOf
    intro q hq hne
    exact ((Path.above_of_mem_ancestors hq).destination hne).symm

/-- The making of the directory that a path lies in adds directories on its way. -/
theorem adds_makeParent (fs : FileSystem) (p : Path) :
    Adds ∅ {l | l ∈ p.passes} fs (fs.makeParent p).2 := by
  unfold makeParent
  rcases hparent : p.parent? with _ | parent
  · exact .refl _ _ fs
  · by_cases hempty : parent.text = ""
    · simp only [makeDirectories, if_pos hempty]
      exact .refl _ _ fs
    · exact (adds_makeDirectories fs parent).mono (Set.Subset.refl _)
        (Path.route_parent_subset hparent hempty)

/-! ## Changing nothing else -/

/-- Nothing has changed but at certain spots, and missing directories have been made on certain
ways. -/
def ChangesOnly (spots ways : Set Location) (fs fs' : FileSystem) : Prop :=
  ∀ l ∉ spots, fs'.entryAt? l = fs.entryAt? l ∨
    l ∈ ways ∧ fs.entryAt? l = none ∧ fs'.entryAt? l = some .directory

theorem Adds.changesOnly (h : Adds spots ways fs fs') : ChangesOnly spots ways fs fs' := by
  intro l hl
  have hl' := h l
  generalize fs.entryAt? l = e at hl' ⊢
  generalize fs'.entryAt? l = e' at hl' ⊢
  cases hl' with
  | same => exact .inl rfl
  | written hspot => exact absurd hspot hl
  | made hway => exact .inr ⟨hway, rfl, rfl⟩

theorem changesOnly_of_entries (h : ∀ l ∉ spots, fs'.entryAt? l = fs.entryAt? l) :
    ChangesOnly spots ways fs fs' := fun l hl => .inl (h l hl)

theorem ChangesOnly.trans (h : ChangesOnly spots ways fs fs')
    (h' : ChangesOnly spots ways fs' fs'') : ChangesOnly spots ways fs fs'' := by
  intro l hl
  rcases h l hl with heq | ⟨hway, hnone, hmade⟩
  · rw [← heq]
    exact h' l hl
  · rcases h' l hl with heq' | ⟨-, hnone', -⟩
    · exact .inr ⟨hway, hnone, heq'.trans hmade⟩
    · rw [hmade] at hnone'
      cases hnone'

/-- What stands somewhere else stays. -/
theorem ChangesOnly.entry (h : ChangesOnly spots ways fs fs') (hl : l ∉ spots) {e : Entry}
    (he : fs.entryAt? l = some e) : fs'.entryAt? l = some e := by
  rcases h l hl with heq | ⟨-, hnone, -⟩
  · rw [heq, he]
  · rw [he] at hnone
    cases hnone

/-- The same is found at a path that leads neither to a spot nor through one, nor to or through a
directory that was missing. -/
theorem ChangesOnly.inspect_eq (h : ChangesOnly spots ways fs fs')
    (hp : ∀ l ∈ p.route, l ∉ spots ∧ (l ∈ ways → fs.entryAt? l ≠ none)) :
    fs'.inspect p = fs.inspect p := by
  have hsame : ∀ l ∈ p.route, fs'.entryAt? l = fs.entryAt? l := by
    intro l hl
    obtain ⟨hspot, hthere⟩ := hp l hl
    exact (h l hspot).resolve_right fun hmade => hthere hmade.1 hmade.2.1
  exact inspect_congr (fun l hl => hsame l (.inl hl)) (hsame _ (.inr rfl))

end FileSystem

end StorageProof
