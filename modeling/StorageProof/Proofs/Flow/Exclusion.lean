import Mathlib.Data.Multiset.MapFold
import Mathlib.Logic.Relation
import StorageProof.Files.Edit
import StorageProof.Proofs.Flow.Composition
import StorageProof.Proofs.Flow.Reports
import StorageProof.Proofs.Flow.Steps

/-!
# One run for each directory

Leases are taken and given up in any order, and files are changed in between by whoever is at work,
as long as the locks are left to their holders. Then the files that are locked are those of the live
leases, one for each directory, and a lease is to be had if and only if none on its directory is
live. A flow is such a sequence of moves that begins with its own lease and ends without it, however
it ends.
-/

namespace StorageProof

def Lease.directory (l : Lease) : Location := l.lockFile.dropLast

structure Occupancy where
  files : FileSystem
  live : Multiset Lease

namespace Occupancy

/-- What can happen next: a lease is asked for, and taken or not to be had, a lease is given up, or
something is done to the files that leaves the locks as they are. -/
inductive Move : Occupancy → Occupancy → Prop
  | acquire {fs fs' : FileSystem} {live : Multiset Lease} {root : Path} {lease : Lease}
      (h : Lease.acquireIn root fs = (.ok lease, fs')) : Move ⟨fs, live⟩ ⟨fs', lease ::ₘ live⟩
  | refused {fs fs' : FileSystem} {live : Multiset Lease} {root : Path} {e : Failure}
      (h : Lease.acquireIn root fs = (.error e, fs')) : Move ⟨fs, live⟩ ⟨fs', live⟩
  | release {fs : FileSystem} {live : Multiset Lease} {lease : Lease} :
      Move ⟨fs, lease ::ₘ live⟩ ⟨lease.releaseIn fs, live⟩
  | work {fs fs' : FileSystem} {live : Multiset Lease} (h : fs.LeavesLocks fs') :
      Move ⟨fs, live⟩ ⟨fs', live⟩

/-- What can happen in any number of moves. -/
abbrev Reaches : Occupancy → Occupancy → Prop := Relation.ReflTransGen Move

/-- The locks are those of the live leases, and no two of these are on one directory. -/
structure Sound (o : Occupancy) : Prop where
  named : ∀ l ∈ o.live, l.lockFile = l.directory ++ [Lease.lockName]
  held : ∀ l ∈ o.live, Lease.holder? o.files l.lockFile = some l.lock
  owned : ∀ at' k, Lease.holder? o.files at' = some k → ∃ l ∈ o.live, l.lockFile = at'
  apart : (o.live.map Lease.directory).Nodup

end Occupancy

/-! ## Taking and giving up a lease -/

namespace Lease

variable {root : Path} {fs fs' : FileSystem} {lease : Lease} {at' : Location} {found : Option Entry}

/-- The file with the lock of a directory has the name of such files. -/
theorem opened_lockFile (h : fs.opened (root.join lockName) = .ok (at', found)) :
    at' = at'.dropLast ++ [lockName] := by
  obtain ⟨before, last, directory, hopens, rfl, -, -⟩ := FileSystem.opened_ok h
  have hnames := hopens.names
  rw [Path.names_join isPlainName_lockName] at hnames
  obtain ⟨-, hlast⟩ := List.append_inj' hnames rfl
  cases hlast
  simp

/-- What asking for a lease comes to where its directory can be made and the file with the lock
opened. -/
theorem acquireIn_of_opened (hmade : fs.makeDirectories root = (.ok (), fs'))
    (hopened : fs'.opened (root.join lockName) = .ok (at', found)) :
    acquireIn root fs =
      if (holder? fs' at').isSome then (.error (.workDirBusy root.text), fs')
      else (.ok ⟨root, at', fs'.locks⟩, locked fs' at') := by
  simp only [acquireIn, hmade, take, hopened]

/-- A lease that is taken is on a file that was not locked. -/
theorem acquireIn_ok (h : acquireIn root fs = (.ok lease, fs')) :
    ∃ fs₁ at' found, fs.makeDirectories root = (.ok (), fs₁) ∧
      fs₁.opened (root.join lockName) = .ok (at', found) ∧ holder? fs₁ at' = none ∧
      lease = ⟨root, at', fs₁.locks⟩ ∧ fs' = locked fs₁ at' := by
  rcases hmade : fs.makeDirectories root with ⟨e | _, fs₁⟩
  · simp only [acquireIn, hmade] at h
    cases h
  rcases hopened : fs₁.opened (root.join lockName) with e | ⟨at', found⟩
  · simp only [acquireIn, hmade, take, hopened] at h
    cases h
  rw [acquireIn_of_opened hmade hopened] at h
  by_cases hlocked : (holder? fs₁ at').isSome
  · rw [if_pos hlocked] at h
    cases h
  · rw [if_neg hlocked] at h
    cases h
    exact ⟨fs₁, at', found, rfl, hopened, by simpa using hlocked, rfl, rfl⟩

theorem acquireIn_of_acquire {σ : Type} {site site' : Site σ} {r : Except Failure Lease}
    (h : acquire root site = (r, site')) :
    acquireIn root site.files = (r, site'.files) ∧ site'.tools = site.tools := by
  cases h
  exact ⟨rfl, rfl⟩

theorem files_of_acquireIn_error {e : Failure} (h : acquireIn root fs = (.error e, fs')) :
    fs' = (fs.makeDirectories root).2 := by
  rcases hmade : fs.makeDirectories root with ⟨e' | _, fs₁⟩
  · simp only [acquireIn, hmade] at h
    cases h
    rfl
  rcases hopened : fs₁.opened (root.join lockName) with e' | ⟨at', found⟩
  · simp only [acquireIn, hmade, take, hopened] at h
    cases h
    rfl
  rw [acquireIn_of_opened hmade hopened] at h
  by_cases hlocked : (holder? fs₁ at').isSome
  · rw [if_pos hlocked] at h
    cases h
    rfl
  · rw [if_neg hlocked] at h
    cases h

/-- Asking in vain makes directories at most. -/
theorem acquireIn_error {e : Failure} (h : acquireIn root fs = (.error e, fs')) :
    FileSystem.OnlyMakesDirectories fs fs' := by
  rw [files_of_acquireIn_error h]
  exact FileSystem.onlyMakesDirectories_makeDirectories fs root

/-- What stands where once a file has been locked, however many locks have been taken. -/
theorem entryAt?_locked (fs : FileSystem) (at' l : Location) :
    (locked fs at').entryAt? l =
      if at' = l then some (.file mark false (some fs.locks)) else fs.entryAt? l :=
  FileSystem.entryAt?_put fs at' l (.file mark false (some fs.locks))

theorem holder?_locked (fs : FileSystem) (at' l : Location) :
    holder? (locked fs at') l = if at' = l then some fs.locks else holder? fs l := by
  by_cases hl : at' = l
  · rw [holder?, entryAt?_locked]
    simp [hl]
  · rw [if_neg hl]
    exact FileSystem.holder?_of_entry (by rw [entryAt?_locked, if_neg hl])

/-- Giving up a lease takes its lock away and no other. -/
theorem holder?_releaseIn (h : holder? fs lease.lockFile = some lease.lock) (l : Location) :
    holder? (lease.releaseIn fs) l = if lease.lockFile = l then none else holder? fs l := by
  rcases he : fs.entryAt? lease.lockFile with _ | (_ | ⟨bytes, executable, holder⟩)
  · simp [holder?, he] at h
  · simp [holder?, he] at h
  · have hholder : holder = some lease.lock := by simpa [holder?, he] using h
    subst hholder
    simp only [releaseIn, he, if_true]
    by_cases hl : lease.lockFile = l
    · simp [holder?, hl]
    · rw [if_neg hl]
      exact FileSystem.holder?_of_entry (by simp [hl])

end Lease

namespace Occupancy

variable {o o' first here : Occupancy} {root : Path} {fs : FileSystem} {at' : Location}
  {found : Option Entry}

theorem Sound.of_unlocked {fs : FileSystem} (h : ∀ l, Lease.holder? fs l = none) :
    Sound ⟨fs, 0⟩ where
  named := by simp
  held := by simp
  owned := by simp [h]
  apart := by simp

/-- What is done to the files does not matter as long as it leaves the locks. -/
theorem Sound.leave {live : Multiset Lease} {fs fs' : FileSystem} (h : Sound ⟨fs, live⟩)
    (hl : fs.LeavesLocks fs') : Sound ⟨fs', live⟩ where
  named := h.named
  held := fun l hlive => (hl _).trans (h.held l hlive)
  owned := fun at' k hk => h.owned at' k ((hl at').symm.trans hk)
  apart := h.apart

/-- A lease on a directory is one on the file with its lock. -/
theorem Sound.lockFile_eq (h : Sound o) {l : Lease} (hl : l ∈ o.live)
    (hat : at' = at'.dropLast ++ [Lease.lockName]) (hd : l.directory = at'.dropLast) :
    l.lockFile = at' := by
  rw [h.named l hl, hd, ← hat]

/-- A file is locked if and only if a lease on its directory is live. -/
theorem Sound.isSome_holder?_iff (h : Sound o) (hat : at' = at'.dropLast ++ [Lease.lockName]) :
    (Lease.holder? o.files at').isSome ↔ ∃ l ∈ o.live, l.directory = at'.dropLast := by
  constructor
  · intro hk
    obtain ⟨k, hk⟩ := Option.isSome_iff_exists.mp hk
    obtain ⟨l, hl, rfl⟩ := h.owned at' k hk
    exact ⟨l, hl, rfl⟩
  · rintro ⟨l, hl, hd⟩
    rw [← h.lockFile_eq hl hat hd, h.held l hl]
    rfl

theorem Sound.acquire {live : Multiset Lease} {fs fs' : FileSystem} {lease : Lease}
    (h : Sound ⟨fs, live⟩) (ha : Lease.acquireIn root fs = (.ok lease, fs')) :
    Sound ⟨fs', lease ::ₘ live⟩ := by
  obtain ⟨fs₁, at', found, hmade, hopened, hfree, rfl, rfl⟩ := Lease.acquireIn_ok ha
  have hdirectories := FileSystem.onlyMakesDirectories_makeDirectories fs root
  rw [hmade] at hdirectories
  have h₁ : Sound ⟨fs₁, live⟩ := h.leave hdirectories.leavesLocks
  have hat := Lease.opened_lockFile hopened
  have hapart : ∀ l ∈ live, l.directory ≠ at'.dropLast := by
    intro l hl hd
    have hlocked := (h₁.isSome_holder?_iff hat).mpr ⟨l, hl, hd⟩
    rw [hfree] at hlocked
    cases hlocked
  have hother : ∀ l ∈ live, at' ≠ l.lockFile := by
    rintro l hl rfl
    exact hapart l hl rfl
  refine ⟨?_, ?_, ?_, ?_⟩
  · intro l hl
    rcases Multiset.mem_cons.mp hl with rfl | hl
    · exact hat
    · exact h.named l hl
  · intro l hl
    rw [Lease.holder?_locked]
    rcases Multiset.mem_cons.mp hl with rfl | hl
    · exact if_pos rfl
    · rw [if_neg (hother l hl), h₁.held l hl]
  · intro l k hk
    rw [Lease.holder?_locked] at hk
    by_cases hl : at' = l
    · exact ⟨_, Multiset.mem_cons_self _ _, hl⟩
    · rw [if_neg hl] at hk
      obtain ⟨lease, hlive, hfile⟩ := h₁.owned l k hk
      exact ⟨lease, Multiset.mem_cons_of_mem hlive, hfile⟩
  · rw [Multiset.map_cons, Multiset.nodup_cons]
    refine ⟨?_, h.apart⟩
    intro hmem
    obtain ⟨l, hl, hd⟩ := Multiset.mem_map.mp hmem
    exact hapart l hl hd

theorem Sound.release {live : Multiset Lease} {fs : FileSystem} {lease : Lease}
    (h : Sound ⟨fs, lease ::ₘ live⟩) : Sound ⟨lease.releaseIn fs, live⟩ := by
  have hheld := h.held lease (Multiset.mem_cons_self _ _)
  have hnodup := h.apart
  rw [Multiset.map_cons, Multiset.nodup_cons] at hnodup
  have hother : ∀ l ∈ live, lease.lockFile ≠ l.lockFile := by
    intro l hl heq
    apply hnodup.1
    rw [Multiset.mem_map]
    exact ⟨l, hl, by rw [Lease.directory, ← heq, Lease.directory]⟩
  refine ⟨?_, ?_, ?_, hnodup.2⟩
  · exact fun l hl => h.named l (Multiset.mem_cons_of_mem hl)
  · intro l hl
    rw [Lease.holder?_releaseIn hheld, if_neg (hother l hl)]
    exact h.held l (Multiset.mem_cons_of_mem hl)
  · intro at' k hk
    rw [Lease.holder?_releaseIn hheld] at hk
    by_cases hat : lease.lockFile = at'
    · rw [if_pos hat] at hk
      cases hk
    · rw [if_neg hat] at hk
      obtain ⟨l, hl, hfile⟩ := h.owned at' k hk
      rcases Multiset.mem_cons.mp hl with rfl | hl
      · exact absurd hfile hat
      · exact ⟨l, hl, hfile⟩

/-- Every move keeps the locks with the live leases. -/
theorem Sound.move (h : Sound o) (hm : Move o o') : Sound o' := by
  cases hm with
  | acquire ha => exact h.acquire ha
  | refused ha => exact h.leave (Lease.acquireIn_error ha).leavesLocks
  | release => exact h.release
  | work hl => exact h.leave hl

theorem Sound.reaches (h : Sound o) (hr : Reaches o o') : Sound o' := by
  induction hr with
  | refl => exact h
  | tail _ hm ih => exact ih.move hm

section Asking

variable (h : Sound here) (hmade : here.files.makeDirectories root = (.ok (), fs))
  (hopened : fs.opened (root.join Lease.lockName) = .ok (at', found))

include h hmade hopened

theorem Sound.isSome_holder?_made_iff :
    (Lease.holder? fs at').isSome ↔ ∃ l ∈ here.live, l.directory = at'.dropLast := by
  have hdirectories := FileSystem.onlyMakesDirectories_makeDirectories here.files root
  rw [hmade] at hdirectories
  exact (h.leave hdirectories.leavesLocks).isSome_holder?_iff (Lease.opened_lockFile hopened)

theorem Sound.acquireIn_busy (hlive : ∃ l ∈ here.live, l.directory = at'.dropLast) :
    Lease.acquireIn root here.files = (.error (.workDirBusy root.text), fs) := by
  rw [Lease.acquireIn_of_opened hmade hopened,
    if_pos ((h.isSome_holder?_made_iff hmade hopened).mpr hlive)]

/-- A lease is to be had if and only if none on the directory is live. -/
theorem Sound.acquireIn_iff :
    (∃ lease, (Lease.acquireIn root here.files).1 = .ok lease) ↔
      ∀ l ∈ here.live, l.directory ≠ at'.dropLast := by
  have hiff := h.isSome_holder?_made_iff hmade hopened
  constructor
  · rintro ⟨lease, hok⟩ l hl hd
    rw [h.acquireIn_busy hmade hopened ⟨l, hl, hd⟩] at hok
    cases hok
  · intro hfree
    have hunlocked : ¬ (Lease.holder? fs at').isSome := by
      rw [hiff]
      rintro ⟨l, hl, hd⟩
      exact hfree l hl hd
    rw [Lease.acquireIn_of_opened hmade hopened, if_neg hunlocked]
    exact ⟨_, rfl⟩

end Asking

/-- At most one lease is live for each directory. Where directories can be made and the file with
the lock opened, a lease is to be had if and only if none on the directory is live, and asking in
vain tells that the directory is busy and leaves every file as it is. -/
structure Exclusive (o : Occupancy) : Prop where
  apart : (o.live.map Lease.directory).Nodup
  acquire_iff : ∀ {root : Path} {fs : FileSystem} {at' : Location} {found : Option Entry},
    o.files.makeDirectories root = (.ok (), fs) →
    fs.opened (root.join Lease.lockName) = .ok (at', found) →
    ((∃ lease, (Lease.acquireIn root o.files).1 = .ok lease) ↔
      ∀ l ∈ o.live, l.directory ≠ at'.dropLast)
  busy : ∀ {root : Path} {fs : FileSystem} {at' : Location} {found : Option Entry},
    o.files.makeDirectories root = (.ok (), fs) →
    fs.opened (root.join Lease.lockName) = .ok (at', found) →
    (∃ l ∈ o.live, l.directory = at'.dropLast) →
    Lease.acquireIn root o.files = (.error (.workDirBusy root.text), fs) ∧
      FileSystem.OnlyMakesDirectories o.files fs

theorem Sound.exclusive (h : Sound here) : Exclusive here where
  apart := h.apart
  acquire_iff := fun hmade hopened => h.acquireIn_iff hmade hopened
  busy := by
    intro root fs at' found hmade hopened hlive
    have hdirectories := FileSystem.onlyMakesDirectories_makeDirectories here.files root
    rw [hmade] at hdirectories
    exact ⟨h.acquireIn_busy hmade hopened hlive, hdirectories⟩

/-- Whatever others do, they do beside a lease that they do not hold. -/
theorem Move.beside {fs fs' : FileSystem} {live live' : Multiset Lease} (own : Lease)
    (h : Move ⟨fs, live⟩ ⟨fs', live'⟩) : Move ⟨fs, own ::ₘ live⟩ ⟨fs', own ::ₘ live'⟩ := by
  cases h with
  | acquire ha =>
    rw [Multiset.cons_swap]
    exact .acquire ha
  | refused ha => exact .refused ha
  | release =>
    rw [Multiset.cons_swap]
    exact .release
  | work hl => exact .work hl

theorem Reaches.beside (own : Lease) (h : Reaches o o') :
    Reaches ⟨o.files, own ::ₘ o.live⟩ ⟨o'.files, own ::ₘ o'.live⟩ := by
  induction h with
  | refl => exact .refl
  | tail _ hm ih => exact ih.tail (hm.beside own)

end Occupancy

/-! ## Flows -/

open Occupancy

variable {σ α : Type} {run : Runner σ} {others : σ → Multiset Lease} {here : Occupancy}
  {own : Lease}

/-- Whatever happens while a call is made is moves of others, whose leases can be read off the state
of the tools. -/
def Runner.SharesWith (run : Runner σ) (others : σ → Multiset Lease) : Prop :=
  ∀ call site, Reaches ⟨site.files, others site.tools⟩
    ⟨(run call site).2.files, others (run call site).2.tools⟩

/-- A call before and after which a lease is live, whatever others hold besides. -/
structure Exchange.Under (here : Occupancy) (own : Lease) (e : Exchange) : Prop where
  before : ∃ live, Reaches here ⟨e.before, own ::ₘ live⟩
  after : ∃ live, Reaches here ⟨e.after, own ::ₘ live⟩

/-- A site that has been reached with a lease held all the time. -/
structure Site.Holding (here : Occupancy) (others : σ → Multiset Lease) (own : Lease)
    (s : Site (σ × List Exchange)) : Prop where
  reached : Reaches here ⟨s.files, own ::ₘ others s.tools.1⟩
  under : ∀ e ∈ s.log, e.Under here own

section Holding

variable (hhere : Sound here) (hshares : run.SharesWith others)

theorem Site.Holding.sound {s : Site (σ × List Exchange)} (hhere : Sound here)
    (h : s.Holding here others own) : Sound ⟨s.files, own ::ₘ others s.tools.1⟩ :=
  hhere.reaches h.reached

/-- A lease is still held after work on the files that leaves the locks. -/
theorem Site.Holding.leave {s : Site (σ × List Exchange)} (h : s.Holding here others own)
    {fs : FileSystem} (hl : FileSystem.LeavesLocks s.files fs) :
    Site.Holding here others own { s with files := fs } :=
  ⟨h.reached.tail (.work hl), h.under⟩

include hhere in
/-- The locks stay where a file of another name is removed. -/
theorem Site.Holding.remove {s : Site (σ × List Exchange)} (h : s.Holding here others own)
    {p : Path} {fs : FileSystem} (hp : p.names.getLast? ≠ some Lease.lockName)
    (hr : s.files.removeFile p = .ok fs) : Site.Holding here others own { s with files := fs } := by
  have hsound := h.sound hhere
  have hnamed : ∀ l k, Lease.holder? s.files l = some k → l.getLast? = some Lease.lockName := by
    intro l k hk
    obtain ⟨lease, hlive, rfl⟩ := hsound.owned l k hk
    rw [hsound.named lease hlive, List.getLast?_concat]
  exact h.leave (FileSystem.leavesLocks_removeFile hr hnamed hp)

include hshares in
/-- Others go about their work during a call, and the lease is live before and after it. -/
theorem upholds_holding_observed (call : Call) :
    Upholds (Site.Holding here others own) (run.observed call) := by
  intro s hs
  have hmoves := Reaches.beside own (hshares call s.inner)
  have hreached : Reaches here ⟨(run call s.inner).2.files,
      own ::ₘ others (run call s.inner).2.tools⟩ := hs.reached.trans hmoves
  refine ⟨hreached, ?_⟩
  intro e he
  rw [run.observed_eq] at he
  rcases List.mem_append.mp he with he | he
  · exact hs.under e he
  · rw [List.mem_singleton.mp he]
    exact ⟨⟨_, hs.reached⟩, ⟨_, hreached⟩⟩

end Holding

/-! ## Courses -/

namespace Settings

section Courses

variable (hhere : Sound here) (hshares : run.SharesWith others)

abbrev HoldingCourse (here : Occupancy) (others : σ → Multiset Lease) (own : Lease)
    (st : Site (σ × List Exchange) × List RunState) : Prop := st.1.Holding here others own

include hhere hshares

/-- A lease is held from step to step, as long as nothing is written or cleared away in the place of
a file with a lock. -/
theorem closed_holding (s : Settings) :
    Course.Closed s run.observed (fun p => p.names.getLast? ≠ some Lease.lockName) fun _ =>
      Upholds (HoldingCourse here others own) :=
  Course.closed_upholds (fun call _ => upholds_holding_observed hshares call)
    (fun _ _ _ hp hs hr => hs.remove hhere hp hr)
    (fun _ _ _ _ _ hs hw => hs.leave (FileSystem.leavesLocks_write hw))
    fun _ _ hs hmade => hs.leave hmade.leavesLocks

/-- A lease is held throughout a course. Where the proving parameters are made, they must not lie in
the place of a file with a lock. -/
theorem upholds_holding_courseOf (s : Settings) (job : Job) (lease : Lease)
    (hparameters : job.flow = .setup → s.parameters.names.getLast? ≠ some Lease.lockName) :
    Upholds (HoldingCourse here others own) (s.courseOf run.observed job lease) := by
  have hother : ∀ name ∈ Lease.leftoverNames, name ≠ Lease.lockName := by decide
  refine (closed_holding hhere hshares s).courseOf job (fun name hname => ?_) hparameters
  have hname := job.fileNames_subset hname
  rw [Lease.file, Path.names_join (Lease.isPlainName_leftover hname), List.getLast?_concat]
  simpa using hother name hname

/-- A job under observation is a sequence of moves in which its own lease is taken and given up, and
its calls are made under this lease. -/
theorem reaches_conduct (s : Settings) (job : Job) (d : Desk (σ × List Exchange))
    (hparameters : job.flow = .setup → s.parameters.names.getLast? ≠ some Lease.lockName)
    (hstart : here = ⟨d.site.files, others d.site.tools.1⟩) (hlog : d.site.log = [])
    {site : Site (σ × List Exchange)}
    (hsite : (s.conduct job.flow (s.courseOf run.observed job) d).2.site = site) :
    Reaches here ⟨site.files, others site.tools.1⟩ ∧
      (site.log = [] ∨ ∃ own, (Lease.acquireIn s.workDir here.files).1 = .ok own ∧
        ∀ e ∈ site.log, e.Under here own) := by
  subst hstart
  obtain ⟨e, -, h⟩ | ⟨e, begun, -, ha, h⟩ | ⟨own, begun, -, ha, h⟩ :=
    s.conduct_cases job.flow (s.courseOf run.observed job) d
  · rw [h] at hsite
    subst hsite
    exact ⟨.refl, .inl hlog⟩
  · obtain ⟨hrefused, htools⟩ := Lease.acquireIn_of_acquire ha
    rw [h] at hsite
    subst hsite
    refine ⟨?_, .inl ((congrArg Prod.snd htools).trans hlog)⟩
    rw [htools]
    exact .single (.refused hrefused)
  · obtain ⟨htaken, htools⟩ := Lease.acquireIn_of_acquire ha
    rw [h] at hsite
    subst hsite
    have hbegun : begun.Holding ⟨d.site.files, others d.site.tools.1⟩ others own := by
      refine ⟨?_, ?_⟩
      · rw [htools]
        exact .single (.acquire htaken)
      · have hlog : begun.log = [] := (congrArg Prod.snd htools).trans hlog
        simp [hlog]
    have hended :=
      s.upholds_holding_courseOf hhere hshares job own hparameters (begun, [.init]) hbegun
    exact ⟨hended.reached.tail .release, .inr ⟨own, congrArg Prod.fst htaken, hended.under⟩⟩

/-- A job is a sequence of moves in which its own lease is taken and given up, and its calls are
made under this lease. -/
theorem reaches_undertake (s : Settings) (job : Job) (d : Desk σ)
    (hparameters : job.flow = .setup → s.parameters.names.getLast? ≠ some Lease.lockName)
    (hstart : here = ⟨d.site.files, others d.site.tools⟩) :
    Reaches here ⟨(s.undertake run job d).2.site.files,
        others (s.undertake run job d).2.site.tools⟩ ∧
      (s.callsOf run job d = [] ∨ ∃ own, (Lease.acquireIn s.workDir here.files).1 = .ok own ∧
        ∀ e ∈ s.callsOf run job d, e.Under here own) := by
  by_cases hrefused : job.refused = true
  · rw [callsOf, undertake_of_refused _ _ hrefused, undertake_of_refused _ _ hrefused, ← hstart]
    exact ⟨.refl, .inl rfl⟩
  rw [Bool.not_eq_true] at hrefused
  obtain ⟨log, hwatched⟩ := s.undertake_watched run job d []
  have hsite : (s.undertake run job d).2.site =
      (s.undertake run.observed job (d.watched [])).2.site.inner := by
    rw [hwatched]
    rfl
  rw [hsite, callsOf, undertake_of_not_refused _ run.observed hrefused]
  exact s.reaches_conduct hhere hshares job (d.watched []) hparameters hstart rfl rfl

end Courses

/-- A job whose lease is not to be had comes to nothing but the directories that are made for it. -/
theorem undertake_of_acquire_error (s : Settings) (run : Runner σ) {job : Job} {d : Desk σ}
    (hrefused : job.refused = false) (hvalid : s.validate = .ok ()) {e : Failure} {fs : FileSystem}
    (h : Lease.acquireIn s.workDir d.site.files = (.error e, fs)) :
    s.undertake run job d = (.error e, ⟨⟨fs, d.site.tools⟩, d.last⟩) ∧
      s.callsOf run job d = [] := by
  have hacquire : Lease.acquire s.workDir d.site = (.error e, ⟨fs, d.site.tools⟩) := by
    simp only [Lease.acquire, h]
  refine ⟨?_, s.callsOf_of_not_begins run ?_⟩
  · rw [undertake_of_not_refused _ _ hrefused]
    simp only [conduct, hvalid, hacquire]
  · simp [begins, hacquire, Except.isOk, Except.toBool]

namespace Specimen

def other : Lease := ⟨⟨"other"⟩, ["srv", "jobs", "other", ".vidproof.lock"], 0⟩

/-- The files after that lease has been taken. -/
def occupied : FileSystem := (Lease.acquireIn other.root FileSystem.empty).2

def occupiedDesk : Desk Unit := ⟨⟨occupied, ()⟩, none⟩

/-- A runner that writes the file that a call declares. -/
def writing : Runner Unit := fun call s =>
  match call.declared with
  | .file p => (.ok ⟨[], ""⟩, { s with files := s.files.overwrite p [1] })
  | _ => (.ok ⟨[], ""⟩, s)

theorem sharesWith_writing (live : Multiset Lease) : writing.SharesWith fun _ => live := by
  intro call site
  unfold writing
  split
  · next p _ =>
    apply Relation.ReflTransGen.single
    apply Occupancy.Move.work
    unfold FileSystem.overwrite
    split
    · next h => exact FileSystem.leavesLocks_write h
    · exact .refl _
  · exact .refl

theorem reaches_occupied : Reaches ⟨FileSystem.empty, 0⟩ ⟨occupied, {other}⟩ := by
  have hfirst : (Lease.acquireIn other.root FileSystem.empty).1 = .ok other := by decide +kernel
  exact .single (.acquire (Prod.ext hfirst rfl))

end Specimen

/-- A runner that removes the lock of another directory before it writes. -/
def Specimen.removing : Runner Unit := fun call s =>
  writing call { s with files := s.files.edit (.remove (other.root.join Lease.lockName)) }

/-- Settings by which the proving parameters lie in the place of the lock of another directory. -/
def Specimen.misplacing : Settings :=
  { settings with parameterFile := some (other.root.join Lease.lockName) }

end Settings

end StorageProof
