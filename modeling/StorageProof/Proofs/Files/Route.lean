import StorageProof.Proofs.Files.FileSystem

/-!
# Where paths lead

Without links, a path leads to one location whatever the files are, and through others, at which
directories must stand. What an operation on a path comes to depends on what stands at these
locations and nowhere else. A path above another leads through locations that the other one leads
through too.
-/

namespace StorageProof

namespace FileSystem

/-- The location that a name leads to. -/
def descend (at' : Location) (name : String) : Location :=
  if name = "." then at' else if name = ".." then at'.dropLast else at' ++ [name]

/-- The locations at which directories must stand when names are followed. -/
def passes (at' : Location) : List String → List Location
  | [] => []
  | name :: rest => at' :: passes (descend at' name) rest

end FileSystem

namespace Path

open FileSystem (descend passes start)

def destination (p : Path) : Location := p.names.foldl descend (start p)

def passes (p : Path) : List Location := FileSystem.passes (start p) p.names

theorem start_join {name : String} (h : IsPlainName name) (root : Path) :
    start (root.join name) = start root := by
  rw [start, start, isAbsolute_join h]

theorem destination_join {name : String} (h : IsPlainName name) (root : Path) :
    (root.join name).destination = root.destination ++ [name] := by
  rw [destination, destination, start_join h, names_join h, List.foldl_append]
  simp [descend, h.ne_dot, h.ne_dots]

end Path

namespace FileSystem

variable {fs fs' : FileSystem} {p q : Path} {at' l : Location} {xs ys : List String}

theorem passes_append (at' : Location) (xs ys : List String) :
    passes at' (xs ++ ys) = passes at' xs ++ passes (xs.foldl descend at') ys := by
  induction xs generalizing at' with
  | nil => rfl
  | cons name xs ih => simp [passes, ih]

/-- A first part of names leads through locations on the way of all of them. -/
theorem passes_subset_of_prefix (h : xs <+: ys) : passes at' xs ⊆ passes at' ys := by
  obtain ⟨zs, rfl⟩ := h
  rw [passes_append]
  exact List.subset_append_left _ _

theorem passes_join {name : String} (h : Path.IsPlainName name) (root : Path) :
    (root.join name).passes = root.passes ++ [root.destination] := by
  rw [Path.passes, Path.start_join h, Path.names_join h, passes_append]
  rfl

/-- A proper first part of names leads to a location on the way of all of them. -/
theorem foldl_descend_mem_passes {rest : List String} (hrest : rest ≠ []) :
    xs.foldl descend at' ∈ passes at' (xs ++ rest) := by
  obtain ⟨name, rest, rfl⟩ := List.exists_cons_of_ne_nil hrest
  simp [passes_append, passes]

theorem walk_cons (h : fs.entryAt? at' = some .directory) (name : String) (rest : List String) :
    fs.walk at' (name :: rest) =
      if name ≠ "." ∧ name ≠ ".." ∧ maxName < name.utf8ByteSize then .error .nameTooLong
      else fs.walk (descend at' name) rest := by
  rw [walk, h]
  by_cases hdot : name = "."
  · simp [hdot, descend]
  by_cases hdots : name = ".."
  · simp [hdots, descend]
  · simp [hdot, hdots, descend]

theorem walk_eq_ok (h : fs.walk at' xs = .ok l) : l = xs.foldl descend at' := by
  induction xs generalizing at' with
  | nil =>
    cases h
    rfl
  | cons name xs ih =>
    rcases he : fs.entryAt? at' with _ | (_ | _)
    · rw [walk, he] at h
      cases h
    · rw [walk_cons he] at h
      split at h
      · cases h
      · exact ih h
    · rw [walk, he] at h
      cases h

/-- Names lead to the same where the same stands on their way. -/
theorem walk_congr (h : ∀ l ∈ passes at' xs, fs.entryAt? l = fs'.entryAt? l) :
    fs.walk at' xs = fs'.walk at' xs := by
  induction xs generalizing at' with
  | nil => rfl
  | cons name xs ih =>
    have hhere := h at' List.mem_cons_self
    have hrest := ih fun l hl => h l (List.mem_cons_of_mem at' hl)
    rcases he : fs'.entryAt? at' with _ | (_ | _)
    · rw [walk, walk, hhere, he]
    · rw [walk_cons (hhere.trans he), walk_cons he, hrest]
    · rw [walk, walk, hhere, he]

/-- The last step of a path depends on what stands on its way. -/
theorem lastStep_congr (h : ∀ l ∈ p.passes, fs.entryAt? l = fs'.entryAt? l) :
    fs.lastStep p = fs'.lastStep p := by
  unfold lastStep
  rcases hnames : p.names.reverse with _ | ⟨last, before⟩
  · rfl
  have hnames : p.names = before.reverse ++ [last] := by
    rw [← List.reverse_reverse p.names, hnames, List.reverse_cons]
  have hwalk : fs.walk (start p) (before.reverse ++ ["."]) =
      fs'.walk (start p) (before.reverse ++ ["."]) := by
    apply walk_congr
    intro l hl
    apply h
    rw [Path.passes, hnames, passes_append]
    rwa [passes_append] at hl
  simp only [hwalk]

theorem resolve_eq_ok (h : fs.resolve p = .ok l) : l = p.destination := by
  obtain ⟨_, -, hwalk⟩ := exists_of_bind_eq_ok h
  rw [walk_eq_ok hwalk, List.foldl_append, Path.destination]
  by_cases hslash : p.endsInSlash = true
  · rw [if_pos hslash]
    rfl
  · rw [if_neg hslash]
    rfl

/-- What is found at a path depends on what stands on its way and where it leads. -/
theorem inspect_congr (h : ∀ l ∈ p.passes, fs.entryAt? l = fs'.entryAt? l)
    (hp : fs.entryAt? p.destination = fs'.entryAt? p.destination) :
    fs.inspect p = fs'.inspect p := by
  have hwalk : fs.walk (start p) (p.names ++ if p.endsInSlash then ["."] else []) =
      fs'.walk (start p) (p.names ++ if p.endsInSlash then ["."] else []) := by
    apply walk_congr
    intro l hl
    rw [passes_append] at hl
    rcases List.mem_append.mp hl with hl | hl
    · exact h l hl
    · by_cases hslash : p.endsInSlash = true
      · rw [if_pos hslash] at hl
        have hl : l = p.destination := by simpa [passes, Path.destination] using hl
        subst hl
        exact hp
      · rw [if_neg hslash] at hl
        cases hl
  unfold inspect
  have hresolve : fs.resolve p = fs'.resolve p := by
    unfold resolve
    rw [hwalk]
  rw [hresolve]
  rcases hr : fs'.resolve p with e | l
  · rfl
  · have hl := resolve_eq_ok hr
    subst hl
    simp only [bind, Except.bind, hp]

/-- A last step with a name is one in the location that the names before it lead to. -/
theorem lastStep_eq_name {directory : Location} {last : String} {slash : Bool}
    (h : fs.lastStep p = .ok (.name directory last slash)) :
    directory ++ [last] = p.destination ∧ directory ∈ p.passes := by
  obtain ⟨-, -, hdot, hdots, before, hnames, hwalk, -⟩ := lastStep_ok h
  have hdirectory := walk_eq_ok hwalk
  constructor
  · rw [Path.destination, hnames, List.foldl_append, ← hdirectory]
    simp [descend, hdot, hdots]
  · rw [Path.passes, hnames, hdirectory]
    exact foldl_descend_mem_passes (List.cons_ne_nil _ _)

theorem removeFile_eq_drop (h : fs.removeFile p = .ok fs') : fs' = fs.drop p.destination := by
  obtain ⟨step, hstep, h⟩ := exists_of_bind_eq_ok h
  cases step with
  | noName => cases h
  | name directory last slash =>
    obtain ⟨_, -, h⟩ := exists_of_bind_eq_ok h
    rw [← (lastStep_eq_name hstep).1]
    rcases he : fs.entryAt? (directory ++ [last]) with _ | (_ | _)
    · simp only [he] at h
      cases h
    · simp only [he] at h
      cases h
    · simp only [he] at h
      cases slash with
      | true => cases h
      | false =>
        cases h
        rfl

end FileSystem

/-! ## Paths above others -/

namespace Path

open FileSystem (start)

/-- A path that leads through a first part of the names of another, from where that one starts. The
empty path is above every other. -/
structure Above (q p : Path) : Prop where
  names : q.names <+: p.names
  start : q.text = "" ∨ start q = start p

theorem Above.refl (p : Path) : Above p p := ⟨List.prefix_rfl, .inr rfl⟩

theorem Above.trans {p q r : Path} (h : Above r q) (h' : Above q p) (hq : q.text ≠ "") :
    Above r p where
  names := h.names.trans h'.names
  start := h.start.imp_right fun hs => hs.trans (h'.start.resolve_left hq)

theorem not_mem_piecesOnto {piece cs : List Char} (hpiece : '/' ∉ piece) :
    ∀ x ∈ piecesOnto piece cs, '/' ∉ x.toList := by
  induction cs generalizing piece with
  | nil =>
    intro x hx
    rw [piecesOnto, List.mem_singleton] at hx
    simpa [hx] using hpiece
  | cons c cs ih =>
    by_cases hc : c = '/'
    · subst hc
      intro x hx
      rw [piecesOnto] at hx
      rcases List.mem_cons.mp hx with rfl | hx
      · simpa using hpiece
      · exact ih (by simp) x hx
    · have hstep : piecesOnto piece (c :: cs) = piecesOnto (c :: piece) cs := by
        rw [piecesOnto]
        exact hc
      rw [hstep]
      exact ih (by simp [hpiece, Ne.symm hc])

/-- Pieces without slashes are those of the path that they make. -/
theorem pieces_intercalate {xs : List String} (hne : xs ≠ []) (hxs : ∀ x ∈ xs, '/' ∉ x.toList) :
    (Path.mk ("/".intercalate xs)).pieces = xs := by
  induction xs with
  | nil => exact absurd rfl hne
  | cons x xs ih =>
    have hx : piecesOnto [] x.toList = [x] := by
      rw [piecesOnto_of_not_mem _ _ (hxs x List.mem_cons_self)]
      simp
    cases xs with
    | nil => simpa [pieces] using hx
    | cons y ys =>
      have hrest := ih (List.cons_ne_nil _ _) fun z hz => hxs z (List.mem_cons_of_mem x hz)
      have hslash : "/".toList = ['/'] := rfl
      rw [pieces] at hrest ⊢
      rw [String.intercalate_cons_cons, String.toList_append, String.toList_append, hslash,
        List.append_assoc, List.singleton_append, piecesOnto_slash, hx, hrest]
      rfl

/-- The first piece begins with what has been read of it. -/
theorem exists_piecesOnto (piece cs : List Char) :
    ∃ more rest, piecesOnto piece cs = String.ofList (piece.reverse ++ more) :: rest := by
  induction cs generalizing piece with
  | nil => exact ⟨[], [], by simp [piecesOnto]⟩
  | cons c cs ih =>
    by_cases hc : c = '/'
    · subst hc
      exact ⟨[], piecesOnto [] cs, by simp [piecesOnto]⟩
    · have hstep : piecesOnto piece (c :: cs) = piecesOnto (c :: piece) cs := by
        rw [piecesOnto]
        exact hc
      obtain ⟨more, rest, h⟩ := ih (c :: piece)
      exact ⟨c :: more, rest, by rw [hstep, h]; simp⟩

/-- A path is absolute if and only if its first piece is empty and there are others. -/
theorem isAbsolute_iff (p : Path) :
    p.isAbsolute = true ↔ ∃ rest, rest ≠ [] ∧ p.pieces = "" :: rest := by
  unfold isAbsolute pieces
  rcases p.text.toList with _ | ⟨c, cs⟩
  · simp [piecesOnto]
  by_cases hc : c = '/'
  · subst hc
    obtain ⟨more, rest, h⟩ := exists_piecesOnto [] cs
    simp [piecesOnto, h]
  · have hstep : piecesOnto [] (c :: cs) = piecesOnto [c] cs := by
      rw [piecesOnto]
      exact hc
    obtain ⟨more, rest, h⟩ := exists_piecesOnto [c] cs
    rw [hstep, h]
    simp [hc, ← String.toList_eq_nil_iff]

theorem exists_dropIdle (xs : List String) :
    ∃ dropped, xs = dropped ++ dropIdle xs ∧ (xs ≠ [] → dropIdle xs ≠ []) := by
  induction xs using dropIdle.induct with
  | case1 a b rest hidle ih =>
    obtain ⟨dropped, hxs, hne⟩ := ih
    refine ⟨a :: dropped, ?_, fun _ => ?_⟩
    · rw [dropIdle, if_pos hidle, List.cons_append, ← hxs]
    · rw [dropIdle, if_pos hidle]
      exact hne (List.cons_ne_nil _ _)
  | case2 a b rest hidle =>
    exact ⟨[], by rw [dropIdle, if_neg hidle, List.nil_append], by simp [dropIdle, hidle]⟩
  | case3 xs h => exact ⟨[], by simp [dropIdle], by simp [dropIdle]⟩

/-- No idle piece is left in front of others. -/
theorem idle_of_dropIdle {xs rest : List String} {x : String} (h : dropIdle xs = x :: rest)
    (hne : rest ≠ []) : idle x = false := by
  induction xs using dropIdle.induct with
  | case1 a b more hidle ih =>
    rw [dropIdle, if_pos hidle] at h
    exact ih h
  | case2 a b more hidle =>
    rw [dropIdle, if_neg hidle] at h
    cases h
    simpa using hidle
  | case3 xs hxs =>
    rcases xs with _ | ⟨a, _ | ⟨b, more⟩⟩
    · cases h
    · cases h
      exact absurd rfl hne
    · exact absurd rfl (hxs a b more)

/-- Pieces in front of others make a path above the whole one. -/
theorem above_ofReversed {p : Path} {kept dropped : List String}
    (h : p.pieces = kept.reverse ++ dropped) (hdropped : dropped ≠ []) :
    Above (ofReversed kept) p ∧ (ofReversed kept).names = kept.reverse.filter (· ≠ "") := by
  have hprefix : kept.reverse.filter (· ≠ "") <+: p.names := by
    rw [names, h, List.filter_append]
    exact List.prefix_append _ _
  by_cases hnil : kept = []
  · subst hnil
    exact ⟨⟨by simp [ofReversed, names, pieces, piecesOnto], .inl rfl⟩, rfl⟩
  by_cases hroot : kept = [""]
  · subst hroot
    have habsolute : p.isAbsolute = true := (isAbsolute_iff p).mpr ⟨dropped, hdropped, h⟩
    have hstart : start (ofReversed [""]) = start p := by
      rw [start, start, habsolute]
      rfl
    have hnames : (ofReversed [""]).names = [] := by decide
    exact ⟨⟨by simp [hnames], .inr hstart⟩, hnames⟩
  have hpath : ofReversed kept = ⟨"/".intercalate kept.reverse⟩ := by
    unfold ofReversed
    split
    · exact absurd rfl hroot
    · rfl
  have hslash : ∀ x ∈ kept.reverse, '/' ∉ x.toList := by
    intro x hx
    have hmem : x ∈ p.pieces := by
      rw [h]
      exact List.mem_append_left dropped hx
    exact not_mem_piecesOnto (by simp) x hmem
  have hpieces : (ofReversed kept).pieces = kept.reverse := by
    rw [hpath]
    exact pieces_intercalate (by simpa using hnil) hslash
  have hnames : (ofReversed kept).names = kept.reverse.filter (· ≠ "") := by rw [names, hpieces]
  refine ⟨⟨by rwa [hnames], .inr ?_⟩, hnames⟩
  have habsolute : (ofReversed kept).isAbsolute = true ↔ p.isAbsolute = true := by
    rw [isAbsolute_iff, isAbsolute_iff, hpieces, h]
    obtain ⟨y, ys, hkept⟩ := List.exists_cons_of_ne_nil (l := kept.reverse) (by simpa using hnil)
    rw [hkept]
    by_cases hy : y = ""
    · subst hy
      have hys : ys ≠ [] := by
        rintro rfl
        exact hroot (by simpa using hkept)
      simp [hys]
    · simp [hy]
  rw [start, start]
  simp only [habsolute]

/-- A path without its last name leads through a proper first part of the names. -/
theorem above_of_parent? {p q : Path} (h : p.parent? = some q) :
    Above q p ∧ ∃ rest, rest ≠ [] ∧ p.names = q.names ++ rest := by
  obtain ⟨dropped, hpieces, -⟩ := exists_dropIdle p.pieces.reverse
  rcases hlast : dropIdle p.pieces.reverse with _ | ⟨last, before⟩
  · rw [parent?, hlast] at h
    cases h
  have hne : last ≠ "" := by
    rintro rfl
    by_cases hbefore : before = []
    · rw [parent?, hlast, hbefore] at h
      cases h
    · have hidle := idle_of_dropIdle hlast hbefore
      cases hidle
  obtain ⟨between, hbefore, -⟩ := exists_dropIdle before
  have hq : q = ofReversed (dropIdle before) := by
    rw [parent?, hlast] at h
    split at h
    · cases h
    · cases h
    · next heq =>
      cases heq
      cases h
      rfl
  have hsplit : p.pieces =
      (dropIdle before).reverse ++ (between.reverse ++ last :: dropped.reverse) := by
    calc p.pieces = (dropped ++ last :: before).reverse := by
          rw [← hlast, ← hpieces, List.reverse_reverse]
      _ = before.reverse ++ last :: dropped.reverse := by simp
      _ = (between ++ dropIdle before).reverse ++ last :: dropped.reverse := by rw [← hbefore]
      _ = (dropIdle before).reverse ++ (between.reverse ++ last :: dropped.reverse) := by simp
  obtain ⟨habove, hnames⟩ := above_ofReversed hsplit (by simp)
  rw [hq]
  refine ⟨habove, (between.reverse ++ last :: dropped.reverse).filter (· ≠ ""), ?_, ?_⟩
  · simp [hne]
  · rw [hnames, names, hsplit, List.filter_append]

/-- A path and its parents lead through first parts of its names. -/
theorem above_of_mem_ancestorsUpTo {fuel : Nat} {p q : Path} (h : q ∈ ancestorsUpTo fuel p) :
    Above q p := by
  induction fuel generalizing p with
  | zero =>
    rw [ancestorsUpTo, List.mem_singleton] at h
    subst h
    exact .refl q
  | succ fuel ih =>
    rw [ancestorsUpTo] at h
    rcases hp : p.parent? with _ | parent
    · simp only [hp, List.mem_singleton] at h
      subst h
      exact .refl q
    · simp only [hp] at h
      rcases List.mem_cons.mp h with rfl | h
      · exact .refl q
      · have habove := (above_of_parent? hp).1
        by_cases hempty : parent.text = ""
        · obtain rfl : q = parent := by
            have hnone : parent.parent? = none := by
              rw [show parent = ⟨""⟩ from congrArg Path.mk hempty]
              rfl
            cases fuel with
            | zero => simpa [ancestorsUpTo] using h
            | succ fuel => simpa [ancestorsUpTo, hnone] using h
          exact habove
        · exact (ih h).trans habove hempty

theorem above_of_mem_ancestors {p q : Path} (h : q ∈ p.ancestors) : Above q p :=
  above_of_mem_ancestorsUpTo h

/-- The directory that a path lies in is on its way. -/
theorem destination_parent?_mem {p q : Path} (h : p.parent? = some q) (hne : q.text ≠ "") :
    q.destination ∈ p.passes := by
  obtain ⟨habove, rest, hrest, hnames⟩ := above_of_parent? h
  rw [Path.destination, passes, habove.start.resolve_left hne, hnames]
  exact FileSystem.foldl_descend_mem_passes hrest

/-- A path above another leads to where that one leads to, or to a location on its way. -/
theorem Above.destination {p q : Path} (h : Above q p) (hne : q.text ≠ "") :
    q.destination = p.destination ∨ q.destination ∈ p.passes := by
  obtain ⟨rest, hrest⟩ := h.names
  have hstart := h.start.resolve_left hne
  by_cases hnil : rest = []
  · left
    rw [Path.destination, Path.destination, hstart, ← hrest, hnil, List.append_nil]
  · right
    rw [Path.destination, passes, hstart, ← hrest]
    exact FileSystem.foldl_descend_mem_passes hnil

end Path

end StorageProof
