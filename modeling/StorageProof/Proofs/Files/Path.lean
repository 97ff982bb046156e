import StorageProof.Files.Path

/-!
# Names in a directory

A plain name joined to a path adds itself to the names that the path leads through, whether the path
ends in a slash, is empty or needs a slash behind it.
-/

namespace StorageProof.Path

/-- A name without a slash that stands for neither a directory itself nor the one above it. -/
structure IsPlainName (name : String) : Prop where
  noSlash : '/' ∉ name.toList
  ne_empty : name ≠ ""
  ne_dot : name ≠ "."
  ne_dots : name ≠ ".."

theorem piecesOnto_slash (piece cs ds : List Char) :
    piecesOnto piece (cs ++ '/' :: ds) = piecesOnto piece cs ++ piecesOnto [] ds := by
  induction cs generalizing piece with
  | nil => rfl
  | cons c cs ih =>
    by_cases hc : c = '/'
    · subst hc
      rw [List.cons_append, piecesOnto, piecesOnto, ih, List.cons_append]
    · have hstep (es : List Char) : piecesOnto piece (c :: es) = piecesOnto (c :: piece) es := by
        rw [piecesOnto]
        exact hc
      rw [List.cons_append, hstep, hstep, ih]

theorem piecesOnto_of_not_mem (piece cs : List Char) (h : '/' ∉ cs) :
    piecesOnto piece cs = [String.ofList (piece.reverse ++ cs)] := by
  induction cs generalizing piece with
  | nil => simp [piecesOnto]
  | cons c cs ih =>
    have hc : c ≠ '/' := fun h' => h (h' ▸ List.mem_cons_self)
    have hcs : '/' ∉ cs := fun h' => h (List.mem_cons_of_mem c h')
    have hstep : piecesOnto piece (c :: cs) = piecesOnto (c :: piece) cs := by
      rw [piecesOnto]
      exact hc
    rw [hstep, ih _ hcs]
    simp

theorem IsPlainName.not_isAbsolute {name : String} (h : IsPlainName name) :
    (Path.mk name).isAbsolute = false := by
  unfold isAbsolute
  cases hl : name.toList with
  | nil => rfl
  | cons c cs =>
    have hc : c ≠ '/' := fun h' => h.noSlash (by rw [hl, h']; exact List.mem_cons_self)
    simp [hc]

/-- A slash is added where there is none, except for the empty path. -/
theorem toList_join {name : String} (h : IsPlainName name) (root : Path) :
    (root.join name).text.toList =
      root.text.toList ++ (if root.text = "" ∨ root.endsInSlash = true then [] else ['/']) ++
        name.toList := by
  unfold join
  rw [h.not_isAbsolute]
  by_cases hroot : root.text = "" ∨ root.endsInSlash = true
  · simp [hroot]
  · simp [hroot]

theorem endsInSlash_join {name : String} (h : IsPlainName name) (root : Path) :
    (root.join name).endsInSlash = false := by
  rcases List.eq_nil_or_concat name.toList with hnil | ⟨cs, c, hname⟩
  · exact absurd (String.toList_eq_nil_iff.mp hnil) h.ne_empty
  · have hc : c ≠ '/' := by
      rintro rfl
      exact h.noSlash (by simp [hname])
    rw [endsInSlash, toList_join h, hname, List.concat_eq_append, ← List.append_assoc,
      List.getLast?_concat]
    simpa using hc

theorem text_join_ne {name : String} (h : IsPlainName name) (root : Path) :
    (root.join name).text ≠ "" := by
  rw [Ne, ← String.toList_eq_nil_iff, toList_join h]
  simp [h.ne_empty]

theorem isAbsolute_join {name : String} (h : IsPlainName name) (root : Path) :
    (root.join name).isAbsolute = root.isAbsolute := by
  by_cases hempty : root.text = ""
  · have hname := h.not_isAbsolute
    rw [isAbsolute] at hname
    rw [isAbsolute, isAbsolute, toList_join h]
    simpa [hempty] using hname
  · obtain ⟨c, cs, hroot⟩ := List.exists_cons_of_ne_nil (l := root.text.toList)
      (by simpa using hempty)
    rw [isAbsolute, isAbsolute, toList_join h, hroot]
    rfl

/-- The names of a plain name in a directory. -/
theorem names_join {name : String} (h : IsPlainName name) (root : Path) :
    (root.join name).names = root.names ++ [name] := by
  have hname : piecesOnto [] name.toList = [name] := by
    rw [piecesOnto_of_not_mem _ _ h.noSlash]
    simp
  have hkept : [name].filter (· ≠ "") = [name] := by simp [h.ne_empty]
  rw [names, pieces, toList_join h]
  by_cases hempty : root.text = ""
  · simp [hempty, names, pieces, hname, h.ne_empty, piecesOnto]
  by_cases hslash : root.endsInSlash = true
  · obtain ⟨cs, hcs⟩ : ∃ cs, root.text.toList = cs ++ ['/'] := by
      have hlast : root.text.toList.getLast? = some '/' := by simpa [endsInSlash] using hslash
      exact List.getLast?_eq_some_iff.mp hlast
    have hroot : root.names = (piecesOnto [] cs).filter (· ≠ "") := by
      rw [names, pieces, hcs, piecesOnto_slash, List.filter_append]
      simp [piecesOnto]
    rw [if_pos (.inr hslash), List.append_nil, hroot, hcs, List.append_assoc, List.singleton_append,
      piecesOnto_slash, hname, List.filter_append, hkept]
  · have hnone : ¬ (root.text = "" ∨ root.endsInSlash = true) := not_or.mpr ⟨hempty, hslash⟩
    rw [if_neg hnone, List.append_assoc, List.singleton_append, piecesOnto_slash, hname,
      List.filter_append, hkept]
    rfl

end StorageProof.Path
