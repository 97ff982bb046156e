import Mathlib.Data.List.TakeWhile
import StorageProof.Text.Blank

/-!
# Trimming

Trimming leaves nothing of a text if and only if all of it is blank, and it leaves exactly what
stands between blanks, provided that this begins and ends with something else.
-/

namespace StorageProof.Text

theorem dropWhile_of_head? {p : Char → Bool} {b : List Char} (hb : ∀ c ∈ b.head?, p c = false) :
    b.dropWhile p = b := by
  cases b with
  | nil => rfl
  | cons c b => exact List.dropWhile_cons_of_neg (by simp [hb c rfl])

theorem trimEndList_append {a b : List Char} (hb : ∀ c ∈ b, isBlank c = true)
    (ha : ∀ c ∈ a.getLast?, isBlank c = false) : trimEndList (a ++ b) = a := by
  have hr : ∀ c ∈ b.reverse, isBlank c = true := by simpa using hb
  have hh : ∀ c ∈ a.reverse.head?, isBlank c = false := by simpa [List.head?_reverse] using ha
  rw [trimEndList, List.reverse_append, List.dropWhile_append_of_pos hr, dropWhile_of_head? hh,
    List.reverse_reverse]

/-- What stands between blanks is left. -/
theorem trimList_between {a b c : List Char} (ha : ∀ x ∈ a, isBlank x = true)
    (hc : ∀ x ∈ c, isBlank x = true) (hfirst : ∀ x ∈ b.head?, isBlank x = false)
    (hlast : ∀ x ∈ b.getLast?, isBlank x = false) : trimList (a ++ b ++ c) = b := by
  cases b with
  | nil =>
    have hac : ∀ x ∈ a ++ c, isBlank x = true := by
      intro x hx
      rcases List.mem_append.mp hx with h | h
      · exact ha x h
      · exact hc x h
    rw [List.append_nil, trimList, List.dropWhile_eq_nil_iff.mpr hac]
    rfl
  | cons x b =>
    have hx : (x :: b ++ c).dropWhile isBlank = x :: b ++ c :=
      dropWhile_of_head? (by simpa using hfirst)
    rw [trimList, List.append_assoc, List.dropWhile_append_of_pos ha, hx]
    exact trimEndList_append hc hlast

theorem trim_of_not_blank {s : String} (h : ∀ c ∈ s.toList, isBlank c = false) : trim s = s := by
  have ht := trimList_between (a := []) (b := s.toList) (c := []) (by simp) (by simp)
    (fun c hc => h c (List.mem_of_mem_head? hc)) (fun c hc => h c (List.mem_of_getLast? hc))
  rw [List.nil_append, List.append_nil] at ht
  rw [trim, ht, String.ofList_toList]

theorem trimList_eq_nil_iff (cs : List Char) : trimList cs = [] ↔ ∀ c ∈ cs, isBlank c = true := by
  constructor
  · intro h
    have hrest : ∀ c ∈ cs.dropWhile isBlank, isBlank c = true := by
      rw [trimList, trimEndList, List.reverse_eq_nil_iff, List.dropWhile_eq_nil_iff] at h
      simpa using h
    intro c hc
    rw [← List.takeWhile_append_dropWhile (p := isBlank) (l := cs)] at hc
    rcases List.mem_append.mp hc with h | h
    · exact List.all_eq_true.mp List.all_takeWhile c h
    · exact hrest c h
  · intro h
    rw [trimList, List.dropWhile_eq_nil_iff.mpr h]
    rfl

theorem trim_eq_empty_iff (s : String) : trim s = "" ↔ isAllBlank s = true := by
  rw [trim, ← String.toList_eq_nil_iff, String.toList_ofList, trimList_eq_nil_iff, isAllBlank,
    List.all_eq_true]

end StorageProof.Text
