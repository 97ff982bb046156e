import Mathlib.Data.List.Infix
import StorageProof.Text.Ascii
import StorageProof.Text.Blank

/-!
# Lines and what is found in them

A text is divided at its line feeds, and a carriage return before one is no part of the line. Search
finds a word wherever it stands. Of several members with a property the last one can be singled out.
-/

namespace StorageProof

/-- The last member of a list with a property, with what stands before and after it. -/
def IsLast {α : Type} (p : α → Prop) (l : List α) (a : α) : Prop :=
  ∃ before after, l = before ++ a :: after ∧ p a ∧ ∀ x ∈ after, ¬ p x

/-- Where some member has a property, one of them is the last. -/
theorem exists_isLast {α : Type} {p : α → Prop} {l : List α} (h : ∃ a ∈ l, p a) :
    ∃ a, IsLast p l a := by
  induction l with
  | nil =>
    obtain ⟨_, ha, _⟩ := h
    exact absurd ha List.not_mem_nil
  | cons b l ih =>
    by_cases hl : ∃ a ∈ l, p a
    · obtain ⟨a, before, after, rfl, ha, hafter⟩ := ih hl
      exact ⟨a, b :: before, after, rfl, ha, hafter⟩
    · obtain ⟨a, hmem, ha⟩ := h
      rcases List.mem_cons.mp hmem with rfl | hmem
      · exact ⟨a, [], l, rfl, ha, fun x hx hp => hl ⟨x, hx, hp⟩⟩
      · exact absurd ⟨a, hmem, ha⟩ hl

theorem IsLast.mem {α : Type} {p : α → Prop} {l : List α} {a : α} (h : IsLast p l a) :
    a ∈ l ∧ p a := by
  obtain ⟨before, after, rfl, ha, -⟩ := h
  exact ⟨List.mem_append_right _ List.mem_cons_self, ha⟩

/-- The last member with a property has it in a narrower sense. -/
theorem IsLast.of_imp {α : Type} {p q : α → Prop} {l : List α} {a : α} (h : IsLast p l a)
    (himp : ∀ x, q x → p x) (ha : q a) : IsLast q l a := by
  obtain ⟨before, after, hl, -, hafter⟩ := h
  exact ⟨before, after, hl, ha, fun x hx hq => hafter x hx (himp x hq)⟩

/-- A member without the property, and what follows it, do not change which one is the last. -/
theorem isLast_append {α : Type} {p : α → Prop} {before after : List α} {a : α}
    (h : ∀ x ∈ after, ¬ p x) : IsLast p (before ++ after) a ↔ IsLast p before a := by
  constructor
  · rintro ⟨front, back, hl, ha, hback⟩
    rcases List.append_eq_append_iff.mp hl with ⟨rest, -, hrest⟩ | ⟨rest, hbefore, hrest⟩
    · refine absurd ha (h a ?_)
      rw [hrest]
      exact List.mem_append_right _ List.mem_cons_self
    · cases rest with
      | nil =>
        refine absurd ha (h a ?_)
        rw [List.nil_append] at hrest
        rw [← hrest]
        exact List.mem_cons_self
      | cons b rest =>
        rw [List.cons_append, List.cons.injEq] at hrest
        obtain ⟨rfl, rfl⟩ := hrest
        exact ⟨front, rest, hbefore, ha, fun x hx => hback x (List.mem_append_left _ hx)⟩
  · rintro ⟨front, back, rfl, ha, hback⟩
    refine ⟨front, back ++ after, by simp, ha, fun x hx => ?_⟩
    rcases List.mem_append.mp hx with hx | hx
    · exact hback x hx
    · exact h x hx

theorem IsLast.unique {α : Type} {p : α → Prop} {l : List α} {a b : α} (ha : IsLast p l a)
    (hb : IsLast p l b) : a = b := by
  obtain ⟨before, after, rfl, hpa, hafter⟩ := ha
  rw [← List.concat_append, isLast_append hafter, List.concat_eq_append] at hb
  obtain ⟨front, back, hl, hpb, hback⟩ := hb
  rcases List.eq_nil_or_concat back with rfl | ⟨back, c, rfl⟩
  · exact (List.append_inj_right' hl rfl |> List.cons.inj).1
  · rw [List.concat_eq_append, ← List.cons_append, ← List.append_assoc] at hl
    have hlast : a = c := (List.cons.inj (List.append_inj_right' hl rfl)).1
    refine absurd hpa (hback a ?_)
    rw [hlast, List.concat_eq_append]
    exact List.mem_append_right _ List.mem_cons_self

namespace Text

/-! ## Lines -/

/-- A line without the carriage return that belongs to its end. -/
def withoutReturn (line : List Char) : List Char :=
  if line.getLast? = some '\r' then line.dropLast else line

/-- A text and its lines. What follows the last line feed is a line if there is anything. -/
inductive Lined : List Char → List (List Char) → Prop
  | nil : Lined [] []
  | last {line : List Char} (hne : line ≠ []) (h : '\n' ∉ line) : Lined line [line]
  | more {line rest : List Char} {ls : List (List Char)} (h : '\n' ∉ line) (hr : Lined rest ls) :
      Lined (line ++ '\n' :: rest) (withoutReturn line :: ls)

theorem withoutReturn_concat (line : List Char) : withoutReturn (line ++ ['\r']) = line := by
  rw [withoutReturn, if_pos List.getLast?_concat, List.dropLast_concat]

theorem withoutReturn_of_ne {line : List Char} (h : ∀ before, line ≠ before ++ ['\r']) :
    withoutReturn line = line := by
  refine if_neg fun hlast => ?_
  obtain ⟨before, hline⟩ := List.getLast?_eq_some_iff.mp hlast
  exact h before hline

/-- What is read ends up behind what has been read, divided together with the line before it. -/
theorem lined_linesOnto (read : List (List Char)) (line cs : List Char) (hline : '\n' ∉ line) :
    ∃ ls, linesOnto read line cs = read.reverse ++ ls ∧ Lined (line.reverse ++ cs) ls := by
  fun_induction linesOnto read line cs with
  | case1 read line =>
    rw [List.append_nil]
    cases line with
    | nil => exact ⟨[], (List.append_nil _).symm, .nil⟩
    | cons c line =>
      have hne : (c :: line).reverse ≠ [] := by simp
      have hfree : '\n' ∉ (c :: line).reverse := by rwa [List.mem_reverse]
      exact ⟨[(c :: line).reverse], List.reverse_cons, .last hne hfree⟩
  | case2 read line rest line' ih =>
    obtain ⟨ls, hlines, hrest⟩ := ih List.not_mem_nil
    have hreturn : withoutReturn line.reverse = line'.reverse := by
      subst line'
      split
      · rw [List.reverse_cons, withoutReturn_concat]
      · next hno =>
        refine withoutReturn_of_ne fun before hbefore => ?_
        exact hno before.reverse (by simpa using congrArg List.reverse hbefore)
    refine ⟨withoutReturn line.reverse :: ls, ?_, .more (by rwa [List.mem_reverse]) hrest⟩
    rw [hlines, hreturn, List.reverse_cons, List.append_assoc]
    rfl
  | case3 read line c rest hc ih =>
    have hfree : '\n' ∉ c :: line := by
      rw [List.mem_cons, not_or]
      exact ⟨fun h => hc h.symm, hline⟩
    obtain ⟨ls, hlines, hrest⟩ := ih hfree
    exact ⟨ls, hlines, by simpa using hrest⟩

theorem lined_lines (cs : List Char) : Lined cs (lines cs) := by
  obtain ⟨ls, hlines, hlined⟩ := lined_linesOnto [] [] cs List.not_mem_nil
  rw [lines, hlines]
  exact hlined

theorem mem_of_mem_withoutReturn {line : List Char} {c : Char} (h : c ∈ withoutReturn line) :
    c ∈ line := by
  unfold withoutReturn at h
  split at h
  · exact List.mem_of_mem_dropLast h
  · exact h

/-- Lines have nothing in them that is not in the text. -/
theorem Lined.mem {cs line : List Char} {ls : List (List Char)} {c : Char} (h : Lined cs ls)
    (hline : line ∈ ls) (hc : c ∈ line) : c ∈ cs := by
  induction h with
  | nil => exact absurd hline List.not_mem_nil
  | last =>
    rw [List.mem_singleton] at hline
    rwa [← hline]
  | more _ _ ih =>
    rcases List.mem_cons.mp hline with rfl | hline
    · exact List.mem_append_left _ (mem_of_mem_withoutReturn hc)
    · exact List.mem_append_right _ (List.mem_cons_of_mem _ (ih hline))

/-! ## Search -/

/-- A word is found if and only if it stands somewhere. -/
theorem containsList_iff (needle cs : List Char) :
    containsList needle cs = true ↔ needle <:+: cs := by
  induction cs with
  | nil => rw [containsList, List.isEmpty_iff, List.infix_nil]
  | cons c cs ih =>
    rw [containsList, Bool.or_eq_true, List.isPrefixOf_iff_prefix, ih, List.infix_cons_iff]

/-- A word in small letters is found in a lowered list if and only if it stands in the list in some
case. -/
theorem containsList_lowerList_iff (needle cs : List Char) :
    containsList needle (lowerList cs) = true ↔
      ∃ before word after, cs = before ++ word ++ after ∧ lowerList word = needle := by
  rw [containsList_iff, lowerList]
  constructor
  · rintro ⟨before, after, h⟩
    obtain ⟨front, back, hs, hfront, -⟩ := List.map_eq_append_iff.mp h.symm
    obtain ⟨first, word, rfl, -, hword⟩ := List.map_eq_append_iff.mp hfront
    exact ⟨first, word, back, hs, hword⟩
  · rintro ⟨before, word, after, hs, hword⟩
    refine ⟨lowerList before, lowerList after, ?_⟩
    rw [← hword, hs, lowerList, lowerList, lowerList, List.map_append, List.map_append]

theorem containsIgnoringCase_iff (needle s : String) :
    containsIgnoringCase needle s = true ↔
      ∃ before word after, s.toList = before ++ word ++ after ∧
        lowerList word = needle.toList :=
  containsList_lowerList_iff needle.toList s.toList

/-- No blank is a letter. -/
theorem lowerChar_of_isBlank {c : Char} (h : isBlank c = true) : lowerChar c = c := by
  refine if_neg fun ⟨hfirst, hlast⟩ => ?_
  have hfirst : 65 ≤ c.toNat := hfirst
  have hlast : c.toNat ≤ 90 := hlast
  simp only [isBlank, Bool.or_eq_true, Bool.and_eq_true, decide_eq_true_eq, beq_iff_eq] at h
  omega

end Text

end StorageProof
