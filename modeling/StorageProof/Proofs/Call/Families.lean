import Mathlib.Data.List.Induction
import StorageProof.Proofs.Call.Cancellation

/-!
# Families of tokens

What each token was copied of is written down beside the steps, with no flags in it. Tokens that
lead back to one fresh token by copies are a family, and a token is cancelled if and only if one of
its family has been, whichever of them was made first. The invariant behind it ties the flags to the
families: the tokens with the flag of a fresh one are those that lead back to it.
-/

namespace StorageProof.TokenPool

/-- What each token was copied of, in the order they were made. A fresh token is a copy of none. -/
abbrev Origins := List (Option Nat)

/-- The origins after one step. Only a token that exists can be copied. -/
def note (origins : Origins) : Step → Origins
  | .fresh => origins ++ [none]
  | .copy token => if token < origins.length then origins ++ [some token] else origins
  | .cancel _ => origins

theorem note_copy (origins : Origins) (token : Nat) :
    note origins (.copy token) =
      if token < origins.length then origins ++ [some token] else origins := rfl

/-- The origins of all tokens that steps have made. -/
def originsOf (steps : List Step) : Origins := steps.foldl note []

/-- A fresh token, and whatever leads back to it by copies. -/
inductive Descends (origins : Origins) (founder : Nat) : Nat → Prop
  | founder (h : origins[founder]? = some none) : Descends origins founder founder
  | copy {token original : Nat} (h : origins[token]? = some (some original))
      (horiginal : Descends origins founder original) : Descends origins founder token

/-- Two tokens that lead back to the same fresh one. -/
def SameFamily (steps : List Step) (a b : Nat) : Prop :=
  ∃ founder, Descends (originsOf steps) founder a ∧ Descends (originsOf steps) founder b

/-- A token that has been cancelled among steps, after it had been made. -/
def Cancels (steps : List Step) (token : Nat) : Prop :=
  ∃ before after, steps = before ++ .cancel token :: after ∧ token < (originsOf before).length

/-! ## Origins -/

theorem getElem?_concat_eq_some_iff {α : Type} {l : List α} {x y : α} {i : Nat} :
    (l ++ [x])[i]? = some y ↔ l[i]? = some y ∨ i = l.length ∧ x = y := by
  rw [List.getElem?_append]
  by_cases hlt : i < l.length
  · have hne : i ≠ l.length := by omega
    simp [hlt, hne]
  · have hnone : l[i]? = none := List.getElem?_eq_none (by omega)
    have hzero : i - l.length = 0 ↔ i = l.length := by omega
    rw [if_neg hlt, hnone, List.getElem?_singleton]
    simp [hzero]

section Origins

variable {origins : Origins} {founder a b : Nat}

/-- Every copy is made after its original. -/
def Ordered (origins : Origins) : Prop :=
  ∀ token original : Nat, origins[token]? = some (some original) → original < token

theorem Ordered.note (ho : Ordered origins) (s : Step) : Ordered (note origins s) := by
  cases s with
  | fresh =>
    intro token original h
    rcases getElem?_concat_eq_some_iff.mp h with h | ⟨-, h⟩
    · exact ho token original h
    · cases h
  | copy source =>
    rw [note_copy]
    by_cases hlt : source < origins.length
    · rw [if_pos hlt]
      intro token original h
      rcases getElem?_concat_eq_some_iff.mp h with h | ⟨hnew, h⟩
      · exact ho token original h
      · cases h
        omega
    · rw [if_neg hlt]
      exact ho
  | cancel token => exact ho

theorem Descends.lt (h : Descends origins founder a) : a < origins.length := by
  cases h with
  | founder h => exact (List.getElem?_eq_some_iff.mp h).1
  | copy h => exact (List.getElem?_eq_some_iff.mp h).1

theorem Descends.fresh (h : Descends origins founder a) : origins[founder]? = some none := by
  induction h with
  | founder h => exact h
  | copy _ _ ih => exact ih

theorem Descends.concat (h : Descends origins founder a) (last : Option Nat) :
    Descends (origins ++ [last]) founder a := by
  induction h with
  | founder h => exact .founder (getElem?_concat_eq_some_iff.mpr (.inl h))
  | copy h _ ih => exact .copy (getElem?_concat_eq_some_iff.mpr (.inl h)) ih

/-- A token that is made last and is no copy leads back to itself, and no other one leads to it. -/
theorem descends_fresh_iff (ho : Ordered origins) :
    Descends (origins ++ [none]) founder a ↔
      Descends origins founder a ∨ founder = origins.length ∧ a = origins.length := by
  constructor
  · intro h
    induction h with
    | founder h =>
      rcases getElem?_concat_eq_some_iff.mp h with h | ⟨h, -⟩
      · exact .inl (.founder h)
      · exact .inr ⟨h, h⟩
    | copy h _ ih =>
      rcases getElem?_concat_eq_some_iff.mp h with h | ⟨-, h⟩
      · have hlt := ho _ _ h
        have hold := (List.getElem?_eq_some_iff.mp h).1
        rcases ih with ih | ⟨-, ih⟩
        · exact .inl (.copy h ih)
        · omega
      · cases h
  · rintro (h | ⟨rfl, rfl⟩)
    · exact h.concat none
    · exact .founder (getElem?_concat_eq_some_iff.mpr (.inr ⟨rfl, rfl⟩))

/-- A token that is made last leads back to what the token leads back to that it is a copy of. -/
theorem descends_copy_iff (ho : Ordered origins) (hb : b < origins.length) :
    Descends (origins ++ [some b]) founder a ↔
      Descends origins founder a ∨ a = origins.length ∧ Descends origins founder b := by
  constructor
  · intro h
    induction h with
    | founder h =>
      rcases getElem?_concat_eq_some_iff.mp h with h | ⟨-, h⟩
      · exact .inl (.founder h)
      · cases h
    | copy h _ ih =>
      rcases getElem?_concat_eq_some_iff.mp h with h | ⟨hnew, h⟩
      · have hlt := ho _ _ h
        have hold := (List.getElem?_eq_some_iff.mp h).1
        rcases ih with ih | ⟨ih, -⟩
        · exact .inl (.copy h ih)
        · omega
      · cases h
        rcases ih with ih | ⟨ih, -⟩
        · exact .inr ⟨hnew, ih⟩
        · omega
  · rintro (h | ⟨rfl, h⟩)
    · exact h.concat _
    · exact .copy (getElem?_concat_eq_some_iff.mpr (.inr ⟨rfl, rfl⟩)) (h.concat _)

/-- Every token leads back to a fresh one. -/
theorem exists_descends (ho : Ordered origins) (ha : a < origins.length) :
    ∃ founder, Descends origins founder a := by
  induction a using Nat.strongRecOn with
  | _ a ih =>
    obtain ⟨origin, h⟩ : ∃ origin, origins[a]? = some origin := ⟨_, List.getElem?_eq_getElem ha⟩
    cases origin with
    | none => exact ⟨a, .founder h⟩
    | some original =>
      have hlt := ho a original h
      obtain ⟨founder, horiginal⟩ := ih original hlt (by omega)
      exact ⟨founder, .copy h horiginal⟩

/-- What a token leads back to stays what it was. -/
theorem Descends.note (h : Descends origins founder a) (s : Step) :
    Descends (note origins s) founder a := by
  cases s with
  | fresh => exact h.concat none
  | copy token =>
    rw [note_copy]
    by_cases hlt : token < origins.length
    · rw [if_pos hlt]
      exact h.concat (some token)
    · rw [if_neg hlt]
      exact h
  | cancel token => exact h

end Origins

/-! ## Flags and families -/

/-- A pool in which the tokens with the flag of a fresh one are those that lead back to it. -/
structure Shares (p : TokenPool) (origins : Origins) : Prop where
  length : p.flagOf.length = origins.length
  ordered : Ordered origins
  flag_lt : ∀ {a flag : Nat}, p.flagOf[a]? = some flag → flag < p.flags.length
  flag_iff : ∀ {founder flag : Nat}, origins[founder]? = some none →
    p.flagOf[founder]? = some flag → ∀ a : Nat,
      p.flagOf[a]? = some flag ↔ Descends origins founder a

namespace Shares

variable {p : TokenPool} {origins : Origins} {a b flag : Nat}

theorem empty : Shares empty [] where
  length := rfl
  ordered := by simp [Ordered]
  flag_lt := by simp [TokenPool.empty]
  flag_iff := by simp

theorem fresh (h : Shares p origins) : Shares (p.step .fresh) (origins ++ [none]) where
  length := by simp [step, h.length]
  ordered := h.ordered.note .fresh
  flag_lt := by
    intro a flag ha
    simp only [step, List.length_append, List.length_singleton] at ha ⊢
    rcases getElem?_concat_eq_some_iff.mp ha with ha | ⟨-, rfl⟩
    · have hlt := h.flag_lt ha
      omega
    · omega
  flag_iff := by
    intro founder flag hfounder hflag a
    simp only [step] at hflag ⊢
    rw [getElem?_concat_eq_some_iff, descends_fresh_iff h.ordered, h.length]
    rw [getElem?_concat_eq_some_iff, h.length] at hflag
    rcases getElem?_concat_eq_some_iff.mp hfounder with hold | ⟨rfl, -⟩
    · -- the new flag is none that an older token has
      have hne : founder ≠ origins.length := by
        have hlt := (List.getElem?_eq_some_iff.mp hold).1
        omega
      have hflag := hflag.resolve_right fun hnew => hne hnew.1
      have hlt := h.flag_lt hflag
      have hnew : p.flags.length ≠ flag := by omega
      rw [h.flag_iff hold hflag a]
      simp [hne, hnew]
    · have hflag : p.flags.length = flag := by
        rcases hflag with hold | ⟨-, hnew⟩
        · have hlt := (List.getElem?_eq_some_iff.mp hold).1
          rw [h.length] at hlt
          omega
        · exact hnew
      subst hflag
      have hunused : ¬ p.flagOf[a]? = some p.flags.length := fun hused =>
        absurd (h.flag_lt hused) (Nat.lt_irrefl _)
      have hnone : ¬ Descends origins origins.length a := fun hd =>
        absurd (List.getElem?_eq_some_iff.mp hd.fresh).1 (Nat.lt_irrefl _)
      simp [hunused, hnone]

theorem copy (h : Shares p origins) (hflag : p.flagOf[b]? = some flag) :
    Shares { p with flagOf := p.flagOf ++ [flag] } (origins ++ [some b]) where
  length := by simp [h.length]
  ordered := by
    have hb := (List.getElem?_eq_some_iff.mp hflag).1
    have hnote := h.ordered.note (.copy b)
    rwa [note, if_pos (by rwa [← h.length])] at hnote
  flag_lt := by
    intro a other ha
    rcases getElem?_concat_eq_some_iff.mp ha with ha | ⟨-, rfl⟩
    · exact h.flag_lt ha
    · exact h.flag_lt hflag
  flag_iff := by
    intro founder other hfounder hother a
    have hb := (List.getElem?_eq_some_iff.mp hflag).1
    rw [h.length] at hb
    rcases getElem?_concat_eq_some_iff.mp hfounder with hold | ⟨-, hnew⟩
    · have hlt := (List.getElem?_eq_some_iff.mp hold).1
      have hother : p.flagOf[founder]? = some other := by
        rcases getElem?_concat_eq_some_iff.mp hother with hother | ⟨rfl, -⟩
        · exact hother
        · rw [h.length] at hlt
          omega
      have hiff := h.flag_iff hold hother
      rw [getElem?_concat_eq_some_iff, descends_copy_iff h.ordered hb, h.length, hiff a,
        ← hiff b, hflag, Option.some.injEq]
    · cases hnew

/-- Every step keeps the flags with the families. -/
theorem step (h : Shares p origins) (s : Step) : Shares (p.step s) (note origins s) := by
  cases s with
  | fresh => exact h.fresh
  | copy token =>
    rw [note_copy]
    rcases hflag : p.flagOf[token]? with _ | flag
    · have hge := List.getElem?_eq_none_iff.mp hflag
      rw [h.length] at hge
      rw [if_neg (by omega)]
      simpa only [TokenPool.step, hflag] using h
    · have hlt := (List.getElem?_eq_some_iff.mp hflag).1
      rw [h.length] at hlt
      rw [if_pos hlt]
      simpa only [TokenPool.step, hflag] using h.copy hflag
  | cancel token =>
    rcases hflag : p.flagOf[token]? with _ | flag
    · simpa only [TokenPool.step, hflag, note] using h
    · simp only [TokenPool.step, hflag]
      exact ⟨h.length, h.ordered, fun ha => by simpa using h.flag_lt ha, h.flag_iff⟩

theorem run (steps : List Step) : Shares (TokenPool.empty.run steps) (originsOf steps) := by
  induction steps using List.reverseRecOn with
  | nil => exact empty
  | append_singleton steps s ih =>
    rw [TokenPool.run, originsOf, List.foldl_append, List.foldl_append]
    exact ih.step s

/-- Two tokens have the same flag if and only if they lead back to the same fresh token. -/
theorem getElem?_flagOf_iff (h : Shares p origins) (ha : p.flagOf[a]? = some flag) :
    p.flagOf[b]? = some flag ↔
      ∃ founder, Descends origins founder a ∧ Descends origins founder b := by
  have hfounds {founder : Nat} (hfounder : Descends origins founder a) :
      p.flagOf[b]? = some flag ↔ Descends origins founder b := by
    have hlt := (List.getElem?_eq_some_iff.mp hfounder.fresh).1
    rw [← h.length] at hlt
    have hother := List.getElem?_eq_getElem hlt
    have hsame := (h.flag_iff hfounder.fresh hother a).mpr hfounder
    rw [ha] at hsame
    cases hsame
    exact h.flag_iff hfounder.fresh hother b
  constructor
  · intro hb
    have hlt := (List.getElem?_eq_some_iff.mp ha).1
    rw [h.length] at hlt
    obtain ⟨founder, hfounder⟩ := exists_descends h.ordered hlt
    exact ⟨founder, hfounder, (hfounds hfounder).mp hb⟩
  · rintro ⟨founder, hfounder, hb⟩
    exact (hfounds hfounder).mpr hb

end Shares

/-! ## Cancelled tokens -/

/-- A step sets the flag of a token that it cancels, and no other one. -/
theorem Shares.getElem?_flags_step_iff {p : TokenPool} {origins : Origins} {flag : Nat}
    (h : Shares p origins) (s : Step) :
    (p.step s).flags[flag]? = some true ↔
      p.flags[flag]? = some true ∨ ∃ b, s = .cancel b ∧ p.flagOf[b]? = some flag := by
  cases s with
  | fresh =>
    simp only [TokenPool.step, getElem?_concat_eq_some_iff]
    simp
  | copy token =>
    have hflags : (p.step (.copy token)).flags = p.flags := by
      rcases hother : p.flagOf[token]? with _ | other <;> simp only [TokenPool.step, hother]
    rw [hflags]
    simp
  | cancel token =>
    rcases hother : p.flagOf[token]? with _ | other
    · simp only [TokenPool.step, hother]
      simp [hother]
    · have hlt := h.flag_lt hother
      simp only [TokenPool.step, hother, List.getElem?_set]
      by_cases heq : other = flag
      · subst heq
        simp [hlt, hother]
      · simp [heq, hother]

section Runs

variable {steps : List Step} {a b flag : Nat}

theorem run_append (steps later : List Step) :
    empty.run (steps ++ later) = (empty.run steps).run later := by
  rw [run, List.foldl_append]
  rfl

theorem run_concat (steps : List Step) (s : Step) :
    empty.run (steps ++ [s]) = (empty.run steps).step s := run_append steps [s]

/-- The tokens that steps have made are those with a flag. -/
theorem lt_length_originsOf_iff :
    a < (originsOf steps).length ↔ ∃ flag, (empty.run steps).flagOf[a]? = some flag := by
  rw [← (Shares.run steps).length]
  simp [List.getElem?_eq_some_iff]

theorem cancels_concat_iff {s : Step} :
    Cancels (steps ++ [s]) b ↔
      Cancels steps b ∨ s = .cancel b ∧ ∃ flag, (empty.run steps).flagOf[b]? = some flag := by
  constructor
  · rintro ⟨before, after, hsteps, hb⟩
    rcases List.eq_nil_or_concat after with rfl | ⟨after, last, rfl⟩
    · obtain ⟨rfl, hs⟩ := List.append_inj' hsteps rfl
      cases hs
      exact .inr ⟨rfl, lt_length_originsOf_iff.mp hb⟩
    · rw [List.concat_eq_append, ← List.cons_append, ← List.append_assoc] at hsteps
      obtain ⟨rfl, -⟩ := List.append_inj' hsteps rfl
      exact .inl ⟨before, after, rfl, hb⟩
  · rintro (⟨before, after, rfl, hb⟩ | ⟨rfl, hflag⟩)
    · exact ⟨before, after ++ [s], by simp, hb⟩
    · exact ⟨steps, [], rfl, lt_length_originsOf_iff.mpr hflag⟩

theorem not_cancels_nil : ¬ Cancels [] b := by
  rintro ⟨before, after, hsteps, -⟩
  simp at hsteps

/-- A cancelled token keeps the flag it had then. -/
theorem Cancels.getElem?_flagOf (h : Cancels steps b) :
    ∃ flag, (empty.run steps).flagOf[b]? = some flag := by
  induction steps using List.reverseRecOn with
  | nil => exact absurd h not_cancels_nil
  | append_singleton steps s ih =>
    rw [run_concat]
    obtain ⟨flag, hflag⟩ : ∃ flag, (empty.run steps).flagOf[b]? = some flag := by
      rcases cancels_concat_iff.mp h with hold | ⟨-, hflag⟩
      · exact ih hold
      · exact hflag
    exact ⟨flag, getElem?_flagOf_step hflag s⟩

theorem getElem?_flagOf_step_iff {p : TokenPool} (s : Step)
    (h : ∃ other, p.flagOf[b]? = some other) :
    (p.step s).flagOf[b]? = some flag ↔ p.flagOf[b]? = some flag := by
  obtain ⟨other, hother⟩ := h
  rw [getElem?_flagOf_step hother s, hother]

/-- A flag is set if and only if a token that has it has been cancelled. -/
theorem getElem?_flags_run_iff :
    (empty.run steps).flags[flag]? = some true ↔
      ∃ b, Cancels steps b ∧ (empty.run steps).flagOf[b]? = some flag := by
  induction steps using List.reverseRecOn with
  | nil => simp [run, empty]
  | append_singleton steps s ih =>
    rw [run_concat, (Shares.run steps).getElem?_flags_step_iff s, ih]
    constructor
    · rintro (⟨b, hcancels, hflag⟩ | ⟨b, rfl, hflag⟩)
      · exact ⟨b, cancels_concat_iff.mpr (.inl hcancels), getElem?_flagOf_step hflag s⟩
      · exact ⟨b, cancels_concat_iff.mpr (.inr ⟨rfl, flag, hflag⟩), getElem?_flagOf_step hflag _⟩
    · rintro ⟨b, hcancels, hflag⟩
      rcases cancels_concat_iff.mp hcancels with hold | ⟨rfl, hmade⟩
      · exact .inl ⟨b, hold, (getElem?_flagOf_step_iff s hold.getElem?_flagOf).mp hflag⟩
      · exact .inr ⟨b, rfl, (getElem?_flagOf_step_iff _ hmade).mp hflag⟩

theorem isCancelled_run_iff :
    (empty.run steps).isCancelled a = true ↔ ∃ b, Cancels steps b ∧ SameFamily steps a b := by
  rcases hflag : (empty.run steps).flagOf[a]? with _ | flag
  · -- a token that has not been made is in no family
    have hge : ¬ a < (originsOf steps).length := by
      rw [lt_length_originsOf_iff, hflag]
      simp
    constructor
    · simp [isCancelled, hflag]
    · rintro ⟨b, -, founder, ha, -⟩
      exact absurd ha.lt hge
  · rw [isCancelled_iff hflag, getElem?_flags_run_iff]
    simp only [(Shares.run steps).getElem?_flagOf_iff hflag]
    rfl

theorem isCancelled_run_append (h : (empty.run steps).isCancelled a = true) (later : List Step) :
    (empty.run (steps ++ later)).isCancelled a = true := by
  induction later using List.reverseRecOn with
  | nil => simpa only [List.append_nil] using h
  | append_singleton later s ih =>
    rw [← List.append_assoc, run_concat]
    rcases hflag : (empty.run (steps ++ later)).flagOf[a]? with _ | flag
    · simp [isCancelled, hflag] at ih
    · rw [isCancelled_iff hflag] at ih
      rw [isCancelled_iff (getElem?_flagOf_step hflag s)]
      exact getElem?_flags_step ih s

/-- A token of another family is read as before. -/
theorem isCancelled_run_cancel (hother : ¬ SameFamily steps a b) :
    (empty.run (steps ++ [.cancel b])).isCancelled a = (empty.run steps).isCancelled a := by
  have hsame : SameFamily (steps ++ [.cancel b]) = SameFamily steps := by
    funext c d
    rw [SameFamily, originsOf, List.foldl_append]
    rfl
  rw [Bool.eq_iff_iff, isCancelled_run_iff, isCancelled_run_iff, hsame]
  constructor
  · rintro ⟨c, hcancels, hfamily⟩
    rcases cancels_concat_iff.mp hcancels with hold | ⟨hc, -⟩
    · exact ⟨c, hold, hfamily⟩
    · cases hc
      exact absurd hfamily hother
  · rintro ⟨c, hcancels, hfamily⟩
    exact ⟨c, cancels_concat_iff.mpr (.inl hcancels), hfamily⟩

theorem getElem?_states (p : TokenPool) (h : a < p.flagOf.length) :
    p.states[a]? = some (p.isCancelled a) := by
  rw [states, List.getElem?_map, isCancelled, List.getElem?_eq_getElem h]
  rfl

end Runs

/-- Whatever is done with tokens, and in whatever order: each token that has been made is read as
cancelled if and only if one of its family has been cancelled, it stays so, and to cancel a token
changes nothing for the tokens of other families. -/
theorem cancelled_with_family (steps : List Step) :
    (empty.run steps).states.length = (originsOf steps).length ∧
    (∀ a < (originsOf steps).length,
      (empty.run steps).states[a]? = some ((empty.run steps).isCancelled a)) ∧
    (∀ a : Nat, (empty.run steps).isCancelled a = true ↔
      ∃ b, Cancels steps b ∧ SameFamily steps a b) ∧
    (∀ (later : List Step) (a : Nat), (empty.run steps).isCancelled a = true →
      (empty.run (steps ++ later)).isCancelled a = true) ∧
    ∀ a b : Nat, ¬ SameFamily steps a b →
      (empty.run (steps ++ [.cancel b])).isCancelled a = (empty.run steps).isCancelled a := by
  have hlength := (Shares.run steps).length
  refine ⟨?_, ?_, fun a => isCancelled_run_iff, ?_, fun a b => isCancelled_run_cancel⟩
  · rw [states, List.length_map, hlength]
  · intro a ha
    exact getElem?_states _ (by omega)
  · intro later a h
    exact isCancelled_run_append h later

/-- The first two tokens are a family, and so is a copy that is made once it has been cancelled. -/
example : (empty.run [.fresh, .copy 0, .fresh, .cancel 1, .copy 0]).states =
    [true, true, false, true] := by decide

end StorageProof.TokenPool
