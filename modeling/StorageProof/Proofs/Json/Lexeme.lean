import StorageProof.Json.Lexeme
import StorageProof.Proofs.Json.Literal
import StorageProof.Proofs.Sequencing

/-!
# Strings and numbers that are passed over

A string that is passed over is any literal, which need not be UTF-8, and a number that is passed
over is any that RFC 8259 has, of any size. A number is passed over whole, so that what follows it
must not belong to it.
-/

namespace StorageProof.Json

/-! ## Strings -/

/-- What stands within the quotes of a string that is passed over. Controls are ruled out and
escapes are checked one by one; surrogates need no partners and the bytes need not be UTF-8. -/
inductive IsLiteral : Bytes → Prop
  | nil : IsLiteral []
  | plain {b : UInt8} {s : Bytes} (hb : isPlain b = true) (h : IsLiteral s) : IsLiteral (b :: s)
  | short {e : UInt8} {s : Bytes} (he : (simpleEscape? e).isSome = true) (h : IsLiteral s) :
      IsLiteral (0x5C :: e :: s)
  | scalar {digits s : Bytes} {n : Nat} (hd : hexQuad digits = .ok (n, [])) (h : IsLiteral s) :
      IsLiteral (0x5C :: 0x75 :: (digits ++ s))

theorem Spells.isLiteral {written out : Bytes} (h : Spells written out) : IsLiteral written := by
  induction h with
  | nil => exact .nil
  | plain hb _ ih => exact .plain hb ih
  | short he _ ih => exact .short (Option.isSome_iff_exists.mpr ⟨_, he⟩) ih
  | scalar hd _ _ ih => exact .scalar hd ih
  | surrogates hh _ hl _ _ ih => exact .scalar hh (.scalar hl ih)

theorem skipEscape_ok {s rest : Bytes} (h : skipEscape s = .ok rest) :
    ∃ escape, s = escape ++ rest ∧ ∀ {t : Bytes}, IsLiteral t →
      IsLiteral (0x5C :: (escape ++ t)) := by
  unfold skipEscape at h
  split at h
  · cases h
  next b s =>
  split at h
  · next hb =>
    subst hb
    obtain ⟨⟨n, rest'⟩, hquad, rfl⟩ := map_eq_ok h
    obtain ⟨digits, rfl, hdigits⟩ := hexQuad_ok hquad
    exact ⟨0x75 :: digits, rfl, fun ht => .scalar hdigits ht⟩
  · split at h
    · next he =>
      cases h
      exact ⟨[b], rfl, fun ht => .short he ht⟩
    · cases h

theorem skipString_escape {s rest : Bytes} (h : skipEscape s = .ok rest) :
    skipString (0x5C :: s) = skipString rest := by
  rw [skipString, if_neg (by decide), if_pos rfl]
  split
  · next he =>
    rw [h] at he
    cases he
  · next he =>
    rw [h] at he
    cases he
    rfl

theorem IsLiteral.skipString {s : Bytes} (h : IsLiteral s) (rest : Bytes) :
    skipString (s ++ 0x22 :: rest) = .ok rest := by
  induction h with
  | nil => rw [List.nil_append, Json.skipString, if_pos rfl]
  | plain hb _ ih =>
    simp only [isPlain, Bool.and_eq_true, decide_eq_true_eq, bne_iff_ne] at hb
    obtain ⟨⟨hlow, hquote⟩, hslash⟩ := hb
    rw [List.cons_append, Json.skipString, if_neg hquote, if_neg hslash,
      if_neg (UInt8.not_lt.mpr hlow), ih]
  | short he _ ih =>
    obtain ⟨b, hb⟩ := Option.isSome_iff_exists.mp he
    rw [List.cons_append, List.cons_append, ← ih]
    refine skipString_escape ?_
    rw [skipEscape, if_neg (simpleEscape?_ne_u hb), if_pos he]
  | scalar hd _ ih =>
    rw [List.cons_append, List.cons_append, List.append_assoc, ← ih]
    refine skipString_escape ?_
    rw [skipEscape, if_pos rfl, hexQuad_append hd]
    rfl

/-- A string is passed over up to its closing quote if and only if it is a literal. -/
theorem skipString_eq_ok_iff {s rest : Bytes} :
    skipString s = .ok rest ↔ ∃ t, s = t ++ 0x22 :: rest ∧ IsLiteral t := by
  constructor
  · intro h
    fun_induction skipString s with
    | case1 => cases h
    | case2 s =>
      cases h
      exact ⟨[], rfl, .nil⟩
    | case3 => cases h
    | case4 s rest' he _ ih =>
      obtain ⟨t, rfl, ht⟩ := ih h
      obtain ⟨escape, rfl, hescape⟩ := skipEscape_ok he
      exact ⟨0x5C :: (escape ++ t), by simp, hescape ht⟩
    | case5 => cases h
    | case6 b s hquote hslash hcontrol ih =>
      obtain ⟨t, rfl, ht⟩ := ih h
      have hplain : isPlain b = true := by
        simp [isPlain, hquote, hslash, UInt8.not_lt.mp hcontrol]
      exact ⟨b :: t, rfl, .plain hplain ht⟩
  · rintro ⟨t, rfl, ht⟩
    exact ht.skipString rest

/-! ## Numbers -/

def AreDigits (s : Bytes) : Prop := ∀ b ∈ s, isDigit b = true

/-- The whole part of a number, which has no leading zero. -/
inductive IsWhole : Bytes → Prop
  | zero : IsWhole [0x30]
  | digits {d : UInt8} {ds : Bytes} (hd : isDigit d = true) (hz : d ≠ 0x30) (h : AreDigits ds) :
      IsWhole (d :: ds)

/-- The places of a number, if it has any, with their point. -/
inductive IsFraction : Bytes → Prop
  | none : IsFraction []
  | places {d : UInt8} {ds : Bytes} (hd : isDigit d = true) (h : AreDigits ds) :
      IsFraction (0x2E :: d :: ds)

/-- The sign of an exponent, if it has one. -/
def IsSign (s : Bytes) : Prop := s = [] ∨ s = [0x2B] ∨ s = [0x2D]

/-- The exponent of a number, if it has one, with its letter. -/
inductive IsExponent : Bytes → Prop
  | none : IsExponent []
  | power {e d : UInt8} {sign ds : Bytes} (he : e = 0x65 ∨ e = 0x45) (hs : IsSign sign)
      (hd : isDigit d = true) (h : AreDigits ds) : IsExponent (e :: (sign ++ d :: ds))

/-- A number without its sign. -/
inductive IsNumber : Bytes → Prop
  | intro {whole fraction exponent : Bytes} (hw : IsWhole whole) (hf : IsFraction fraction)
      (he : IsExponent exponent) : IsNumber (whole ++ (fraction ++ exponent))

/-- Whether a byte after a number would belong to it. -/
def continuesNumber (b : UInt8) : Bool := isDigit b || b == 0x2E || b == 0x65 || b == 0x45

/-- What stands after a number does not belong to it. -/
def Detached (s : Bytes) : Prop := ∀ b ∈ s.head?, continuesNumber b = false

theorem Detached.cons {b : UInt8} (h : continuesNumber b = false) (s : Bytes) :
    Detached (b :: s) := by
  rintro _ ⟨⟩
  exact h

theorem exists_skipDigits (s : Bytes) : ∃ ds, AreDigits ds ∧ s = ds ++ skipDigits s :=
  ⟨s.takeWhile isDigit, List.all_eq_true.mp List.all_takeWhile,
    List.takeWhile_append_dropWhile.symm⟩

theorem exists_takeSign (s : Bytes) : ∃ sign, IsSign sign ∧ s = sign ++ (takeSign s).2 := by
  unfold takeSign
  split
  · exact ⟨[0x2B], .inr (.inl rfl), rfl⟩
  · exact ⟨[0x2D], .inr (.inr rfl), rfl⟩
  · exact ⟨[], .inl rfl, rfl⟩

theorem skipExponent_ok {e : UInt8} {s rest : Bytes} (he : e = 0x65 ∨ e = 0x45)
    (h : skipExponent (e :: s) = .ok rest) :
    ∃ exponent, e :: s = exponent ++ rest ∧ IsExponent exponent := by
  obtain ⟨sign, hsign, hs⟩ := exists_takeSign s
  unfold skipExponent at h
  rw [List.drop_succ_cons, List.drop_zero] at h
  split at h
  · next d more hd =>
    split at h
    · next hdigit =>
      cases h
      obtain ⟨ds, hds, hmore⟩ := exists_skipDigits more
      refine ⟨e :: (sign ++ d :: ds), ?_, .power he hsign hdigit hds⟩
      rw [hs, hd, List.cons_append, List.append_assoc, List.cons_append, ← hmore]
    · cases h
  · cases h

theorem skipFraction_ok {s rest : Bytes} (h : skipFraction (0x2E :: s) = .ok rest) :
    ∃ fraction exponent, 0x2E :: s = fraction ++ (exponent ++ rest) ∧ IsFraction fraction ∧
      IsExponent exponent := by
  unfold skipFraction at h
  rw [List.drop_succ_cons, List.drop_zero] at h
  split at h
  · cases h
  next d more =>
  split at h
  · next hdigit =>
    obtain ⟨ds, hds, hmore⟩ := exists_skipDigits more
    split at h
    · next e after hafter =>
      rw [hafter] at hmore
      split at h
      · next he =>
        obtain ⟨exponent, hexponent, hisExponent⟩ := skipExponent_ok he h
        refine ⟨0x2E :: d :: ds, exponent, ?_, .places hdigit hds, hisExponent⟩
        rw [hmore, hexponent]
        rfl
      · cases h
        refine ⟨0x2E :: d :: ds, [], ?_, .places hdigit hds, .none⟩
        rw [hmore]
        rfl
    · next hafter =>
      cases h
      refine ⟨0x2E :: d :: ds, [], ?_, .places hdigit hds, .none⟩
      rw [hmore, hafter]
      rfl
  · cases h

theorem skipAfterWhole_ok {s rest : Bytes} (h : skipAfterWhole s = .ok rest) :
    ∃ fraction exponent, s = fraction ++ (exponent ++ rest) ∧ IsFraction fraction ∧
      IsExponent exponent := by
  unfold skipAfterWhole at h
  split at h
  · next b more =>
    split at h
    · next hb =>
      subst hb
      exact skipFraction_ok h
    · split at h
      · next he =>
        obtain ⟨exponent, hexponent, hisExponent⟩ := skipExponent_ok he h
        exact ⟨[], exponent, hexponent, .none, hisExponent⟩
      · cases h
        exact ⟨[], [], rfl, .none, .none⟩
  · cases h
    exact ⟨[], [], rfl, .none, .none⟩

theorem skipNumber_ok {s rest : Bytes} (h : skipNumber s = .ok rest) :
    ∃ n, s = n ++ rest ∧ IsNumber n := by
  have after {whole s : Bytes} (hw : IsWhole whole) (h : skipAfterWhole s = .ok rest) :
      ∃ n, whole ++ s = n ++ rest ∧ IsNumber n := by
    obtain ⟨fraction, exponent, rfl, hf, he⟩ := skipAfterWhole_ok h
    exact ⟨_, by simp only [List.append_assoc], .intro hw hf he⟩
  unfold skipNumber at h
  split at h
  · cases h
  next b more =>
  split at h
  · next hb =>
    subst hb
    split at h
    · split at h
      · cases h
      · exact after .zero h
    · exact after .zero h
  next hb =>
  split at h
  · next hdigit =>
    obtain ⟨ds, hds, hmore⟩ := exists_skipDigits more
    obtain ⟨n, hn, hnumber⟩ := after (.digits hdigit hb hds) h
    exact ⟨n, by rw [← hn, List.cons_append, ← hmore], hnumber⟩
  · cases h

/-- No digit stands at the front. -/
def StopsDigits (s : Bytes) : Prop := ∀ b ∈ s.head?, isDigit b = false

theorem Detached.stopsDigits {s : Bytes} (h : Detached s) : StopsDigits s := by
  intro b hb
  have hcontinues := h b hb
  simp only [continuesNumber, Bool.or_eq_false_iff] at hcontinues
  exact hcontinues.1.1.1

theorem skipDigits_append {ds s : Bytes} (hds : AreDigits ds) (hs : StopsDigits s) :
    skipDigits (ds ++ s) = s := by
  rw [skipDigits, List.dropWhile_append_of_pos hds]
  cases s with
  | nil => rfl
  | cons b s => exact List.dropWhile_cons_of_neg (by simp [hs b rfl])

theorem takeSign_append {sign s : Bytes} {d : UInt8} (hs : IsSign sign) (hd : isDigit d = true) :
    (takeSign (sign ++ d :: s)).2 = d :: s := by
  rcases hs with rfl | rfl | rfl
  · unfold takeSign
    split
    · next h =>
      cases h
      cases hd
    · next h =>
      cases h
      cases hd
    · rfl
  · rfl
  · rfl

section Rest

variable {rest : Bytes} (hrest : Detached rest)

include hrest

theorem skipExponent_append {e d : UInt8} {sign ds : Bytes} (hs : IsSign sign)
    (hd : isDigit d = true) (hds : AreDigits ds) :
    skipExponent (e :: (sign ++ d :: ds) ++ rest) = .ok rest := by
  have hdrop : List.drop 1 (e :: (sign ++ d :: ds) ++ rest) = sign ++ d :: (ds ++ rest) := by simp
  simp only [skipExponent, hdrop, takeSign_append hs hd, hd, if_true,
    skipDigits_append hds hrest.stopsDigits]

theorem IsExponent.stopsDigits {exponent : Bytes} (h : IsExponent exponent) :
    StopsDigits (exponent ++ rest) := by
  cases h with
  | none => exact hrest.stopsDigits
  | power he hs hd hds =>
    rintro _ ⟨⟩
    rcases he with rfl | rfl <;> rfl

theorem IsFraction.stopsDigits {fraction exponent : Bytes} (h : IsFraction fraction)
    (he : IsExponent exponent) : StopsDigits (fraction ++ (exponent ++ rest)) := by
  cases h with
  | none => exact he.stopsDigits hrest
  | places hd hds =>
    rintro _ ⟨⟩
    rfl

theorem skipAfterWhole_exponent {exponent : Bytes} (h : IsExponent exponent) :
    skipAfterWhole (exponent ++ rest) = .ok rest := by
  cases h with
  | none =>
    rw [List.nil_append]
    cases rest with
    | nil => rfl
    | cons b rest =>
      have hb := hrest b rfl
      simp only [continuesNumber, Bool.or_eq_false_iff, beq_eq_false_iff_ne] at hb
      simp [skipAfterWhole, hb]
  | @power e d sign ds he hs hd hds =>
    have hne : e ≠ 0x2E := by rcases he with rfl | rfl <;> decide
    have hcons : e :: (sign ++ d :: ds) ++ rest = e :: (sign ++ d :: ds ++ rest) := rfl
    rw [hcons, skipAfterWhole, if_neg hne, if_pos he, ← hcons,
      skipExponent_append hrest hs hd hds]

theorem skipAfterWhole_append {fraction exponent : Bytes} (hf : IsFraction fraction)
    (he : IsExponent exponent) : skipAfterWhole (fraction ++ (exponent ++ rest)) = .ok rest := by
  cases hf with
  | none => exact skipAfterWhole_exponent hrest he
  | @places d ds hd hds =>
    have hcons : 0x2E :: d :: ds ++ (exponent ++ rest) =
        0x2E :: (d :: ds ++ (exponent ++ rest)) := rfl
    have hdrop : List.drop 1 (0x2E :: (d :: ds ++ (exponent ++ rest))) =
        d :: (ds ++ (exponent ++ rest)) := rfl
    rw [hcons, skipAfterWhole, if_pos rfl, skipFraction]
    simp only [hdrop, hd, if_true, skipDigits_append hds (he.stopsDigits hrest)]
    have hexponent := skipAfterWhole_exponent hrest he
    cases he with
    | none =>
      rw [List.nil_append]
      cases rest with
      | nil => rfl
      | cons b rest =>
        have hb := hrest b rfl
        simp only [continuesNumber, Bool.or_eq_false_iff, beq_eq_false_iff_ne] at hb
        simp [hb]
    | @power e d' sign ds' he' hs hd' hds' =>
      have hcons : e :: (sign ++ d' :: ds') ++ rest = e :: (sign ++ d' :: ds' ++ rest) := rfl
      rw [hcons]
      simp only [he', if_true]
      rw [← hcons, skipExponent_append hrest hs hd' hds']

/-- A number is passed over up to what does not belong to it. -/
theorem IsNumber.skipNumber {n : Bytes} (h : IsNumber n) : skipNumber (n ++ rest) = .ok rest := by
  obtain @⟨whole, fraction, exponent, hw, hf, he⟩ := h
  have hafter := skipAfterWhole_append hrest hf he
  have hstops := hf.stopsDigits hrest he
  simp only [List.append_assoc]
  generalize fraction ++ (exponent ++ rest) = after at hafter hstops
  cases hw with
  | zero =>
    cases after with
    | nil => exact hafter
    | cons b after =>
      simp only [List.singleton_append, Json.skipNumber, if_true, hstops b rfl,
        Bool.false_eq_true, if_false, hafter]
  | digits hd hz hds =>
    simp only [List.cons_append, Json.skipNumber, if_neg hz, if_pos hd,
      skipDigits_append hds hstops, hafter]

end Rest

end StorageProof.Json
