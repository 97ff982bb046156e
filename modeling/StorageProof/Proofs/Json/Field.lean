import StorageProof.Json.Record
import StorageProof.Proofs.Json.Grammar
import StorageProof.Proofs.Sequencing

/-!
# The text of a field

The text of a field is written as a literal. The name of a variant may also be written as an object
with that one key and the value null. A field is read from exactly these values, behind white space,
unless it refuses the text.
-/

namespace StorageProof.Json

/-- How the text of a field may be written: as a literal, and the name of a variant also as an
object with that one key and the value null. -/
inductive Form.Writes : Form → Bytes → String → Prop
  | literal {form : Form} {w : Bytes} {text : String} (hw : Spells w (Utf8.ofString text)) :
      form.Writes (0x22 :: (w ++ [0x22])) text
  | object {a w b c d : Bytes} {text : String} (ha : AreSpaces a)
      (hw : Spells w (Utf8.ofString text)) (hb : AreSpaces b) (hc : AreSpaces c)
      (hd : AreSpaces d) :
      Form.variant.Writes
        (0x7B :: (a ++ 0x22 :: (w ++ 0x22 :: (b ++ 0x3A :: (c ++ 0x6E :: (ull ++ (d ++ [0x7D])))))))
        text

/-- A field takes a value for a text that it does not refuse. -/
def Field.Takes (f : Field) (v : Bytes) (text : String) : Prop :=
  f.form.Writes v text ∧ f.refusal? text = none

theorem Form.Writes.wellFormed {form : Form} {v : Bytes} {text : String} (h : form.Writes v text) :
    WellFormed .value v := by
  cases h with
  | literal hw => exact .scalar (.text hw.isLiteral)
  | @object a w b c d _ ha hw hb hc hd =>
    have hitem := WellFormed.item .first (.object ha hw.isLiteral hb hc) (.scalar .null)
      (.close (c := .object) hd)
    have hobject := WellFormed.container hitem
    simpa [Container.opening, Container.close] using hobject

theorem wrongType_ne_ok {α : Type} {expected : String} {s : Bytes} {a : α} :
    wrongType expected s ≠ .ok a := by
  intro h
  unfold wrongType at h
  split at h <;> cases h

theorem takeNull_eq_ok_iff {s rest : Bytes} :
    takeNull s = .ok rest ↔ ∃ a, AreSpaces a ∧ s = a ++ 0x6E :: (ull ++ rest) := by
  constructor
  · intro h
    unfold takeNull at h
    split at h
    · cases h
    next b more hs =>
    obtain ⟨a, ha, rfl⟩ := exists_of_skipSpace hs
    split at h
    · next hb =>
      exact ⟨a, ha, by rw [hb, takeWord_eq_ok_iff.mp (orFault_eq_ok.mp h)]⟩
    · exact absurd h wrongType_ne_ok
  · rintro ⟨a, ha, rfl⟩
    have hword : takeWord ull (ull ++ rest) = .ok rest := takeWord_eq_ok_iff.mpr rfl
    rw [takeNull, skipSpace_token ha (by decide)]
    exact orFault_eq_ok.mpr hword

namespace Field

variable {f : Field} {s rest : Bytes} {text : String}

theorem readText_eq_ok_iff : f.readText s = .ok (text, rest) ↔
    ∃ w, s = w ++ 0x22 :: rest ∧ Spells w (Utf8.ofString text) ∧ f.refusal? text = none := by
  constructor
  · intro h
    unfold readText at h
    split at h
    · cases h
    next text' rest' hs =>
    split at h
    · cases h
    next hr =>
    cases h
    obtain ⟨w, rfl, hw⟩ := readString_eq_ok_iff.mp hs
    exact ⟨w, rfl, hw, hr⟩
  · rintro ⟨w, rfl, hw, hr⟩
    simp only [readText, readString_of_spells hw, hr]

theorem readVariantObject_ok (h : f.readVariantObject s = .ok (text, rest)) :
    ∃ a w b c d, s = a ++ 0x22 :: (w ++ 0x22 :: (b ++ 0x3A :: (c ++ 0x6E :: (ull ++
        (d ++ 0x7D :: rest))))) ∧ AreSpaces a ∧ Spells w (Utf8.ofString text) ∧ AreSpaces b ∧
      AreSpaces c ∧ AreSpaces d ∧ f.refusal? text = none := by
  unfold readVariantObject at h
  split at h
  · cases h
  next q more hq =>
  obtain ⟨a, ha, rfl⟩ := exists_of_skipSpace hq
  split at h
  · next hquote =>
    subst hquote
    obtain ⟨⟨text', after⟩, htext, hafter⟩ := exists_of_bind_eq_ok h
    obtain ⟨after', hcolon, hvalue⟩ := exists_of_bind_eq_ok hafter
    obtain ⟨after'', hnull, hend⟩ := exists_of_bind_eq_ok hvalue
    obtain ⟨w, rfl, hw, hr⟩ := readText_eq_ok_iff.mp htext
    obtain ⟨b, hb, rfl⟩ := takeColon_eq_ok_iff.mp (orFault_eq_ok.mp hcolon)
    obtain ⟨c, hc, rfl⟩ := takeNull_eq_ok_iff.mp hnull
    split at hend
    · cases hend
    next e last he =>
    obtain ⟨d, hd, rfl⟩ := exists_of_skipSpace he
    split at hend
    · next hbrace =>
      cases hend
      exact ⟨a, w, b, c, d, by rw [hbrace], ha, hw, hb, hc, hd, hr⟩
    · cases hend
  · split at h <;> cases h

theorem readVariantObject_append {a w b c d : Bytes} (ha : AreSpaces a)
    (hw : Spells w (Utf8.ofString text)) (hb : AreSpaces b) (hc : AreSpaces c) (hd : AreSpaces d)
    (hr : f.refusal? text = none) (rest : Bytes) :
    f.readVariantObject (a ++ 0x22 :: (w ++ 0x22 :: (b ++ 0x3A :: (c ++ 0x6E :: (ull ++
      (d ++ 0x7D :: rest)))))) = .ok (text, rest) := by
  have hcolon := fun more => takeColon_eq_ok_iff.mpr ⟨b, hb, (rfl : b ++ 0x3A :: more = _)⟩
  have hnull := fun more => takeNull_eq_ok_iff.mpr ⟨c, hc, (rfl : c ++ 0x6E :: (ull ++ more) = _)⟩
  simp only [readVariantObject, skipSpace_token ha (show isSpace 0x22 = false by decide), if_true,
    readText_eq_ok_iff.mpr ⟨w, rfl, hw, hr⟩, hcolon, hnull, orFault, bind, Except.bind,
    skipSpace_token hd (show isSpace 0x7D = false by decide)]

/-- The text of a field is read from the values that the field takes for it, behind white space. -/
theorem read_eq_ok_iff : f.read s = .ok (text, rest) ↔
    ∃ a v, s = a ++ (v ++ rest) ∧ AreSpaces a ∧ f.Takes v text := by
  constructor
  · intro h
    unfold Field.read at h
    split at h
    · cases h
    next b more hs =>
    obtain ⟨a, ha, rfl⟩ := exists_of_skipSpace hs
    split at h
    · next hb =>
      obtain ⟨w, rfl, hw, hr⟩ := readText_eq_ok_iff.mp h
      exact ⟨a, 0x22 :: (w ++ [0x22]), by simp [hb], ha, .literal hw, hr⟩
    split at h
    · exact absurd h wrongType_ne_ok
    next hform =>
    split at h
    · next hb =>
      obtain ⟨a', w, b', c, d, rfl, ha', hw, hb', hc, hd, hr⟩ := readVariantObject_ok h
      have hv : f.form.Writes _ text := hform ▸ Form.Writes.object ha' hw hb' hc hd
      exact ⟨a, _, by simp [hb], ha, hv, hr⟩
    · cases h
  · rintro ⟨a, v, rfl, ha, hv, hr⟩
    unfold Field.read
    generalize hform : f.form = form at hv
    cases hv with
    | literal hw =>
      rw [List.cons_append, skipSpace_token ha (by decide), List.append_assoc,
        List.singleton_append]
      exact readText_eq_ok_iff.mpr ⟨_, rfl, hw, hr⟩
    | object ha' hw hb hc hd =>
      rw [List.cons_append, skipSpace_token ha (by decide)]
      simp only [List.append_assoc, List.cons_append, List.nil_append]
      rw [if_neg (by decide)]
      exact readVariantObject_append ha' hw hb hc hd hr rest

/-- A document holds a text if and only if it is a value for it between white space. -/
theorem readDocument_eq_ok_iff : f.readDocument s = .ok text ↔
    ∃ a v b, s = a ++ (v ++ b) ∧ AreSpaces a ∧ f.Takes v text ∧ AreSpaces b := by
  constructor
  · intro h
    obtain ⟨⟨text', rest⟩, hread, h⟩ := exists_of_bind_eq_ok h
    obtain ⟨⟨⟩, hend, h⟩ := exists_of_bind_eq_ok h
    cases h
    obtain ⟨a, v, rfl, ha, hv⟩ := read_eq_ok_iff.mp hread
    exact ⟨a, v, rest, rfl, ha, hv, takeEnd_eq_ok_iff.mp (orFault_eq_ok.mp hend)⟩
  · rintro ⟨a, v, b, rfl, ha, hv, hb⟩
    have hread : f.read (a ++ (v ++ b)) = .ok (text, b) := read_eq_ok_iff.mpr ⟨a, v, rfl, ha, hv⟩
    simp only [readDocument, hread, takeEnd_eq_ok_iff.mpr hb, bind, Except.bind, orFault, pure,
      Except.pure]

end Field

end StorageProof.Json
