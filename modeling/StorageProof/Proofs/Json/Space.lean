import StorageProof.Json.Record
import StorageProof.Text.Blank

/-!
# White space between tokens

White space is passed over up to the next token, which is what every reader looks at first. A token
that is found therefore stands behind white space and nothing else.
-/

namespace StorageProof.Json

def AreSpaces (s : Bytes) : Prop := ∀ b ∈ s, isSpace b = true

theorem areSpaces_nil : AreSpaces [] := fun _ h => absurd h List.not_mem_nil

theorem AreSpaces.append {a b : Bytes} (ha : AreSpaces a) (hb : AreSpaces b) :
    AreSpaces (a ++ b) := by
  intro c hc
  rcases List.mem_append.mp hc with hc | hc
  · exact ha c hc
  · exact hb c hc

theorem skipSpace_append {a : Bytes} (ha : AreSpaces a) (rest : Bytes) :
    skipSpace (a ++ rest) = skipSpace rest := List.dropWhile_append_of_pos ha

theorem skipSpace_cons {b : UInt8} (hb : isSpace b = false) (rest : Bytes) :
    skipSpace (b :: rest) = b :: rest := List.dropWhile_cons_of_neg (by simp [hb])

/-- White space is passed over up to the next token. -/
theorem skipSpace_token {a : Bytes} {b : UInt8} (ha : AreSpaces a) (hb : isSpace b = false)
    (rest : Bytes) : skipSpace (a ++ b :: rest) = b :: rest := by
  rw [skipSpace_append ha, skipSpace_cons hb]

theorem skipSpace_all {a : Bytes} (ha : AreSpaces a) : skipSpace a = [] := by
  have h := skipSpace_append ha []
  rwa [List.append_nil] at h

/-- Bytes are white space up to where it is passed over to. -/
theorem exists_skipSpace (s : Bytes) : ∃ a, AreSpaces a ∧ s = a ++ skipSpace s :=
  ⟨s.takeWhile isSpace, List.all_eq_true.mp List.all_takeWhile,
    List.takeWhile_append_dropWhile.symm⟩

theorem exists_of_skipSpace {s rest : Bytes} (h : skipSpace s = rest) :
    ∃ a, AreSpaces a ∧ s = a ++ rest := h ▸ exists_skipSpace s

theorem takeColon_eq_ok_iff {s rest : Bytes} :
    takeColon s = .ok rest ↔ ∃ a, AreSpaces a ∧ s = a ++ 0x3A :: rest := by
  constructor
  · intro h
    unfold takeColon at h
    split at h
    · cases h
    next b more hs =>
    obtain ⟨a, ha, rfl⟩ := exists_of_skipSpace hs
    split at h
    · next hb =>
      cases h
      exact ⟨a, ha, by rw [hb]⟩
    · cases h
  · rintro ⟨a, ha, rfl⟩
    rw [takeColon, skipSpace_token ha (by decide)]
    rfl

theorem takeEnd_eq_ok_iff {s : Bytes} : takeEnd s = .ok () ↔ AreSpaces s := by
  constructor
  · intro h
    unfold takeEnd at h
    split at h
    · next hs =>
      obtain ⟨a, ha, rfl⟩ := exists_of_skipSpace hs
      rwa [List.append_nil]
    · cases h
  · intro hs
    rw [takeEnd, skipSpace_all hs]

/-- White space is text, and all of it is blank. -/
theorem AreSpaces.exists_encode {s : Bytes} (h : AreSpaces s) :
    ∃ cs, s = Utf8.encode cs ∧ ∀ c ∈ cs, Text.isBlank c = true := by
  induction s with
  | nil => exact ⟨[], rfl, fun _ hc => absurd hc List.not_mem_nil⟩
  | cons b s ih =>
    obtain ⟨cs, rfl, hcs⟩ := ih fun c hc => h c (List.mem_cons_of_mem b hc)
    have hb := h b List.mem_cons_self
    have hspace : ∃ c, Utf8.encodeChar c = [b] ∧ Text.isBlank c = true := by
      simp only [isSpace, Bool.or_eq_true, beq_iff_eq] at hb
      rcases hb with ((rfl | rfl) | rfl) | rfl
      · exact ⟨' ', rfl, rfl⟩
      · exact ⟨'\t', rfl, rfl⟩
      · exact ⟨'\n', rfl, rfl⟩
      · exact ⟨'\r', rfl, rfl⟩
    obtain ⟨c, hc, hblank⟩ := hspace
    exact ⟨c :: cs, by rw [Utf8.encode_cons, hc]; rfl, List.forall_mem_cons.mpr ⟨hblank, hcs⟩⟩

end StorageProof.Json
