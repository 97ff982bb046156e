import StorageProof.Identifier
import StorageProof.Proofs.Base64
import StorageProof.Proofs.Json.Field
import StorageProof.Proofs.Text.Blank
import StorageProof.Proofs.Text.Utf8

/-!
# The text of an identifier

The text of an identifier is the padded Base64 text of its digest. No character of it is blank, so
that it is read back as the identifier itself. A text that names an identifier is the text of that
identifier but for blanks around it, whichever way it is read: no two texts stand for one digest.
-/

namespace StorageProof.Identifier

theorem digestOfText?_eq_some (id : Identifier) : digestOfText? id.text = some id.digest :=
  (Option.some_get id.isSome_digest).symm

theorem decode_text (id : Identifier) :
    Base64.decode Base64.urlSafe (Utf8.ofString id.text) = .ok id.digest ∧
      id.digest.length = 32 := by
  have hsome := id.digestOfText?_eq_some
  rw [digestOfText?, Option.filter_eq_some_iff] at hsome
  obtain ⟨hdecode, hlength⟩ := hsome
  unfold Base64.decode? at hdecode
  rcases h : Base64.decode Base64.urlSafe (Utf8.ofString id.text) with fault | bytes
  · rw [h] at hdecode
    cases hdecode
  · rw [h] at hdecode
    cases hdecode
    exact ⟨rfl, by simpa using hlength⟩

theorem text_eq (id : Identifier) : id.text = textOfDigest id.digest := by
  have h := Base64.encode_of_decode Base64.urlSafe_lawful id.decode_text.1
  rw [textOfDigest, Utf8.encode_injective h, String.ofList_toList]

theorem isBlank_symbol : ∀ n < 64, Text.isBlank (Base64.urlSafe.symbol n) = false := by decide

theorem not_blank (id : Identifier) : ∀ c ∈ id.text.toList, Text.isBlank c = false := by
  intro c hc
  rw [text_eq, textOfDigest, String.toList_ofList] at hc
  rcases Base64.mem_encode hc with rfl | ⟨n, hn, rfl⟩
  · decide
  · exact isBlank_symbol n hn

theorem parse_text (id : Identifier) : parse id.text = .ok id := by
  have htrim := Text.trim_of_not_blank id.not_blank
  simp only [parse, htrim, id.isSome_digest, dite_true]

/-! ## One text for each digest -/

/-- A text of forty-three symbols of the alphabet that is safe in a locator and one fill character.
The last of the symbols has no bit set that no byte has a place for. -/
def IsDigestText (text : String) : Prop :=
  ∃ ns, Base64.Symbols 10 ns ∧ text = String.ofList (ns.map Base64.urlSafe.symbol ++ ['='])

/-- Such texts are those of thirty-two bytes. -/
theorem isDigestText_iff {text : String} :
    IsDigestText text ↔ ∃ d : Bytes, d.length = 32 ∧ text = textOfDigest d := by
  constructor
  · rintro ⟨ns, hns, rfl⟩
    obtain ⟨d, hd, hencode⟩ := Base64.exists_of_symbols Base64.urlSafe hns
    exact ⟨d, hd, by rw [textOfDigest, hencode]⟩
  · rintro ⟨d, hd, rfl⟩
    have hgroups : d.length = 3 * 10 + 2 := hd
    obtain ⟨ns, hns, hencode⟩ := Base64.exists_symbols Base64.urlSafe hgroups
    exact ⟨ns, hns, by rw [textOfDigest, hencode]⟩

/-- A text has a digest if and only if it is the text of that digest. -/
theorem digestOfText?_eq_some_iff {text : String} {d : Bytes} :
    digestOfText? text = some d ↔ d.length = 32 ∧ text = textOfDigest d := by
  constructor
  · intro h
    let id : Identifier := ⟨text, by rw [h]; rfl⟩
    have hd : id.digest = d := Option.some.inj (id.digestOfText?_eq_some.symm.trans h)
    rw [← hd]
    exact ⟨id.decode_text.2, id.text_eq⟩
  · rintro ⟨hd, rfl⟩
    exact digestOfText?_textOfDigest hd

theorem eq_iff_digest_eq {a b : Identifier} : a = b ↔ a.digest = b.digest := by
  constructor
  · rintro rfl
    rfl
  · intro h
    refine ext ?_
    rw [a.text_eq, b.text_eq, h]

theorem digest_derive (canonical : Bytes) : (derive canonical).digest = Sha256.digest canonical :=
  Option.some.inj ((digestOfText?_eq_some _).symm.trans
    (digestOfText?_textOfDigest (Sha256.length_digest canonical)))

theorem parse_eq_ok_iff {s : String} {id : Identifier} :
    parse s = .ok id ↔ id.text = Text.trim s := by
  simp only [parse]
  split
  · next h =>
    rw [Except.ok.injEq, Identifier.ext_iff, eq_comm]
  · next h =>
    constructor
    · rintro ⟨⟩
    · intro htext
      exact absurd (htext ▸ id.isSome_digest) h

theorem parse_eq_error_iff {s : String} {e : Failure} :
    parse s = .error e ↔ e = .invalidIdentifier (Text.trim s) ∧
      digestOfText? (Text.trim s) = none := by
  simp only [parse]
  split
  · next h => simp [Option.ne_none_iff_isSome.mpr h]
  · next h => simp [Option.not_isSome_iff_eq_none.mp h, eq_comm]

theorem refusal?_eq_none_iff {text : String} :
    field.refusal? text = none ↔ ∃ id, parse text = .ok id := by
  rcases h : parse text with e | id <;> simp [field, h]

/-- A document holds an identifier if and only if it holds a literal for a text that names it. -/
theorem ofJson_eq_ok_iff {doc : Bytes} {id : Identifier} :
    ofJson doc = .ok id ↔ ∃ a v text b, doc = a ++ (v ++ b) ∧ Json.AreSpaces a ∧
      Json.Form.text.Writes v text ∧ Json.AreSpaces b ∧ parse text = .ok id := by
  constructor
  · intro h
    obtain ⟨text, hread, hparse⟩ := exists_of_bind_eq_ok h
    obtain ⟨a, v, b, rfl, ha, ⟨hv, -⟩, hb⟩ := Json.Field.readDocument_eq_ok_iff.mp hread
    split at hparse
    · next id' hid =>
      cases hparse
      exact ⟨a, v, text, b, rfl, ha, hv, hb, hid⟩
    · cases hparse
  · rintro ⟨a, v, text, b, rfl, ha, hv, hb, hparse⟩
    have hread : field.readDocument (a ++ (v ++ b)) = .ok text :=
      Json.Field.readDocument_eq_ok_iff.mpr
        ⟨a, v, b, rfl, ha, ⟨hv, refusal?_eq_none_iff.mpr ⟨id, hparse⟩⟩, hb⟩
    simp only [ofJson, hread, bind, Except.bind, hparse, pure, Except.pure]

theorem ofJson_canonicalBytes (id : Identifier) : ofJson id.toJson.canonicalBytes = .ok id := by
  have hspells := Json.spells_escapeText id.text.toList
  have hliteral : id.toJson.canonicalBytes =
      0x22 :: (Utf8.encode (Json.escapeText id.text.toList) ++ [0x22]) := by
    simp [toJson, Json.Value.canonicalBytes, Json.Value.chars, Json.literal]
    rfl
  refine ofJson_eq_ok_iff.mpr ⟨[], id.toJson.canonicalBytes, id.text, [], by simp,
    Json.areSpaces_nil, ?_, Json.areSpaces_nil, id.parse_text⟩
  rw [hliteral]
  exact .literal hspells

/-- Identifiers are canonical. A text names an identifier if and only if it is, but for blanks
around it, the padded text of thirty-two bytes, and it then is the text of that identifier and those
are its digest. However an identifier was come by, its text has a digest, and its text and its JSON
name it again. Two identifiers are the same if and only if their digests are. -/
theorem text_canonical :
    (∀ (s : String) (id : Identifier), parse s = .ok id ↔ ∃ d : Bytes, d.length = 32 ∧
      Text.trim s = textOfDigest d ∧ id.text = Text.trim s ∧ digestOfText? id.text = some d) ∧
    (∀ (s : String) (e : Failure), parse s = .error e ↔
      e = .invalidIdentifier (Text.trim s) ∧
        ¬ ∃ d : Bytes, d.length = 32 ∧ Text.trim s = textOfDigest d) ∧
    (∀ text : String, (∃ d : Bytes, d.length = 32 ∧ text = textOfDigest d) ↔ IsDigestText text) ∧
    (∀ (doc : Bytes) (id : Identifier), ofJson doc = .ok id ↔ ∃ a v text b, doc = a ++ (v ++ b) ∧
      Json.AreSpaces a ∧ Json.Form.text.Writes v text ∧ Json.AreSpaces b ∧ parse text = .ok id) ∧
    (∀ id : Identifier, digestOfText? id.text = some id.digest ∧ parse id.text = .ok id ∧
      ofJson id.toJson.canonicalBytes = .ok id) ∧
    (∀ b : Bytes, (derive b).digest = Sha256.digest b) ∧
    ∀ a b : Identifier, a = b ↔ a.digest = b.digest := by
  refine ⟨fun s id => ?_, fun s e => ?_, fun text => isDigestText_iff.symm,
    fun doc id => ofJson_eq_ok_iff,
    fun id => ⟨id.digestOfText?_eq_some, id.parse_text, id.ofJson_canonicalBytes⟩, digest_derive,
    fun a b => eq_iff_digest_eq⟩
  · rw [parse_eq_ok_iff]
    constructor
    · intro htext
      refine ⟨id.digest, id.decode_text.2, ?_, htext, id.digestOfText?_eq_some⟩
      rw [← htext]
      exact id.text_eq
    · rintro ⟨d, -, -, htext, -⟩
      exact htext
  · rw [parse_eq_error_iff, Option.eq_none_iff_forall_ne_some]
    simp only [ne_eq, digestOfText?_eq_some_iff, not_exists]

end StorageProof.Identifier
