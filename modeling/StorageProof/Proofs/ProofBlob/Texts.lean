import StorageProof.Proofs.Json.Canonical
import StorageProof.Proofs.ProofBlob

/-!
# The texts of proofs

An object that gives one text under the name of a proof, or under its alias, is read as what this
text stands for. But for blanks around it, a text stands for a proof if and only if it is the padded
Base64 text of the bytes, so that no proof has two texts.
-/

namespace StorageProof.ProofBlob

open Json

variable {doc : Bytes} {members : List (String × Bytes)} {text : String}

theorem unambiguous_shape : Unambiguous shape.fields := List.pairwise_singleton _ _

/-- A proof is read from the text that an object gives, whatever else is in the object. -/
theorem parse_of_givesText (h : WritesObject doc members)
    (ht : GivesText ["proof", "Proof"] members text) :
    parse doc = match decodeText text with
      | .ok bytes => .ok ⟨bytes⟩
      | .error fault => .error (.malformedProof s!"proof is not base64: {fault.message}") := by
  cases hdecode : decodeText text with
  | error fault =>
    have hrefused : shape.fields[0].refusal? text =
        some s!"proof is not base64: {fault.message}" := by
      simp only [shape, List.getElem_cons_zero, hdecode]
    have hread : shape.read doc = .error (.refused s!"proof is not base64: {fault.message}") :=
      h.read_refused_single (f := shape.fields[0]) rfl rfl ht hrefused
    rw [parse, hread]
    rfl
  | ok bytes =>
    have hrefusal : shape.fields[0].refusal? text = none := by
      simp only [shape, List.getElem_cons_zero, hdecode]
    have hgiven : shape.fields[0].GivenIn members text :=
      (Field.givenIn_iff rfl).mpr ⟨ht, hrefusal⟩
    have hread : shape.read doc = .ok [text] :=
      (Shape.read_eq_ok_iff unambiguous_shape).mpr (h.presents_iff.mpr (.cons hgiven .nil))
    simp only [parse, hread, ofTexts?, hdecode]
    rfl

theorem parse_of_withholds (h : WritesObject doc members)
    (hwithheld : Withholds ["proof", "Proof"] members) :
    ∃ reason, parse doc = .error (.malformedProof reason) := by
  have hread := h.read_ne_ok unambiguous_shape (List.mem_singleton_self shape.fields[0]) rfl
    hwithheld
  cases htexts : shape.read doc with
  | ok texts => exact absurd htexts (hread texts)
  | error fault => exact ⟨fault.message, by rw [parse, htexts]⟩

theorem givesText_canonical (text : String) :
    ∃ members, WritesObject (objectOfTexts [("proof", text)]).canonicalBytes members ∧
      GivesText ["proof", "Proof"] members text :=
  ⟨_, writesObject_canonicalBytes _, _, rfl, writes_canonicalBytes_text text⟩

/-- A text stands for bytes if and only if, without blanks around it, it is their padded text. -/
theorem decodeText_eq_ok_iff {bytes : Bytes} :
    decodeText text = .ok bytes ↔ Text.trim text = base64 ⟨bytes⟩ := by
  constructor
  · intro h
    have hencode := Base64.encode_of_decode Base64.standard_lawful h
    rw [base64, Utf8.encode_injective hencode, String.ofList_toList]
  · intro h
    rw [decodeText, h, base64, Utf8.ofString, String.toList_ofList,
      Base64.decode_encode Base64.standard_lawful]

/-- A proof is read if and only if the text that the object gives is its padded text, but for blanks
around it. -/
theorem parse_eq_ok_iff (h : WritesObject doc members)
    (ht : GivesText ["proof", "Proof"] members text) {p : ProofBlob} :
    parse doc = .ok p ↔ Text.trim text = p.base64 := by
  obtain ⟨bytes⟩ := p
  rw [parse_of_givesText h ht, ← decodeText_eq_ok_iff]
  cases decodeText text <;> simp

/-- An object that gives one text for a proof is read as the proof whose padded Base64 text this is
without blanks around it, and is malformed if there is no such proof. No other text is accepted for
the same proof, and it is this text that is committed. -/
theorem accepted_text (h : WritesObject doc members)
    (ht : GivesText ["proof", "Proof"] members text) :
    (∀ p, parse doc = .ok p ↔ Text.trim text = p.base64) ∧
      ((∀ p : ProofBlob, Text.trim text ≠ p.base64) →
        ∃ reason, parse doc = .error (.malformedProof reason)) ∧
      (∀ {doc' members' text'}, WritesObject doc' members' →
        GivesText ["proof", "Proof"] members' text' → ∀ p, parse doc = .ok p →
        parse doc' = .ok p → Text.trim text' = Text.trim text) ∧
      ∀ p, parse doc = .ok p →
        p.canonical = (objectOfTexts [("proof", Text.trim text)]).canonical := by
  refine ⟨fun p => parse_eq_ok_iff h ht, fun hnone => ?_, fun h' ht' p hp hp' => ?_,
    fun p hp => ?_⟩
  · cases hparse : parse doc with
    | ok p => exact absurd ((parse_eq_ok_iff h ht).mp hparse) (hnone p)
    | error e =>
      obtain ⟨reason, rfl⟩ := parse_error hparse
      exact ⟨reason, rfl⟩
  · rw [(parse_eq_ok_iff h' ht').mp hp', (parse_eq_ok_iff h ht).mp hp]
  · rw [(parse_eq_ok_iff h ht).mp hp]
    rfl

/-- An object with a member before the proof, which has its second name, with an escape in it, and a
text with blanks around it. -/
def looseDocument : Bytes :=
  Utf8.ofString "\x7b\"x\":[ ] ,\"\\u0050roof\": \" AQI=\\n\"\x7d"

theorem looseDocument_givesText :
    ∃ members, WritesObject looseDocument members ∧
      GivesText ["proof", "Proof"] members " AQI=\n" := by
  have hspace : AreSpaces [0x20] := by simp [AreSpaces, isSpace]
  have hextra : WellFormed .value [0x5B, 0x20, 0x5D] := .container (c := .list) (.close hspace)
  have hname : Spells (0x5C :: 0x75 :: ([0x30, 0x30, 0x35, 0x30] ++ Utf8.ofString "roof"))
      (Utf8.encodeChar (Char.ofNat 0x50) ++ Utf8.ofString "roof") :=
    .scalar rfl (by decide) (spells_plain (by decide +kernel))
  have htext : Spells (Utf8.ofString " AQI=" ++ [0x5C, 0x6E]) (Utf8.ofString " AQI=" ++ [0x0A]) :=
    .plain_append (.short rfl .nil) (by decide +kernel)
  have hwrites : Form.text.Writes _ " AQI=\n" := .literal htext
  have hkey : WritesKey _ "Proof" := .intro areSpaces_nil hname areSpaces_nil hspace
  have hx : WritesKey _ "x" :=
    .intro areSpaces_nil (spells_plain (by decide +kernel)) areSpaces_nil areSpaces_nil
  have hmembers := WritesMembers.member .first hx hextra
    (.member (.comma hspace) hkey hwrites.wellFormed (.close areSpaces_nil))
  have hobject := WritesObject.intro areSpaces_nil hmembers areSpaces_nil
  exact ⟨_, hobject, _, rfl, hwrites⟩

theorem accepted_text_looseDocument :
    parse looseDocument = .ok ⟨[1, 2]⟩ ∧
      ∃ reason, parse (objectOfTexts [("proof", "AQI")]).canonicalBytes =
        .error (.malformedProof reason) := by
  obtain ⟨_, hloose, htext⟩ := looseDocument_givesText
  obtain ⟨_, hunpadded, htext'⟩ := givesText_canonical "AQI"
  have hrefused : (decodeText "AQI").toOption = none := by decide +kernel
  refine ⟨((accepted_text hloose htext).1 ⟨[1, 2]⟩).mpr (by decide +kernel),
    (accepted_text hunpadded htext').2.1 fun p hp => ?_⟩
  rw [decodeText_eq_ok_iff.mpr hp] at hrefused
  cases hrefused

end StorageProof.ProofBlob
