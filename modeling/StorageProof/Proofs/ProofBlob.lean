import StorageProof.ProofBlob
import StorageProof.Proofs.Base64
import StorageProof.Proofs.Json.Document
import StorageProof.Proofs.Text.Blank

/-!
# Proofs on the wire

A proof is read back from its canonical text, whatever its bytes.
-/

namespace StorageProof

namespace Base64

theorem isBlank_standard : ∀ n < 64, Text.isBlank (standard.symbol n) = false := by decide

theorem not_blank_encode (bytes : Bytes) : ∀ c ∈ encode standard bytes, Text.isBlank c = false := by
  intro c hc
  rcases mem_encode hc with rfl | ⟨n, hn, rfl⟩
  · decide
  · exact isBlank_standard n hn

end Base64

namespace ProofBlob

/-- The text that stands for the bytes of a proof. -/
def base64 (p : ProofBlob) : String := String.ofList (Base64.encode Base64.standard p.bytes)

def members (p : ProofBlob) : List (String × String) := [("proof", p.base64)]

theorem decodeText_base64 (p : ProofBlob) : decodeText p.base64 = .ok p.bytes := by
  have htrim : Text.trim p.base64 = p.base64 := by
    refine Text.trim_of_not_blank ?_
    rw [base64, String.toList_ofList]
    exact Base64.not_blank_encode p.bytes
  rw [decodeText, htrim, base64, Utf8.ofString, String.toList_ofList,
    Base64.decode_encode Base64.standard_lawful]

theorem takes_members (p : ProofBlob) : ∃ slots : Json.Slots,
    Json.Takes shape.slots p.members slots ∧ slots.texts = .ok [p.base64] := by
  have hr : shape.fields[0].refusal? p.base64 = none := by
    simp only [shape, List.getElem_cons_zero, decodeText_base64]
  exact ⟨_, .cons (f := shape.fields[0]) rfl hr .nil, rfl⟩

theorem parse_error {doc : Bytes} {e : Failure} (h : parse doc = .error e) :
    ∃ reason, e = .malformedProof reason := by
  unfold parse at h
  split at h
  · cases h
    exact ⟨_, rfl⟩
  · split at h
    · cases h
    · cases h
      exact ⟨_, rfl⟩

/-- A proof is read from every way of writing its member. -/
theorem parse_of_spells {doc : Bytes} {p : ProofBlob} (h : Json.SpellsObject doc p.members) :
    parse doc = .ok p := by
  obtain ⟨slots, ht, hs⟩ := p.takes_members
  simp only [parse, Json.Shape.read_of_spells h ht hs, ofTexts?, decodeText_base64]
  rfl

theorem spells_canonicalBytes (p : ProofBlob) :
    Json.SpellsObject p.toJson.canonicalBytes p.members :=
  Json.spellsObject_canonical ("proof", p.base64) []

end ProofBlob

end StorageProof
