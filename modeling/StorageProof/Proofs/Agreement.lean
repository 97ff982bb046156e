import StorageProof.Agreement
import StorageProof.Proofs.Json.Document

/-!
# Agreements on the wire

An agreement is read back from its canonical bytes, and from every other way of writing the same
members. The canonical bytes therefore determine the agreement, whatever its texts hold.
-/

namespace StorageProof

namespace Agreement

def members (a : Agreement) : List (String × String) :=
  [("Url", a.locator), ("ProofType", a.kind.name), ("PublicInputs", a.publicInputs)]

theorem refusal?_name (k : ProofKind) : ProofKind.refusal? k.name = none := by
  rw [ProofKind.refusal?, ProofKind.ofName?_name]
  rfl

theorem takes_members (a : Agreement) : ∃ slots : Json.Slots,
    Json.Takes shape.slots a.members slots ∧ slots.texts =
      .ok [a.locator, a.kind.name, a.publicInputs] := by
  refine ⟨_, .cons (f := shape.fields[0]) rfl rfl
    (.cons (f := shape.fields[1]) rfl (refusal?_name a.kind)
    (.cons (f := shape.fields[2]) rfl rfl .nil)), rfl⟩

/-- An agreement is read from every way of writing its members. -/
theorem parse_of_spells {doc : Bytes} {a : Agreement} (h : Json.SpellsObject doc a.members) :
    parse doc = .ok a := by
  obtain ⟨slots, ht, hs⟩ := a.takes_members
  simp only [parse, Json.Shape.read_of_spells h ht hs, ofTexts?, ProofKind.ofName?_name,
    Option.map_some]

theorem spells_canonicalBytes (a : Agreement) : Json.SpellsObject a.canonicalBytes a.members :=
  Json.spellsObject_canonical ("Url", a.locator)
    [("ProofType", a.kind.name), ("PublicInputs", a.publicInputs)]

theorem parse_canonicalBytes (a : Agreement) : parse a.canonicalBytes = .ok a :=
  parse_of_spells a.spells_canonicalBytes

/-- An agreement is read back from its canonical bytes, so that no other agreement has the same
ones. What an identifier is derived from therefore determines the agreement. -/
theorem canonicalBytes_roundTrip (a : Agreement) :
    parse a.canonicalBytes = .ok a ∧
      ∀ b : Agreement, b.canonicalBytes = a.canonicalBytes → b = a := by
  refine ⟨a.parse_canonicalBytes, fun b h => ?_⟩
  have hb := b.parse_canonicalBytes
  rw [h, a.parse_canonicalBytes] at hb
  exact (Except.ok.inj hb).symm

end Agreement

end StorageProof
