import StorageProof.Proofs.Agreement
import StorageProof.Proofs.Identifier
import StorageProof.Proofs.Json.Canonical

/-!
# An identifier binds its agreement

The preimage of an identifier is a canonical document, which determines every text in it. Two
agreements with one identifier are therefore the same agreement, or else a collision of the hash
function has been found.
-/

namespace StorageProof

/-- Two different preimages of one digest. -/
def Sha256.IsCollision (s t : Bytes) : Prop := s ≠ t ∧ Sha256.digest s = Sha256.digest t

namespace Agreement

/-- Canonical bytes are those of the members, in their fixed order. -/
theorem canonicalBytes_eq (a : Agreement) :
    a.canonicalBytes = (Json.objectOfTexts a.members).canonicalBytes := rfl

theorem name_injective : Function.Injective ProofKind.name := by
  intro k l h
  have hname := congrArg ProofKind.ofName? h
  rw [ProofKind.ofName?_name, ProofKind.ofName?_name] at hname
  exact Option.some.inj hname

theorem canonicalBytes_eq_iff (a b : Agreement) :
    a.canonicalBytes = b.canonicalBytes ↔
      a.locator = b.locator ∧ a.kind = b.kind ∧ a.publicInputs = b.publicInputs := by
  constructor
  · intro h
    have hmembers : a.members = b.members := Json.canonicalBytes_objectOfTexts_injective h
    simp only [members, List.cons.injEq, Prod.mk.injEq, true_and, and_true] at hmembers
    exact ⟨hmembers.1, name_injective hmembers.2.1, hmembers.2.2⟩
  · rintro ⟨hlocator, hkind, hinputs⟩
    rw [canonicalBytes_eq, canonicalBytes_eq, members, members, hlocator, hkind, hinputs]

theorem identifier_eq_iff_digest (a b : Agreement) :
    a.identifier = b.identifier ↔
      Sha256.digest a.canonicalBytes = Sha256.digest b.canonicalBytes := by
  rw [Identifier.eq_iff_digest_eq, identifier, identifier, Identifier.digest_derive,
    Identifier.digest_derive]

/-- Every agreement has an identifier, which is the padded text of the digest of its canonical bytes
and names the agreement again. Two identifiers are the same if and only if these digests are, which
is to say if and only if the agreements have every field in common or their canonical bytes are a
collision. Whatever texts stand under the keys of an object, its canonical bytes leave no doubt
about any of them. -/
theorem identifier_binds :
    (∀ a : Agreement, a.identifier.text = Identifier.textOfDigest (Sha256.digest a.canonicalBytes) ∧
      digestOfText? a.identifier.text = some (Sha256.digest a.canonicalBytes) ∧
      Identifier.parse a.identifier.text = .ok a.identifier) ∧
    (∀ a b : Agreement, (a.identifier = b.identifier ↔
        Sha256.digest a.canonicalBytes = Sha256.digest b.canonicalBytes) ∧
      (a.identifier = b.identifier ↔
        (a.locator = b.locator ∧ a.kind = b.kind ∧ a.publicInputs = b.publicInputs) ∨
          Sha256.IsCollision a.canonicalBytes b.canonicalBytes) ∧
      (a.canonicalBytes = b.canonicalBytes ↔
        a.locator = b.locator ∧ a.kind = b.kind ∧ a.publicInputs = b.publicInputs)) ∧
    Function.Injective fun members : List (String × String) =>
      (Json.objectOfTexts members).canonicalBytes := by
  refine ⟨fun a => ⟨rfl, ?_, a.identifier.parse_text⟩, fun a b => ?_,
    Json.canonicalBytes_objectOfTexts_injective⟩
  · exact Identifier.digestOfText?_textOfDigest (Sha256.length_digest a.canonicalBytes)
  · refine ⟨a.identifier_eq_iff_digest b, ?_, a.canonicalBytes_eq_iff b⟩
    rw [identifier_eq_iff_digest, ← canonicalBytes_eq_iff]
    constructor
    · intro hdigest
      by_cases hbytes : a.canonicalBytes = b.canonicalBytes
      · exact .inl hbytes
      · exact .inr ⟨hbytes, hdigest⟩
    · rintro (hbytes | ⟨-, hdigest⟩)
      · rw [hbytes]
      · exact hdigest

end Agreement

end StorageProof
