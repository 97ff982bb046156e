import StorageProof.Proofs.ProofBlob.Texts
import StorageProof.Proofs.PublicInput.Texts

/-!
# Presentations of proofs and of public inputs

Of an object that is read as a proof or as a public input, nothing counts but the texts that its
members give: not the white space, the order of the members or the escapes in their keys, and no
member under another key. A name and its alias are two names of one field, which must have one
member altogether.
-/

namespace StorageProof

open Json

/-- An object whose members give the text of a proof is read like the canonical object with this
text, and one whose members give the three texts of a public input like the canonical object with
these. An object is malformed that withholds a text: no member has a name of the field, or more than
one has, or the value of one that has is not a string. -/
theorem records_depend_on_members {doc : Bytes} {members : List (String × Bytes)}
    (h : WritesObject doc members) :
    (∀ text, GivesText ["proof", "Proof"] members text →
      ProofBlob.parse doc = ProofBlob.parse (objectOfTexts [("proof", text)]).canonicalBytes) ∧
    (∀ leaf root path, GivesText ["leaf", "Leaf"] members leaf →
      GivesText ["root", "Root"] members root → GivesText ["auth_path", "Path"] members path →
      PublicInput.parse doc =
        PublicInput.parse (PublicInput.mk leaf root path).toJson.canonicalBytes) ∧
    (Withholds ["proof", "Proof"] members →
      ∃ reason, ProofBlob.parse doc = .error (.malformedProof reason)) ∧
    ∀ names ∈ [["leaf", "Leaf"], ["root", "Root"], ["auth_path", "Path"]],
      Withholds names members →
      ∃ reason, PublicInput.parse doc = .error (.malformedPublicInput reason) := by
  refine ⟨fun text ht => ?_, fun leaf root path hleaf hroot hpath => ?_,
    ProofBlob.parse_of_withholds h, fun names hnames => PublicInput.parse_of_withholds h hnames⟩
  · obtain ⟨_, hcanonical, ht'⟩ := ProofBlob.givesText_canonical text
    rw [ProofBlob.parse_of_givesText h ht, ProofBlob.parse_of_givesText hcanonical ht']
  · obtain ⟨_, hcanonical, hleaf', hroot', hpath'⟩ :=
      (PublicInput.mk leaf root path).givesText_canonical
    rw [PublicInput.parse_of_givesText h hleaf hroot hpath,
      PublicInput.parse_of_givesText hcanonical hleaf' hroot' hpath']

/-- The members of a public input out of order and among others, with two aliases. -/
def mixedMembers : List (String × Value) :=
  [("Path", .text "00ff"), ("x", .array [.null]), ("root", .text "aB"), ("Leaf", .text "")]

/-- A proof that is no string, and a field of a public input under both of its names. -/
def faultyMembers : List (String × Value) :=
  [("Proof", .null), ("leaf", .text ""), ("Leaf", .text "")]

theorem records_depend_on_members_documents :
    ProofBlob.parse ProofBlob.looseDocument =
        ProofBlob.parse (objectOfTexts [("proof", " AQI=\n")]).canonicalBytes ∧
      PublicInput.parse (Value.object mixedMembers).canonicalBytes =
        PublicInput.parse (PublicInput.mk "" "aB" "00ff").toJson.canonicalBytes ∧
      (∃ reason, ProofBlob.parse (Value.object faultyMembers).canonicalBytes =
        .error (.malformedProof reason)) ∧
      ∃ reason, PublicInput.parse (Value.object faultyMembers).canonicalBytes =
        .error (.malformedPublicInput reason) := by
  obtain ⟨_, hloose, ht⟩ := ProofBlob.looseDocument_givesText
  have hmixed := writesObject_canonicalBytes mixedMembers
  have hfaulty := writesObject_canonicalBytes faultyMembers
  have hnull : ∀ text, ¬ Form.text.Writes Value.null.canonicalBytes text := by
    rintro text ⟨⟩
  refine ⟨(records_depend_on_members hloose).1 _ ht,
    (records_depend_on_members hmixed).2.1 _ _ _ ⟨_, rfl, writes_canonicalBytes_text _⟩
      ⟨_, rfl, writes_canonicalBytes_text _⟩ ⟨_, rfl, writes_canonicalBytes_text _⟩,
    (records_depend_on_members hfaulty).2.2.1 (.untyped (List.mem_singleton_self _) hnull),
    (records_depend_on_members hfaulty).2.2.2 ["leaf", "Leaf"] (by decide) (.repeated rfl)⟩

end StorageProof
