import StorageProof.Proofs.Agreement
import StorageProof.Proofs.Json.Presentation

/-!
# Presentations of an agreement

An agreement may be written as an object, with each of its three members once among any others, or
as an array of its three values. It is read from exactly these documents, and what it is named by
does not depend on the one that was chosen.
-/

namespace StorageProof.Agreement

open Json

/-- The values that members have under a key. -/
def valuesUnder (key : String) (members : List (String × Bytes)) : List Bytes :=
  (members.filter fun p => p.1 == key).map (·.2)

/-- The three values of an agreement: its locator and its public inputs as strings, and a name of
its scheme as a string or as an object with that one key and the value null. -/
inductive Values : Bytes → Bytes → Bytes → Agreement → Prop
  | intro {url kind inputs : Bytes} {locator name publicInputs : String} {k : ProofKind}
      (hurl : Form.text.Writes url locator) (hkind : Form.variant.Writes kind name)
      (hname : ProofKind.parse name = .ok k) (hinputs : Form.text.Writes inputs publicInputs) :
      Values url kind inputs ⟨locator, k, publicInputs⟩

inductive Presents : Bytes → Agreement → Prop
  | object {before t after url kind inputs : Bytes} {members : List (String × Bytes)}
      {a : Agreement}
      (hbefore : AreSpaces before) (ht : WritesMembers true t members) (hafter : AreSpaces after)
      (hurl : valuesUnder "Url" members = [url]) (hkind : valuesUnder "ProofType" members = [kind])
      (hinputs : valuesUnder "PublicInputs" members = [inputs]) (h : Values url kind inputs a) :
      Presents (before ++ 0x7B :: (t ++ after)) a
  | array {s₁ s₂ s₃ s₄ s₅ s₆ s₇ s₈ url kind inputs : Bytes} {a : Agreement} (h₁ : AreSpaces s₁)
      (h₂ : AreSpaces s₂) (h₃ : AreSpaces s₃) (h₄ : AreSpaces s₄) (h₅ : AreSpaces s₅)
      (h₆ : AreSpaces s₆) (h₇ : AreSpaces s₇) (h₈ : AreSpaces s₈) (h : Values url kind inputs a) :
      Presents (s₁ ++ 0x5B :: (s₂ ++ (url ++ (s₃ ++ 0x2C :: (s₄ ++ (kind ++ (s₅ ++ 0x2C ::
        (s₆ ++ (inputs ++ (s₇ ++ 0x5D :: s₈)))))))))) a

theorem parse_eq_ok_iff_ofName? {name : String} {k : ProofKind} :
    ProofKind.parse name = .ok k ↔ ProofKind.ofName? name = some k := by
  unfold ProofKind.parse
  split
  · next h => simp [h]
  · next h => simp [h]

theorem refusal?_eq_none_iff {name : String} :
    ProofKind.refusal? name = none ↔ ∃ k, ProofKind.ofName? name = some k := by
  unfold ProofKind.refusal?
  split
  · next h => simpa using Option.isSome_iff_exists.mp h
  · next h =>
    rw [Option.isSome_iff_exists] at h
    simp [h]

/-- What is read as the texts of an agreement. -/
theorem parse_eq_ok_iff_read {doc : Bytes} {a : Agreement} :
    parse doc = .ok a ↔ ∃ name, ProofKind.ofName? name = some a.kind ∧
      shape.read doc = .ok [a.locator, name, a.publicInputs] := by
  constructor
  · intro h
    unfold parse at h
    split at h
    · cases h
    next texts hread =>
    split at h
    · next a' htexts =>
      cases h
      unfold ofTexts? at htexts
      split at htexts
      · next locator name publicInputs =>
        obtain ⟨k, hk, rfl⟩ := Option.map_eq_some_iff.mp htexts
        exact ⟨name, hk, hread⟩
      · cases htexts
    · cases h
  · rintro ⟨name, hname, hread⟩
    simp only [parse, hread, ofTexts?, hname, Option.map_some]

theorem unambiguous_shape : Unambiguous shape.fields := by
  simp [Unambiguous, shape, Field.answersTo]

/-- The texts of an agreement are taken for its values. -/
theorem values_iff {url kind inputs : Bytes} {a : Agreement} :
    Values url kind inputs a ↔ ∃ name, ProofKind.ofName? name = some a.kind ∧
      shape.fields[0].Takes url a.locator ∧ shape.fields[1].Takes kind name ∧
      shape.fields[2].Takes inputs a.publicInputs := by
  constructor
  · rintro ⟨hurl, hkind, hname, hinputs⟩
    have hofName := parse_eq_ok_iff_ofName?.mp hname
    exact ⟨_, hofName, ⟨hurl, rfl⟩, ⟨hkind, refusal?_eq_none_iff.mpr ⟨_, hofName⟩⟩, ⟨hinputs, rfl⟩⟩
  · rintro ⟨name, hname, ⟨hurl, -⟩, ⟨hkind, -⟩, ⟨hinputs, -⟩⟩
    exact .intro hurl hkind (parse_eq_ok_iff_ofName?.mpr hname) hinputs

theorem valuesIn_eq_valuesUnder {f : Field} (h : f.aliases = []) (members : List (String × Bytes)) :
    f.valuesIn members = valuesUnder f.key members := by
  simp [Field.valuesIn, valuesUnder, Field.answersTo, h]

/-- The presentations of an agreement are those of its texts, with any name of its scheme. -/
theorem presents_iff {doc : Bytes} {a : Agreement} :
    Presents doc a ↔ ∃ name, ProofKind.ofName? name = some a.kind ∧
      shape.Presents doc [a.locator, name, a.publicInputs] := by
  have hunder (f : Field) (h : f.aliases = []) := valuesIn_eq_valuesUnder h
  constructor
  · rintro (⟨hbefore, ht, hafter, hurl, hkind, hinputs, h⟩ | ⟨h₁, h₂, h₃, h₄, h₅, h₆, h₇, h₈, h⟩)
    · obtain ⟨name, hname, hlocator, hscheme, hpublic⟩ := values_iff.mp h
      refine ⟨name, hname, .object hbefore ht hafter ?_⟩
      exact .cons ⟨_, (hunder _ rfl _).trans hurl, hlocator⟩
        (.cons ⟨_, (hunder _ rfl _).trans hkind, hscheme⟩
        (.cons ⟨_, (hunder _ rfl _).trans hinputs, hpublic⟩ .nil))
    · obtain ⟨name, hname, hlocator, hscheme, hpublic⟩ := values_iff.mp h
      have hitems : WritesItems true shape.fields _ _ := .cons .first h₂ hlocator
        (.cons (.comma h₃) h₄ hscheme (.cons (.comma h₅) h₆ hpublic .nil))
      have harray : shape.Presents _ _ := .array h₁ hitems h₇ h₈
      exact ⟨name, hname, by simpa using harray⟩
  · rintro ⟨name, hname, ⟨hbefore, ht, hafter, hg⟩ | ⟨h₁, ht, h₇, h₈⟩⟩
    · obtain _ | ⟨⟨url, hurl, hlocator⟩, hg⟩ := hg
      obtain _ | ⟨⟨kind, hkind, hscheme⟩, hg⟩ := hg
      obtain _ | ⟨⟨inputs, hinputs, hpublic⟩, -⟩ := hg
      exact .object hbefore ht hafter ((hunder _ rfl _).symm.trans hurl)
        ((hunder _ rfl _).symm.trans hkind) ((hunder _ rfl _).symm.trans hinputs)
        (values_iff.mpr ⟨name, hname, hlocator, hscheme, hpublic⟩)
    · obtain _ | ⟨⟨⟩, h₂, hlocator, ht⟩ := ht
      obtain _ | ⟨_ | ⟨h₃⟩, h₄, hscheme, ht⟩ := ht
      obtain _ | ⟨_ | ⟨h₅⟩, h₆, hpublic, ⟨⟩⟩ := ht
      have harray := Presents.array h₁ h₂ h₃ h₄ h₅ h₆ h₇ h₈
        (values_iff.mpr ⟨name, hname, hlocator, hscheme, hpublic⟩)
      simpa using harray

theorem parse_eq_ok_iff {doc : Bytes} {a : Agreement} : parse doc = .ok a ↔ Presents doc a := by
  simp only [parse_eq_ok_iff_read, presents_iff, Shape.read_eq_ok_iff unambiguous_shape]

theorem parse_error {doc : Bytes} {e : Failure} (h : parse doc = .error e) :
    ∃ reason, e = .malformedAgreement reason := by
  unfold parse at h
  split at h
  · cases h
    exact ⟨_, rfl⟩
  · split at h
    · cases h
    · cases h
      exact ⟨_, rfl⟩

/-- An agreement is read from exactly its presentations, and every other document is malformed. Two
presentations of the same fields are read alike, and are known by the same name. -/
theorem parse_presentation (doc : Bytes) :
    (∀ a, parse doc = .ok a ↔ Presents doc a) ∧
      ((∀ a, ¬ Presents doc a) → ∃ reason, parse doc = .error (.malformedAgreement reason)) ∧
      ∀ {doc' : Bytes} {a a' : Agreement}, Presents doc a → Presents doc' a' →
        a.locator = a'.locator → a.kind = a'.kind → a.publicInputs = a'.publicInputs →
        parse doc = parse doc' ∧ a.identifier = a'.identifier := by
  refine ⟨fun a => parse_eq_ok_iff, fun hnone => ?_, ?_⟩
  · rcases hparse : parse doc with e | a
    · obtain ⟨reason, rfl⟩ := parse_error hparse
      exact ⟨reason, rfl⟩
    · exact absurd (parse_eq_ok_iff.mp hparse) (hnone a)
  · intro doc' a a' h h' hlocator hkind hinputs
    have ha : a = a' := by
      cases a
      cases a'
      simp_all
    rw [ha, parse_eq_ok_iff.mpr h, parse_eq_ok_iff.mpr h', ha]
    exact ⟨rfl, rfl⟩

/-! ## Two presentations of one agreement -/

/-- An object with a member before those of the agreement, whose string no reader of texts would
take and whose number no double has, with an escape in the locator and the second name of the scheme
as an object. -/
def objectDocument : Bytes :=
  Utf8.ofString ("\x7b\"x\":[\x7b\"\\ud800\":1e400\x7d],\"PublicInputs\":\"p\"," ++
    "\"ProofType\":\x7b\"SsimMerkleZksnark\":null\x7d,\"Url\":\"\\u0061\"\x7d")

/-- An array of the same values, with the first name of the scheme. -/
def arrayDocument : Bytes := Utf8.ofString " [ \"a\",\"SsimZksnark\" ,\n\"p\"]"

/-- An object whose locator is given twice, once under an escaped key. -/
def repeatedDocument : Bytes :=
  Utf8.ofString ("\x7b\"Url\":\"a\",\"\\u0055rl\":\"a\",\"ProofType\":\"SsimZksnark\"," ++
    "\"PublicInputs\":\"p\"\x7d")

theorem presents_objectDocument : Presents objectDocument ⟨"a", .ssim, "p"⟩ := by
  have hwhole : IsWhole [0x31] := .digits rfl (by decide) (fun _ h => absurd h List.not_mem_nil)
  have hexponent : IsExponent [0x65, 0x34, 0x30, 0x30] :=
    .power (.inl rfl) (.inl rfl) rfl (by simp [AreDigits, isDigit])
  have hlarge : WellFormed .value [0x31, 0x65, 0x34, 0x30, 0x30] :=
    .scalar (.number (.intro hwhole .none hexponent))
  have hlone : IsLiteral (0x5C :: 0x75 :: ([0x64, 0x38, 0x30, 0x30] ++ [])) := .scalar rfl .nil
  have hinner := WellFormed.container (.item .first
    (.object areSpaces_nil hlone areSpaces_nil areSpaces_nil) hlarge
    (.close (c := .object) areSpaces_nil))
  have hextra := WellFormed.container (.item .first (.list areSpaces_nil) hinner
    (.close (c := .list) areSpaces_nil))
  have hescape : Spells (0x5C :: 0x75 :: ([0x30, 0x30, 0x36, 0x31] ++ []))
      (Utf8.encodeChar (Char.ofNat 0x61) ++ []) := .scalar rfl (by decide) .nil
  have hlocator : Form.text.Writes _ "a" := .literal hescape
  have hscheme : Form.variant.Writes _ "SsimMerkleZksnark" :=
    .object areSpaces_nil (spells_plain (by decide +kernel)) areSpaces_nil areSpaces_nil
      areSpaces_nil
  have hinputs : Form.text.Writes _ "p" := .literal (spells_plain (by decide +kernel))
  have hkey (key : String) (h : ∀ b ∈ Utf8.ofString key, isPlain b = true) : WritesKey _ key :=
    .intro areSpaces_nil (spells_plain h) areSpaces_nil areSpaces_nil
  have hcomma := Separates.comma areSpaces_nil
  have hmembers := WritesMembers.member .first (hkey "x" (by decide +kernel)) hextra
    (.member hcomma (hkey "PublicInputs" (by decide +kernel)) hinputs.wellFormed
    (.member hcomma (hkey "ProofType" (by decide +kernel)) hscheme.wellFormed
    (.member hcomma (hkey "Url" (by decide +kernel)) hlocator.wellFormed (.close areSpaces_nil))))
  have hpresents := Presents.object areSpaces_nil hmembers areSpaces_nil rfl rfl rfl
    (.intro hlocator hscheme rfl hinputs)
  exact hpresents

theorem presents_arrayDocument : Presents arrayDocument ⟨"a", .ssim, "p"⟩ := by
  have hspace : AreSpaces [0x20] := by simp [AreSpaces, isSpace]
  have hline : AreSpaces [0x0A] := by simp [AreSpaces, isSpace]
  have hwrites (form : Form) (text : String) (h : ∀ b ∈ Utf8.ofString text, isPlain b = true) :
      form.Writes _ text := .literal (spells_plain h)
  have hpresents := Presents.array hspace hspace areSpaces_nil areSpaces_nil hspace hline
    areSpaces_nil areSpaces_nil (.intro (hwrites .text "a" (by decide +kernel))
      (hwrites .variant "SsimZksnark" (by decide +kernel)) rfl
      (hwrites .text "p" (by decide +kernel)))
  exact hpresents

theorem parse_presentation_documents :
    parse objectDocument = .ok ⟨"a", .ssim, "p"⟩ ∧ parse objectDocument = parse arrayDocument ∧
      ∃ reason, parse repeatedDocument = .error (.malformedAgreement reason) := by
  have hrefused : (parse repeatedDocument).toOption = none := by decide +kernel
  refine ⟨((parse_presentation objectDocument).1 _).mpr presents_objectDocument,
    ((parse_presentation objectDocument).2.2 presents_objectDocument presents_arrayDocument
      rfl rfl rfl).1,
    (parse_presentation repeatedDocument).2.1 fun a ha => ?_⟩
  rw [((parse_presentation repeatedDocument).1 a).mpr ha] at hrefused
  cases hrefused

end StorageProof.Agreement
