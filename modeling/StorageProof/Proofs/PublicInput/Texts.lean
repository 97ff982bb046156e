import StorageProof.Proofs.Json.Canonical
import StorageProof.Proofs.PublicInput

/-!
# The texts of public inputs

An object that gives one text for each of the three fields, under their names or their aliases, is
read as these texts if all of them are hexadecimal, and is malformed for the first that is not. What
is read is therefore written and read again without loss.
-/

namespace StorageProof

namespace Hex

/-- The digits of either case. -/
def digitChars : List Char := "0123456789abcdefABCDEF".toList

/-- A text with an even number of bytes and no characters but hexadecimal digits. -/
def IsHexText (text : String) : Prop :=
  (Utf8.ofString text).length % 2 = 0 ∧ ∀ c ∈ text.toList, c ∈ digitChars

instance (text : String) : Decidable (IsHexText text) :=
  inferInstanceAs (Decidable (_ ∧ ∀ c ∈ text.toList, c ∈ digitChars))

theorem isSome_hexValue?_iff {c : Char} : (Text.hexValue? c.toNat).isSome ↔ c ∈ digitChars := by
  have hascii : (List.range 0x80).all (fun n =>
      (Text.hexValue? n).isSome == digitChars.contains (Char.ofNat n)) = true := by decide +kernel
  have hdigits : digitChars.all (fun d => decide (d.toNat < 0x80)) = true := by decide +kernel
  by_cases hc : c.toNat < 0x80
  · have hsame := List.all_eq_true.mp hascii c.toNat (List.mem_range.mpr hc)
    rw [beq_iff_eq, Char.ofNat_toNat] at hsame
    rw [hsame, List.contains_iff_mem]
  · refine iff_of_false (fun h => hc (lt_of_isSome_hexValue? h)) fun h => hc ?_
    simpa using List.all_eq_true.mp hdigits c h

theorem isHexText_iff {text : String} : IsHexText text ↔ IsHex text := by
  have hdigits : (∀ c ∈ text.toList, c ∈ digitChars) ↔
      ∀ c ∈ text.toList, (Text.hexValue? c.toNat).isSome :=
    forall₂_congr fun _ _ => isSome_hexValue?_iff.symm
  have hlength (h : ∀ c ∈ text.toList, (Text.hexValue? c.toNat).isSome) :
      (Utf8.ofString text).length = text.toList.length := by
    rw [Utf8.ofString, encode_digits h, List.length_map]
  constructor
  · rintro ⟨heven, hchars⟩
    have hchars := hdigits.mp hchars
    exact ⟨hlength hchars ▸ heven, hchars⟩
  · rintro ⟨heven, hchars⟩
    exact ⟨(hlength hchars).symm ▸ heven, hdigits.mpr hchars⟩

/-- Hexadecimal texts are decoded, and no others. -/
theorem exists_decode_iff {text : String} :
    (∃ bytes, decode (Utf8.ofString text) = .ok bytes) ↔ IsHexText text := by
  rw [isHexText_iff]
  exact ⟨fun ⟨_, h⟩ => isHex_of_decode h, IsHex.exists_decode⟩

end Hex

namespace PublicInput

open Json

variable {doc : Bytes} {members : List (String × Bytes)} {leaf root path : String}

/-! ## The fields that are checked -/

theorem checkHex_eq_ok {texts : List (String × String)} (h : ∀ m ∈ texts, Hex.IsHexText m.2) :
    checkHex texts = .ok () := by
  induction texts with
  | nil => rfl
  | cons m texts ih =>
    obtain ⟨hm, htexts⟩ := List.forall_mem_cons.mp h
    obtain ⟨bytes, hdecode⟩ := Hex.exists_decode_iff.mpr hm
    obtain ⟨name, text⟩ := m
    simp only [checkHex, hdecode, ih htexts]

/-- The first text that is not hexadecimal is the one that is blamed. -/
theorem checkHex_eq_error {texts : List (String × String)} {m : String × String}
    (h : texts.find? (fun m => !decide (Hex.IsHexText m.2)) = some m) :
    ∃ fault, Hex.decode (Utf8.ofString m.2) = .error fault ∧
      checkHex texts = .error (.malformedPublicInput s!"{m.1}: {fault.message}") := by
  induction texts with
  | nil => cases h
  | cons o texts ih =>
    obtain ⟨name, text⟩ := o
    by_cases ho : Hex.IsHexText text
    · obtain ⟨bytes, hdecode⟩ := Hex.exists_decode_iff.mpr ho
      rw [List.find?_cons_of_neg (by simpa using ho)] at h
      obtain ⟨fault, hfault, hcheck⟩ := ih h
      exact ⟨fault, hfault, by simp only [checkHex, hdecode, hcheck]⟩
    · rw [List.find?_cons_of_pos (by simpa using ho)] at h
      cases h
      cases hdecode : Hex.decode (Utf8.ofString text) with
      | ok bytes => exact absurd (Hex.exists_decode_iff.mp ⟨bytes, hdecode⟩) ho
      | error fault => exact ⟨fault, rfl, by rw [checkHex, hdecode]⟩

theorem exists_find?_of_not {texts : List (String × String)}
    (h : ¬ ∀ m ∈ texts, Hex.IsHexText m.2) :
    ∃ m, texts.find? (fun m => !decide (Hex.IsHexText m.2)) = some m := by
  rw [← Option.isSome_iff_exists, List.find?_isSome]
  push Not at h
  simpa using h

/-! ## Objects that give the fields -/

theorem unambiguous_shape : Unambiguous shape.fields := by
  simp [Unambiguous, shape, Field.answersTo]

/-- A public input is read from the texts that an object gives, whatever else is in the object. -/
theorem parse_of_givesText (h : WritesObject doc members)
    (hleaf : GivesText ["leaf", "Leaf"] members leaf)
    (hroot : GivesText ["root", "Root"] members root)
    (hpath : GivesText ["auth_path", "Path"] members path) :
    parse doc =
      (checkHex (PublicInput.mk leaf root path).members).map fun _ => ⟨leaf, root, path⟩ := by
  have hgiven : List.Forall₂ (fun f text => f.GivenIn members text) shape.fields
      [leaf, root, path] :=
    .cons ((Field.givenIn_iff rfl).mpr ⟨hleaf, rfl⟩)
      (.cons ((Field.givenIn_iff rfl).mpr ⟨hroot, rfl⟩)
      (.cons ((Field.givenIn_iff rfl).mpr ⟨hpath, rfl⟩) .nil))
  have hread : shape.read doc = .ok [leaf, root, path] :=
    (Shape.read_eq_ok_iff unambiguous_shape).mpr (h.presents_iff.mpr hgiven)
  rw [parse, hread]
  simp only [ofTexts]
  cases checkHex (PublicInput.mk leaf root path).members <;> rfl

/-- No public input is read from an object that withholds one of its texts. -/
theorem parse_of_withholds (h : WritesObject doc members) {names : List String}
    (hnames : names ∈ [["leaf", "Leaf"], ["root", "Root"], ["auth_path", "Path"]])
    (hwithheld : Withholds names members) :
    ∃ reason, parse doc = .error (.malformedPublicInput reason) := by
  obtain ⟨f, hf, hform, rfl⟩ : ∃ f ∈ shape.fields, f.form = .text ∧ f.key :: f.aliases = names := by
    simp only [List.mem_cons, List.not_mem_nil, or_false] at hnames
    rcases hnames with rfl | rfl | rfl
    · exact ⟨shape.fields[0], List.getElem_mem _, rfl, rfl⟩
    · exact ⟨shape.fields[1], List.getElem_mem _, rfl, rfl⟩
    · exact ⟨shape.fields[2], List.getElem_mem _, rfl, rfl⟩
  have hread := h.read_ne_ok unambiguous_shape hf hform hwithheld
  cases htexts : shape.read doc with
  | ok texts => exact absurd htexts (hread texts)
  | error fault => exact ⟨fault.message, by rw [parse, htexts]⟩

theorem givesText_canonical (p : PublicInput) :
    ∃ members, WritesObject p.toJson.canonicalBytes members ∧
      GivesText ["leaf", "Leaf"] members p.leaf ∧ GivesText ["root", "Root"] members p.root ∧
      GivesText ["auth_path", "Path"] members p.path :=
  ⟨_, writesObject_canonicalBytes _, ⟨_, rfl, writes_canonicalBytes_text p.leaf⟩,
    ⟨_, rfl, writes_canonicalBytes_text p.root⟩, ⟨_, rfl, writes_canonicalBytes_text p.path⟩⟩

/-! ## What is read is written without loss -/

theorem parse_canonical (p : PublicInput) :
    parse (Utf8.ofString p.toJson.canonical) = (checkHex p.members).map fun _ => p := by
  obtain ⟨_, hcanonical, hleaf, hroot, hpath⟩ := p.givesText_canonical
  rw [p.toJson.ofString_canonical]
  exact parse_of_givesText hcanonical hleaf hroot hpath

theorem isHexText_of_parse {p : PublicInput} (h : parse doc = .ok p) :
    ∀ m ∈ p.members, Hex.IsHexText m.2 := by
  have hp := isHex_of_parse h
  simp only [PublicInput.members, List.forall_mem_cons, Hex.isHexText_iff]
  exact ⟨hp.leaf, hp.root, hp.path, List.forall_mem_nil _⟩

/-- A public input with any texts in its fields is read back from its canonical text, letter by
letter, if and only if all of them are hexadecimal; if not, the first that is not is blamed, by the
name of its field. From no document another one is read, so that what is read can be written again
for the proving engine. -/
theorem reads_back_iff_hexadecimal :
    (∀ p : PublicInput,
      (parse (Utf8.ofString p.toJson.canonical) = .ok p ↔ ∀ m ∈ p.members, Hex.IsHexText m.2) ∧
      ((¬ ∀ m ∈ p.members, Hex.IsHexText m.2) → ∃ m fault,
        p.members.find? (fun m => !decide (Hex.IsHexText m.2)) = some m ∧
        Hex.decode (Utf8.ofString m.2) = .error fault ∧
        parse (Utf8.ofString p.toJson.canonical) =
          .error (.malformedPublicInput s!"{m.1}: {fault.message}"))) ∧
    ∀ doc q, parse doc = .ok q →
      (∀ m ∈ q.members, Hex.IsHexText m.2) ∧ parse (Utf8.ofString q.toJson.canonical) = .ok q := by
  have hback {p : PublicInput} (h : ∀ m ∈ p.members, Hex.IsHexText m.2) :
      parse (Utf8.ofString p.toJson.canonical) = .ok p := by
    rw [parse_canonical, checkHex_eq_ok h]
    rfl
  refine ⟨fun p => ⟨⟨isHexText_of_parse, hback⟩, fun hnot => ?_⟩, fun doc q h => ?_⟩
  · obtain ⟨m, hm⟩ := exists_find?_of_not hnot
    obtain ⟨fault, hfault, hcheck⟩ := checkHex_eq_error hm
    refine ⟨m, fault, hm, hfault, ?_⟩
    rw [parse_canonical, hcheck]
    rfl
  · have hq := isHexText_of_parse h
    exact ⟨hq, hback hq⟩

end PublicInput

end StorageProof
