import StorageProof.Proofs.Json.Document
import StorageProof.PublicInput

/-!
# Public inputs on the wire

A public input whose fields are hexadecimal is read from every way of writing its members, with
white space behind it too, and none with other fields is ever read.
-/

namespace StorageProof

namespace Hex

/-- An even number of hexadecimal digits of either case. -/
structure IsHex (text : String) : Prop where
  even : text.toList.length % 2 = 0
  digits : ∀ c ∈ text.toList, (Text.hexValue? c.toNat).isSome

instance (text : String) : Decidable (IsHex text) :=
  decidable_of_iff
    (text.toList.length % 2 = 0 ∧ text.toList.all (fun c => (Text.hexValue? c.toNat).isSome) = true)
    ⟨fun h => ⟨h.1, List.all_eq_true.mp h.2⟩, fun h => ⟨h.even, List.all_eq_true.mpr h.digits⟩⟩

theorem lt_of_isSome_hexValue? {n : Nat} (h : (Text.hexValue? n).isSome) : n < 0x80 := by
  unfold Text.hexValue? at h
  split at h
  · omega
  split at h
  · omega
  split at h
  · omega
  · cases h

theorem encode_digits {cs : List Char} (h : ∀ c ∈ cs, (Text.hexValue? c.toNat).isSome) :
    Utf8.encode cs = cs.map fun c => c.toNat.toUInt8 :=
  Utf8.encode_ascii fun c hc => lt_of_isSome_hexValue? (h c hc)

theorem exists_decodePairs (position : Nat) (cs : List Char) (heven : cs.length % 2 = 0)
    (h : ∀ c ∈ cs, (Text.hexValue? c.toNat).isSome) :
    ∃ bytes, decodePairs position (cs.map fun c => c.toNat.toUInt8) = .ok bytes := by
  match cs with
  | [] => exact ⟨[], rfl⟩
  | [c] => simp at heven
  | c :: d :: rest =>
    have hc := h c (by simp)
    have hd := h d (by simp)
    have hrest : ∀ e ∈ rest, (Text.hexValue? e.toNat).isSome := fun e he => h e (by simp [he])
    have hrestEven : rest.length % 2 = 0 := by
      simp only [List.length_cons] at heven
      omega
    obtain ⟨bytes, hbytes⟩ := exists_decodePairs (position + 2) rest hrestEven hrest
    have hcn := Utf8.toNat_toUInt8 (Nat.lt_trans (lt_of_isSome_hexValue? hc) (by decide))
    have hdn := Utf8.toNat_toUInt8 (Nat.lt_trans (lt_of_isSome_hexValue? hd) (by decide))
    obtain ⟨high, hhigh⟩ := Option.isSome_iff_exists.mp hc
    obtain ⟨low, hlow⟩ := Option.isSome_iff_exists.mp hd
    refine ⟨(16 * high + low).toUInt8 :: bytes, ?_⟩
    simp only [List.map_cons, decodePairs, hcn, hdn, hhigh, hlow, hbytes, Except.map]

theorem IsHex.exists_decode {text : String} (h : IsHex text) :
    ∃ bytes, decode (Utf8.ofString text) = .ok bytes := by
  rw [Utf8.ofString, encode_digits h.digits, decode,
    if_neg (by rw [List.length_map, h.even]; decide)]
  exact exists_decodePairs 0 _ h.even h.digits

theorem digits_of_decodePairs {position : Nat} {s bytes : Bytes} (heven : s.length % 2 = 0)
    (h : decodePairs position s = .ok bytes) : ∀ b ∈ s, (Text.hexValue? b.toNat).isSome := by
  match s with
  | [] => simp
  | [b] => simp at heven
  | high :: low :: rest =>
    rw [decodePairs] at h
    cases hhigh : Text.hexValue? high.toNat with
    | none =>
      rw [hhigh] at h
      cases h
    | some m =>
      cases hlow : Text.hexValue? low.toNat with
      | none =>
        rw [hhigh, hlow] at h
        cases h
      | some n =>
        rw [hhigh, hlow] at h
        obtain ⟨decoded, hrest, -⟩ := map_eq_ok h
        have hrestEven : rest.length % 2 = 0 := by
          simp only [List.length_cons] at heven
          omega
        have ih := digits_of_decodePairs hrestEven hrest
        simpa only [List.forall_mem_cons, hhigh, hlow, Option.isSome_some, true_and] using ih

/-- A character that takes more than one byte begins with one that is no digit. -/
theorem lt_of_digits_encodeChar {c : Char}
    (h : ∀ b ∈ Utf8.encodeChar c, (Text.hexValue? b.toNat).isSome) : c.toNat < 0x80 := by
  by_contra hc
  obtain ⟨n, hn, hn', hmem⟩ : ∃ n, 0xC0 ≤ n ∧ n < 256 ∧ n.toUInt8 ∈ Utf8.encodeChar c := by
    have hrange := Utf8.scalar_range c
    unfold Utf8.encodeChar
    simp only [if_neg hc]
    by_cases htwo : c.toNat < 0x800
    · exact ⟨0xC0 + c.toNat / 0x40, by omega, by omega, by simp [htwo]⟩
    by_cases hthree : c.toNat < 0x10000
    · exact ⟨0xE0 + c.toNat / 0x1000, by omega, by omega, by simp [htwo, hthree]⟩
    · exact ⟨0xF0 + c.toNat / 0x40000, by omega, by omega, by simp [htwo, hthree]⟩
  have hlt := lt_of_isSome_hexValue? (h _ hmem)
  rw [Utf8.toNat_toUInt8 hn'] at hlt
  omega

theorem isHex_of_decode {text : String} {bytes : Bytes}
    (h : decode (Utf8.ofString text) = .ok bytes) : IsHex text := by
  unfold decode at h
  split at h
  · cases h
  next heven =>
  have hdigits := digits_of_decodePairs (by omega) h
  have hchars : ∀ c ∈ text.toList, (Text.hexValue? c.toNat).isSome := by
    intro c hc
    have hbytes : ∀ b ∈ Utf8.encodeChar c, (Text.hexValue? b.toNat).isSome :=
      fun b hb => hdigits b (List.mem_flatMap.mpr ⟨c, hc, hb⟩)
    have hlt := lt_of_digits_encodeChar hbytes
    have hmem : c.toNat.toUInt8 ∈ Utf8.encodeChar c := by
      rw [Utf8.encodeChar, if_pos hlt]
      exact List.mem_singleton_self _
    have hdigit := hbytes _ hmem
    rwa [Utf8.toNat_toUInt8 (Nat.lt_trans hlt (by decide))] at hdigit
  refine ⟨?_, hchars⟩
  rw [Utf8.ofString, encode_digits hchars, List.length_map] at heven
  omega

end Hex

namespace PublicInput

structure IsHex (p : PublicInput) : Prop where
  leaf : Hex.IsHex p.leaf
  root : Hex.IsHex p.root
  path : Hex.IsHex p.path

instance (p : PublicInput) : Decidable p.IsHex :=
  decidable_of_iff (Hex.IsHex p.leaf ∧ Hex.IsHex p.root ∧ Hex.IsHex p.path)
    ⟨fun h => ⟨h.1, h.2.1, h.2.2⟩, fun h => ⟨h.leaf, h.root, h.path⟩⟩

theorem IsHex.checkHex {p : PublicInput} (h : p.IsHex) : checkHex p.members = .ok () := by
  obtain ⟨_, hleaf⟩ := h.leaf.exists_decode
  obtain ⟨_, hroot⟩ := h.root.exists_decode
  obtain ⟨_, hpath⟩ := h.path.exists_decode
  simp only [members, PublicInput.checkHex, hleaf, hroot, hpath]

theorem isHex_of_checkHex {p : PublicInput} {u : Unit}
    (h : PublicInput.checkHex p.members = .ok u) : p.IsHex := by
  simp only [members, PublicInput.checkHex] at h
  split at h
  · cases h
  next hleaf =>
  split at h
  · cases h
  next hroot =>
  split at h
  · cases h
  next hpath =>
  exact ⟨Hex.isHex_of_decode hleaf, Hex.isHex_of_decode hroot, Hex.isHex_of_decode hpath⟩

theorem isHex_of_parse {doc : Bytes} {p : PublicInput} (h : parse doc = .ok p) : p.IsHex := by
  unfold parse at h
  split at h
  · cases h
  · simp only at h
    split at h
    · cases h
    next hcheck =>
    cases h
    exact isHex_of_checkHex hcheck

theorem takes_members (p : PublicInput) : ∃ slots : Json.Slots,
    Json.Takes shape.slots p.members slots ∧ slots.texts = .ok [p.leaf, p.root, p.path] :=
  ⟨_, .cons (f := shape.fields[0]) rfl rfl (.cons (f := shape.fields[1]) rfl rfl
    (.cons (f := shape.fields[2]) rfl rfl .nil)), rfl⟩

/-- A public input in hexadecimal is read from every way of writing its members. -/
theorem parse_of_spells {doc : Bytes} {p : PublicInput} (hp : p.IsHex)
    (h : Json.SpellsObject doc p.members) : parse doc = .ok p := by
  obtain ⟨slots, ht, hs⟩ := p.takes_members
  simp only [parse, Json.Shape.read_of_spells h ht hs, ofTexts, hp.checkHex]

theorem spells_canonicalBytes (p : PublicInput) :
    Json.SpellsObject p.toJson.canonicalBytes p.members :=
  Json.spellsObject_canonical ("leaf", p.leaf) [("root", p.root), ("auth_path", p.path)]

/-- What is printed as the canonical text of a public input, with white space behind it, is read as
that input once it has been decoded and encoded. -/
theorem parse_printed {p : PublicInput} (hp : p.IsHex) {s : Bytes} (hs : Json.AreSpaces s) :
    parse (Utf8.ofString (Utf8.lossy (p.toJson.canonicalBytes ++ s))) = .ok p := by
  obtain ⟨cs, rfl, -⟩ := hs.exists_encode
  have hbytes : Utf8.ofString (Utf8.lossy (p.toJson.canonicalBytes ++ Utf8.encode cs)) =
      p.toJson.canonicalBytes ++ Utf8.encode cs := by
    rw [Json.Value.canonicalBytes, ← Utf8.encode_append, Utf8.lossy_encode, Utf8.ofString,
      String.toList_ofList]
  rw [hbytes]
  exact parse_of_spells hp (p.spells_canonicalBytes.append_spaces hs)

end PublicInput

end StorageProof
