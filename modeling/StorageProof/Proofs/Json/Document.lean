import StorageProof.Json.Record
import StorageProof.Proofs.Json.Literal
import StorageProof.Proofs.Json.Presentation
import StorageProof.Proofs.Json.Space

/-!
# Documents of texts

An object of texts may be written with any white space between its tokens and with any spelling of
its literals. A record is read from every such document as it is from the canonical one: each member
fills the slot that its key names.
-/

namespace StorageProof.Json

inductive SpellsMember : Bytes → String × String → Prop
  | intro {key text : String} {k a b v : Bytes} (hk : Spells k (Utf8.ofString key))
      (ha : AreSpaces a)
      (hb : AreSpaces b) (hv : Spells v (Utf8.ofString text)) :
      SpellsMember (0x22 :: (k ++ 0x22 :: (a ++ 0x3A :: (b ++ 0x22 :: (v ++ [0x22]))))) (key, text)

/-- The members of an object of texts as they are written, with what stands around them in the
braces. -/
inductive SpellsMembers : Bytes → List (String × String) → Prop
  | single {a m b : Bytes} {p : String × String} (ha : AreSpaces a) (hm : SpellsMember m p)
      (hb : AreSpaces b) : SpellsMembers (a ++ (m ++ b)) [p]
  | cons {a m b rest : Bytes} {p : String × String} {ps : List (String × String)} (ha : AreSpaces a)
      (hm : SpellsMember m p) (hb : AreSpaces b) (h : SpellsMembers rest ps) :
      SpellsMembers (a ++ (m ++ (b ++ 0x2C :: rest))) (p :: ps)

/-- A document that holds an object of texts and nothing else. -/
inductive SpellsObject : Bytes → List (String × String) → Prop
  | intro {a body b : Bytes} {members : List (String × String)} (ha : AreSpaces a)
      (h : SpellsMembers body members) (hb : AreSpaces b) :
      SpellsObject (a ++ 0x7B :: (body ++ 0x7D :: b)) members

/-- White space may be added behind a document. -/
theorem SpellsObject.append_spaces {doc s : Bytes} {members : List (String × String)}
    (h : SpellsObject doc members) (hs : AreSpaces s) : SpellsObject (doc ++ s) members := by
  obtain @⟨a, body, b, _, ha, hm, hb⟩ := h
  rw [List.append_assoc, List.cons_append, List.append_assoc, List.cons_append]
  exact .intro ha hm (hb.append hs)

/-! ## Reading a record -/

/-- Slots take the members of an object, each for the slot that its key names and that is still
free. -/
inductive Takes : Slots → List (String × String) → Slots → Prop
  | nil {slots : Slots} : Takes slots [] slots
  | cons {slots slots' : Slots} {key text : String} {f : Field} {ps : List (String × String)}
      (hf : slots.find? key = some (f, none)) (hr : f.refusal? text = none)
      (h : Takes (slots.fill key text) ps slots') : Takes slots ((key, text) :: ps) slots'

/-- The value of a member of an object of texts is its literal. -/
theorem SpellsMember.exists_key {m : Bytes} {key text : String} (h : SpellsMember m (key, text)) :
    ∃ l w, m = l ++ (0x22 :: (w ++ [0x22])) ∧ Spells w (Utf8.ofString text) ∧
      ∀ {a : Bytes}, AreSpaces a → WritesKey (a ++ l) key := by
  obtain @⟨_, _, k, a, b, w, hk, ha, hb, hw⟩ := h
  refine ⟨0x22 :: (k ++ 0x22 :: (a ++ 0x3A :: b)), w, by simp, hw, fun hspaces => ?_⟩
  exact .intro hspaces hk ha hb

/-- The slots that take the texts of members take their literals, whether the members come first or
after a comma. -/
theorem SpellsMembers.exists_members {body : Bytes} {texts : List (String × String)}
    (h : SpellsMembers body texts) : ∃ members,
      (∀ {first : Bool} {s : Bytes}, Separates first s →
        WritesMembers first (s ++ (body ++ [0x7D])) members) ∧
      ∀ {slots slots' : Slots}, Takes slots texts slots' → slots.TakesAll members slots' := by
  induction h with
  | @single a m b p ha hm hb =>
    obtain ⟨key, text⟩ := p
    obtain ⟨l, w, rfl, hw, hl⟩ := hm.exists_key
    refine ⟨[(key, 0x22 :: (w ++ [0x22]))], fun hs => ?_, fun ht => ?_⟩
    · have hmembers := WritesMembers.member hs (hl ha) (.scalar (.text hw.isLiteral)) (.close hb)
      simpa using hmembers
    · obtain _ | ⟨hf, hr, ht⟩ := ht
      cases ht
      exact .cons (.known hf ⟨.literal hw, hr⟩) .nil
  | @cons a m b rest p ps ha hm hb _ ih =>
    obtain ⟨key, text⟩ := p
    obtain ⟨l, w, rfl, hw, hl⟩ := hm.exists_key
    obtain ⟨members, hmembers, htakes⟩ := ih
    refine ⟨(key, 0x22 :: (w ++ [0x22])) :: members, fun hs => ?_, fun ht => ?_⟩
    · have hmembers := WritesMembers.member hs (hl ha) (.scalar (.text hw.isLiteral))
        (hmembers (.comma hb))
      simpa using hmembers
    · obtain _ | ⟨hf, hr, ht⟩ := ht
      exact .cons (.known hf ⟨.literal hw, hr⟩) (htakes ht)

/-- A record is read from every document whose members its slots take. -/
theorem Shape.read_of_spells {shape : Shape} {doc : Bytes} {members : List (String × String)}
    {slots : Slots} {texts : List String} (h : SpellsObject doc members)
    (ht : Takes shape.slots members slots) (hs : slots.texts = .ok texts) :
    shape.read doc = .ok texts := by
  obtain @⟨a, body, b, _, ha, hm, hb⟩ := h
  obtain ⟨raw, hraw, htakes⟩ := hm.exists_members
  exact read_eq_ok_iff_writes.mpr
    ⟨a, 0x7B :: (body ++ [0x7D]), b, by simp, ha, .object (hraw .first) (htakes ht) hs, hb⟩

/-! ## Canonical documents -/

theorem encode_literal (s : String) :
    Utf8.encode (literal s) = 0x22 :: (Utf8.encode (escapeText s.toList) ++ [0x22]) := by
  simp only [literal, Utf8.encode_append, Utf8.encode_cons, Utf8.encode_nil, List.cons_append]
  rfl

theorem Value.ofString_canonical (v : Value) : Utf8.ofString v.canonical = v.canonicalBytes := by
  rw [Utf8.ofString, canonical, String.toList_ofList]
  rfl

def objectOfTexts (members : List (String × String)) : Value :=
  .object (members.map fun p => (p.1, .text p.2))

theorem spellsMember_canonical (p : String × String) :
    SpellsMember (Utf8.encode (literal p.1 ++ ':' :: literal p.2)) p := by
  have h := SpellsMember.intro (spells_escapeText p.1.toList) areSpaces_nil areSpaces_nil
    (spells_escapeText p.2.toList)
  have henc : Utf8.encode (literal p.1 ++ ':' :: literal p.2) =
      0x22 :: (Utf8.encode (escapeText p.1.toList) ++ 0x22 :: ([] ++ 0x3A :: ([] ++ 0x22 ::
        (Utf8.encode (escapeText p.2.toList) ++ [0x22])))) := by
    simp only [literal, Utf8.encode_append, Utf8.encode_cons, Utf8.encode_nil, List.append_assoc,
      List.cons_append, List.nil_append]
    rfl
  rw [henc]
  exact h

theorem spellsMembers_canonical (p : String × String) (ps : List (String × String)) :
    SpellsMembers (Utf8.encode (memberChars ((p :: ps).map fun p => (p.1, .text p.2))))
      (p :: ps) := by
  induction ps generalizing p with
  | nil =>
    have h := SpellsMembers.single areSpaces_nil (spellsMember_canonical p) areSpaces_nil
    rw [List.append_nil] at h
    exact h
  | cons q qs ih =>
    have h := SpellsMembers.cons areSpaces_nil (spellsMember_canonical p) areSpaces_nil (ih q)
    have henc : Utf8.encode (memberChars ((p :: q :: qs).map fun p => (p.1, .text p.2))) =
        [] ++ (Utf8.encode (literal p.1 ++ ':' :: literal p.2) ++ ([] ++ 0x2C ::
          Utf8.encode (memberChars ((q :: qs).map fun p => (p.1, .text p.2))))) := by
      simp only [List.map_cons, memberChars, Value.chars, Utf8.encode_append, Utf8.encode_cons,
        List.append_assoc, List.cons_append, List.nil_append]
      rfl
    rw [henc]
    exact h

/-- The canonical document of an object of texts is one of those it may be written as. -/
theorem spellsObject_canonical (p : String × String) (ps : List (String × String)) :
    SpellsObject (objectOfTexts (p :: ps)).canonicalBytes (p :: ps) := by
  have h := SpellsObject.intro areSpaces_nil (spellsMembers_canonical p ps) areSpaces_nil
  have henc : (objectOfTexts (p :: ps)).canonicalBytes =
      [] ++ 0x7B ::
        (Utf8.encode (memberChars ((p :: ps).map fun p => (p.1, .text p.2))) ++ 0x7D :: []) := by
    simp only [objectOfTexts, Value.canonicalBytes, Value.chars, Utf8.encode_append,
      Utf8.encode_cons,
      Utf8.encode_nil, List.cons_append, List.nil_append]
    rfl
  rw [henc]
  exact h

end StorageProof.Json
