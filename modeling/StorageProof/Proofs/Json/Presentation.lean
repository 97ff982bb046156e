import StorageProof.Json.Record
import StorageProof.Proofs.Json.Members

/-!
# Presentations of a record

A record is read from an object with one member for each of its fields, in any order and among any
others, or from an array of its fields in their order. Nothing else is read as a record: the
documents that are read are exactly those that present one.
-/

namespace StorageProof.Json

/-! ## Fields in their order -/

/-- The values of fields in their order, from the first on or after another one, up to the last. -/
inductive WritesItems : Bool → List Field → Bytes → List String → Prop
  | nil {first : Bool} : WritesItems first [] [] []
  | cons {first : Bool} {f : Field} {fields : List Field} {s a v t : Bytes} {text : String}
      {texts : List String} (hs : Separates first s) (ha : AreSpaces a) (hv : f.Takes v text)
      (ht : WritesItems false fields t texts) :
      WritesItems first (f :: fields) (s ++ (a ++ (v ++ t))) (text :: texts)

theorem nextItem_ok {index : Nat} {s rest : Bytes} (h : nextItem index s = .ok (some rest)) :
    ∃ sep a, s = sep ++ (a ++ rest) ∧ Separates (index == 0) sep ∧ AreSpaces a := by
  unfold nextItem at h
  split at h
  · cases h
  next b more hs =>
  obtain ⟨a, ha, rfl⟩ := exists_of_skipSpace hs
  split at h
  · cases h
  split at h
  · next hindex =>
    cases h
    rw [hindex]
    exact ⟨[], a, rfl, .first, ha⟩
  next hindex =>
  split at h
  · next hb =>
    subst hb
    split at h
    · cases h
    next c more' hc =>
    obtain ⟨a', ha', rfl⟩ := exists_of_skipSpace hc
    split at h
    · cases h
    · cases h
      rw [beq_eq_false_iff_ne.mpr hindex]
      exact ⟨a ++ [0x2C], a', by simp, .comma ha, ha'⟩
  · cases h

theorem nextItem_append {index : Nat} {sep a v : Bytes} (hs : Separates (index == 0) sep)
    (ha : AreSpaces a) (hv : WellFormed .value v) (rest : Bytes) :
    nextItem index (sep ++ (a ++ (v ++ rest))) = .ok (some (v ++ rest)) := by
  obtain ⟨b, v', rfl, hspace, hb⟩ := hv.exists_cons
  rw [List.cons_append]
  generalize hfirst : (index == 0) = first at hs
  cases hs with
  | first =>
    simp only [List.nil_append, nextItem, skipSpace_token ha hspace, if_neg hb,
      if_pos (beq_iff_eq.mp hfirst)]
  | comma hc =>
    have hindex : index ≠ 0 := beq_eq_false_iff_ne.mp hfirst
    simp only [nextItem, List.append_assoc, List.singleton_append,
      skipSpace_token hc (show isSpace 0x2C = false by decide), skipSpace_token ha hspace,
      if_neg hb, if_neg hindex]
    rfl

theorem readItems_ok {shape : Shape} {index : Nat} {fields : List Field} {s rest : Bytes}
    {texts : List String} (h : readItems shape index fields s = .ok (texts, rest)) :
    ∃ t, s = t ++ rest ∧ WritesItems (index == 0) fields t texts := by
  induction fields generalizing index s texts with
  | nil =>
    cases h
    exact ⟨[], rfl, .nil⟩
  | cons f fields ih =>
    rw [readItems] at h
    split at h
    · cases h
    · cases h
    next s' hnext =>
    obtain ⟨⟨text, after⟩, hread, hafter⟩ := exists_of_bind_eq_ok h
    obtain ⟨⟨texts', rest'⟩, hitems, hrest⟩ := exists_of_bind_eq_ok hafter
    cases hrest
    obtain ⟨sep, a, rfl, hs, ha⟩ := nextItem_ok hnext
    obtain ⟨a', v, rfl, ha', hv⟩ := Field.read_eq_ok_iff.mp hread
    obtain ⟨t, rfl, ht⟩ := ih hitems
    exact ⟨sep ++ ((a ++ a') ++ (v ++ t)), by simp, .cons hs (ha.append ha') hv ht⟩

theorem readItems_append {shape : Shape} {index : Nat} {fields : List Field} {t : Bytes}
    {texts : List String} (h : WritesItems (index == 0) fields t texts) (rest : Bytes) :
    readItems shape index fields (t ++ rest) = .ok (texts, rest) := by
  induction fields generalizing index t texts with
  | nil =>
    cases h
    rfl
  | cons f fields ih =>
    obtain _ | @⟨_, _, _, sep, a, v, t, text, texts, hs, ha, hv, ht⟩ := h
    have hnext := nextItem_append hs ha hv.1.wellFormed (t ++ rest)
    have hread : f.read (v ++ (t ++ rest)) = .ok (text, t ++ rest) :=
      Field.read_eq_ok_iff.mpr ⟨[], v, rfl, areSpaces_nil, hv⟩
    have hitems : readItems shape (index + 1) fields (t ++ rest) = .ok (texts, rest) := ih ht
    simp only [List.append_assoc, readItems, hnext, hread, bind, Except.bind, hitems, pure,
      Except.pure]

theorem takeListEnd_eq_ok_iff {s rest : Bytes} :
    takeListEnd s = .ok rest ↔ ∃ a, AreSpaces a ∧ s = a ++ 0x5D :: rest := by
  constructor
  · intro h
    unfold takeListEnd at h
    split at h
    · cases h
    next b more hs =>
    obtain ⟨a, ha, rfl⟩ := exists_of_skipSpace hs
    split at h
    · next hb =>
      cases h
      exact ⟨a, ha, by rw [hb]⟩
    split at h
    · split at h
      · split at h <;> cases h
      · cases h
    · cases h
  · rintro ⟨a, ha, rfl⟩
    rw [takeListEnd, skipSpace_token ha (by decide)]
    rfl

/-! ## Records -/

/-- The values of a record: an object whose members the slots of the record take, or an array of its
fields. -/
inductive Shape.Writes (shape : Shape) : Bytes → List String → Prop
  | object {t : Bytes} {members : List (String × Bytes)} {slots : Slots} {texts : List String}
      (ht : WritesMembers true t members) (hs : shape.slots.TakesAll members slots)
      (htexts : slots.texts = .ok texts) : shape.Writes (0x7B :: t) texts
  | array {t a : Bytes} {texts : List String} (ht : WritesItems true shape.fields t texts)
      (ha : AreSpaces a) : shape.Writes (0x5B :: (t ++ (a ++ [0x5D]))) texts

theorem Shape.readValue_eq_ok_iff {shape : Shape} {s rest : Bytes} {texts : List String} :
    shape.readValue s = .ok (texts, rest) ↔
      ∃ a v, s = a ++ (v ++ rest) ∧ AreSpaces a ∧ shape.Writes v texts := by
  constructor
  · intro h
    unfold readValue at h
    split at h
    · cases h
    next b more hs =>
    obtain ⟨a, ha, rfl⟩ := exists_of_skipSpace hs
    split at h
    · next hb =>
      obtain ⟨⟨slots, after⟩, hmembers, hafter⟩ := exists_of_bind_eq_ok h
      obtain ⟨texts', htexts, hrest⟩ := exists_of_bind_eq_ok hafter
      cases hrest
      obtain ⟨t, members, rfl, ht, htakes⟩ := readMembers_ok hmembers
      exact ⟨a, 0x7B :: t, by rw [hb]; rfl, ha, .object ht htakes htexts⟩
    split at h
    · next hb =>
      obtain ⟨⟨texts', after⟩, hitems, hafter⟩ := exists_of_bind_eq_ok h
      obtain ⟨after', hend, hrest⟩ := exists_of_bind_eq_ok hafter
      cases hrest
      obtain ⟨t, rfl, ht⟩ := readItems_ok hitems
      obtain ⟨a', ha', rfl⟩ := takeListEnd_eq_ok_iff.mp (orFault_eq_ok.mp hend)
      exact ⟨a, 0x5B :: (t ++ (a' ++ [0x5D])), by simp [hb], ha, .array ht ha'⟩
    · exact absurd h wrongType_ne_ok
  · rintro ⟨a, v, rfl, ha, hv⟩
    cases hv with
    | object ht htakes htexts =>
      rw [readValue, List.cons_append, skipSpace_token ha (by decide)]
      simp only [if_true, ht.readMembers htakes, bind, Except.bind, htexts, pure, Except.pure]
    | @array t a' _ ht ha' =>
      have hfirst : WritesItems (0 == 0) shape.fields t texts := ht
      have hitems := @readItems_append shape 0 _ _ _ hfirst (a' ++ 0x5D :: rest)
      have hend : takeListEnd (a' ++ 0x5D :: rest) = .ok rest :=
        takeListEnd_eq_ok_iff.mpr ⟨a', ha', rfl⟩
      have hlist : ¬ (0x5B : UInt8) = 0x7B := by decide
      rw [readValue, List.cons_append, skipSpace_token ha (by decide)]
      simp only [if_neg hlist, if_true, List.append_assoc, List.singleton_append, hitems, bind,
        Except.bind, hend, orFault, pure, Except.pure]

/-- A document is read as a record if and only if it is one of its values between white space. -/
theorem Shape.read_eq_ok_iff_writes {shape : Shape} {s : Bytes} {texts : List String} :
    shape.read s = .ok texts ↔
      ∃ a v b, s = a ++ (v ++ b) ∧ AreSpaces a ∧ shape.Writes v texts ∧ AreSpaces b := by
  constructor
  · intro h
    obtain ⟨⟨texts', rest⟩, hvalue, hafter⟩ := exists_of_bind_eq_ok h
    obtain ⟨⟨⟩, hend, hrest⟩ := exists_of_bind_eq_ok hafter
    cases hrest
    obtain ⟨a, v, rfl, ha, hv⟩ := readValue_eq_ok_iff.mp hvalue
    exact ⟨a, v, rest, rfl, ha, hv, takeEnd_eq_ok_iff.mp (orFault_eq_ok.mp hend)⟩
  · rintro ⟨a, v, b, rfl, ha, hv, hb⟩
    have hvalue : shape.readValue (a ++ (v ++ b)) = .ok (texts, b) :=
      readValue_eq_ok_iff.mpr ⟨a, v, rfl, ha, hv⟩
    simp only [read, hvalue, takeEnd_eq_ok_iff.mpr hb, bind, Except.bind, orFault, pure,
      Except.pure]

/-- The documents that present a record: an object with one member for each field among any others,
or an array of the fields in their order, between white space. -/
inductive Shape.Presents (shape : Shape) : Bytes → List String → Prop
  | object {a t b : Bytes} {members : List (String × Bytes)} {texts : List String}
      (ha : AreSpaces a) (ht : WritesMembers true t members) (hb : AreSpaces b)
      (hg : List.Forall₂ (fun f text => f.GivenIn members text) shape.fields texts) :
      shape.Presents (a ++ 0x7B :: (t ++ b)) texts
  | array {a t b c : Bytes} {texts : List String} (ha : AreSpaces a)
      (ht : WritesItems true shape.fields t texts) (hb : AreSpaces b) (hc : AreSpaces c) :
      shape.Presents (a ++ 0x5B :: (t ++ (b ++ 0x5D :: c))) texts

/-- The slots of a record that are free take members for its texts if and only if the members give
each field its text once. -/
theorem Shape.exists_takesAll_iff {shape : Shape} (hu : Unambiguous shape.fields)
    {members : List (String × Bytes)} {texts : List String} :
    (∃ slots, shape.slots.TakesAll members slots ∧ slots.texts = .ok texts) ↔
      List.Forall₂ (fun f text => f.GivenIn members text) shape.fields texts := by
  have hfields : shape.slots.map (·.1) = shape.fields := by simp [slots, Function.comp_def]
  rw [Json.exists_takesAll_iff (by rwa [hfields]), slots, List.forall₂_map_left_iff]
  rfl

/-- A record whose keys each name one field is read from exactly the documents that present it. -/
theorem Shape.read_eq_ok_iff {shape : Shape} (hu : Unambiguous shape.fields) {s : Bytes}
    {texts : List String} : shape.read s = .ok texts ↔ shape.Presents s texts := by
  rw [read_eq_ok_iff_writes]
  constructor
  · rintro ⟨a, v, b, rfl, ha, hv, hb⟩
    cases hv with
    | object ht htakes htexts =>
      exact .object ha ht hb ((exists_takesAll_iff hu).mp ⟨_, htakes, htexts⟩)
    | array ht hb' =>
      simp only [List.cons_append, List.append_assoc, List.nil_append]
      exact .array ha ht hb' hb
  · rintro (⟨ha, ht, hb, hg⟩ | ⟨ha, ht, hb, hc⟩)
    · obtain ⟨slots, htakes, htexts⟩ := (exists_takesAll_iff hu).mpr hg
      exact ⟨_, _, _, rfl, ha, .object ht htakes htexts, hb⟩
    · exact ⟨_, _, _, by simp, ha, .array ht hb, hc⟩

end StorageProof.Json
