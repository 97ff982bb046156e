import Mathlib.Data.List.Forall2
import StorageProof.Json.Record
import StorageProof.Proofs.Json.Field
import StorageProof.Proofs.Json.Grammar

/-!
# The members of a record

A record takes the members of an object one after the other: each for the field that its key names,
which must not have its text yet, and those of unknown keys for nothing. In the end every field has
its text if and only if exactly one member gives it.
-/

namespace StorageProof.Json

/-! ## Members as they are written -/

/-- What stands before the value of a member: its key and a colon, among white space. -/
inductive WritesKey : Bytes → String → Prop
  | intro {a k b c : Bytes} {key : String} (ha : AreSpaces a) (hk : Spells k (Utf8.ofString key))
      (hb : AreSpaces b) (hc : AreSpaces c) :
      WritesKey (a ++ 0x22 :: (k ++ 0x22 :: (b ++ 0x3A :: c))) key

/-- The members of an object by their keys and values, up to and with its end, from the first on or
after another member. -/
inductive WritesMembers : Bool → Bytes → List (String × Bytes) → Prop
  | close {first : Bool} {a : Bytes} (ha : AreSpaces a) : WritesMembers first (a ++ [0x7D]) []
  | member {first : Bool} {s l v t : Bytes} {key : String} {members : List (String × Bytes)}
      (hs : Separates first s) (hl : WritesKey l key) (hv : WellFormed .value v)
      (ht : WritesMembers false t members) :
      WritesMembers first (s ++ (l ++ (v ++ t))) ((key, v) :: members)

theorem WritesKey.leads {l : Bytes} {key : String} (h : WritesKey l key) : Leads .object l := by
  obtain ⟨ha, hk, hb, hc⟩ := h
  exact .object ha hk.isLiteral hb hc

/-- Members with texts for keys are the items of a well-formed object. -/
theorem WritesMembers.wellFormed {first : Bool} {t : Bytes} {members : List (String × Bytes)}
    (h : WritesMembers first t members) : WellFormed (.items .object first) t := by
  induction h with
  | close ha => exact .close (c := .object) ha
  | member hs hl hv _ ih => exact .item hs hl.leads hv ih

/-- Slots take a member: for the slot that its key names and that is still free, or for none. -/
inductive Slots.Takes (slots : Slots) (key : String) (v : Bytes) : Slots → Prop
  | known {f : Field} {text : String} (hf : slots.find? key = some (f, none))
      (hv : f.Takes v text) :
      Slots.Takes slots key v (slots.fill key text)
  | unknown (hf : slots.find? key = none) : Slots.Takes slots key v slots

/-- Slots take members one after the other. -/
inductive Slots.TakesAll : Slots → List (String × Bytes) → Slots → Prop
  | nil {slots : Slots} : Slots.TakesAll slots [] slots
  | cons {slots slots' slots'' : Slots} {key : String} {v : Bytes} {members : List (String × Bytes)}
      (h : slots.Takes key v slots') (ht : Slots.TakesAll slots' members slots'') :
      Slots.TakesAll slots ((key, v) :: members) slots''

theorem nextKey_done_iff {first : Bool} {s rest : Bytes} :
    nextKey first s = .ok (.done rest) ↔ ∃ a, AreSpaces a ∧ s = a ++ 0x7D :: rest := by
  constructor
  · intro h
    unfold nextKey at h
    split at h
    · cases h
    next b more hs =>
    obtain ⟨a, ha, rfl⟩ := exists_of_skipSpace hs
    split at h
    · next hb =>
      cases h
      exact ⟨a, ha, by rw [hb]⟩
    split at h
    · split at h <;> cases h
    split at h
    · split at h
      · cases h
      split at h
      · cases h
      split at h <;> cases h
    · cases h
  · rintro ⟨a, ha, rfl⟩
    rw [nextKey, skipSpace_token ha (by decide)]
    rfl

theorem nextKey_key_ok {first : Bool} {s rest : Bytes} (h : nextKey first s = .ok (.key rest)) :
    ∃ sep a, s = sep ++ (a ++ 0x22 :: rest) ∧ Separates first sep ∧ AreSpaces a := by
  unfold nextKey at h
  split at h
  · cases h
  next b more hs =>
  obtain ⟨a, ha, rfl⟩ := exists_of_skipSpace hs
  split at h
  · cases h
  split at h
  · next hfirst =>
    subst hfirst
    split at h
    · next hb =>
      cases h
      exact ⟨[], a, by rw [hb]; rfl, .first, ha⟩
    · cases h
  next hfirst =>
  rw [Bool.not_eq_true] at hfirst
  subst hfirst
  split at h
  · next hb =>
    subst hb
    split at h
    · cases h
    next c more' hc =>
    obtain ⟨a', ha', rfl⟩ := exists_of_skipSpace hc
    split at h
    · next hquote =>
      cases h
      exact ⟨a ++ [0x2C], a', by simp [hquote], .comma ha, ha'⟩
    · split at h <;> cases h
  · cases h

theorem nextKey_key_append {first : Bool} {sep a : Bytes} (hs : Separates first sep)
    (ha : AreSpaces a) (rest : Bytes) :
    nextKey first (sep ++ (a ++ 0x22 :: rest)) = .ok (.key rest) := by
  cases hs with
  | first =>
    rw [List.nil_append, nextKey, skipSpace_token ha (by decide)]
    rfl
  | comma hb =>
    simp only [nextKey, List.append_assoc, List.singleton_append,
      skipSpace_token hb (show isSpace 0x2C = false by decide),
      skipSpace_token ha (show isSpace 0x22 = false by decide)]
    rfl

theorem readMember_ok {slots slots' : Slots} {s rest : Bytes}
    (h : readMember slots s = .ok (slots', rest)) :
    ∃ k key b c v, s = k ++ 0x22 :: (b ++ 0x3A :: (c ++ (v ++ rest))) ∧
      Spells k (Utf8.ofString key) ∧ AreSpaces b ∧ AreSpaces c ∧ WellFormed .value v ∧
      slots.Takes key v slots' := by
  unfold readMember at h
  split at h
  · cases h
  next key after hkey =>
  obtain ⟨k, rfl, hk⟩ := readString_eq_ok_iff.mp hkey
  split at h
  · cases h
  · next f hf =>
    split at h
    · cases h
    next after' hcolon =>
    obtain ⟨b, hb, rfl⟩ := takeColon_eq_ok_iff.mp hcolon
    split at h
    · cases h
    next text _ hread =>
    cases h
    obtain ⟨c, v, rfl, hc, hv⟩ := Field.read_eq_ok_iff.mp hread
    exact ⟨k, key, b, c, v, rfl, hk, hb, hc, hv.1.wellFormed, .known hf hv⟩
  · next hf =>
    split at h
    · cases h
    next after' hcolon =>
    obtain ⟨b, hb, rfl⟩ := takeColon_eq_ok_iff.mp hcolon
    split at h
    · cases h
    next hskip =>
    cases h
    obtain ⟨c, v, rfl, hc, hv⟩ := skipValue_ok hskip
    exact ⟨k, key, b, c, v, rfl, hk, hb, hc, hv, .unknown hf⟩

theorem readMember_append {slots slots' : Slots} {k b c v rest : Bytes} {key : String}
    (h : slots.Takes key v slots') (hk : Spells k (Utf8.ofString key)) (hb : AreSpaces b)
    (hc : AreSpaces c) (hv : WellFormed .value v) (hrest : Detached rest) :
    readMember slots (k ++ 0x22 :: (b ++ 0x3A :: (c ++ (v ++ rest)))) = .ok (slots', rest) := by
  have hkey := readString_of_spells hk (b ++ 0x3A :: (c ++ (v ++ rest)))
  have hcolon : takeColon (b ++ 0x3A :: (c ++ (v ++ rest))) = .ok (c ++ (v ++ rest)) :=
    takeColon_eq_ok_iff.mpr ⟨b, hb, rfl⟩
  cases h with
  | @known f text hf htext =>
    have hread : f.read (c ++ (v ++ rest)) = .ok (text, rest) :=
      Field.read_eq_ok_iff.mpr ⟨c, v, rfl, hc, htext⟩
    simp only [readMember, hkey, hf, hcolon, hread]
  | unknown hf => simp only [readMember, hkey, hf, hcolon, skipValue_append hc hv hrest]

theorem readMembers_key {slots slots' : Slots} {first : Bool} {s rest rest' : Bytes}
    (hn : nextKey first s = .ok (.key rest)) (hm : readMember slots rest = .ok (slots', rest')) :
    readMembers slots first s = readMembers slots' false rest' := by
  rw [readMembers]
  split
  · next h =>
    rw [hn] at h
    cases h
  · next h =>
    rw [hn] at h
    cases h
  · next h =>
    rw [hn] at h
    cases h
    split
    · next h' =>
      rw [hm] at h'
      cases h'
    · next h' =>
      rw [hm] at h'
      cases h'
      rfl

theorem readMembers_done {slots : Slots} {first : Bool} {s rest : Bytes}
    (hn : nextKey first s = .ok (.done rest)) : readMembers slots first s = .ok (slots, rest) := by
  rw [readMembers]
  split
  · next h =>
    rw [hn] at h
    cases h
  · next h =>
    rw [hn] at h
    cases h
    rfl
  · next h =>
    rw [hn] at h
    cases h

theorem readMembers_ok {slots slots' : Slots} {first : Bool} {s rest : Bytes}
    (h : readMembers slots first s = .ok (slots', rest)) :
    ∃ t members, s = t ++ rest ∧ WritesMembers first t members ∧ slots.TakesAll members slots' := by
  fun_induction readMembers slots first s with
  | case1 => cases h
  | case2 slots first s rest' hn =>
    cases h
    obtain ⟨a, ha, rfl⟩ := nextKey_done_iff.mp hn
    exact ⟨a ++ [0x7D], [], by simp, .close ha, .nil⟩
  | case3 => cases h
  | case4 slots first s after hn slots'' after' hm ih =>
    obtain ⟨t, members, rfl, ht, htakes⟩ := ih h
    obtain ⟨sep, a, rfl, hs, ha⟩ := nextKey_key_ok hn
    obtain ⟨k, key, b, c, v, rfl, hk, hb, hc, hv, htake⟩ := readMember_ok hm
    exact ⟨_, (key, v) :: members, by simp, .member hs (.intro ha hk hb hc) hv ht,
      .cons htake htakes⟩

/-- What follows a member does not belong to its value. -/
theorem WritesMembers.detached {t : Bytes} {members : List (String × Bytes)}
    (h : WritesMembers false t members) (rest : Bytes) : Detached (t ++ rest) :=
  h.wellFormed.detached rest

theorem WritesMembers.readMembers {first : Bool} {t : Bytes} {members : List (String × Bytes)}
    (h : WritesMembers first t members) {slots slots' : Slots}
    (htakes : slots.TakesAll members slots') (rest : Bytes) :
    readMembers slots first (t ++ rest) = .ok (slots', rest) := by
  induction h generalizing slots with
  | close ha =>
    cases htakes
    rw [List.append_assoc, List.singleton_append]
    exact readMembers_done (nextKey_done_iff.mpr ⟨_, ha, rfl⟩)
  | member hs hl hv ht ih =>
    obtain ⟨ha, hk, hb, hc⟩ := hl
    obtain _ | ⟨htake, htakes⟩ := htakes
    have hmember := readMember_append htake hk hb hc hv (ht.detached rest)
    simp only [List.append_assoc, List.cons_append]
    rw [readMembers_key (nextKey_key_append hs ha _) hmember]
    exact ih htakes

/-! ## Each field once -/

/-- The values that members have under the names of a field. -/
def Field.valuesIn (f : Field) (members : List (String × Bytes)) : List Bytes :=
  (members.filter fun p => f.answersTo p.1).map (·.2)

/-- A field is given its text by one member, and by no other. -/
def Field.GivenIn (f : Field) (members : List (String × Bytes)) (text : String) : Prop :=
  ∃ v, f.valuesIn members = [v] ∧ f.Takes v text

/-- No key names two of the fields. -/
def Unambiguous (fields : List Field) : Prop :=
  fields.Pairwise fun f g => ∀ key, f.answersTo key = true → g.answersTo key = false

/-- What members do for a slot in the end: they leave its text, or give it one. -/
def SettledBy (members : List (String × Bytes)) (slot : Field × Option String) (text : String) :
    Prop :=
  match slot.2 with
  | some old => old = text ∧ slot.1.valuesIn members = []
  | none => slot.1.GivenIn members text

section Slots

variable {f : Field} {slots slots' : Slots} {key : String} {v : Bytes}
  {members : List (String × Bytes)} {texts : List String}

theorem Field.valuesIn_cons_of_not (h : f.answersTo key = false) :
    f.valuesIn ((key, v) :: members) = f.valuesIn members := by
  rw [valuesIn, List.filter_cons_of_neg (by simp [h]), valuesIn]

theorem Field.valuesIn_cons (h : f.answersTo key = true) :
    f.valuesIn ((key, v) :: members) = v :: f.valuesIn members := by
  rw [valuesIn, List.filter_cons_of_pos (by simpa using h), List.map_cons, valuesIn]

theorem settledBy_cons_of_not {old : Option String} {text : String}
    (h : f.answersTo key = false) :
    SettledBy ((key, v) :: members) (f, old) text ↔ SettledBy members (f, old) text := by
  cases old <;> simp only [SettledBy, Field.GivenIn, Field.valuesIn_cons_of_not h]

/-- A member that names none of the slots changes nothing. -/
theorem forall₂_settledBy_cons_of_not (h : ∀ slot ∈ slots, slot.1.answersTo key = false) :
    List.Forall₂ (SettledBy ((key, v) :: members)) slots texts ↔
      List.Forall₂ (SettledBy members) slots texts := by
  induction slots generalizing texts with
  | nil => simp
  | cons slot slots ih =>
    cases texts with
    | nil => simp
    | cons text texts =>
      obtain ⟨f, old⟩ := slot
      rw [List.forall₂_cons, List.forall₂_cons, settledBy_cons_of_not (h _ List.mem_cons_self),
        ih fun slot hslot => h slot (List.mem_cons_of_mem _ hslot)]

/-- A slot takes a member that names it if it is still free, and no later one. -/
theorem settledBy_cons_of_answersTo {old : Option String} {text : String}
    (h : f.answersTo key = true) :
    SettledBy ((key, v) :: members) (f, old) text ↔
      old = none ∧ f.Takes v text ∧ SettledBy members (f, some text) text := by
  cases old with
  | some old => simp [SettledBy, Field.valuesIn_cons h]
  | none =>
    simp only [SettledBy, Field.GivenIn, Field.valuesIn_cons h, List.cons.injEq, true_and]
    constructor
    · rintro ⟨_, ⟨rfl, hnone⟩, htake⟩
      exact ⟨htake, hnone⟩
    · rintro ⟨htake, hnone⟩
      exact ⟨v, ⟨rfl, hnone⟩, htake⟩

/-- A free slot that a key names takes the member. -/
theorem takes_cons_of_answersTo {old : Option String} (h : f.answersTo key = true) :
    Slots.Takes ((f, old) :: slots) key v slots' ↔
      old = none ∧ ∃ text, f.Takes v text ∧ slots' = (f, some text) :: slots := by
  have hfind : Slots.find? ((f, old) :: slots) key = some (f, old) := List.find?_cons_of_pos h
  have hfill (text : String) :
      Slots.fill key text ((f, old) :: slots) = (f, some text) :: slots := by
    rw [Slots.fill, if_pos h]
  constructor
  · rintro (⟨hf, hv⟩ | hf)
    · rw [hfind] at hf
      cases hf
      exact ⟨rfl, _, hv, hfill _⟩
    · rw [hfind] at hf
      cases hf
  · rintro ⟨rfl, text, hv, rfl⟩
    rw [← hfill text]
    exact .known hfind hv

/-- A slot that a key does not name stays as it is. -/
theorem takes_cons_of_not {old : Option String} (h : f.answersTo key = false) :
    Slots.Takes ((f, old) :: slots) key v slots' ↔
      ∃ rest, slots.Takes key v rest ∧ slots' = (f, old) :: rest := by
  have hfind : Slots.find? ((f, old) :: slots) key = slots.find? key :=
    List.find?_cons_of_neg (by simp [h])
  have hfill (text : String) :
      Slots.fill key text ((f, old) :: slots) = (f, old) :: slots.fill key text := by
    rw [Slots.fill, if_neg (by simp [h])]
  constructor
  · rintro (⟨hf, hv⟩ | hf)
    · rw [hfind] at hf
      exact ⟨_, .known hf hv, hfill _⟩
    · rw [hfind] at hf
      exact ⟨slots, .unknown hf, rfl⟩
  · rintro ⟨_, ⟨hf, hv⟩ | hf, rfl⟩
    · rw [← hfill]
      exact .known (hfind.trans hf) hv
    · exact .unknown (hfind.trans hf)

/-- The first of the members is taken for the slot that it names, if any. -/
theorem exists_takes_iff (hu : Unambiguous (slots.map (·.1))) :
    (∃ slots', slots.Takes key v slots' ∧ List.Forall₂ (SettledBy members) slots' texts) ↔
      List.Forall₂ (SettledBy ((key, v) :: members)) slots texts := by
  induction slots generalizing texts with
  | nil =>
    constructor
    · rintro ⟨_, ⟨hf, -⟩ | -, h⟩
      · cases hf
      · cases h
        exact .nil
    · rintro ⟨⟩
      exact ⟨[], .unknown rfl, .nil⟩
  | cons slot slots ih =>
    obtain ⟨f, old⟩ := slot
    rw [List.map_cons, Unambiguous, List.pairwise_cons] at hu
    obtain ⟨hf, hu⟩ := hu
    cases hkey : f.answersTo key with
    | true =>
      have hothers : ∀ slot ∈ slots, slot.1.answersTo key = false := fun slot hslot =>
        hf slot.1 (List.mem_map_of_mem hslot) key hkey
      simp only [takes_cons_of_answersTo hkey, List.forall₂_cons_left_iff,
        settledBy_cons_of_answersTo hkey, forall₂_settledBy_cons_of_not hothers]
      constructor
      · rintro ⟨_, ⟨rfl, text, hv, rfl⟩, hall⟩
        obtain ⟨text', texts', hsettled, hothers', rfl⟩ := List.forall₂_cons_left_iff.mp hall
        have htext : text = text' := hsettled.1
        subst htext
        exact ⟨text, texts', ⟨rfl, hv, hsettled⟩, hothers', rfl⟩
      · rintro ⟨text, texts', ⟨rfl, hv, hsettled⟩, hothers', rfl⟩
        exact ⟨_, ⟨rfl, text, hv, rfl⟩, .cons hsettled hothers'⟩
    | false =>
      simp only [takes_cons_of_not hkey, List.forall₂_cons_left_iff, settledBy_cons_of_not hkey,
        ← ih hu]
      constructor
      · rintro ⟨_, ⟨rest, htakes, rfl⟩, hall⟩
        obtain ⟨text, texts', hsettled, hrest, rfl⟩ := List.forall₂_cons_left_iff.mp hall
        exact ⟨text, texts', hsettled, ⟨rest, htakes, hrest⟩, rfl⟩
      · rintro ⟨text, texts', hsettled, ⟨rest, htakes, hrest⟩, rfl⟩
        exact ⟨_, ⟨rest, htakes, rfl⟩, .cons hsettled hrest⟩

theorem Slots.fields_fill (slots : Slots) (text : String) :
    (slots.fill key text).map (·.1) = slots.map (·.1) := by
  induction slots with
  | nil => rfl
  | cons slot slots ih =>
    obtain ⟨f, old⟩ := slot
    rw [Slots.fill]
    split
    · rfl
    · rw [List.map_cons, List.map_cons, ih]

theorem Slots.Takes.fields (h : slots.Takes key v slots') : slots'.map (·.1) = slots.map (·.1) := by
  cases h with
  | unknown => rfl
  | known => exact slots.fields_fill _

/-- All slots have their texts once every one of them is settled. -/
theorem Slots.texts_eq_ok_iff :
    slots.texts = .ok texts ↔ List.Forall₂ (SettledBy []) slots texts := by
  induction slots generalizing texts with
  | nil => simp [Slots.texts, eq_comm]
  | cons slot slots ih =>
    rcases slot with ⟨f, old | old⟩
    · simp [Slots.texts, List.forall₂_cons_left_iff, SettledBy, Field.GivenIn, Field.valuesIn]
    · simp only [Slots.texts, List.forall₂_cons_left_iff, SettledBy, ← ih]
      constructor
      · intro h
        obtain ⟨texts', htexts, rfl⟩ := map_eq_ok h
        exact ⟨old, texts', ⟨rfl, rfl⟩, htexts, rfl⟩
      · rintro ⟨_, texts', ⟨rfl, -⟩, htexts, rfl⟩
        rw [htexts]
        rfl

/-- Slots take members for texts if and only if the members settle every slot. -/
theorem exists_takesAll_iff (hu : Unambiguous (slots.map (·.1))) :
    (∃ slots', slots.TakesAll members slots' ∧ slots'.texts = .ok texts) ↔
      List.Forall₂ (SettledBy members) slots texts := by
  induction members generalizing slots with
  | nil =>
    rw [← Slots.texts_eq_ok_iff]
    constructor
    · rintro ⟨_, ⟨⟩, h⟩
      exact h
    · intro h
      exact ⟨slots, .nil, h⟩
  | cons member members ih =>
    obtain ⟨key, v⟩ := member
    rw [← exists_takes_iff hu]
    constructor
    · rintro ⟨slots'', _ | ⟨htake, htakes⟩, h⟩
      exact ⟨_, htake, (ih (by rwa [htake.fields])).mp ⟨slots'', htakes, h⟩⟩
    · rintro ⟨slots', htake, h⟩
      obtain ⟨slots'', htakes, h⟩ := (ih (by rwa [htake.fields])).mpr h
      exact ⟨slots'', .cons htake htakes, h⟩

end Slots

end StorageProof.Json
