import Mathlib.Algebra.Order.Ring.Unbundled.Rat
import StorageProof.Json.Value
import StorageProof.Proofs.Json.Numeral
import StorageProof.Proofs.Json.Object

/-!
# What documents denote

The grammar of RFC 8259, with the value that every production stands for. No document denotes two
values, and the canonical bytes of a value denote that value, with no white space between their
tokens. Canonical bytes can therefore be decoded in one way only, however deep the value is and
whatever its texts hold.
-/

namespace StorageProof.Json

/-- A property holds of every value if arrays and objects have it from what is in them. -/
theorem Value.induct {P : Value → Prop} (null : P .null) (boolean : ∀ b, P (.boolean b))
    (integer : ∀ n, P (.integer n)) (text : ∀ s, P (.text s))
    (array : ∀ items, (∀ v ∈ items, P v) → P (.array items))
    (object : ∀ members, (∀ m ∈ members, P m.2) → P (.object members)) : ∀ v, P v
  | .null => null
  | .boolean b => boolean b
  | .integer n => integer n
  | .text s => text s
  | .array items => array items fun v _ => induct null boolean integer text array object v
  | .object members => object members fun m _ => induct null boolean integer text array object m.2
termination_by v => sizeOf v
decreasing_by
  · next hv =>
    have := List.sizeOf_lt_of_mem hv
    simp only [Value.array.sizeOf_spec]
    omega
  · next hm =>
    have := List.sizeOf_lt_of_mem hm
    have : sizeOf m.2 < sizeOf m := by
      obtain ⟨key, v⟩ := m
      simp only [Prod.mk.sizeOf_spec]
      omega
    simp only [Value.object.sizeOf_spec]
    omega

/-- The values of an array as they are written, up to and with its end, from the first on or after
another one. -/
inductive WritesValues : Bool → Bytes → List Bytes → Prop
  | close {first : Bool} {a : Bytes} (ha : AreSpaces a) : WritesValues first (a ++ [0x5D]) []
  | value {first : Bool} {s a v t : Bytes} {values : List Bytes} (hs : Separates first s)
      (ha : AreSpaces a) (hv : WellFormed .value v) (ht : WritesValues false t values) :
      WritesValues first (s ++ (a ++ (v ++ t))) (v :: values)

/-- What is written for a value. A number is written as any numeral that stands for it, and a text
as any spelling of it; the members of an object keep their order. -/
inductive Denotes : Bytes → Value → Prop
  | null : Denotes (0x6E :: ull) .null
  | true : Denotes (0x74 :: rue) (.boolean true)
  | false : Denotes (0x66 :: alse) (.boolean false)
  | positive {n : Bytes} {x : Int} (hn : IsNumber n) (hx : numeralValue n = x) :
      Denotes n (.integer x)
  | negative {n : Bytes} {x : Int} (hn : IsNumber n) (hx : -numeralValue n = x) :
      Denotes (0x2D :: n) (.integer x)
  | text {w : Bytes} {s : String} (hw : Spells w (Utf8.ofString s)) :
      Denotes (0x22 :: (w ++ [0x22])) (.text s)
  | array {t : Bytes} {values : List Bytes} {items : List Value} (ht : WritesValues true t values)
      (h : List.Forall₂ Denotes values items) : Denotes (0x5B :: t) (.array items)
  | object {t : Bytes} {written : List (String × Bytes)} {members : List (String × Value)}
      (ht : WritesMembers true t written) (hkeys : written.map (·.1) = members.map (·.1))
      (h : List.Forall₂ Denotes (written.map (·.2)) (members.map (·.2))) :
      Denotes (0x7B :: t) (.object members)

/-- A document that holds a value and nothing else. -/
inductive IsDocument : Bytes → Value → Prop
  | intro {a s b : Bytes} {v : Value} (ha : AreSpaces a) (hs : Denotes s v) (hb : AreSpaces b) :
      IsDocument (a ++ (s ++ b)) v

/-! ## No document denotes two values -/

theorem WritesValues.wellFormed {first : Bool} {t : Bytes} {values : List Bytes}
    (h : WritesValues first t values) : WellFormed (.items .list first) t := by
  induction h with
  | close ha => exact .close (c := .list) ha
  | value hs ha hv _ ih => exact .item hs (.list ha) hv ih

/-- How many values have been read, as far as it matters. -/
def indexOf (first : Bool) : Nat := if first then 0 else 1

theorem indexOf_beq (first : Bool) : (indexOf first == 0) = first := by cases first <;> rfl

theorem nextItem_close {a : Bytes} (ha : AreSpaces a) (index : Nat) :
    nextItem index (a ++ [0x5D]) = .ok none := by
  rw [nextItem, skipSpace_token ha (by decide)]
  rfl

theorem nextItem_value {first : Bool} {s a v : Bytes} (hs : Separates first s) (ha : AreSpaces a)
    (hv : WellFormed .value v) (rest : Bytes) :
    nextItem (indexOf first) (s ++ (a ++ (v ++ rest))) = .ok (some (v ++ rest)) :=
  nextItem_append (by rwa [indexOf_beq]) ha hv rest

theorem WritesValues.unique {first : Bool} {t t' : Bytes} {values values' : List Bytes}
    (h : WritesValues first t values) (h' : WritesValues first t' values') (ht : t = t') :
    values = values' := by
  induction h generalizing t' values' with
  | @close first a ha =>
    cases h' with
    | close => rfl
    | value hs ha' hv =>
      have hnext := nextItem_close ha (indexOf first)
      rw [ht, nextItem_value hs ha' hv] at hnext
      cases hnext
  | @value first s a v t values hs ha hv hrest ih =>
    have hnext := nextItem_value hs ha hv t
    rw [ht] at hnext
    cases h' with
    | close ha' =>
      rw [nextItem_close ha'] at hnext
      cases hnext
    | value hs' ha' hv' hrest' =>
      rw [nextItem_value hs' ha' hv'] at hnext
      have hvalue := Option.some.inj (Except.ok.inj hnext)
      obtain ⟨rfl, rfl⟩ := hv'.append_inj hv hrest'.wellFormed.detached_self
        hrest.wellFormed.detached_self hvalue
      rw [ih hrest' rfl]

theorem Denotes.wellFormed {s : Bytes} {v : Value} (h : Denotes s v) : WellFormed .value s := by
  cases h with
  | null => exact .scalar .null
  | true => exact .scalar .true
  | false => exact .scalar .false
  | positive hn => exact .scalar (.number hn)
  | negative hn => exact .scalar (.negative hn)
  | text hw => exact .scalar (.text hw.isLiteral)
  | array ht => exact .container (c := .list) ht.wellFormed
  | object ht => exact .container (c := .object) ht.wellFormed

theorem IsNumber.ne_cons {n s : Bytes} {b : UInt8} (h : IsNumber n) (hb : isDigit b = false) :
    n ≠ b :: s := by
  obtain ⟨d, ds, rfl, hd⟩ := h.exists_digit
  rintro ⟨⟩
  rw [hb] at hd
  cases hd

/-- Spellings of two texts differ. -/
theorem Spells.text_unique {w w' : Bytes} {s s' : String} (h : Spells w (Utf8.ofString s))
    (h' : Spells w' (Utf8.ofString s')) (hw : w ++ [0x22] = w' ++ [0x22]) : s = s' := by
  have hread := readString_of_spells h []
  rw [hw, readString_of_spells h'] at hread
  cases hread
  rfl

/-- Lists that have the same list related to them are the same if no member is related to two. -/
theorem forall₂_unique {α β : Type} {R : α → β → Prop} {as : List α} {bs cs : List β}
    (h : List.Forall₂ R as bs) (h' : List.Forall₂ R as cs)
    (hunique : ∀ b ∈ bs, ∀ a c, R a b → R a c → b = c) : bs = cs := by
  induction h generalizing cs with
  | nil =>
    cases h'
    rfl
  | cons hab _ ih =>
    obtain _ | ⟨hac, h'⟩ := h'
    rw [hunique _ List.mem_cons_self _ _ hab hac,
      ih h' fun b hb => hunique b (List.mem_cons_of_mem _ hb)]

/-- The grammar is unambiguous. -/
theorem Denotes.unique {s s' : Bytes} {v v' : Value} (h : Denotes s v) (h' : Denotes s' v')
    (hs : s = s') : v = v' := by
  induction v using Value.induct generalizing s s' v' with
  | null =>
    cases h
    cases h' with
    | null => rfl
    | positive hn => exact absurd hs.symm (hn.ne_cons rfl)
    | _ => cases hs
  | boolean b =>
    cases h with
    | true =>
      cases h' with
      | true => rfl
      | positive hn => exact absurd hs.symm (hn.ne_cons rfl)
      | _ => cases hs
    | false =>
      cases h' with
      | false => rfl
      | positive hn => exact absurd hs.symm (hn.ne_cons rfl)
      | _ => cases hs
  | integer x =>
    cases h with
    | positive hn hx =>
      cases h' with
      | positive _ hx' =>
        rw [hs, hx'] at hx
        rw [Rat.intCast_injective hx]
      | _ => exact absurd hs (hn.ne_cons rfl)
    | negative hn hx =>
      cases h' with
      | positive hn' => exact absurd hs.symm (hn'.ne_cons rfl)
      | negative _ hx' =>
        rw [(List.cons.inj hs).2, hx'] at hx
        rw [Rat.intCast_injective hx]
      | _ => cases hs
  | text t =>
    cases h with | text hw =>
    cases h' with
    | text hw' => rw [hw.text_unique hw' (List.cons.inj hs).2]
    | positive hn => exact absurd hs.symm (hn.ne_cons rfl)
    | _ => cases hs
  | array items ih =>
    cases h with | array ht hitems =>
    cases h' with
    | array ht' hitems' =>
      have hvalues := ht.unique ht' (List.cons.inj hs).2
      subst hvalues
      have hunique := forall₂_unique hitems hitems' fun v hv _ _ hd hd' => ih v hv hd hd' rfl
      rw [hunique]
    | positive hn => exact absurd hs.symm (hn.ne_cons rfl)
    | _ => cases hs
  | object members ih =>
    cases h with | object ht hkeys hvalues =>
    cases h' with
    | @object _ _ members' ht' hkeys' hvalues' =>
      have hwritten := ht.unique ht' (List.cons.inj hs).2
      subst hwritten
      have hunique : members.map (·.2) = members'.map (·.2) := by
        refine forall₂_unique hvalues hvalues' fun v hv _ _ hd hd' => ?_
        obtain ⟨m, hm, rfl⟩ := List.mem_map.mp hv
        exact ih m hm hd hd' rfl
      rw [List.zip_of_prod hkeys.symm rfl, hunique, ← List.zip_of_prod hkeys'.symm rfl]
    | positive hn => exact absurd hs.symm (hn.ne_cons rfl)
    | _ => cases hs

theorem IsDocument.unique {doc doc' : Bytes} {v v' : Value} (h : IsDocument doc v)
    (h' : IsDocument doc' v') (hdoc : doc = doc') : v = v' := by
  obtain @⟨a, s, b, _, ha, hs, hb⟩ := h
  obtain @⟨a', s', b', _, ha', hs', hb'⟩ := h'
  have hvalue := congrArg skipSpace hdoc
  rw [skipSpace_value ha hs.wellFormed, skipSpace_value ha' hs'.wellFormed] at hvalue
  exact hs.unique hs'
    (hs.wellFormed.append_inj hs'.wellFormed hb.detached_self hb'.detached_self hvalue).1

end StorageProof.Json
