import StorageProof.Proofs.Json.Denotation

/-!
# Canonical text is decoded in one way

The canonical bytes of a value denote that value and, since no document denotes two, no other one.
No two values therefore have the same canonical document, and that of an object determines its
members, their number and their order. Between literals there are only visible characters, so that
no white space separates tokens. Each of these goes by the shape of the value: what holds of
everything in an array or an object holds of it.
-/

namespace StorageProof.Json

/-! ## The bytes of a value by its parts -/

def keyBytes (key : String) : Bytes := Utf8.encode (literal key) ++ [0x3A]

theorem canonicalBytes_natural (n : Nat) :
    (Value.integer n).canonicalBytes = Utf8.encode (Nat.toDigits 10 n) := by
  have hchars : (ToString.toString (n : Int)).toList = Nat.toDigits 10 n := by
    rw [Int.toString_eq_repr, Int.repr_eq_if, if_pos (Int.natCast_nonneg n), Int.toNat_natCast,
      Nat.toList_repr]
  rw [Value.canonicalBytes, Value.chars, hchars]

theorem canonicalBytes_negative (n : Nat) :
    (Value.integer (.negSucc n)).canonicalBytes =
      0x2D :: Utf8.encode (Nat.toDigits 10 (n + 1)) := by
  have hchars : (ToString.toString (Int.negSucc n)).toList = '-' :: Nat.toDigits 10 (n + 1) := by
    rw [Int.toString_eq_repr, Int.repr_eq_if, if_neg (by omega), String.toList_append,
      Nat.toList_repr]
    rfl
  rw [Value.canonicalBytes, Value.chars, hchars, Utf8.encode_cons]
  rfl

theorem canonicalBytes_text (s : String) :
    (Value.text s).canonicalBytes = 0x22 :: (Utf8.encode (escapeText s.toList) ++ [0x22]) := by
  rw [Value.canonicalBytes, Value.chars, encode_literal]

theorem canonicalBytes_array (items : List Value) :
    (Value.array items).canonicalBytes = 0x5B :: (Utf8.encode (itemChars items) ++ [0x5D]) := by
  simp only [Value.canonicalBytes, Value.chars, Utf8.encode_append, Utf8.encode_cons,
    Utf8.encode_nil, List.cons_append]
  rfl

theorem canonicalBytes_object (members : List (String × Value)) :
    (Value.object members).canonicalBytes =
      0x7B :: (Utf8.encode (memberChars members) ++ [0x7D]) := by
  simp only [Value.canonicalBytes, Value.chars, Utf8.encode_append, Utf8.encode_cons,
    Utf8.encode_nil, List.cons_append]
  rfl

theorem encode_itemChars_singleton (v : Value) :
    Utf8.encode (itemChars [v]) = v.canonicalBytes := by
  rw [itemChars, Value.canonicalBytes]

theorem encode_itemChars_cons (v w : Value) (items : List Value) :
    Utf8.encode (itemChars (v :: w :: items)) =
      v.canonicalBytes ++ 0x2C :: Utf8.encode (itemChars (w :: items)) := by
  rw [itemChars, Utf8.encode_append, Utf8.encode_cons]
  · rfl
  · exact List.cons_ne_nil w items

theorem encode_memberChars_singleton (m : String × Value) :
    Utf8.encode (memberChars [m]) = keyBytes m.1 ++ m.2.canonicalBytes := by
  rw [memberChars, Utf8.encode_append, Utf8.encode_cons, keyBytes, List.append_assoc]
  rfl

theorem encode_memberChars_cons (m n : String × Value) (members : List (String × Value)) :
    Utf8.encode (memberChars (m :: n :: members)) =
      keyBytes m.1 ++ (m.2.canonicalBytes ++ 0x2C :: Utf8.encode (memberChars (n :: members))) := by
  simp only [memberChars, Utf8.encode_append, Utf8.encode_cons, keyBytes, List.append_assoc,
    List.cons_append]
  rfl

/-! ## Canonical bytes denote their value -/

theorem denotes_integer (n : Int) : Denotes (Value.integer n).canonicalBytes (.integer n) := by
  cases n with
  | ofNat n =>
    rw [Int.ofNat_eq_natCast, canonicalBytes_natural]
    exact .positive (isNumber_toDigits n) (by rw [numeralValue_toDigits, Int.cast_natCast])
  | negSucc n =>
    rw [canonicalBytes_negative]
    exact .negative (isNumber_toDigits (n + 1)) (by rw [numeralValue_toDigits, Int.cast_negSucc])

theorem writesKey_keyBytes (key : String) : WritesKey (keyBytes key) key := by
  have hkey := WritesKey.intro areSpaces_nil (spells_escapeText key.toList) areSpaces_nil
    areSpaces_nil
  rw [keyBytes, encode_literal]
  simpa using hkey

/-- The items of an array are written one after the other, whether they come first or after a
comma. -/
theorem writesValues_canonical {items : List Value} (h : ∀ v ∈ items, Denotes v.canonicalBytes v)
    {first : Bool} {s : Bytes} (hs : Separates first s) (hitems : items ≠ []) :
    WritesValues first (s ++ (Utf8.encode (itemChars items) ++ [0x5D]))
      (items.map Value.canonicalBytes) := by
  induction items generalizing first s with
  | nil => exact absurd rfl hitems
  | cons v items ih =>
    have hv := (h v List.mem_cons_self).wellFormed
    cases items with
    | nil =>
      rw [encode_itemChars_singleton]
      exact .value hs areSpaces_nil hv (.close areSpaces_nil)
    | cons w items =>
      have hrest := ih (fun u hu => h u (List.mem_cons_of_mem v hu)) (.comma areSpaces_nil)
        (List.cons_ne_nil w items)
      rw [encode_itemChars_cons, List.append_assoc]
      exact .value hs areSpaces_nil hv hrest

theorem writesValues_closed {items : List Value} (h : ∀ v ∈ items, Denotes v.canonicalBytes v) :
    WritesValues true (Utf8.encode (itemChars items) ++ [0x5D])
      (items.map Value.canonicalBytes) := by
  cases items with
  | nil => exact .close areSpaces_nil
  | cons v items => exact writesValues_canonical h .first (List.cons_ne_nil v items)

/-- The members of an object are written one after the other, whether they come first or after a
comma. -/
theorem writesMembers_canonical {members : List (String × Value)}
    (h : ∀ m ∈ members, Denotes m.2.canonicalBytes m.2) {first : Bool} {s : Bytes}
    (hs : Separates first s) (hmembers : members ≠ []) :
    WritesMembers first (s ++ (Utf8.encode (memberChars members) ++ [0x7D]))
      (members.map fun m => (m.1, m.2.canonicalBytes)) := by
  induction members generalizing first s with
  | nil => exact absurd rfl hmembers
  | cons m members ih =>
    have hm := (h m List.mem_cons_self).wellFormed
    have hkey := writesKey_keyBytes m.1
    cases members with
    | nil =>
      rw [encode_memberChars_singleton, List.append_assoc]
      exact .member hs hkey hm (.close (a := []) areSpaces_nil)
    | cons n members =>
      have hrest := ih (fun o ho => h o (List.mem_cons_of_mem m ho)) (.comma areSpaces_nil)
        (List.cons_ne_nil n members)
      rw [encode_memberChars_cons, List.append_assoc, List.append_assoc]
      exact .member hs hkey hm hrest

theorem writesMembers_closed {members : List (String × Value)}
    (h : ∀ m ∈ members, Denotes m.2.canonicalBytes m.2) :
    WritesMembers true (Utf8.encode (memberChars members) ++ [0x7D])
      (members.map fun m => (m.1, m.2.canonicalBytes)) := by
  cases members with
  | nil => exact .close (a := []) areSpaces_nil
  | cons m members => exact writesMembers_canonical h .first (List.cons_ne_nil m members)

theorem denotes_canonicalBytes (v : Value) : Denotes v.canonicalBytes v := by
  induction v using Value.induct with
  | null => exact .null
  | boolean b =>
    cases b with
    | true => exact .true
    | false => exact .false
  | integer n => exact denotes_integer n
  | text s =>
    rw [canonicalBytes_text]
    exact .text (spells_escapeText s.toList)
  | array items ih =>
    rw [canonicalBytes_array]
    refine .array (writesValues_closed ih) (List.forall₂_map_left_iff.mpr ?_)
    exact List.forall₂_same.mpr ih
  | object members ih =>
    rw [canonicalBytes_object]
    refine .object (writesMembers_closed ih) (by rw [List.map_map]; rfl) ?_
    rw [List.map_map]
    refine List.forall₂_map_left_iff.mpr (List.forall₂_map_right_iff.mpr ?_)
    exact List.forall₂_same.mpr ih

/-- The canonical document of an object has its members, with their canonical bytes. -/
theorem writesObject_canonicalBytes (members : List (String × Value)) :
    WritesObject (Value.object members).canonicalBytes
      (members.map fun m => (m.1, m.2.canonicalBytes)) := by
  have hdenotes : ∀ m ∈ members, Denotes m.2.canonicalBytes m.2 :=
    fun m _ => denotes_canonicalBytes m.2
  have hobject := WritesObject.intro areSpaces_nil (writesMembers_closed hdenotes) areSpaces_nil
  rw [canonicalBytes_object]
  rwa [List.nil_append, List.append_nil] at hobject

theorem writes_canonicalBytes_text (s : String) :
    Form.text.Writes (Value.text s).canonicalBytes s := by
  rw [canonicalBytes_text]
  exact .literal (spells_escapeText s.toList)

/-- The canonical document of a value holds this value and no other one. -/
theorem isDocument_canonicalBytes_iff {v w : Value} : IsDocument v.canonicalBytes w ↔ w = v := by
  have hdocument : IsDocument v.canonicalBytes v := by
    have h := IsDocument.intro areSpaces_nil (denotes_canonicalBytes v) areSpaces_nil
    rwa [List.nil_append, List.append_nil] at h
  constructor
  · intro h
    exact h.unique hdocument rfl
  · rintro rfl
    exact hdocument

theorem canonicalBytes_injective : Function.Injective Value.canonicalBytes := by
  intro v w h
  have hdocument : IsDocument v.canonicalBytes v := isDocument_canonicalBytes_iff.mpr rfl
  rw [h] at hdocument
  exact isDocument_canonicalBytes_iff.mp hdocument

/-- The canonical document of an object of texts determines its members. -/
theorem canonicalBytes_objectOfTexts_injective :
    Function.Injective fun members => (objectOfTexts members).canonicalBytes := by
  have hmember : Function.Injective fun p : String × String => (p.1, Value.text p.2) := by
    rintro ⟨key, text⟩ ⟨key', text'⟩ h
    cases h
    rfl
  intro ps qs h
  exact hmember.list_map (Value.object.inj (canonicalBytes_injective h))

/-! ## No white space between tokens -/

/-- What stands outside the string literals of a text; nothing counts from a literal on that does
not end. -/
def outsideLiterals : Bytes → Bytes
  | [] => []
  | b :: rest =>
    if b = 0x22 then
      match _h : skipString rest with
      | .ok rest' => outsideLiterals rest'
      | .error _ => []
    else b :: outsideLiterals rest
termination_by s => s.length
decreasing_by
  · have := length_skipString _h
    simp only [List.length_cons]
    omega
  · simp

/-- Whether a byte is a character of ASCII that is neither white space nor a control. -/
def isVisible (b : UInt8) : Bool := 0x20 < b && b < 0x7F

/-- String literals that end, among visible characters. -/
inductive Compact : Bytes → Prop
  | nil : Compact []
  | visible {b : UInt8} {s : Bytes} (hb : isVisible b = true) (hquote : b ≠ 0x22)
      (h : Compact s) : Compact (b :: s)
  | literal {t s : Bytes} (ht : IsLiteral t) (h : Compact s) :
      Compact (0x22 :: (t ++ 0x22 :: s))

theorem Compact.append {s t : Bytes} (hs : Compact s) (ht : Compact t) : Compact (s ++ t) := by
  induction hs with
  | nil => exact ht
  | visible hb hquote _ ih => exact .visible hb hquote ih
  | literal hliteral _ ih =>
    rw [List.cons_append, List.append_assoc, List.cons_append]
    exact .literal hliteral ih

theorem Compact.isVisible_outsideLiterals {s : Bytes} (h : Compact s) :
    ∀ b ∈ outsideLiterals s, isVisible b = true := by
  induction h with
  | nil =>
    rw [outsideLiterals]
    exact fun _ h => nomatch h
  | visible hb hquote _ ih =>
    rw [outsideLiterals, if_neg hquote]
    exact List.forall_mem_cons.mpr ⟨hb, ih⟩
  | literal ht _ ih =>
    rw [outsideLiterals, if_pos rfl, ht.skipString]
    exact ih

theorem compact_of_forall {s : Bytes} (h : ∀ b ∈ s, isVisible b = true ∧ b ≠ 0x22) :
    Compact s := by
  induction s with
  | nil => exact .nil
  | cons b s ih =>
    obtain ⟨⟨hb, hquote⟩, hs⟩ := List.forall_mem_cons.mp h
    exact .visible hb hquote (ih hs)

theorem compact_word {w : Bytes} (h : w.all (fun b => isVisible b && b != 0x22) = true) :
    Compact w := by
  refine compact_of_forall fun b hb => ?_
  simpa using List.all_eq_true.mp h b hb

theorem AreDigits.compact {s : Bytes} (h : AreDigits s) : Compact s := by
  refine compact_of_forall fun b hb => ?_
  have hdigit := h b hb
  simp only [isDigit, isVisible, Bool.and_eq_true, decide_eq_true_eq, UInt8.le_iff_toNat_le,
    UInt8.lt_iff_toNat_lt, Ne, ← UInt8.toNat_inj] at hdigit ⊢
  simp only [UInt8.reduceToNat] at hdigit ⊢
  omega

theorem compact_literal (s : String) : Compact (Utf8.encode (Json.literal s)) := by
  rw [encode_literal]
  exact .literal (spells_escapeText s.toList).isLiteral .nil

theorem compact_itemChars {items : List Value} (h : ∀ v ∈ items, Compact v.canonicalBytes) :
    Compact (Utf8.encode (itemChars items)) := by
  induction items with
  | nil => exact .nil
  | cons v items ih =>
    obtain ⟨hv, hitems⟩ := List.forall_mem_cons.mp h
    cases items with
    | nil => rwa [encode_itemChars_singleton]
    | cons w items =>
      rw [encode_itemChars_cons]
      exact hv.append (.visible (by decide) (by decide) (ih hitems))

theorem compact_memberChars {members : List (String × Value)}
    (h : ∀ m ∈ members, Compact m.2.canonicalBytes) :
    Compact (Utf8.encode (memberChars members)) := by
  induction members with
  | nil => exact .nil
  | cons m members ih =>
    obtain ⟨hm, hmembers⟩ := List.forall_mem_cons.mp h
    have hkey : Compact (keyBytes m.1) :=
      (compact_literal m.1).append (.visible (by decide) (by decide) .nil)
    cases members with
    | nil =>
      rw [encode_memberChars_singleton]
      exact hkey.append hm
    | cons n members =>
      rw [encode_memberChars_cons]
      exact hkey.append (hm.append (.visible (by decide) (by decide) (ih hmembers)))

/-- Between the tokens of canonical text nothing stands. -/
theorem compact_canonicalBytes (v : Value) : Compact v.canonicalBytes := by
  have hclose {b : UInt8} (hb : isVisible b = true) (hquote : b ≠ 0x22) : Compact [b] :=
    .visible hb hquote .nil
  induction v using Value.induct with
  | null => exact compact_word rfl
  | boolean b => cases b <;> exact compact_word rfl
  | integer n =>
    cases n with
    | ofNat n =>
      rw [Int.ofNat_eq_natCast, canonicalBytes_natural]
      exact (areDigits_toDigits n).compact
    | negSucc n =>
      rw [canonicalBytes_negative]
      exact .visible (by decide) (by decide) (areDigits_toDigits (n + 1)).compact
  | text s => exact compact_literal s
  | array items ih =>
    rw [canonicalBytes_array]
    exact .visible (by decide) (by decide)
      ((compact_itemChars ih).append (hclose (by decide) (by decide)))
  | object members ih =>
    rw [canonicalBytes_object]
    exact .visible (by decide) (by decide)
      ((compact_memberChars ih).append (hclose (by decide) (by decide)))

/-- Every value, however deep, has canonical text. It has no white space outside its literals, it
holds this value with its members in their order and no other one, and no other value has it. -/
theorem Value.uniquely_decodable (v : Value) :
    Utf8.toString? v.canonicalBytes = some v.canonical ∧
      (∀ w, IsDocument v.canonicalBytes w ↔ w = v) ∧
      (∀ b ∈ outsideLiterals v.canonicalBytes, isVisible b = true) ∧
      ∀ w : Value, w.canonicalBytes = v.canonicalBytes → w = v := by
  refine ⟨?_, fun w => isDocument_canonicalBytes_iff,
    (compact_canonicalBytes v).isVisible_outsideLiterals, fun w hw => canonicalBytes_injective hw⟩
  rw [← v.ofString_canonical, Utf8.toString?_ofString]

end StorageProof.Json
