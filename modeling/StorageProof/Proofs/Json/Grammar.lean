import StorageProof.Json.Skip
import StorageProof.Proofs.Json.Lexeme
import StorageProof.Proofs.Json.Space

/-!
# Well-formed values

The grammar of values is that of RFC 8259, with the strings and numbers that are passed over. A
value is passed over if and only if it is well-formed, to any depth: the containers that are still
open stand for what must follow up to their ends.
-/

namespace StorageProof.Json

def Container.opening : Container → UInt8
  | .list => 0x5B
  | .object => 0x7B

inductive IsScalar : Bytes → Prop
  | null : IsScalar (0x6E :: ull)
  | true : IsScalar (0x74 :: rue)
  | false : IsScalar (0x66 :: alse)
  | negative {n : Bytes} (h : IsNumber n) : IsScalar (0x2D :: n)
  | number {n : Bytes} (h : IsNumber n) : IsScalar n
  | text {t : Bytes} (h : IsLiteral t) : IsScalar (0x22 :: (t ++ [0x22]))

/-- What separates an item of a container from the one before it, if it is not the first. -/
inductive Separates : Bool → Bytes → Prop
  | first : Separates true []
  | comma {a : Bytes} (ha : AreSpaces a) : Separates false (a ++ [0x2C])

/-- What stands before the value of an item: white space, and in an object a key and its colon. -/
inductive Leads : Container → Bytes → Prop
  | list {a : Bytes} (ha : AreSpaces a) : Leads .list a
  | object {a k b c : Bytes} (ha : AreSpaces a) (hk : IsLiteral k) (hb : AreSpaces b)
      (hc : AreSpaces c) : Leads .object (a ++ 0x22 :: (k ++ 0x22 :: (b ++ 0x3A :: c)))

/-- A value, or the items of a container up to and with its end, from the first on or after another
item. -/
inductive Part
  | value
  | items (c : Container) (first : Bool)

inductive WellFormed : Part → Bytes → Prop
  | scalar {v : Bytes} (h : IsScalar v) : WellFormed .value v
  | container {c : Container} {t : Bytes} (h : WellFormed (.items c true) t) :
      WellFormed .value (c.opening :: t)
  | close {c : Container} {first : Bool} {a : Bytes} (ha : AreSpaces a) :
      WellFormed (.items c first) (a ++ [c.close])
  | item {c : Container} {first : Bool} {s l v t : Bytes} (hs : Separates first s) (hl : Leads c l)
      (hv : WellFormed .value v) (ht : WellFormed (.items c false) t) :
      WellFormed (.items c first) (s ++ (l ++ (v ++ t)))

/-! ## What is passed over is well-formed -/

theorem takeWord_eq_ok_iff {word s rest : Bytes} :
    takeWord word s = .ok rest ↔ s = word ++ rest := by
  induction word generalizing s with
  | nil => simp [takeWord]
  | cons c word ih =>
    cases s with
    | nil => simp [takeWord]
    | cons b s =>
      rw [takeWord]
      split
      · next hb => simp [hb, ih]
      · next hb => simp [hb]

theorem skipStart_ok {s rest : Bytes} {c? : Option Container} (h : skipStart s = .ok (c?, rest)) :
    (c? = none ∧ ∃ v, s = v ++ rest ∧ IsScalar v) ∨ ∃ c, c? = some c ∧ s = c.opening :: rest := by
  unfold skipStart at h
  split at h
  · cases h
  next b more =>
  have scalar {r : Except SyntaxFault Bytes} (h : r.map (none, ·) = .ok (c?, rest))
      (hr : r = .ok rest → ∃ v, b :: more = v ++ rest ∧ IsScalar v) :
      c? = none ∧ ∃ v, b :: more = v ++ rest ∧ IsScalar v := by
    obtain ⟨rest', hrest', heq⟩ := map_eq_ok h
    cases heq
    exact ⟨rfl, hr hrest'⟩
  split at h
  · next hb =>
    refine .inl (scalar h fun hw => ⟨_, ?_, .null⟩)
    rw [hb, takeWord_eq_ok_iff.mp hw]
    rfl
  split at h
  · next hb =>
    refine .inl (scalar h fun hw => ⟨_, ?_, .true⟩)
    rw [hb, takeWord_eq_ok_iff.mp hw]
    rfl
  split at h
  · next hb =>
    refine .inl (scalar h fun hw => ⟨_, ?_, .false⟩)
    rw [hb, takeWord_eq_ok_iff.mp hw]
    rfl
  split at h
  · next hb =>
    refine .inl (scalar h fun hskip => ?_)
    obtain ⟨n, rfl, hn⟩ := skipNumber_ok hskip
    exact ⟨0x2D :: n, by rw [hb]; rfl, .negative hn⟩
  split at h
  · refine .inl (scalar h fun hskip => ?_)
    obtain ⟨n, hmore, hn⟩ := skipNumber_ok hskip
    exact ⟨n, hmore, .number hn⟩
  split at h
  · next hb =>
    refine .inl (scalar h fun hskip => ?_)
    obtain ⟨t, rfl, ht⟩ := skipString_eq_ok_iff.mp hskip
    exact ⟨0x22 :: (t ++ [0x22]), by simp [hb], .text ht⟩
  split at h
  · next hb =>
    cases h
    exact .inr ⟨.list, rfl, by rw [hb]; rfl⟩
  split at h
  · next hb =>
    cases h
    exact .inr ⟨.object, rfl, by rw [hb]; rfl⟩
  · cases h

theorem skipKey_ok {s rest : Bytes} (h : skipKey s = .ok rest) :
    ∃ a k b, s = a ++ 0x22 :: (k ++ 0x22 :: (b ++ 0x3A :: rest)) ∧ AreSpaces a ∧ IsLiteral k ∧
      AreSpaces b := by
  unfold skipKey at h
  split at h
  · cases h
  next q more hq =>
  obtain ⟨a, ha, rfl⟩ := exists_of_skipSpace hq
  split at h
  · next hquote =>
    subst hquote
    split at h
    · cases h
    next after hk =>
    obtain ⟨k, rfl, hliteral⟩ := skipString_eq_ok_iff.mp hk
    split at h
    · cases h
    next c more' hc =>
    obtain ⟨b, hb, rfl⟩ := exists_of_skipSpace hc
    split at h
    · next hcolon =>
      subst hcolon
      cases h
      exact ⟨a, k, b, rfl, ha, hliteral, hb⟩
    · cases h
  · cases h

theorem skipToItem_ok {c : Container} {s rest : Bytes} (h : skipToItem c s = .ok rest) :
    ∃ l, s = l ++ rest ∧ ∀ {a b : Bytes}, AreSpaces a → AreSpaces b → Leads c (a ++ (l ++ b)) := by
  cases c with
  | list =>
    cases h
    exact ⟨[], rfl, fun ha hb => .list (ha.append hb)⟩
  | object =>
    obtain ⟨a', k, b', rfl, ha', hk, hb'⟩ := skipKey_ok h
    refine ⟨a' ++ 0x22 :: (k ++ 0x22 :: (b' ++ [0x3A])), by simp, fun ha hb => ?_⟩
    have hleads := Leads.object (ha.append ha') hk hb' hb
    simpa using hleads

/-- What follows an item up to the ends of all open containers, and the bytes after them. -/
def Trails (rest : Bytes) : List Container → Bytes → Prop
  | [], s => s = rest
  | c :: outer, s => ∃ t s', s = t ++ s' ∧ WellFormed (.items c false) t ∧ Trails rest outer s'

/-- What is still to come before the bytes after a value, given what is due. -/
def Awaits (rest : Bytes) : Due → List Container → Bytes → Prop
  | .value, containers, s =>
    ∃ a v s', s = a ++ (v ++ s') ∧ AreSpaces a ∧ WellFormed .value v ∧ Trails rest containers s'
  | .firstItem, c :: outer, s =>
    ∃ t s', s = t ++ s' ∧ WellFormed (.items c true) t ∧ Trails rest outer s'
  | _, containers, s => Trails rest containers s

theorem Awaits.items {rest sep a s s' : Bytes} {first : Bool} {c : Container}
    {outer : List Container} (h : Awaits rest .value (c :: outer) s') (hs : Separates first sep)
    (ha : AreSpaces a) (hk : skipToItem c s = .ok s') :
    ∃ t s'', sep ++ (a ++ s) = t ++ s'' ∧ WellFormed (.items c first) t ∧
      Trails rest outer s'' := by
  obtain ⟨b, v, _, rfl, hb, hv, t, s'', rfl, ht, htrails⟩ := h
  obtain ⟨l, rfl, hl⟩ := skipToItem_ok hk
  exact ⟨sep ++ (a ++ (l ++ b) ++ (v ++ t)), s'', by simp, .item hs (hl ha hb) hv ht, htrails⟩

/-- Whatever is passed over was to come. -/
theorem skipOpen_ok {due : Due} {containers : List Container} {s rest : Bytes}
    (h : skipOpen due containers s = .ok rest) : Awaits rest due containers s := by
  fun_induction skipOpen due containers s with
  | case1 => cases h
  | case2 s containers c r hs ih =>
    obtain ⟨a, ha, hsplit⟩ := exists_skipSpace s
    obtain ⟨t, s', rfl, ht, htrails⟩ := ih h
    rcases skipStart_ok hs with ⟨hnone, -⟩ | ⟨_, hsome, hopening⟩
    · cases hnone
    · cases hsome
      exact ⟨a, _, s', by rw [hsplit, hopening]; rfl, ha, .container ht, htrails⟩
  | case3 s containers r hs ih =>
    obtain ⟨a, ha, hsplit⟩ := exists_skipSpace s
    rcases skipStart_ok hs with ⟨-, v, hscalar, hv⟩ | ⟨_, hsome, -⟩
    · exact ⟨a, v, r, by rw [hsplit, hscalar], ha, .scalar hv, by simpa [Awaits] using ih h⟩
    · cases hsome
  | case4 due s hdue =>
    cases h
    cases due with
    | value => exact absurd rfl hdue
    | firstItem => rfl
    | nextItem => rfl
  | case5 => cases h
  | case6 s c outer r hs ih =>
    obtain ⟨a, ha, rfl⟩ := exists_of_skipSpace hs
    exact ⟨a ++ [c.close], r, by simp, .close ha, by simpa [Awaits] using ih h⟩
  | case7 => cases h
  | case8 s c outer b r hs _ r' hk ih =>
    obtain ⟨a, ha, rfl⟩ := exists_of_skipSpace hs
    exact (ih h).items .first ha hk
  | case9 => cases h
  | case10 => cases h
  | case11 s c outer r r' hk hs ih =>
    obtain ⟨a, ha, rfl⟩ := exists_of_skipSpace hs
    obtain ⟨t, s'', hsplit, ht, htrails⟩ := (ih h).items (.comma ha) areSpaces_nil hk
    exact ⟨t, s'', by rw [← hsplit]; simp, ht, htrails⟩
  | case12 s c outer r hs _ ih =>
    obtain ⟨a, ha, rfl⟩ := exists_of_skipSpace hs
    exact ⟨a ++ [c.close], r, by simp, .close ha, by simpa [Awaits] using ih h⟩
  | case13 => cases h

/-! ## What is well-formed is passed over -/

theorem IsNumber.exists_digit {n : Bytes} (h : IsNumber n) :
    ∃ d ds, n = d :: ds ∧ isDigit d = true := by
  obtain ⟨hw, -, -⟩ := h
  cases hw with
  | zero => exact ⟨0x30, _, rfl, rfl⟩
  | digits hd => exact ⟨_, _, rfl, hd⟩

theorem digit_ne {d : UInt8} (h : isDigit d = true) :
    d ≠ 0x6E ∧ d ≠ 0x74 ∧ d ≠ 0x66 ∧ d ≠ 0x2D ∧ isSpace d = false ∧ d ≠ 0x5D := by
  have ne {b : UInt8} (hb : isDigit b = false) : d ≠ b := by
    rintro rfl
    rw [h] at hb
    cases hb
  have hspace : isSpace d = false := by
    simp only [isSpace, Bool.or_eq_false_iff, beq_eq_false_iff_ne]
    exact ⟨⟨⟨ne rfl, ne rfl⟩, ne rfl⟩, ne rfl⟩
  exact ⟨ne rfl, ne rfl, ne rfl, ne rfl, hspace, ne rfl⟩

theorem IsScalar.skipStart {v rest : Bytes} (h : IsScalar v) (hrest : Detached rest) :
    skipStart (v ++ rest) = .ok (none, rest) := by
  have scalar {r : Except SyntaxFault Bytes} (hr : r = .ok rest) :
      r.map ((none : Option Container), ·) = .ok (none, rest) := by
    rw [hr]
    rfl
  have word (w : Bytes) : takeWord w (w ++ rest) = .ok rest := takeWord_eq_ok_iff.mpr rfl
  cases h with
  | null => exact scalar (word ull)
  | true => exact scalar (word rue)
  | false => exact scalar (word alse)
  | negative hn => exact scalar (hn.skipNumber hrest)
  | number hn =>
    have hskip := hn.skipNumber hrest
    obtain ⟨d, ds, rfl, hd⟩ := hn.exists_digit
    obtain ⟨hn, ht, hf, hminus, -, -⟩ := digit_ne hd
    rw [List.cons_append] at hskip ⊢
    simp only [Json.skipStart, hn, ht, hf, hminus, hd, if_false, if_true, hskip]
    rfl
  | text ht =>
    have hskip := ht.skipString rest
    rw [List.cons_append, List.append_assoc, List.singleton_append]
    exact scalar hskip

theorem skipOpen_scalar {containers : List Container} {s rest : Bytes}
    (h : skipStart (skipSpace s) = .ok (none, rest)) :
    skipOpen .value containers s = skipOpen .nextItem containers rest := by
  rw [skipOpen]
  split
  · next he =>
    rw [h] at he
    cases he
  · next he =>
    rw [h] at he
    cases he
  · next he =>
    rw [h] at he
    cases he
    rfl

theorem skipOpen_container {containers : List Container} {s rest : Bytes} {c : Container}
    (h : skipStart (skipSpace s) = .ok (some c, rest)) :
    skipOpen .value containers s = skipOpen .firstItem (c :: containers) rest := by
  rw [skipOpen]
  split
  · next he =>
    rw [h] at he
    cases he
  · next he =>
    rw [h] at he
    cases he
    rfl
  · next he =>
    rw [h] at he
    cases he

/-- What is due at the first item of a container, or after another one. -/
def Due.item (first : Bool) : Due := if first then .firstItem else .nextItem

theorem skipOpen_close {c : Container} {s rest : Bytes} (first : Bool) (outer : List Container)
    (h : skipSpace s = c.close :: rest) :
    skipOpen (.item first) (c :: outer) s = skipOpen .nextItem outer rest := by
  have hcomma : c.close ≠ 0x2C := by cases c <;> decide
  cases first with
  | true =>
    rw [Due.item, if_pos rfl, skipOpen]
    split
    · next he =>
      rw [h] at he
      cases he
    · next he =>
      rw [h] at he
      cases he
      rw [if_pos rfl]
  | false =>
    rw [Due.item, if_neg Bool.false_ne_true, skipOpen]
    split
    · next he =>
      rw [h] at he
      cases he
    · next he =>
      rw [h] at he
      cases he
      rw [if_neg hcomma, if_pos rfl]

theorem skipOpen_firstItem {c : Container} {b : UInt8} {s rest rest' : Bytes}
    (outer : List Container) (h : skipSpace s = b :: rest) (hb : b ≠ c.close)
    (hk : skipToItem c (b :: rest) = .ok rest') :
    skipOpen .firstItem (c :: outer) s = skipOpen .value (c :: outer) rest' := by
  conv => lhs; rw [skipOpen]
  split
  · next he =>
    rw [h] at he
    cases he
  · next he =>
    rw [h] at he
    cases he
    rw [if_neg hb]
    split
    · next he =>
      rw [hk] at he
      cases he
    · next he =>
      rw [hk] at he
      cases he
      rfl

theorem skipOpen_nextItem {c : Container} {s rest rest' : Bytes} (outer : List Container)
    (h : skipSpace s = 0x2C :: rest) (hk : skipToItem c rest = .ok rest') :
    skipOpen .nextItem (c :: outer) s = skipOpen .value (c :: outer) rest' := by
  conv => lhs; rw [skipOpen]
  split
  · next he =>
    rw [h] at he
    cases he
  · next he =>
    rw [h] at he
    cases he
    rw [if_pos rfl]
    split
    · next he =>
      rw [hk] at he
      cases he
    · next he =>
      rw [hk] at he
      cases he
      rfl

/-- A value begins with a byte that is neither white space nor the end of a list. -/
theorem WellFormed.exists_cons {v : Bytes} (h : WellFormed .value v) :
    ∃ b v', v = b :: v' ∧ isSpace b = false ∧ b ≠ 0x5D := by
  cases h with
  | scalar hs =>
    cases hs with
    | number hn =>
      obtain ⟨d, ds, rfl, hd⟩ := hn.exists_digit
      obtain ⟨-, -, -, -, hspace, hne⟩ := digit_ne hd
      exact ⟨d, ds, rfl, hspace, hne⟩
    | _ => exact ⟨_, _, rfl, by decide, by decide⟩
  | @container c t => exact ⟨_, _, rfl, by cases c <;> decide, by cases c <;> decide⟩

theorem AreSpaces.detached {a s : Bytes} (ha : AreSpaces a) (hs : Detached s) :
    Detached (a ++ s) := by
  cases a with
  | nil => exact hs
  | cons b a =>
    have hb := ha b List.mem_cons_self
    simp only [isSpace, Bool.or_eq_true, beq_iff_eq] at hb
    rcases hb with ((rfl | rfl) | rfl) | rfl <;> exact .cons (by decide) _

/-- What follows an item does not belong to it. -/
theorem WellFormed.detached {c : Container} {t : Bytes} (h : WellFormed (.items c false) t)
    (rest : Bytes) : Detached (t ++ rest) := by
  cases h with
  | close ha =>
    rw [List.append_assoc, List.singleton_append]
    exact ha.detached (.cons (by cases c <;> decide) rest)
  | item hs =>
    obtain ⟨⟩ | ⟨ha⟩ := hs
    rw [List.append_assoc, List.append_assoc, List.singleton_append]
    exact ha.detached (.cons (by decide) _)

theorem skipKey_append {a k b : Bytes} (ha : AreSpaces a) (hk : IsLiteral k) (hb : AreSpaces b)
    (rest : Bytes) : skipKey (a ++ 0x22 :: (k ++ 0x22 :: (b ++ 0x3A :: rest))) = .ok rest := by
  simp only [skipKey, skipSpace_token ha (show isSpace 0x22 = false by decide), if_true,
    hk.skipString, skipSpace_token hb (show isSpace 0x3A = false by decide)]

theorem skipToItem_leads {c : Container} {l : Bytes} (h : Leads c l) :
    ∃ d, AreSpaces d ∧ ∀ s, skipToItem c (l ++ s) = .ok (d ++ s) := by
  cases h with
  | list ha => exact ⟨l, ha, fun s => rfl⟩
  | @object a k b d ha hk hb hd =>
    refine ⟨d, hd, fun s => ?_⟩
    simp only [skipToItem, List.append_assoc, List.cons_append]
    exact skipKey_append ha hk hb _

/-- The first item of a container is found behind white space. -/
theorem skipToItem_first {c : Container} {l v : Bytes} (h : Leads c l) (hv : WellFormed .value v)
    (s : Bytes) : ∃ b rest d, skipSpace (l ++ (v ++ s)) = b :: rest ∧ b ≠ c.close ∧ AreSpaces d ∧
      skipToItem c (b :: rest) = .ok (d ++ (v ++ s)) := by
  cases h with
  | list ha =>
    obtain ⟨b, v', rfl, hspace, hb⟩ := hv.exists_cons
    exact ⟨b, v' ++ s, [], skipSpace_token ha hspace _, hb, areSpaces_nil, rfl⟩
  | @object a k b d ha hk hb hd =>
    simp only [List.append_assoc, List.cons_append]
    exact ⟨0x22, _, d, skipSpace_token ha (by decide) _, by decide, hd,
      skipKey_append areSpaces_nil hk hb _⟩

theorem WellFormed.skipOpen {p : Part} {s : Bytes} (h : WellFormed p s) : match p with
    | .value => ∀ {a rest : Bytes} (containers : List Container), AreSpaces a → Detached rest →
        skipOpen .value containers (a ++ (s ++ rest)) = skipOpen .nextItem containers rest
    | .items c first => ∀ (outer : List Container) (rest : Bytes),
        Json.skipOpen (.item first) (c :: outer) (s ++ rest) = skipOpen .nextItem outer rest := by
  induction h with
  | @scalar v hs =>
    intro a rest containers ha hrest
    obtain ⟨b, v', rfl, hspace, -⟩ := (WellFormed.scalar hs).exists_cons
    have hstart := hs.skipStart hrest
    refine skipOpen_scalar ?_
    rw [List.cons_append] at hstart ⊢
    rw [skipSpace_token ha hspace, hstart]
  | @container c t _ ih =>
    intro a rest containers ha _
    have hstart : skipStart (c.opening :: (t ++ rest)) = .ok (some c, t ++ rest) := by
      cases c <;> rfl
    have hspace : isSpace c.opening = false := by cases c <;> decide
    rw [List.cons_append, skipOpen_container (by rw [skipSpace_token ha hspace, hstart])]
    exact ih containers rest
  | @close c first a ha =>
    intro outer rest
    have hspace : isSpace c.close = false := by cases c <;> decide
    rw [List.append_assoc, List.singleton_append]
    exact skipOpen_close first outer (skipSpace_token ha hspace rest)
  | @item c first sep l v t hs hl hv ht ihv iht =>
    intro outer rest
    have hrest := ht.detached rest
    have htail : ∀ {d : Bytes}, AreSpaces d →
        Json.skipOpen .value (c :: outer) (d ++ (v ++ (t ++ rest))) =
          Json.skipOpen .nextItem outer rest := by
      intro d hd
      rw [ihv (c :: outer) hd hrest]
      exact iht outer rest
    simp only [List.append_assoc]
    cases hs with
    | first =>
      obtain ⟨b, more, d, hspace, hb, hd, hitem⟩ := skipToItem_first hl hv (t ++ rest)
      rw [List.nil_append]
      exact (skipOpen_firstItem outer hspace hb hitem).trans (htail hd)
    | @comma a ha =>
      obtain ⟨d, hd, hitem⟩ := skipToItem_leads hl
      rw [List.append_assoc, List.singleton_append]
      exact (skipOpen_nextItem outer (skipSpace_token ha (by decide) _) (hitem _)).trans (htail hd)

/-- A well-formed value is passed over up to what does not belong to it. -/
theorem skipValue_append {a v rest : Bytes} (ha : AreSpaces a) (hv : WellFormed .value v)
    (hrest : Detached rest) : skipValue (a ++ (v ++ rest)) = .ok rest := by
  rw [skipValue, hv.skipOpen [] ha hrest, skipOpen]
  rintro ⟨⟩

theorem skipValue_ok {s rest : Bytes} (h : skipValue s = .ok rest) :
    ∃ a v, s = a ++ (v ++ rest) ∧ AreSpaces a ∧ WellFormed .value v := by
  obtain ⟨a, v, _, rfl, ha, hv, rfl⟩ := skipOpen_ok h
  exact ⟨a, v, rfl, ha, hv⟩

end StorageProof.Json
