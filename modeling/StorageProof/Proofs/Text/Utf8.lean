import StorageProof.Text.Utf8

/-!
# Reading what was encoded

The bytes of a scalar are taken off as that scalar, whatever follows them, so that both readers give
back every text from its encoding. The strict reader accepts nothing else: bytes it reads as a text
are the encoding of that text. An encoding is cut between scalars wherever a scalar of one byte
stands.
-/

namespace StorageProof.Utf8

theorem toNat_toUInt8 {n : Nat} (h : n < 256) : n.toUInt8.toNat = n := UInt8.toNat_ofNat_of_lt' h

theorem scalar_range (c : Char) : c.toNat < 0xD800 ∨ 0xDFFF < c.toNat ∧ c.toNat < 0x110000 :=
  c.valid

/-- A text of scalars below 0x80 has one byte for each. -/
theorem encode_ascii {cs : List Char} (h : ∀ c ∈ cs, c.toNat < 0x80) :
    encode cs = cs.map fun c => c.toNat.toUInt8 := by
  induction cs with
  | nil => rfl
  | cons c cs ih =>
    have hcs := ih fun d hd => h d (List.mem_cons_of_mem c hd)
    rw [encode_cons, hcs, List.map_cons, encodeChar, if_pos (h c List.mem_cons_self)]
    rfl

theorem not_lt_0x80 {n : Nat} (h : n < 256) (hn : 0x80 ≤ n) : ¬ n.toUInt8 < 0x80 := by
  rw [UInt8.lt_iff_toNat_lt, toNat_toUInt8 h]
  exact Nat.not_lt.mpr hn

/-- Whether a byte lies between two others, by their numbers. -/
theorem le_and_le_iff {n : Nat} (h : n < 256) (low high : UInt8) :
    (low ≤ n.toUInt8 ∧ n.toUInt8 ≤ high) ↔ low.toNat ≤ n ∧ n ≤ high.toNat := by
  rw [UInt8.le_iff_toNat_le, UInt8.le_iff_toNat_le, toNat_toUInt8 h]

theorem continuation_zero (value : Nat) (rest : Bytes) :
    continuation 0 value rest = (some (Char.ofNat value), rest) := rfl

theorem continuation_succ {n value m : Nat} (hm : m < 0x40) (rest : Bytes) :
    continuation (n + 1) value ((0x80 + m).toUInt8 :: rest) =
      continuation n (value * 0x40 + m) rest := by
  have hlt : 0x80 + m < 256 := by omega
  have hin : (0x80 : UInt8) ≤ (0x80 + m).toUInt8 ∧ (0x80 + m).toUInt8 ≤ 0xBF := by
    rw [le_and_le_iff hlt]
    exact ⟨Nat.le_add_right _ _, show 0x80 + m ≤ 0xBF by omega⟩
  rw [continuation, if_pos hin, toNat_toUInt8 hlt, Nat.add_sub_cancel_left]

theorem afterLead_cons {bits more m : Nat} {low high : UInt8} (hm : m < 0x40)
    (hlow : low.toNat ≤ 0x80 + m) (hhigh : 0x80 + m ≤ high.toNat) (rest : Bytes) :
    afterLead ⟨bits, more + 1, low, high⟩ ((0x80 + m).toUInt8 :: rest) =
      continuation more (bits * 0x40 + m) rest := by
  have hlt : 0x80 + m < 256 := by omega
  rw [afterLead, if_pos ((le_and_le_iff hlt _ _).mpr ⟨hlow, hhigh⟩), toNat_toUInt8 hlt,
    Nat.add_sub_cancel_left, Nat.add_sub_cancel]

theorem uncons_of_lead {n : Nat} {l : Lead} (h : n < 256) (hn : 0x80 ≤ n)
    (hl : lead? n.toUInt8 = some l) (rest : Bytes) : uncons n.toUInt8 rest = afterLead l rest := by
  rw [uncons, if_neg (not_lt_0x80 h hn), hl]

/-- A scalar below 0x800 is announced by a first byte for two. -/
theorem lead?_two {k : Nat} (h : 2 ≤ k) (hk : k < 0x20) :
    lead? (0xC0 + k).toUInt8 = some { bits := k, more := 1 } := by
  have hlt : 0xC0 + k < 256 := by omega
  simp only [lead?, toNat_toUInt8 hlt]
  rw [if_pos (by omega), Nat.add_sub_cancel_left]

/-- A first byte for three announces the bits above, and rules out overlong forms and surrogates. -/
theorem lead?_three {k : Nat} (hk : k < 0x10) :
    lead? (0xE0 + k).toUInt8 =
      some ⟨k, 2, if k = 0 then 0xA0 else 0x80, if k = 0xD then 0x9F else 0xBF⟩ := by
  have hlt : 0xE0 + k < 256 := by omega
  simp only [lead?, toNat_toUInt8 hlt]
  rw [if_neg (by omega)]
  by_cases h0 : k = 0
  · subst h0
    rfl
  · by_cases hd : k = 0xD
    · subst hd
      rfl
    · rw [if_neg (by omega), if_neg (by omega), if_pos (by omega), Nat.add_sub_cancel_left,
        if_neg h0, if_neg hd]

/-- A first byte for four announces the bits above, and rules out overlong forms and scalars that
are too large. -/
theorem lead?_four {k : Nat} (hk : k ≤ 4) :
    lead? (0xF0 + k).toUInt8 =
      some ⟨k, 3, if k = 0 then 0x90 else 0x80, if k = 4 then 0x8F else 0xBF⟩ := by
  have : k = 0 ∨ k = 1 ∨ k = 2 ∨ k = 3 ∨ k = 4 := by omega
  rcases this with rfl | rfl | rfl | rfl | rfl <;> rfl

/-- The bytes of a scalar are taken off as that scalar, whatever follows them. -/
theorem uncons_encodeChar (c : Char) :
    ∃ b bs, encodeChar c = b :: bs ∧ ∀ rest, uncons b (bs ++ rest) = (some c, rest) := by
  have hrange := scalar_range c
  have hc : Char.ofNat c.toNat = c := Char.ofNat_toNat c
  unfold encodeChar
  by_cases h1 : c.toNat < 0x80
  · refine ⟨c.toNat.toUInt8, [], by simp [h1], fun rest => ?_⟩
    have hlt : c.toNat < 256 := by omega
    have hascii : c.toNat.toUInt8 < 0x80 := by
      rw [UInt8.lt_iff_toNat_lt, toNat_toUInt8 hlt]
      exact h1
    rw [uncons, if_pos hascii, toNat_toUInt8 hlt, hc]
    rfl
  · by_cases h2 : c.toNat < 0x800
    · refine ⟨_, _, by rw [if_neg h1, if_pos h2], fun rest => ?_⟩
      have hvalue : c.toNat / 0x40 * 0x40 + c.toNat % 0x40 = c.toNat := by omega
      rw [uncons_of_lead (by omega) (by omega) (lead?_two (by omega) (by omega)),
        List.singleton_append,
        afterLead_cons (by omega) (show 0x80 ≤ _ by omega) (show _ ≤ 0xBF by omega),
        continuation_zero,
        hvalue, hc]
    · by_cases h3 : c.toNat < 0x10000
      · refine ⟨_, _, by rw [if_neg h1, if_neg h2, if_pos h3], fun rest => ?_⟩
        have hvalue : (c.toNat / 0x1000 * 0x40 + c.toNat / 0x40 % 0x40) * 0x40 + c.toNat % 0x40 =
            c.toNat := by
          omega
        have hlow : (if c.toNat / 0x1000 = 0 then 0xA0 else 0x80 : UInt8).toNat ≤
            0x80 + c.toNat / 0x40 % 0x40 := by
          split
          · exact show 0xA0 ≤ _ by omega
          · exact Nat.le_add_right _ _
        have hhigh : 0x80 + c.toNat / 0x40 % 0x40 ≤
            (if c.toNat / 0x1000 = 0xD then 0x9F else 0xBF : UInt8).toNat := by
          split
          · exact show _ ≤ 0x9F by omega
          · exact show _ ≤ 0xBF by omega
        rw [uncons_of_lead (by omega) (by omega) (lead?_three (by omega)), List.cons_append,
          List.singleton_append, afterLead_cons (by omega) hlow hhigh, continuation_succ (by omega),
          continuation_zero, hvalue, hc]
      · refine ⟨_, _, by rw [if_neg h1, if_neg h2, if_neg h3], fun rest => ?_⟩
        have hvalue : ((c.toNat / 0x40000 * 0x40 + c.toNat / 0x1000 % 0x40) * 0x40 +
            c.toNat / 0x40 % 0x40) * 0x40 + c.toNat % 0x40 = c.toNat := by omega
        have hlow : (if c.toNat / 0x40000 = 0 then 0x90 else 0x80 : UInt8).toNat ≤
            0x80 + c.toNat / 0x1000 % 0x40 := by
          split
          · exact show 0x90 ≤ _ by omega
          · exact Nat.le_add_right _ _
        have hhigh : 0x80 + c.toNat / 0x1000 % 0x40 ≤
            (if c.toNat / 0x40000 = 4 then 0x8F else 0xBF : UInt8).toNat := by
          split
          · exact show _ ≤ 0x8F by omega
          · exact show _ ≤ 0xBF by omega
        rw [uncons_of_lead (by omega) (by omega) (lead?_four (by omega)), List.cons_append,
          List.cons_append,
          List.singleton_append, afterLead_cons (by omega) hlow hhigh, continuation_succ (by omega),
          continuation_succ (by omega), continuation_zero, hvalue, hc]

/-! ## The two readers -/

theorem decodeOnto_encode (read cs : List Char) (s : Bytes) :
    decodeOnto read (encode cs ++ s) = decodeOnto (cs.reverse ++ read) s := by
  induction cs generalizing read with
  | nil => rfl
  | cons c cs ih =>
    obtain ⟨b, bs, hb, hu⟩ := uncons_encodeChar c
    have hstep : decodeOnto read (b :: (bs ++ (encode cs ++ s))) =
        decodeOnto (c :: read) (encode cs ++ s) := by
      rw [decodeOnto]
      split
      · next c' rest h =>
        rw [hu] at h
        cases h
        rfl
      · next h =>
        rw [hu] at h
        cases h
    rw [encode_cons, hb, List.cons_append, List.cons_append, List.append_assoc, hstep, ih]
    simp

theorem lossyOnto_encode (read cs : List Char) (s : Bytes) :
    lossyOnto read (encode cs ++ s) = lossyOnto (cs.reverse ++ read) s := by
  induction cs generalizing read with
  | nil => rfl
  | cons c cs ih =>
    obtain ⟨b, bs, hb, hu⟩ := uncons_encodeChar c
    have hstep : lossyOnto read (b :: (bs ++ (encode cs ++ s))) =
        lossyOnto (c :: read) (encode cs ++ s) := by
      rw [lossyOnto, hu]
      rfl
    rw [encode_cons, hb, List.cons_append, List.cons_append, List.append_assoc, hstep, ih]
    simp

@[simp] theorem decode?_encode (cs : List Char) : decode? (encode cs) = some cs := by
  have h := decodeOnto_encode [] cs []
  rw [List.append_nil, List.append_nil] at h
  rw [decode?, h, decodeOnto, List.reverse_reverse]

@[simp] theorem toString?_ofString (s : String) : toString? (ofString s) = some s := by
  rw [toString?, ofString, decode?_encode, Option.map_some, String.ofList_toList]

theorem encode_injective {cs ds : List Char} (h : encode cs = encode ds) : cs = ds := by
  have hd := congrArg decode? h
  rw [decode?_encode, decode?_encode] at hd
  exact Option.some.inj hd

@[simp] theorem lossy_encode (cs : List Char) : lossy (encode cs) = String.ofList cs := by
  have h := lossyOnto_encode [] cs []
  rw [List.append_nil, List.append_nil] at h
  rw [lossy, h, lossyOnto, List.reverse_reverse]

/-! ## Only what was encoded is read -/

theorem toNat_ofNat {n : Nat} (h : n.isValidChar) : (Char.ofNat n).toNat = n := by
  rw [Char.ofNat, dif_pos h]
  rfl

theorem eq_toUInt8 {b : UInt8} {n : Nat} (h : b.toNat = n) : b = n.toUInt8 := by
  rw [← h]
  simp

/-- A byte is taken as the next six bits only if it is what they are written as. -/
theorem continuation_succ_some {n value : Nat} {s rest : Bytes} {c : Char}
    (h : continuation (n + 1) value s = (some c, rest)) :
    ∃ m s', m < 0x40 ∧ s = (0x80 + m).toUInt8 :: s' ∧
      continuation n (value * 0x40 + m) s' = (some c, rest) := by
  cases s with
  | nil => cases h
  | cons b s =>
    rw [continuation] at h
    split at h
    · next hb =>
      rw [UInt8.le_iff_toNat_le, UInt8.le_iff_toNat_le] at hb
      have hlow : 0x80 ≤ b.toNat := hb.1
      have hhigh : b.toNat ≤ 0xBF := hb.2
      have hbyte : b = (0x80 + (b.toNat - 0x80)).toUInt8 := eq_toUInt8 (by omega)
      exact ⟨b.toNat - 0x80, s, by omega, congrArg (· :: s) hbyte, h⟩
    · cases h

theorem afterLead_some {bits more : Nat} {low high : UInt8} {s rest : Bytes} {c : Char}
    (hlow : 0x80 ≤ low.toNat) (hhigh : high.toNat ≤ 0xBF)
    (h : afterLead ⟨bits, more + 1, low, high⟩ s = (some c, rest)) :
    ∃ m s', m < 0x40 ∧ low.toNat ≤ 0x80 + m ∧ 0x80 + m ≤ high.toNat ∧
      s = (0x80 + m).toUInt8 :: s' ∧ continuation more (bits * 0x40 + m) s' = (some c, rest) := by
  cases s with
  | nil => cases h
  | cons b s =>
    rw [afterLead] at h
    split at h
    · next hb =>
      rw [UInt8.le_iff_toNat_le, UInt8.le_iff_toNat_le] at hb
      have hfrom : low.toNat ≤ b.toNat := hb.1
      have hto : b.toNat ≤ high.toNat := hb.2
      have hbyte : b = (0x80 + (b.toNat - 0x80)).toUInt8 := eq_toUInt8 (by omega)
      exact ⟨b.toNat - 0x80, s, by omega, by omega, by omega, congrArg (· :: s) hbyte, h⟩
    · cases h

/-- What a first byte above 0x7F can be. -/
theorem lead?_some {b : UInt8} {l : Lead} (h : lead? b = some l) :
    (∃ k, 2 ≤ k ∧ k < 0x20 ∧ b = (0xC0 + k).toUInt8 ∧ l = { bits := k, more := 1 }) ∨
    (∃ k, k < 0x10 ∧ b = (0xE0 + k).toUInt8 ∧
      l = ⟨k, 2, if k = 0 then 0xA0 else 0x80, if k = 0xD then 0x9F else 0xBF⟩) ∨
    ∃ k, k ≤ 4 ∧ b = (0xF0 + k).toUInt8 ∧
      l = ⟨k, 3, if k = 0 then 0x90 else 0x80, if k = 4 then 0x8F else 0xBF⟩ := by
  have hrange : 0xC2 ≤ b.toNat ∧ b.toNat ≤ 0xF4 := by
    by_cases hin : 0xC2 ≤ b.toNat ∧ b.toNat ≤ 0xF4
    · exact hin
    · simp only [lead?] at h
      rw [if_neg (by omega), if_neg (by omega), if_neg (by omega), if_neg (by omega),
        if_neg (by omega), if_neg (by omega), if_neg (by omega)] at h
      cases h
  by_cases hthree : b.toNat < 0xE0
  · have hb : b = (0xC0 + (b.toNat - 0xC0)).toUInt8 := eq_toUInt8 (by omega)
    rw [hb, lead?_two (by omega) (by omega)] at h
    exact .inl ⟨b.toNat - 0xC0, by omega, by omega, hb, (Option.some.inj h).symm⟩
  by_cases hfour : b.toNat < 0xF0
  · have hb : b = (0xE0 + (b.toNat - 0xE0)).toUInt8 := eq_toUInt8 (by omega)
    rw [hb, lead?_three (by omega)] at h
    exact .inr (.inl ⟨b.toNat - 0xE0, by omega, hb, (Option.some.inj h).symm⟩)
  · have hb : b = (0xF0 + (b.toNat - 0xF0)).toUInt8 := eq_toUInt8 (by omega)
    rw [hb, lead?_four (by omega)] at h
    exact .inr (.inr ⟨b.toNat - 0xF0, by omega, hb, (Option.some.inj h).symm⟩)

/-! The bytes of a scalar by its groups of six bits. -/

section Groups

variable {k m m' m'' : Nat}

theorem encodeChar_two (hk : 2 ≤ k) (hk' : k < 0x20) (hm : m < 0x40) :
    encodeChar (Char.ofNat (k * 0x40 + m)) = [(0xC0 + k).toUInt8, (0x80 + m).toUInt8] := by
  have hc : (Char.ofNat (k * 0x40 + m)).toNat = k * 0x40 + m := toNat_ofNat (.inl (by omega))
  unfold encodeChar
  simp only [hc]
  rw [if_neg (by omega), if_pos (by omega), show (k * 0x40 + m) / 0x40 = k by omega,
    show (k * 0x40 + m) % 0x40 = m by omega]

/-- Overlong forms and surrogates are left out. -/
theorem encodeChar_three (hk : k < 0x10) (hm : m < 0x40) (hm' : m' < 0x40)
    (hoverlong : k = 0 → 0x20 ≤ m) (hsurrogate : k = 0xD → m < 0x20) :
    encodeChar (Char.ofNat ((k * 0x40 + m) * 0x40 + m')) =
      [(0xE0 + k).toUInt8, (0x80 + m).toUInt8, (0x80 + m').toUInt8] := by
  have hvalid : ((k * 0x40 + m) * 0x40 + m').isValidChar := by
    by_cases hd : k ≤ 0xD
    · exact .inl (by omega)
    · exact .inr ⟨by omega, by omega⟩
  have hc := toNat_ofNat hvalid
  unfold encodeChar
  simp only [hc]
  rw [if_neg (by omega), if_neg (by omega), if_pos (by omega),
    show ((k * 0x40 + m) * 0x40 + m') / 0x1000 = k by omega,
    show ((k * 0x40 + m) * 0x40 + m') / 0x40 % 0x40 = m by omega,
    show ((k * 0x40 + m) * 0x40 + m') % 0x40 = m' by omega]

theorem encodeChar_four (hk : k ≤ 4) (hm : m < 0x40) (hm' : m' < 0x40) (hm'' : m'' < 0x40)
    (hoverlong : k = 0 → 0x10 ≤ m) (hlarge : k = 4 → m < 0x10) :
    encodeChar (Char.ofNat (((k * 0x40 + m) * 0x40 + m') * 0x40 + m'')) =
      [(0xF0 + k).toUInt8, (0x80 + m).toUInt8, (0x80 + m').toUInt8, (0x80 + m'').toUInt8] := by
  have hc : (Char.ofNat (((k * 0x40 + m) * 0x40 + m') * 0x40 + m'')).toNat =
      ((k * 0x40 + m) * 0x40 + m') * 0x40 + m'' := toNat_ofNat (.inr ⟨by omega, by omega⟩)
  unfold encodeChar
  simp only [hc]
  rw [if_neg (by omega), if_neg (by omega), if_neg (by omega),
    show (((k * 0x40 + m) * 0x40 + m') * 0x40 + m'') / 0x40000 = k by omega,
    show (((k * 0x40 + m) * 0x40 + m') * 0x40 + m'') / 0x1000 % 0x40 = m by omega,
    show (((k * 0x40 + m) * 0x40 + m') * 0x40 + m'') / 0x40 % 0x40 = m' by omega,
    show (((k * 0x40 + m) * 0x40 + m') * 0x40 + m'') % 0x40 = m'' by omega]

end Groups

/-- What is taken off as a scalar is the encoding of that scalar. -/
theorem encodeChar_of_uncons {b : UInt8} {rest rest' : Bytes} {c : Char}
    (h : uncons b rest = (some c, rest')) : b :: rest = encodeChar c ++ rest' := by
  unfold uncons at h
  split at h
  · next hb =>
    cases h
    have hlt : b.toNat < 0x80 := UInt8.lt_iff_toNat_lt.mp hb
    have hc : (Char.ofNat b.toNat).toNat = b.toNat := toNat_ofNat (.inl (by omega))
    simp [encodeChar, hc, hlt]
  split at h
  · next l hl =>
    rcases lead?_some hl with ⟨k, hk, hk', rfl, rfl⟩ | ⟨k, hk, rfl, rfl⟩ | ⟨k, hk, rfl, rfl⟩
    · obtain ⟨m, s, hm, -, -, hs, hrest⟩ := afterLead_some (by decide) (by decide) h
      cases hrest
      rw [hs, encodeChar_two hk hk' hm]
      rfl
    · obtain ⟨m, s, hm, hlow, hhigh, hs, hrest⟩ :=
        afterLead_some (by split <;> decide) (by split <;> decide) h
      obtain ⟨m', s', hm', hs', hrest⟩ := continuation_succ_some hrest
      cases hrest
      have hoverlong : k = 0 → 0x20 ≤ m := by
        rintro rfl
        have : 0xA0 ≤ 0x80 + m := hlow
        omega
      have hsurrogate : k = 0xD → m < 0x20 := by
        rintro rfl
        have : 0x80 + m ≤ 0x9F := hhigh
        omega
      rw [hs, hs', encodeChar_three hk hm hm' hoverlong hsurrogate]
      rfl
    · obtain ⟨m, s, hm, hlow, hhigh, hs, hrest⟩ :=
        afterLead_some (by split <;> decide) (by split <;> decide) h
      obtain ⟨m', s', hm', hs', hrest⟩ := continuation_succ_some hrest
      obtain ⟨m'', s'', hm'', hs'', hrest⟩ := continuation_succ_some hrest
      cases hrest
      have hoverlong : k = 0 → 0x10 ≤ m := by
        rintro rfl
        have : 0x90 ≤ 0x80 + m := hlow
        omega
      have hlarge : k = 4 → m < 0x10 := by
        rintro rfl
        have : 0x80 + m ≤ 0x8F := hhigh
        omega
      rw [hs, hs', hs'', encodeChar_four hk hm hm' hm'' hoverlong hlarge]
      rfl
  · cases h

theorem encode_of_decodeOnto {read cs : List Char} {s : Bytes} (h : decodeOnto read s = some cs) :
    ∃ ds, s = encode ds ∧ cs = read.reverse ++ ds := by
  fun_induction decodeOnto read s with
  | case1 read =>
    cases h
    exact ⟨[], rfl, by simp⟩
  | case2 read b rest c rest' hu ih =>
    obtain ⟨ds, rfl, rfl⟩ := ih h
    exact ⟨c :: ds, by rw [encodeChar_of_uncons hu, encode_cons], by simp⟩
  | case3 => cases h

theorem decode?_eq_some_iff {s : Bytes} {cs : List Char} : decode? s = some cs ↔ s = encode cs := by
  constructor
  · intro h
    obtain ⟨ds, hs, rfl⟩ := encode_of_decodeOnto h
    simpa using hs
  · rintro rfl
    exact decode?_encode cs

theorem toString?_eq_some_iff {s : Bytes} {text : String} :
    toString? s = some text ↔ s = ofString text := by
  constructor
  · intro h
    obtain ⟨cs, hcs, rfl⟩ := Option.map_eq_some_iff.mp h
    rw [decode?_eq_some_iff.mp hcs, ofString, String.toList_ofList]
  · rintro rfl
    exact toString?_ofString text

@[simp] theorem lossy_ofString (s : String) : lossy (ofString s) = s := by
  rw [ofString, lossy_encode, String.ofList_toList]

/-- Nothing is lost of bytes that encode a text. -/
theorem ofString_lossy {s : Bytes} (h : (toString? s).isSome) : ofString (lossy s) = s := by
  obtain ⟨text, htext⟩ := Option.isSome_iff_exists.mp h
  rw [toString?_eq_some_iff.mp htext, lossy_ofString]

/-! ## Cutting an encoding -/

/-- The bytes of a scalar after its first one are not those of a scalar below 0x80. -/
theorem le_of_mem_encodeChar {c : Char} {b x : UInt8} {bs : Bytes} (h : encodeChar c = b :: bs)
    (hx : x ∈ bs) : 0x80 ≤ x := by
  have hcontinues (n : Nat) : (0x80 : UInt8) ≤ (0x80 + n % 0x40).toUInt8 := by
    rw [UInt8.le_iff_toNat_le, toNat_toUInt8 (by omega)]
    exact Nat.le_add_right _ _
  simp only [encodeChar] at h
  split at h
  · cases h
    cases hx
  split at h
  · cases h
    rw [List.mem_singleton] at hx
    exact hx ▸ hcontinues _
  split at h
  · cases h
    simp only [List.mem_cons, List.not_mem_nil, or_false] at hx
    rcases hx with rfl | rfl <;> exact hcontinues _
  · cases h
    simp only [List.mem_cons, List.not_mem_nil, or_false] at hx
    rcases hx with rfl | rfl | rfl <;> exact hcontinues _

/-- What follows the encoding of a text in an encoding is an encoding too. -/
theorem exists_of_encode_eq_encode_append {cs ds : List Char} {s : Bytes}
    (h : encode cs = encode ds ++ s) : ∃ es, cs = ds ++ es ∧ s = encode es := by
  have hread : decodeOnto [] (encode ds ++ s) = some cs := by
    rw [← h]
    exact decode?_encode cs
  rw [decodeOnto_encode] at hread
  obtain ⟨es, hs, rfl⟩ := encode_of_decodeOnto hread
  exact ⟨es, by simp, hs⟩

/-- An encoding can be cut before every byte below 0x80. -/
theorem exists_of_encode_eq_append {cs : List Char} {s r : Bytes} {b : UInt8} (hb : b < 0x80)
    (h : encode cs = s ++ b :: r) :
    ∃ ds es, cs = ds ++ es ∧ s = encode ds ∧ b :: r = encode es := by
  induction cs generalizing s with
  | nil => simp at h
  | cons c cs ih =>
    cases s with
    | nil => exact ⟨[], c :: cs, rfl, rfl, h.symm⟩
    | cons a s =>
      obtain ⟨a', bs, hc, -⟩ := uncons_encodeChar c
      rw [encode_cons, hc, List.cons_append, List.cons_append] at h
      obtain ⟨rfl, htail⟩ := List.cons.inj h
      -- The cut does not fall into the scalar, since the bytes in it are not below 0x80.
      have hafter : ∃ s', s = bs ++ s' ∧ encode cs = s' ++ b :: r := by
        rcases List.append_eq_append_iff.mp htail with ⟨s', hs, hrest⟩ | ⟨t, hbs, hrest⟩
        · exact ⟨s', hs, hrest⟩
        · cases t with
          | nil => exact ⟨[], by rw [hbs, List.append_nil, List.append_nil], hrest.symm⟩
          | cons x t =>
            obtain ⟨rfl, -⟩ := List.cons.inj hrest
            have hmem : b ∈ bs := by
              rw [hbs]
              exact List.mem_append_right s List.mem_cons_self
            exact absurd hb (UInt8.not_lt.mpr (le_of_mem_encodeChar hc hmem))
      obtain ⟨s', rfl, hrest⟩ := hafter
      obtain ⟨ds, es, rfl, rfl, hes⟩ := ih hrest
      exact ⟨c :: ds, es, rfl, by rw [encode_cons, hc, List.cons_append], hes⟩

end StorageProof.Utf8
