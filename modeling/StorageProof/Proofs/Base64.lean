import StorageProof.Base64.Lemmas
import StorageProof.Proofs.Sequencing

/-!
# No two texts for the same bytes

Whatever is read as Base64 is the padded text of the bytes that come out, so that a list of bytes
has one text only. Groups of four symbols are undone one by one; the last group needs to be looked
at as symbols with fill behind them.
-/

namespace StorageProof.Base64

theorem toNat_ofNat {n : Nat} (h : n < 128) : (Char.ofNat n).toNat = n := by
  have hvalid : n.isValidChar := .inl (by omega)
  rw [Char.ofNat, dif_pos hvalid]
  rfl

theorem toUInt8_toNat (b : UInt8) : b.toNat.toUInt8 = b := by simp

/-- A byte that counts as a symbol is the byte of that symbol. -/
theorem Alphabet.byte_of_sextet? {a : Alphabet} {b : UInt8} {n : Nat} (h : a.sextet? b = some n) :
    n < 64 ∧ a.byte n = b := by
  have hb := toUInt8_toNat b
  unfold sextet? at h
  simp only at h
  split at h
  · cases h
    refine ⟨by omega, ?_⟩
    rw [byte, symbol, if_pos (by omega), toNat_ofNat (by omega),
      show 65 + (b.toNat - 65) = b.toNat by omega, hb]
  split at h
  · cases h
    refine ⟨by omega, ?_⟩
    rw [byte, symbol, if_neg (by omega), if_pos (by omega), toNat_ofNat (by omega),
      show 71 + (b.toNat - 71) = b.toNat by omega, hb]
  split at h
  · cases h
    refine ⟨by omega, ?_⟩
    rw [byte, symbol, if_neg (by omega), if_neg (by omega), if_pos (by omega),
      toNat_ofNat (by omega), show b.toNat + 4 - 4 = b.toNat by omega, hb]
  split at h
  · next h62 =>
    cases h
    exact ⟨by omega, (congrArg Nat.toUInt8 h62).symm.trans hb⟩
  split at h
  · next h63 =>
    cases h
    exact ⟨by omega, (congrArg Nat.toUInt8 h63).symm.trans hb⟩
  · cases h

theorem Alphabet.byte_of_sextet {a : Alphabet} {b : UInt8} {offset n : Nat}
    (h : a.sextet b offset = .ok n) :
    n < 64 ∧ a.byte n = b := by
  unfold sextet at h
  split at h
  · next hs =>
    cases h
    exact byte_of_sextet? hs
  · cases h

/-! ## Groups of four symbols -/

section Groups

variable {p q r s : Nat}

theorem toNat_octet1 (hp : p < 64) (hq : q < 64) : (octet1 p q).toNat = p * 4 + q / 16 :=
  UInt8.toNat_ofNat_of_lt' (show _ < 256 by omega)

theorem toNat_octet2 (hr : r < 64) : (octet2 q r).toNat = q % 16 * 16 + r / 4 :=
  UInt8.toNat_ofNat_of_lt' (show _ < 256 by omega)

theorem toNat_octet3 (hs : s < 64) : (octet3 r s).toNat = r % 4 * 64 + s :=
  UInt8.toNat_ofNat_of_lt' (show _ < 256 by omega)

theorem sextet1_octets (hp : p < 64) (hq : q < 64) : sextet1 (octet1 p q) = p := by
  rw [sextet1, toNat_octet1 hp hq]
  omega

theorem sextet2_octets (hp : p < 64) (hq : q < 64) (hr : r < 64) :
    sextet2 (octet1 p q) (octet2 q r) = q := by
  rw [sextet2, toNat_octet1 hp hq, toNat_octet2 hr]
  omega

theorem sextet3_octets (hr : r < 64) (hs : s < 64) : sextet3 (octet2 q r) (octet3 r s) = r := by
  rw [sextet3, toNat_octet2 hr, toNat_octet3 hs]
  omega

theorem sextet4_octets (hs : s < 64) : sextet4 (octet3 r s) = s := by
  rw [sextet4, toNat_octet3 hs]
  omega

/-- With no bits to spare, a group of two symbols is that of its byte. -/
theorem sextet2_spared (hp : p < 64) (hq : q < 64) (h : q % 16 = 0) :
    sextet2 (octet1 p q) 0 = q := by
  rw [sextet2, toNat_octet1 hp hq, show (0 : UInt8).toNat = 0 from rfl]
  omega

theorem sextet3_spared (hr : r < 64) (h : r % 4 = 0) : sextet3 (octet2 q r) 0 = r := by
  rw [sextet3, toNat_octet2 hr, show (0 : UInt8).toNat = 0 from rfl]
  omega

end Groups

/-! ## The last group -/

/-- The last group is taken as symbols with fill behind them. -/
theorem Tail.pushAll_ok {a : Alphabet} {start i : Nat} {t t' : Tail} {group : Bytes}
    (h : Tail.pushAll a start i t group = .ok t') :
    ∃ ns k, group = ns.map a.byte ++ List.replicate k pad ∧ (∀ n ∈ ns, n < 64) ∧
      t'.sextets = t.sextets ++ ns ∧ t'.fill = t.fill + k ∧ (t.fillFrom.isSome → ns = []) := by
  induction group generalizing i t with
  | nil =>
    cases h
    exact ⟨[], 0, rfl, by simp, by simp, rfl, fun _ => rfl⟩
  | cons b rest ih =>
    unfold pushAll at h
    split at h
    · cases h
    next t₁ hpush =>
    obtain ⟨ns, k, hrest, hlt, hsextets, hfill, hnone⟩ := ih h
    unfold push at hpush
    split at hpush
    · next hb =>
      split at hpush
      · cases hpush
      · cases hpush
        -- No symbol may follow fill.
        have hns := hnone rfl
        subst hns
        refine ⟨[], k + 1, ?_, hlt, hsextets, ?_, fun _ => rfl⟩
        · rw [hrest, hb]
          rfl
        · rw [hfill]
          simp only
          omega
    · split at hpush
      · cases hpush
      next hfrom =>
      split at hpush
      · cases hpush
      next n hn =>
      cases hpush
      obtain ⟨hn64, hbyte⟩ := Alphabet.byte_of_sextet hn
      refine ⟨n :: ns, k, ?_, ?_, ?_, hfill, ?_⟩
      · rw [hrest, List.map_cons, List.cons_append, hbyte]
      · intro m hm
        rcases List.mem_cons.mp hm with rfl | hm
        · exact hn64
        · exact hlt m hm
      · rw [hsextets]
        simp
      · intro hsome
        rw [hfrom] at hsome
        cases hsome

theorem encode_of_lastGroup {a : Alphabet} (ha : a.Lawful) {start : Nat} {group bytes : Bytes}
    {t : Tail} (hlen : group.length ≤ 4) (ht : Tail.pushAll a start 0 {} group = .ok t)
    (hb : t.bytes start = .ok bytes) : Utf8.encode (encode a bytes) = group := by
  obtain ⟨ns, k, hgroup, hlt, hsextets, hfill, -⟩ := Tail.pushAll_ok ht
  have hsextets : t.sextets = ns := hsextets
  have hfill : t.fill = k := by
    rw [hfill]
    exact Nat.zero_add k
  have hsize : ns.length + k ≤ 4 := by simpa [hgroup] using hlen
  unfold Tail.bytes at hb
  rw [hsextets, hfill] at hb
  match ns, hlt, hsize, hgroup, hb with
  | [], _, _, _, hb => cases hb
  | [_], _, _, _, hb => cases hb
  | [p, q], hlt, _, hgroup, hb =>
    have hp := hlt p (by simp)
    have hq := hlt q (by simp)
    simp only at hb
    split at hb
    · cases hb
    next hk =>
    split at hb
    · cases hb
    next hspare =>
    cases hb
    rw [Decidable.not_not] at hk hspare
    rw [hgroup, hk, encode, sextet1_octets hp hq, sextet2_spared hp hq hspare]
    simp [ha.encodeChar_symbol, hp, hq, encodeChar_pad, List.replicate]
  | [p, q, r], hlt, _, hgroup, hb =>
    have hp := hlt p (by simp)
    have hq := hlt q (by simp)
    have hr := hlt r (by simp)
    simp only at hb
    split at hb
    · cases hb
    next hk =>
    split at hb
    · cases hb
    next hspare =>
    cases hb
    rw [Decidable.not_not] at hk hspare
    rw [hgroup, hk, encode, sextet1_octets hp hq, sextet2_octets hp hq hr, sextet3_spared hr hspare]
    simp [ha.encodeChar_symbol, hp, hq, hr, encodeChar_pad]
  | p :: q :: r :: s :: more, hlt, hsize, hgroup, hb =>
    have hp := hlt p (by simp)
    have hq := hlt q (by simp)
    have hr := hlt r (by simp)
    have hs := hlt s (by simp)
    cases hb
    simp only [List.length_cons] at hsize
    have hmore : more = [] := List.length_eq_zero_iff.mp (by omega)
    have hk : k = 0 := by omega
    subst hmore hk
    rw [hgroup, encode, sextet1_octets hp hq, sextet2_octets hp hq hr, sextet3_octets hr hs,
      sextet4_octets hs]
    simp [ha.encodeChar_symbol, hp, hq, hr, hs, encode]

/-! ## Whole texts -/

theorem encode_of_decodeGroups {a : Alphabet} (ha : a.Lawful) {start : Nat} {s bytes : Bytes}
    (h : decodeGroups a start s = .ok bytes) : Utf8.encode (encode a bytes) = s := by
  induction start, s using decodeGroups.induct generalizing bytes with
  | case1 start =>
    cases h
    rfl
  | case2 start w x y z next rest ih =>
    rw [decodeGroups] at h
    obtain ⟨p, hsp, h⟩ := exists_of_bind_eq_ok h
    obtain ⟨q, hsq, h⟩ := exists_of_bind_eq_ok h
    obtain ⟨r, hsr, h⟩ := exists_of_bind_eq_ok h
    obtain ⟨v, hsv, h⟩ := exists_of_bind_eq_ok h
    obtain ⟨tail, htail, h⟩ := exists_of_bind_eq_ok h
    cases h
    obtain ⟨hp, rfl⟩ := Alphabet.byte_of_sextet hsp
    obtain ⟨hq, rfl⟩ := Alphabet.byte_of_sextet hsq
    obtain ⟨hr, rfl⟩ := Alphabet.byte_of_sextet hsr
    obtain ⟨hv, rfl⟩ := Alphabet.byte_of_sextet hsv
    rw [encode, sextet1_octets hp hq, sextet2_octets hp hq hr, sextet3_octets hr hv,
      sextet4_octets hv]
    simp only [Utf8.encode_cons, ha.encodeChar_symbol, hp, hq, hr, hv, ih htail,
      List.singleton_append]
  | case3 start group hnil hlong =>
    have hlen : group.length ≤ 4 := by
      rcases group with _ | ⟨w, _ | ⟨x, _ | ⟨y, _ | ⟨z, _ | ⟨next, rest⟩⟩⟩⟩⟩
      · simp
      · simp
      · simp
      · simp
      · simp
      · exact absurd rfl (hlong w x y z next rest)
    rw [decodeGroups] at h
    · obtain ⟨t, ht, hb⟩ := exists_of_bind_eq_ok h
      exact encode_of_lastGroup ha hlen ht hb
    · exact hnil
    · exact hlong

/-- What is read as Base64 is the padded text of what comes out. -/
theorem encode_of_decode {a : Alphabet} (ha : a.Lawful) {s bytes : Bytes}
    (h : decode a s = .ok bytes) :
    Utf8.encode (encode a bytes) = s := by
  unfold decode at h
  split at h
  · cases h
  · exact encode_of_decodeGroups ha h

theorem mem_encode {a : Alphabet} {bytes : Bytes} {c : Char} (h : c ∈ encode a bytes) :
    c = '=' ∨ ∃ n < 64, c = a.symbol n := by
  fun_induction encode a bytes with
  | case1 => cases h
  | case2 x =>
    simp only [List.mem_cons, List.not_mem_nil, or_false] at h
    rcases h with h | h | h | h
    · exact .inr ⟨_, sextet1_lt x, h⟩
    · exact .inr ⟨_, sextet2_lt x 0, h⟩
    · exact .inl h
    · exact .inl h
  | case3 x y =>
    simp only [List.mem_cons, List.not_mem_nil, or_false] at h
    rcases h with h | h | h | h
    · exact .inr ⟨_, sextet1_lt x, h⟩
    · exact .inr ⟨_, sextet2_lt x y, h⟩
    · exact .inr ⟨_, sextet3_lt y 0, h⟩
    · exact .inl h
  | case4 x y z rest ih =>
    simp only [List.mem_cons] at h
    rcases h with h | h | h | h | h
    · exact .inr ⟨_, sextet1_lt x, h⟩
    · exact .inr ⟨_, sextet2_lt x y, h⟩
    · exact .inr ⟨_, sextet3_lt y z, h⟩
    · exact .inr ⟨_, sextet4_lt z, h⟩
    · exact ih h

/-! ## Texts with one fill character -/

/-- The numbers of the symbols that stand for two bytes more than whole groups have: all but the
last are any, and the last has no bit set that it has to spare. -/
structure Symbols (groups : Nat) (ns : List Nat) : Prop where
  length : ns.length = 4 * groups + 3
  lt : ∀ n ∈ ns, n < 64
  spare : ∀ n ∈ ns.getLast?, n % 4 = 0

/-- A text for two bytes more than whole groups has symbols and one fill character. -/
theorem exists_symbols (a : Alphabet) {bytes : Bytes} {groups : Nat}
    (h : bytes.length = 3 * groups + 2) :
    ∃ ns, Symbols groups ns ∧ encode a bytes = ns.map a.symbol ++ ['='] := by
  induction groups generalizing bytes with
  | zero =>
    match bytes, h with
    | [x, y], _ =>
      refine ⟨[sextet1 x, sextet2 x y, sextet3 y 0], ⟨rfl, ?_, ?_⟩, rfl⟩
      · simp [sextet1_lt, sextet2_lt, sextet3_lt]
      · simp [sextet3_spare]
  | succ groups ih =>
    match bytes, h with
    | x :: y :: z :: rest, h =>
      have hrest : rest.length = 3 * groups + 2 := by
        simp only [List.length_cons] at h
        omega
      obtain ⟨ns, ⟨hlength, hlt, hspare⟩, hencode⟩ := ih hrest
      refine ⟨sextet1 x :: sextet2 x y :: sextet3 y z :: sextet4 z :: ns, ⟨?_, ?_, ?_⟩, ?_⟩
      · simp only [List.length_cons, hlength]
        omega
      · simpa [sextet1_lt, sextet2_lt, sextet3_lt, sextet4_lt] using hlt
      · cases ns with
        | nil => simp at hlength
        | cons n ns => simpa [List.getLast?_cons_cons] using hspare
      · simp [encode, hencode]

theorem exists_cons_three {ns : List Nat} (h : 3 ≤ ns.length) :
    ∃ p q r rest, ns = p :: q :: r :: rest := by
  rcases ns with _ | ⟨p, _ | ⟨q, _ | ⟨r, rest⟩⟩⟩
  case cons.cons.cons => exact ⟨p, q, r, rest, rfl⟩
  all_goals
    simp only [List.length_cons, List.length_nil] at h
    omega

/-- Every such text stands for bytes. -/
theorem exists_of_symbols (a : Alphabet) {ns : List Nat} {groups : Nat} (h : Symbols groups ns) :
    ∃ bytes, bytes.length = 3 * groups + 2 ∧ encode a bytes = ns.map a.symbol ++ ['='] := by
  induction groups generalizing ns with
  | zero =>
    obtain ⟨hlength, hlt, hspare⟩ := h
    obtain ⟨p, q, r, rest, rfl⟩ := exists_cons_three (by omega : 3 ≤ ns.length)
    obtain rfl : rest = [] := List.eq_nil_of_length_eq_zero (by simpa using hlength)
    obtain ⟨hp, hq, hr⟩ : p < 64 ∧ q < 64 ∧ r < 64 := by simpa using hlt
    refine ⟨[octet1 p q, octet2 q r], rfl, ?_⟩
    simp [encode, sextet1_octets hp hq, sextet2_octets hp hq hr, sextet3_spared hr (hspare r rfl)]
  | succ groups ih =>
    obtain ⟨hlength, hlt, hspare⟩ := h
    obtain ⟨p, q, r, rest, rfl⟩ := exists_cons_three (by omega : 3 ≤ ns.length)
    obtain ⟨s, rest, rfl⟩ := List.exists_cons_of_length_pos (l := rest) (by simp at hlength; omega)
    obtain ⟨hp, hq, hr, hs, hrest⟩ : p < 64 ∧ q < 64 ∧ r < 64 ∧ s < 64 ∧ ∀ n ∈ rest, n < 64 := by
      simpa using hlt
    have hlast : ∀ n ∈ rest.getLast?, n % 4 = 0 := by
      cases rest with
      | nil => simp
      | cons n rest => simpa [List.getLast?_cons_cons] using hspare
    have hrestLength : rest.length = 4 * groups + 3 := by
      simp only [List.length_cons] at hlength
      omega
    obtain ⟨bytes, hbytes, hencode⟩ := ih ⟨hrestLength, hrest, hlast⟩
    refine ⟨octet1 p q :: octet2 q r :: octet3 r s :: bytes, ?_, ?_⟩
    · simp only [List.length_cons, hbytes]
      omega
    · simp [encode, sextet1_octets hp hq, sextet2_octets hp hq hr, sextet3_octets hr hs,
        sextet4_octets hs, hencode]

end StorageProof.Base64
