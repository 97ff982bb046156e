import StorageProof.Base64

/-!
# Reading Base64 back

The main statement is `decode_encode`: every list of bytes is read back from its padded text, in either
alphabet. It rests on the sixty-four symbols being read back one by one.
-/

namespace StorageProof.Base64

def Alphabet.byte (a : Alphabet) (n : Nat) : UInt8 := (a.symbol n).toNat.toUInt8

/-- An alphabet whose symbols are single bytes, distinct from each other and from the fill. -/
structure Alphabet.Lawful (a : Alphabet) : Prop where
  encodeChar_symbol : ∀ n < 64, Utf8.encodeChar (a.symbol n) = [a.byte n]
  sextet?_byte : ∀ n < 64, a.sextet? (a.byte n) = some n
  byte_ne_pad : ∀ n < 64, a.byte n ≠ pad

theorem standard_lawful : standard.Lawful := ⟨by decide, by decide, by decide⟩

theorem urlSafe_lawful : urlSafe.Lawful := ⟨by decide, by decide, by decide⟩

namespace Alphabet.Lawful

variable {a : Alphabet} (ha : a.Lawful)

include ha

theorem sextet_byte {n : Nat} (hn : n < 64) (offset : Nat) :
    a.sextet (a.byte n) offset = .ok n := by
  simp [Alphabet.sextet, ha.sextet?_byte n hn]

end Alphabet.Lawful

theorem encodeChar_pad : Utf8.encodeChar '=' = [pad] := by decide

theorem sextet1_lt (x : UInt8) : sextet1 x < 64 := by
  have := x.toNat_lt
  simp only [sextet1]; omega

theorem sextet2_lt (x y : UInt8) : sextet2 x y < 64 := by
  have := y.toNat_lt
  simp only [sextet2]; omega

theorem sextet3_lt (y z : UInt8) : sextet3 y z < 64 := by
  have := z.toNat_lt
  simp only [sextet3]; omega

theorem sextet4_lt (z : UInt8) : sextet4 z < 64 := by
  simp only [sextet4]; omega

theorem octet1_sextets (x y : UInt8) : octet1 (sextet1 x) (sextet2 x y) = x := by
  have hx := x.toNat_lt
  have hy := y.toNat_lt
  have : sextet1 x * 4 + sextet2 x y / 16 = x.toNat := by simp only [sextet1, sextet2]; omega
  simp [octet1, this]

theorem octet2_sextets (x y z : UInt8) : octet2 (sextet2 x y) (sextet3 y z) = y := by
  have hy := y.toNat_lt
  have hz := z.toNat_lt
  have : sextet2 x y % 16 * 16 + sextet3 y z / 4 = y.toNat := by
    simp only [sextet2, sextet3]; omega
  simp only [octet2, this, Nat.toUInt8_eq, UInt8.ofNat_toNat]

theorem octet3_sextets (y z : UInt8) : octet3 (sextet3 y z) (sextet4 z) = z := by
  have hz := z.toNat_lt
  have : sextet3 y z % 4 * 64 + sextet4 z = z.toNat := by simp only [sextet3, sextet4]; omega
  simp only [octet3, this, Nat.toUInt8_eq, UInt8.ofNat_toNat]

theorem sextet2_spare (x : UInt8) : sextet2 x 0 % 16 = 0 := by simp [sextet2]

theorem sextet3_spare (y : UInt8) : sextet3 y 0 % 4 = 0 := by simp [sextet3]

theorem decodeGroups_encode {a : Alphabet} (ha : a.Lawful) (start : Nat) (s : Bytes) :
    decodeGroups a start (Utf8.encode (encode a s)) = .ok s := by
  fun_induction encode a s generalizing start with
  | case1 => rfl
  | case2 x =>
    simp [encodeChar_pad, ha.encodeChar_symbol, ha.byte_ne_pad, ha.sextet_byte, sextet1_lt,
      sextet2_lt, decodeGroups, Tail.pushAll, Tail.push, Tail.bytes, bind, Except.bind,
      sextet2_spare, octet1_sextets]
  | case3 x y =>
    simp [encodeChar_pad, ha.encodeChar_symbol, ha.byte_ne_pad, ha.sextet_byte, sextet1_lt,
      sextet2_lt, sextet3_lt, decodeGroups, Tail.pushAll, Tail.push, Tail.bytes, bind, Except.bind,
      sextet3_spare, octet1_sextets, octet2_sextets]
  | case4 x y z rest ih =>
    have ih := ih (start + 4)
    cases hr : Utf8.encode (encode a rest) with
    | nil =>
      simp only [hr, decodeGroups, Except.ok.injEq] at ih
      subst ih
      simp [ha.encodeChar_symbol, ha.byte_ne_pad, ha.sextet_byte, sextet1_lt, sextet2_lt,
        sextet3_lt, sextet4_lt, encode, decodeGroups, Tail.pushAll, Tail.push, Tail.bytes, bind,
        Except.bind, octet1_sextets, octet2_sextets, octet3_sextets]
    | cons next more =>
      rw [hr] at ih
      simp [ha.encodeChar_symbol, ha.sextet_byte, sextet1_lt, sextet2_lt, sextet3_lt, sextet4_lt, hr,
        decodeGroups, bind, Except.bind, pure, Except.pure, octet1_sextets, octet2_sextets,
        octet3_sextets, ih]

/-- The padded text consists of whole groups of four bytes. -/
theorem length_encode_mod {a : Alphabet} (ha : a.Lawful) (s : Bytes) :
    (Utf8.encode (encode a s)).length % 4 = 0 := by
  fun_induction encode a s with
  | case1 => rfl
  | case2 x => simp [encodeChar_pad, ha.encodeChar_symbol, sextet1_lt, sextet2_lt]
  | case3 x y => simp [encodeChar_pad, ha.encodeChar_symbol, sextet1_lt, sextet2_lt, sextet3_lt]
  | case4 x y z rest ih =>
    simp [ha.encodeChar_symbol, sextet1_lt, sextet2_lt, sextet3_lt, sextet4_lt]
    omega

theorem decode_encode {a : Alphabet} (ha : a.Lawful) (s : Bytes) :
    decode a (Utf8.encode (encode a s)) = .ok s := by
  have h := length_encode_mod ha s
  simp [decode, strayEnd?, h, decodeGroups_encode ha]

end StorageProof.Base64
