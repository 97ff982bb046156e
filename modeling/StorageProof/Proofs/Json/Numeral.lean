import Mathlib.Algebra.Field.Rat
import Mathlib.Algebra.GroupWithZero.Basic
import Mathlib.Data.List.TakeWhile
import StorageProof.Proofs.Json.Lexeme

/-!
# The number of a numeral

A numeral stands for a rational number: its digits, without the point, times a power of ten. The
decimal digits of a natural number are a numeral that stands for this number.
-/

namespace StorageProof.Json

/-- The number that decimal digits stand for. -/
def decimal (digits : Bytes) : Nat := Text.decimalValue (digits.map fun b => Char.ofNat b.toNat)

/-- The power of ten of a numeral, from the letter of its exponent on. -/
def exponentValue (s : Bytes) : Int :=
  let (down, digits) := takeSign (s.drop 1)
  if down then -decimal digits else decimal digits

/-- The number that a numeral without a sign stands for. -/
def numeralValue (n : Bytes) : ℚ :=
  let whole := n.takeWhile isDigit
  match skipDigits n with
  | 0x2E :: after =>
    let places := after.takeWhile isDigit
    decimal (whole ++ places) * 10 ^ (exponentValue (skipDigits after) - places.length)
  | after => decimal whole * 10 ^ exponentValue after

/-! ## The digits of natural numbers -/

theorem toNat_of_isDigit {c : Char} (h : c.isDigit = true) : 48 ≤ c.toNat ∧ c.toNat ≤ 57 := by
  simp only [Char.isDigit, Bool.and_eq_true, decide_eq_true_eq] at h
  exact h

theorem isDigit_toUInt8 {c : Char} (h : c.isDigit = true) : isDigit c.toNat.toUInt8 = true := by
  obtain ⟨hlow, hhigh⟩ := toNat_of_isDigit h
  have hn := Utf8.toNat_toUInt8 (show c.toNat < 256 by omega)
  simp only [isDigit, Bool.and_eq_true, decide_eq_true_eq, UInt8.le_iff_toNat_le, hn]
  exact ⟨hlow, hhigh⟩

theorem isDigit_of_mem_toDigits {n : Nat} {c : Char} (h : c ∈ Nat.toDigits 10 n) :
    c.isDigit = true := Nat.isDigit_of_mem_toDigits (by decide) (by decide) h

theorem encode_toDigits (n : Nat) :
    Utf8.encode (Nat.toDigits 10 n) = (Nat.toDigits 10 n).map fun c => c.toNat.toUInt8 := by
  refine Utf8.encode_ascii fun c hc => ?_
  have := toNat_of_isDigit (isDigit_of_mem_toDigits hc)
  omega

theorem areDigits_toDigits (n : Nat) : AreDigits (Utf8.encode (Nat.toDigits 10 n)) := by
  intro b hb
  rw [encode_toDigits] at hb
  obtain ⟨c, hc, rfl⟩ := List.mem_map.mp hb
  exact isDigit_toUInt8 (isDigit_of_mem_toDigits hc)

theorem decimal_toDigits (n : Nat) : decimal (Utf8.encode (Nat.toDigits 10 n)) = n := by
  have hchars : (Utf8.encode (Nat.toDigits 10 n)).map (fun b => Char.ofNat b.toNat) =
      Nat.toDigits 10 n := by
    rw [encode_toDigits, List.map_map]
    refine (List.map_congr_left fun c hc => ?_).trans (List.map_id _)
    have hrange := toNat_of_isDigit (isDigit_of_mem_toDigits hc)
    rw [Function.comp_apply, Utf8.toNat_toUInt8 (by omega), Char.ofNat_toNat, id]
  rw [decimal, hchars]
  exact Nat.ofDigitChars_ten_toDigits

/-- The digits of a positive number do not begin with a zero. -/
theorem exists_toDigits {n : Nat} (h : 0 < n) :
    ∃ c cs, Nat.toDigits 10 n = c :: cs ∧ c ≠ '0' := by
  induction n using Nat.base_induction 10 (by decide) with
  | single m hm =>
    refine ⟨m.digitChar, [], Nat.toDigits_of_lt_base hm, ?_⟩
    rw [Ne, Nat.digitChar_eq_zero]
    omega
  | digit m k hk hm ih =>
    obtain ⟨c, cs, hdigits, hc⟩ := ih hm
    refine ⟨c, cs ++ Nat.toDigits 10 k, ?_, hc⟩
    rw [← Nat.toDigits_append_toDigits (by decide) hm hk, hdigits, List.cons_append]

theorem isNumber_toDigits (n : Nat) : IsNumber (Utf8.encode (Nat.toDigits 10 n)) := by
  have hwhole : IsWhole (Utf8.encode (Nat.toDigits 10 n)) := by
    rcases Nat.eq_zero_or_pos n with rfl | hn
    · exact .zero
    · have hdigits := areDigits_toDigits n
      obtain ⟨c, cs, hcs, hc⟩ := exists_toDigits hn
      rw [encode_toDigits, hcs, List.map_cons] at hdigits ⊢
      refine .digits (hdigits _ List.mem_cons_self) ?_ fun b hb =>
        hdigits b (List.mem_cons_of_mem _ hb)
      intro hzero
      have hrange := toNat_of_isDigit (isDigit_of_mem_toDigits (hcs ▸ List.mem_cons_self))
      have hnat := congrArg UInt8.toNat hzero
      rw [Utf8.toNat_toUInt8 (by omega)] at hnat
      exact hc (Char.toNat_inj.mp hnat)
  have hnumber := IsNumber.intro hwhole .none .none
  rwa [List.append_nil, List.append_nil] at hnumber

/-- The decimal digits of a number stand for this number. -/
theorem numeralValue_toDigits (n : Nat) :
    numeralValue (Utf8.encode (Nat.toDigits 10 n)) = n := by
  have hdigits := areDigits_toDigits n
  have hskip : skipDigits (Utf8.encode (Nat.toDigits 10 n)) = [] :=
    List.dropWhile_eq_nil_iff.mpr hdigits
  have htake : (Utf8.encode (Nat.toDigits 10 n)).takeWhile isDigit =
      Utf8.encode (Nat.toDigits 10 n) := List.takeWhile_eq_self_iff.mpr hdigits
  have hexponent : exponentValue [] = 0 := rfl
  simp only [numeralValue, hskip, htake, hexponent, decimal_toDigits, zpow_zero, mul_one]

end StorageProof.Json
