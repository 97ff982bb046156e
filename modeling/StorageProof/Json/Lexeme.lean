import StorageProof.Json.Fault
import StorageProof.Text.Utf8

/-!
# The lexemes of JSON

White space, words, strings and numbers, each taken from the front of the bytes. A string is either
read, which checks surrogates and UTF-8, or skipped, which checks escapes and controls alone; a number
is either read, which can leave the range of doubles, or skipped.
-/

namespace StorageProof.Json

/-- Space, tab, line feed and carriage return. -/
def isSpace (b : UInt8) : Bool := b == 0x20 || b == 0x09 || b == 0x0A || b == 0x0D

def skipSpace (s : Bytes) : Bytes := s.dropWhile isSpace

theorem length_skipSpace_le (s : Bytes) : (skipSpace s).length ≤ s.length :=
  (List.dropWhile_sublist _).length_le

/-- Takes the rest of a word whose first letter has been taken. -/
def takeWord : List UInt8 → Bytes → Except SyntaxFault Bytes
  | [], s => .ok s
  | _ :: _, [] => .error .endInValue
  | c :: word, b :: s => if b = c then takeWord word s else .error .expectedIdent

/-- What follows the first letter of `null`. -/
def ull : Bytes := [0x75, 0x6C, 0x6C]

/-- What follows the first letter of `true`. -/
def rue : Bytes := [0x72, 0x75, 0x65]

/-- What follows the first letter of `false`. -/
def alse : Bytes := [0x61, 0x6C, 0x73, 0x65]

theorem length_takeWord_le {word : List UInt8} {s rest : Bytes} (h : takeWord word s = .ok rest) :
    rest.length ≤ s.length := by
  induction word generalizing s with
  | nil => simp only [takeWord, Except.ok.injEq] at h; simp [h]
  | cons c word ih =>
    cases s with
    | nil => simp [takeWord] at h
    | cons b s =>
      simp only [takeWord] at h
      split at h
      · exact Nat.le_succ_of_le (ih h)
      · simp at h

/-! ## Strings -/

/-- The number of four hexadecimal digits. -/
def hexQuad : Bytes → Except SyntaxFault (Nat × Bytes)
  | a :: b :: c :: d :: rest =>
    match Text.hexValue? a.toNat, Text.hexValue? b.toNat, Text.hexValue? c.toNat,
      Text.hexValue? d.toNat with
    | some a, some b, some c, some d => .ok (((a * 16 + b) * 16 + c) * 16 + d, rest)
    | _, _, _, _ => .error .invalidEscape
  | _ => .error .endInString

theorem length_hexQuad {s rest : Bytes} {n : Nat} (h : hexQuad s = .ok (n, rest)) :
    rest.length + 4 = s.length := by
  unfold hexQuad at h
  split at h
  · split at h
    · simp only [Except.ok.injEq, Prod.mk.injEq] at h
      simp [← h.2]
    · simp at h
  · simp at h

/-- The byte that a backslash and this letter stand for. -/
def simpleEscape? (b : UInt8) : Option UInt8 :=
  if b = 0x22 ∨ b = 0x5C ∨ b = 0x2F then some b
  else if b = 0x62 then some 0x08
  else if b = 0x66 then some 0x0C
  else if b = 0x6E then some 0x0A
  else if b = 0x72 then some 0x0D
  else if b = 0x74 then some 0x09
  else none

/-- The scalar of two surrogates. -/
def joinSurrogates (high low : Nat) : Nat := 0x10000 + (high - 0xD800) * 0x400 + (low - 0xDC00)

/-- The second half of a surrogate pair, which an escape must follow at once. -/
def lowSurrogate (high : Nat) : Bytes → Except SyntaxFault (Nat × Bytes)
  | [] => .error .endInString
  | 0x5C :: [] => .error .endInString
  | 0x5C :: 0x75 :: rest =>
    match hexQuad rest with
    | .error e => .error e
    | .ok (low, rest) =>
      if 0xDC00 ≤ low ∧ low ≤ 0xDFFF then .ok (joinSurrogates high low, rest)
      else .error .loneSurrogate
  | _ => .error .unfinishedSurrogate

/-- The scalar of a `\u` escape, from its digits on. -/
def scalarEscape (s : Bytes) : Except SyntaxFault (Nat × Bytes) :=
  match hexQuad s with
  | .error e => .error e
  | .ok (n, rest) =>
    if 0xDC00 ≤ n ∧ n ≤ 0xDFFF then .error .loneSurrogate
    else if 0xD800 ≤ n ∧ n ≤ 0xDBFF then lowSurrogate n rest
    else .ok (n, rest)

/-- The bytes that an escape stands for, from the letter after its backslash on. -/
def readEscape : Bytes → Except SyntaxFault (Bytes × Bytes)
  | [] => .error .endInString
  | b :: rest =>
    if b = 0x75 then
      match scalarEscape rest with
      | .error e => .error e
      | .ok (n, rest) => .ok (Utf8.encodeChar (Char.ofNat n), rest)
    else match simpleEscape? b with
      | some c => .ok ([c], rest)
      | none => .error .invalidEscape

theorem length_lowSurrogate_le {high n : Nat} {s rest : Bytes}
    (h : lowSurrogate high s = .ok (n, rest)) : rest.length ≤ s.length := by
  unfold lowSurrogate at h
  split at h
  · simp at h
  · simp at h
  · split at h
    · simp at h
    · next hq =>
      have := length_hexQuad hq
      split at h
      · simp only [Except.ok.injEq, Prod.mk.injEq] at h
        obtain ⟨-, rfl⟩ := h
        simp only [List.length_cons]
        omega
      · simp at h
  · simp at h

theorem length_scalarEscape_le {n : Nat} {s rest : Bytes} (h : scalarEscape s = .ok (n, rest)) :
    rest.length ≤ s.length := by
  unfold scalarEscape at h
  split at h
  · simp at h
  · next hq =>
    have := length_hexQuad hq
    split at h
    · simp at h
    · split at h
      · have := length_lowSurrogate_le h
        omega
      · simp only [Except.ok.injEq, Prod.mk.injEq] at h
        obtain ⟨-, rfl⟩ := h
        omega

theorem length_readEscape {s out rest : Bytes} (h : readEscape s = .ok (out, rest)) :
    rest.length < s.length := by
  unfold readEscape at h
  split at h
  · simp at h
  · split at h
    · split at h
      · simp at h
      · next hs =>
        simp only [Except.ok.injEq, Prod.mk.injEq] at h
        obtain ⟨-, rfl⟩ := h
        exact Nat.lt_succ_of_le (length_scalarEscape_le hs)
    · split at h
      · simp only [Except.ok.injEq, Prod.mk.injEq] at h
        simp [← h.2]
      · simp at h

/-- The bytes of a string after those read so far, newest first, from within the quotes on. -/
def stringOnto (read : Bytes) : Bytes → Except SyntaxFault (Bytes × Bytes)
  | [] => .error .endInString
  | b :: rest =>
    if b = 0x22 then .ok (read.reverse, rest)
    else if b = 0x5C then
      match _h : readEscape rest with
      | .error e => .error e
      | .ok (out, rest') => stringOnto (out.reverse ++ read) rest'
    else if b < 0x20 then .error .controlCharacter
    else stringOnto (b :: read) rest
termination_by s => s.length
decreasing_by
  · have := length_readEscape _h
    simp only [List.length_cons]; omega
  · simp

/-- A string that is read, from within the quotes on. Its bytes must be UTF-8 in the end. -/
def readString (s : Bytes) : Except SyntaxFault (String × Bytes) :=
  match stringOnto [] s with
  | .error e => .error e
  | .ok (bytes, rest) =>
    match Utf8.toString? bytes with
    | some text => .ok (text, rest)
    | none => .error .invalidCodePoint

theorem length_stringOnto {read s out rest : Bytes} (h : stringOnto read s = .ok (out, rest)) :
    rest.length < s.length := by
  fun_induction stringOnto read s with
  | case1 => simp at h
  | case2 read s => simp only [Except.ok.injEq, Prod.mk.injEq] at h; simp [← h.2]
  | case3 => simp at h
  | case4 read s out' rest' he _ ih =>
    have := length_readEscape he
    have := ih h
    simp only [List.length_cons]; omega
  | case5 => simp at h
  | case6 read b s _ _ _ ih =>
    have := ih h
    simp only [List.length_cons]; omega

theorem length_readString {s rest : Bytes} {text : String} (h : readString s = .ok (text, rest)) :
    rest.length < s.length := by
  unfold readString at h
  split at h
  · simp at h
  · next hs =>
    split at h
    · simp only [Except.ok.injEq, Prod.mk.injEq] at h
      rw [← h.2]
      exact length_stringOnto hs
    · simp at h

/-- The bytes after an escape that is skipped, from the letter after its backslash on. -/
def skipEscape : Bytes → Except SyntaxFault Bytes
  | [] => .error .endInString
  | b :: rest =>
    if b = 0x75 then (hexQuad rest).map (·.2)
    else if (simpleEscape? b).isSome then .ok rest
    else .error .invalidEscape

theorem length_skipEscape {s rest : Bytes} (h : skipEscape s = .ok rest) : rest.length < s.length := by
  unfold skipEscape at h
  split at h
  · simp at h
  · next b s' =>
    split at h
    · cases hq : hexQuad s' with
      | error e => simp [hq, Except.map] at h
      | ok p =>
        obtain ⟨n, r⟩ := p
        have := length_hexQuad hq
        simp only [hq, Except.map, Except.ok.injEq] at h
        simp only [← h, List.length_cons]
        omega
    · split at h
      · simp only [Except.ok.injEq] at h; simp [← h]
      · simp at h

/-- The bytes after a string that is skipped, from within the quotes on. -/
def skipString : Bytes → Except SyntaxFault Bytes
  | [] => .error .endInString
  | b :: rest =>
    if b = 0x22 then .ok rest
    else if b = 0x5C then
      match _h : skipEscape rest with
      | .error e => .error e
      | .ok rest' => skipString rest'
    else if b < 0x20 then .error .controlCharacter
    else skipString rest
termination_by s => s.length
decreasing_by
  · have := length_skipEscape _h
    simp only [List.length_cons]; omega
  · simp

theorem length_skipString {s rest : Bytes} (h : skipString s = .ok rest) : rest.length < s.length := by
  fun_induction skipString s with
  | case1 => simp at h
  | case2 s => simp only [Except.ok.injEq] at h; simp [← h]
  | case3 => simp at h
  | case4 s rest' he _ ih =>
    have := length_skipEscape he
    have := ih h
    simp only [List.length_cons]; omega
  | case5 => simp at h
  | case6 b s _ _ _ ih =>
    have := ih h
    simp only [List.length_cons]; omega

/-! ## Numbers -/

def isDigit (b : UInt8) : Bool := 0x30 ≤ b && b ≤ 0x39

def skipDigits (s : Bytes) : Bytes := s.dropWhile isDigit

theorem length_skipDigits_le (s : Bytes) : (skipDigits s).length ≤ s.length :=
  (List.dropWhile_sublist _).length_le

/-- An optional sign, and whether it is a minus. -/
def takeSign : Bytes → Bool × Bytes
  | 0x2B :: rest => (false, rest)
  | 0x2D :: rest => (true, rest)
  | s => (false, s)

theorem length_takeSign_le (s : Bytes) : (takeSign s).2.length ≤ s.length := by
  unfold takeSign; split <;> simp

/-- The bytes after the exponent of a skipped number, from the letter `e` on. -/
def skipExponent (s : Bytes) : Except SyntaxFault Bytes :=
  match (takeSign (s.drop 1)).2 with
  | b :: rest => if isDigit b then .ok (skipDigits rest) else .error .invalidNumber
  | [] => .error .invalidNumber

/-- The bytes after the places of a skipped number, from its point on, and after its exponent. -/
def skipFraction (s : Bytes) : Except SyntaxFault Bytes :=
  match s.drop 1 with
  | [] => .error .invalidNumber
  | b :: rest =>
    if isDigit b then
      match skipDigits rest with
      | e :: more => if e = 0x65 ∨ e = 0x45 then skipExponent (e :: more) else .ok (e :: more)
      | [] => .ok []
    else .error .invalidNumber

/-- The bytes after a skipped number whose whole part has been taken. -/
def skipAfterWhole (s : Bytes) : Except SyntaxFault Bytes :=
  match s with
  | b :: rest =>
    if b = 0x2E then skipFraction (b :: rest)
    else if b = 0x65 ∨ b = 0x45 then skipExponent (b :: rest)
    else .ok (b :: rest)
  | [] => .ok []

/-- The bytes after a skipped number, after its sign. Nothing may follow a leading zero in the whole part. -/
def skipNumber : Bytes → Except SyntaxFault Bytes
  | [] => .error .invalidNumber
  | b :: rest =>
    if b = 0x30 then
      match rest with
      | d :: more => if isDigit d then .error .invalidNumber else skipAfterWhole (d :: more)
      | [] => skipAfterWhole []
    else if isDigit b then skipAfterWhole (skipDigits rest)
    else .error .invalidNumber

theorem length_skipExponent_le {s rest : Bytes} (h : skipExponent s = .ok rest) :
    rest.length ≤ s.length := by
  have hd : (s.drop 1).length ≤ s.length := by simp
  have hs := length_takeSign_le (s.drop 1)
  unfold skipExponent at h
  split at h
  · next b r heq =>
    split at h
    · simp only [Except.ok.injEq] at h
      have := length_skipDigits_le r
      rw [heq] at hs
      simp only [List.length_cons] at hs
      rw [← h]
      omega
    · simp at h
  · simp at h

theorem length_skipFraction_le {s rest : Bytes} (h : skipFraction s = .ok rest) :
    rest.length ≤ s.length := by
  have hd : (s.drop 1).length ≤ s.length := by simp
  unfold skipFraction at h
  split at h
  · simp at h
  · next b r hr =>
    rw [hr] at hd
    simp only [List.length_cons] at hd
    have hl := length_skipDigits_le r
    split at h
    · split at h
      · next e more he =>
        rw [he] at hl
        split at h
        · have := length_skipExponent_le h
          omega
        · simp only [Except.ok.injEq] at h
          rw [← h]; omega
      · simp only [Except.ok.injEq] at h
        simp [← h]
    · simp at h

theorem length_skipAfterWhole_le {s rest : Bytes} (h : skipAfterWhole s = .ok rest) :
    rest.length ≤ s.length := by
  unfold skipAfterWhole at h
  split at h
  · split at h
    · exact length_skipFraction_le h
    · split at h
      · exact length_skipExponent_le h
      · simp only [Except.ok.injEq] at h; simp [← h]
  · simp only [Except.ok.injEq] at h; simp [← h]

theorem length_skipNumber {s rest : Bytes} (h : skipNumber s = .ok rest) : rest.length < s.length := by
  unfold skipNumber at h
  split at h
  · simp at h
  · next b r =>
    split at h
    · split at h
      · split at h
        · simp at h
        · have := length_skipAfterWhole_le h
          simp only [List.length_cons] at *; omega
      · have := length_skipAfterWhole_le h
        simp only [List.length_cons, List.length_nil] at *; omega
    · split at h
      · have := length_skipAfterWhole_le h
        have := length_skipDigits_le r
        simp only [List.length_cons]; omega
      · simp at h

/-- The largest significand that is kept. -/
def maxSignificand : Nat := Nat.pow 2 64 - 1

/-- Adds digits to a significand until one no longer fits; then tells how many fitted. -/
def addDigits (significand count : Nat) : Bytes → Nat × Nat × Bytes
  | [] => (significand, count, [])
  | b :: rest =>
    let next := significand * 10 + (b.toNat - 48)
    if maxSignificand < next then (significand, count, b :: rest)
    else addDigits next (count + 1) rest

/-- `significand * 10 ^ exponent` by one rounding for the significand and one for each product or
quotient; the exponent is brought into the range of powers of ten by quotients alone. Nothing if the
result is beyond the range. -/
def scale (value : Float) : (fuel : Nat) → (exponent : Int) → Option Float
  | 0, _ => some value
  | fuel + 1, exponent =>
    if -308 ≤ exponent ∧ exponent ≤ 308 then
      if 0 ≤ exponent then
        let product := value * Float.ofScientific 1 false exponent.toNat
        if product.isInf then none else some product
      else some (value / Float.ofScientific 1 false (-exponent).toNat)
    else if value == 0.0 then some value
    else if 0 ≤ exponent then none
    else scale (value / Float.ofScientific 1 false 308) fuel (exponent + 308)

/-- The double of a sign, a significand and a power of ten. -/
def double (negative : Bool) (significand : Nat) (exponent : Int) : Except SyntaxFault Found :=
  match scale significand.toUInt64.toFloat 8 exponent with
  | some value => .ok (.float (if negative then -value else value).toBits)
  | none => .error .numberOutOfRange

/-- Exponents are kept up to this bound. -/
def maxExponent : Nat := Nat.pow 2 31 - 1

/-- Whether some digit takes an exponent past its bound. -/
def exponentOverflows (value : Nat) : Bytes → Bool
  | [] => false
  | b :: rest =>
    let next := value * 10 + (b.toNat - 48)
    maxExponent < next || exponentOverflows next rest

/-- A bounded sum of exponents. -/
def clampExponent (e : Int) : Int := max (-(maxExponent : Int) - 1) (min maxExponent e)

/-- A number from its letter `e` on, given its significand and the power of ten so far. -/
def readExponent (negative : Bool) (significand : Nat) (power : Int) (s : Bytes) :
    Except SyntaxFault Found :=
  let (down, s) := takeSign (s.drop 1)
  match s with
  | [] => .error .endInValue
  | b :: rest =>
    if isDigit b then
      let digits := b :: rest.takeWhile isDigit
      if exponentOverflows 0 digits then
        if significand ≠ 0 ∧ ¬down then .error .numberOutOfRange
        else .ok (.float (if negative then -0.0 else (0.0 : Float)).toBits)
      else
        let e : Int := Text.decimalValue (digits.map fun b => Char.ofNat b.toNat)
        double negative significand (clampExponent (if down then power - e else power + e))
    else .error .invalidNumber

/-- A number from its point on, given its significand and the power of ten so far. -/
def readFraction (negative : Bool) (significand : Nat) (power : Int) (s : Bytes) :
    Except SyntaxFault Found :=
  let s := s.drop 1
  let digits := s.takeWhile isDigit
  let rest := skipDigits s
  if digits.isEmpty then .error (if rest.isEmpty then .endInValue else .invalidNumber)
  else
    let (significand, count, _) := addDigits significand 0 digits
    let power := power - count
    match rest with
    | b :: more =>
      if b = 0x65 ∨ b = 0x45 then readExponent negative significand power (b :: more)
      else double negative significand power
    | [] => double negative significand power

/-- A whole number: a significand with its sign, or a double if it is the negative zero or fits no word. -/
def wholeNumber (negative : Bool) (significand : Nat) : Except SyntaxFault Found :=
  if negative then
    if 0 < significand ∧ significand ≤ Nat.pow 2 63 then .ok (.integer (-(significand : Int)))
    else double true significand 0
  else .ok (.integer significand)

/-- A number that is read, after its sign. Only what it says is found; the bytes after it are not. -/
def readNumber (negative : Bool) : Bytes → Except SyntaxFault Found
  | [] => .error .endInValue
  | b :: rest =>
    if ¬isDigit b then .error .invalidNumber
    else
      let more := if b = 0x30 then [] else rest.takeWhile isDigit
      let after := if b = 0x30 then rest else skipDigits rest
      let (significand, _, dropped) := addDigits 0 0 (b :: more)
      match after with
      | c :: _ =>
        if b = 0x30 ∧ isDigit c then .error .invalidNumber
        else if c = 0x2E then readFraction negative significand dropped.length after
        else if c = 0x65 ∨ c = 0x45 then readExponent negative significand dropped.length after
        else if dropped.isEmpty then wholeNumber negative significand
        else double negative significand dropped.length
      | [] =>
        if dropped.isEmpty then wholeNumber negative significand
        else double negative significand dropped.length

/-! ## A value that is not due -/

/-- What stands at the front of bytes without white space before it. Scalars are read as a whole, so that a
malformed one is reported first. -/
def foundAt : Bytes → Except SyntaxFault Found
  | [] => .error .expectedValue
  | b :: rest =>
    if b = 0x6E then (takeWord ull rest).map fun _ => .null
    else if b = 0x74 then (takeWord rue rest).map fun _ => .boolean true
    else if b = 0x66 then (takeWord alse rest).map fun _ => .boolean false
    else if b = 0x2D then readNumber true rest
    else if isDigit b then readNumber false (b :: rest)
    else if b = 0x22 then (readString rest).map fun r => .text r.1
    else if b = 0x5B then .ok .sequence
    else if b = 0x7B then .ok .map
    else .error .expectedValue

end StorageProof.Json
