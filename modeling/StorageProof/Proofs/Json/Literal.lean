import StorageProof.Json.Lexeme
import StorageProof.Json.Value
import StorageProof.Proofs.Text.Utf8

/-!
# String literals

What stands between the quotes of a literal spells bytes: plain bytes stand for themselves, and
escapes of three kinds for the bytes of a scalar. Whatever spells the bytes of a text is read as
that text, nothing else is read as a text, and the canonical literal of a text spells it.
-/

namespace StorageProof.Json

/-- Whether a byte stands for itself within the quotes of a literal. -/
def isPlain (b : UInt8) : Bool := 0x20 ≤ b && b != 0x22 && b != 0x5C

/-- What is written between the quotes of a literal, and the bytes that it stands for. -/
inductive Spells : Bytes → Bytes → Prop
  | nil : Spells [] []
  | plain {b : UInt8} {written out : Bytes} (hb : isPlain b = true) (h : Spells written out) :
      Spells (b :: written) (b :: out)
  | short {e b : UInt8} {written out : Bytes} (he : simpleEscape? e = some b)
      (h : Spells written out) :
      Spells (0x5C :: e :: written) (b :: out)
  | scalar {digits written out : Bytes} {n : Nat} (hd : hexQuad digits = .ok (n, []))
      (hn : n < 0xD800 ∨ 0xDFFF < n) (h : Spells written out) :
      Spells (0x5C :: 0x75 :: (digits ++ written)) (Utf8.encodeChar (Char.ofNat n) ++ out)
  | surrogates {highDigits lowDigits written out : Bytes} {high low : Nat}
      (hh : hexQuad highDigits = .ok (high, [])) (hhigh : 0xD800 ≤ high ∧ high ≤ 0xDBFF)
      (hl : hexQuad lowDigits = .ok (low, [])) (hlow : 0xDC00 ≤ low ∧ low ≤ 0xDFFF)
      (h : Spells written out) :
      Spells (0x5C :: 0x75 :: (highDigits ++ 0x5C :: 0x75 :: (lowDigits ++ written)))
        (Utf8.encodeChar (Char.ofNat (joinSurrogates high low)) ++ out)

/-! ## Reading -/

/-- Four digits are read as their number, whatever follows them. -/
theorem hexQuad_append {digits : Bytes} {n : Nat} (h : hexQuad digits = .ok (n, []))
    (rest : Bytes) :
    hexQuad (digits ++ rest) = .ok (n, rest) := by
  unfold hexQuad at h
  split at h
  · next a b c d more =>
    split at h
    · next ha hb hc hd =>
      simp only [Except.ok.injEq, Prod.mk.injEq] at h
      obtain ⟨rfl, rfl⟩ := h
      simp only [List.cons_append, List.nil_append, hexQuad, ha, hb, hc, hd]
    · cases h
  · cases h

theorem simpleEscape?_ne_u {e b : UInt8} (h : simpleEscape? e = some b) : e ≠ 0x75 := by
  rintro rfl
  simp [simpleEscape?] at h

theorem readEscape_short {e b : UInt8} (h : simpleEscape? e = some b) (rest : Bytes) :
    readEscape (e :: rest) = .ok ([b], rest) := by
  rw [readEscape, if_neg (simpleEscape?_ne_u h), h]

theorem readEscape_scalar {digits : Bytes} {n : Nat} (hd : hexQuad digits = .ok (n, []))
    (hn : n < 0xD800 ∨ 0xDFFF < n) (rest : Bytes) :
    readEscape (0x75 :: (digits ++ rest)) = .ok (Utf8.encodeChar (Char.ofNat n), rest) := by
  have hs : scalarEscape (digits ++ rest) = .ok (n, rest) := by
    simp only [scalarEscape, hexQuad_append hd]
    rw [if_neg (by omega), if_neg (by omega)]
  rw [readEscape, if_pos rfl, hs]

theorem readEscape_surrogates {highDigits lowDigits : Bytes} {high low : Nat}
    (hh : hexQuad highDigits = .ok (high, [])) (hhigh : 0xD800 ≤ high ∧ high ≤ 0xDBFF)
    (hl : hexQuad lowDigits = .ok (low, [])) (hlow : 0xDC00 ≤ low ∧ low ≤ 0xDFFF) (rest : Bytes) :
    readEscape (0x75 :: (highDigits ++ 0x5C :: 0x75 :: (lowDigits ++ rest))) =
      .ok (Utf8.encodeChar (Char.ofNat (joinSurrogates high low)), rest) := by
  have hs : scalarEscape (highDigits ++ 0x5C :: 0x75 :: (lowDigits ++ rest)) =
      .ok (joinSurrogates high low, rest) := by
    simp only [scalarEscape, hexQuad_append hh, lowSurrogate, hexQuad_append hl]
    rw [if_neg (by omega), if_pos hhigh, if_pos hlow]
  rw [readEscape, if_pos rfl, hs]

theorem stringOnto_plain {b : UInt8} (hb : isPlain b = true) (read rest : Bytes) :
    stringOnto read (b :: rest) = stringOnto (b :: read) rest := by
  simp only [isPlain, Bool.and_eq_true, decide_eq_true_eq, bne_iff_ne] at hb
  obtain ⟨⟨hlow, hquote⟩, hslash⟩ := hb
  have hcontrol : ¬ b < 0x20 := UInt8.not_lt.mpr hlow
  rw [stringOnto, if_neg hquote, if_neg hslash, if_neg hcontrol]

theorem stringOnto_escape {out rest rest' : Bytes} (h : readEscape rest = .ok (out, rest'))
    (read : Bytes) :
    stringOnto read (0x5C :: rest) = stringOnto (out.reverse ++ read) rest' := by
  rw [stringOnto, if_neg (by decide), if_pos rfl]
  split
  · next he =>
    rw [h] at he
    cases he
  · next he =>
    rw [h] at he
    cases he
    rfl

/-- What is written up to the closing quote is read as the bytes that it spells. -/
theorem Spells.stringOnto {written out : Bytes} (h : Spells written out) (read rest : Bytes) :
    stringOnto read (written ++ 0x22 :: rest) = .ok (read.reverse ++ out, rest) := by
  induction h generalizing read with
  | nil => rw [List.nil_append, Json.stringOnto, if_pos rfl, List.append_nil]
  | plain hb _ ih =>
    rw [List.cons_append, stringOnto_plain hb, ih]
    simp
  | short he _ ih =>
    rw [List.cons_append, List.cons_append, stringOnto_escape (readEscape_short he _), ih]
    simp
  | scalar hd hn _ ih =>
    rw [List.cons_append, List.cons_append, List.append_assoc,
      stringOnto_escape (readEscape_scalar hd hn _), ih]
    simp
  | surrogates hh hhigh hl hlow _ ih =>
    simp only [List.cons_append, List.append_assoc]
    rw [stringOnto_escape (readEscape_surrogates hh hhigh hl hlow _), ih]
    simp

/-- A literal is read as the text whose bytes it spells. -/
theorem readString_of_spells {written : Bytes} {text : String}
    (h : Spells written (Utf8.ofString text))
    (rest : Bytes) : readString (written ++ 0x22 :: rest) = .ok (text, rest) := by
  simp only [readString, h.stringOnto, List.reverse_nil, List.nil_append, Utf8.toString?_ofString]

/-! ## Only spellings are read -/

theorem hexQuad_ok {s rest : Bytes} {n : Nat} (h : hexQuad s = .ok (n, rest)) :
    ∃ digits, s = digits ++ rest ∧ hexQuad digits = .ok (n, []) := by
  unfold hexQuad at h
  split at h
  · next a b c d more =>
    split at h
    · next ha hb hc hd =>
      cases h
      exact ⟨[a, b, c, d], rfl, by simp only [hexQuad, ha, hb, hc, hd]⟩
    · cases h
  · cases h

/-- An escape that is read is one of the three kinds. -/
theorem readEscape_ok {s out rest : Bytes} (h : readEscape s = .ok (out, rest)) :
    ∃ escape, s = escape ++ rest ∧ ∀ {written text : Bytes}, Spells written text →
      Spells (0x5C :: (escape ++ written)) (out ++ text) := by
  unfold readEscape at h
  split at h
  · cases h
  next b s =>
  split at h
  · next hb =>
    subst hb
    split at h
    · cases h
    next n more hscalar =>
    cases h
    unfold scalarEscape at hscalar
    split at hscalar
    · cases hscalar
    next m after hquad =>
    obtain ⟨digits, rfl, hdigits⟩ := hexQuad_ok hquad
    split at hscalar
    · cases hscalar
    next hlow =>
    split at hscalar
    · next hhigh =>
      unfold lowSurrogate at hscalar
      split at hscalar
      · cases hscalar
      · cases hscalar
      · split at hscalar
        · cases hscalar
        next lower after' hquad' =>
        obtain ⟨digits', rfl, hdigits'⟩ := hexQuad_ok hquad'
        split at hscalar
        · next hlower =>
          rw [Except.ok.injEq, Prod.mk.injEq] at hscalar
          obtain ⟨rfl, rfl⟩ := hscalar
          refine ⟨0x75 :: (digits ++ 0x5C :: 0x75 :: digits'), by simp, fun hspells => ?_⟩
          have h := Spells.surrogates hdigits hhigh hdigits' hlower hspells
          simpa using h
        · cases hscalar
      · cases hscalar
    · next hhigh =>
      cases hscalar
      exact ⟨0x75 :: digits, rfl, fun hspells => .scalar hdigits (by omega) hspells⟩
  · next hb =>
    split at h
    · next c hc =>
      cases h
      exact ⟨[b], rfl, fun hspells => .short hc hspells⟩
    · cases h

/-- What is read up to a closing quote spells the bytes that are read. -/
theorem stringOnto_ok {read s out rest : Bytes} (h : stringOnto read s = .ok (out, rest)) :
    ∃ written text, s = written ++ 0x22 :: rest ∧ out = read.reverse ++ text ∧
      Spells written text := by
  fun_induction stringOnto read s with
  | case1 => cases h
  | case2 read s =>
    cases h
    exact ⟨[], [], rfl, by simp, .nil⟩
  | case3 => cases h
  | case4 read s out' rest' he _ ih =>
    obtain ⟨written, text, rfl, rfl, hspells⟩ := ih h
    obtain ⟨escape, rfl, hescape⟩ := readEscape_ok he
    exact ⟨0x5C :: (escape ++ written), out' ++ text, by simp, by simp, hescape hspells⟩
  | case5 => cases h
  | case6 read b s hquote hslash hcontrol ih =>
    obtain ⟨written, text, rfl, rfl, hspells⟩ := ih h
    have hplain : isPlain b = true := by
      simp [isPlain, hquote, hslash, UInt8.not_lt.mp hcontrol]
    exact ⟨b :: written, b :: text, rfl, by simp, .plain hplain hspells⟩

/-- A text is read from exactly its spellings. -/
theorem readString_eq_ok_iff {s rest : Bytes} {text : String} :
    readString s = .ok (text, rest) ↔
      ∃ written, s = written ++ 0x22 :: rest ∧ Spells written (Utf8.ofString text) := by
  constructor
  · intro h
    unfold readString at h
    split at h
    · cases h
    next bytes rest' hs =>
    split at h
    · next text' htext =>
      cases h
      obtain ⟨written, out, rfl, rfl, hspells⟩ := stringOnto_ok hs
      rw [Utf8.toString?_eq_some_iff.mp htext] at hspells
      exact ⟨written, rfl, hspells⟩
    · cases h
  · rintro ⟨written, rfl, hspells⟩
    exact readString_of_spells hspells rest

/-! ## Writing -/

/-- The characters that a canonical literal has for one character. -/
def escapeChar (c : Char) : List Char := (standardEscape? c).getD ((ledgerEscape? c).getD [c])

/-- Writing by runs is writing by characters, where plain runs are written by characters too. -/
theorem escapeRuns_flatMap (escape? : Char → Option (List Char)) (g : Char → List Char)
    (run cs : List Char) :
    escapeRuns escape? (·.flatMap g) run cs =
      run.reverse.flatMap g ++ cs.flatMap fun c => (escape? c).getD (g c) := by
  induction cs generalizing run with
  | nil => simp [escapeRuns]
  | cons c cs ih =>
    cases h : escape? c with
    | none => simp [escapeRuns, h, ih]
    | some escaped => simp [escapeRuns, h, ih]

theorem escapeFragment_eq (cs : List Char) :
    escapeFragment cs = cs.flatMap fun c => (ledgerEscape? c).getD [c] := by
  have hid : (id : List Char → List Char) = (·.flatMap fun c => [c]) := by
    funext l
    simp
  rw [escapeFragment, hid, escapeRuns_flatMap]
  rfl

/-- A canonical literal is written character by character. -/
theorem escapeText_eq (cs : List Char) : escapeText cs = cs.flatMap escapeChar := by
  rw [escapeText, funext escapeFragment_eq, escapeRuns_flatMap]
  rfl

theorem Spells.plain_append {bytes written out : Bytes} (h : Spells written out)
    (hb : ∀ b ∈ bytes, isPlain b = true) : Spells (bytes ++ written) (bytes ++ out) := by
  induction bytes with
  | nil => exact h
  | cons b bytes ih =>
    exact .plain (hb b List.mem_cons_self) (ih fun c hc => hb c (List.mem_cons_of_mem b hc))

/-- A text without quotes, backslashes and controls spells itself. -/
theorem spells_plain {text : String} (h : ∀ b ∈ Utf8.ofString text, isPlain b = true) :
    Spells (Utf8.ofString text) (Utf8.ofString text) := by
  have hspells := Spells.plain_append .nil h
  rwa [List.append_nil] at hspells

theorem hexQuad_control {n : Nat} (h : n < 0x20) :
    hexQuad (Utf8.encode ['0', '0', Text.hexDigit (n / 16), Text.hexDigit (n % 16)]) =
      .ok (n, []) := by
  have hall : ∀ n < 0x20,
      (hexQuad (Utf8.encode ['0', '0', Text.hexDigit (n / 16), Text.hexDigit (n % 16)])).toOption =
        some (n, []) := by decide
  have hn := hall n h
  revert hn
  cases hexQuad (Utf8.encode ['0', '0', Text.hexDigit (n / 16), Text.hexDigit (n % 16)]) with
  | error e => exact fun hn => by cases hn
  | ok p => exact fun hn => congrArg Except.ok (Option.some.inj hn)

/-- The escape of a control spells its byte. -/
theorem Spells.control {c : Char} {written out : Bytes} (h : Spells written out)
    (hc : c.toNat < 0x20) :
    Spells (Utf8.encode (escapeControl c) ++ written) (Utf8.encodeChar c ++ out) := by
  unfold escapeControl
  split
  · next h8 =>
    subst h8
    exact .short (e := 0x62) rfl h
  split
  · next h9 =>
    subst h9
    exact .short (e := 0x74) rfl h
  split
  · next ha =>
    subst ha
    exact .short (e := 0x6E) rfl h
  split
  · next hf =>
    subst hf
    exact .short (e := 0x66) rfl h
  split
  · next hd =>
    subst hd
    exact .short (e := 0x72) rfl h
  · have hs := Spells.scalar (hexQuad_control hc) (by omega) h
    rw [Char.ofNat_toNat] at hs
    exact hs

theorem isPlain_toUInt8 {n : Nat} (h : n < 256) (hc : 0x20 ≤ n) (hq : n ≠ 0x22) (hs : n ≠ 0x5C) :
    isPlain n.toUInt8 = true := by
  have hn := Utf8.toNat_toUInt8 h
  simp only [isPlain, Bool.and_eq_true, decide_eq_true_eq, bne_iff_ne, Ne, UInt8.le_iff_toNat_le,
    ← UInt8.toNat_inj, hn]
  exact ⟨⟨hc, hq⟩, hs⟩

/-- The bytes of a character without a standard escape stand for themselves. -/
theorem isPlain_encodeChar {c : Char} (hc : ¬ c.toNat < 0x20) (hq : c ≠ '"') (hs : c ≠ '\\') :
    ∀ b ∈ Utf8.encodeChar c, isPlain b = true := by
  have hrange := Utf8.scalar_range c
  have hq' : c.toNat ≠ 0x22 := fun h => hq (Char.toNat_inj.mp h)
  have hs' : c.toNat ≠ 0x5C := fun h => hs (Char.toNat_inj.mp h)
  unfold Utf8.encodeChar
  intro b hb
  by_cases h1 : c.toNat < 0x80
  · rw [if_pos h1, List.mem_singleton] at hb
    subst hb
    exact isPlain_toUInt8 (by omega) (by omega) hq' hs'
  · rw [if_neg h1] at hb
    -- All other bytes are above 0x7F.
    obtain ⟨n, rfl, hlow, hhigh⟩ : ∃ n : Nat, b = n.toUInt8 ∧ 0x80 ≤ n ∧ n < 256 := by
      split at hb
      · simp only [List.mem_cons, List.not_mem_nil, or_false] at hb
        rcases hb with rfl | rfl <;> exact ⟨_, rfl, by omega, by omega⟩
      · split at hb
        · simp only [List.mem_cons, List.not_mem_nil, or_false] at hb
          rcases hb with rfl | rfl | rfl <;> exact ⟨_, rfl, by omega, by omega⟩
        · simp only [List.mem_cons, List.not_mem_nil, or_false] at hb
          rcases hb with rfl | rfl | rfl | rfl <;> exact ⟨_, rfl, by omega, by omega⟩
    exact isPlain_toUInt8 hhigh (by omega) (by omega) (by omega)

/-- The further escapes of canonical text spell the bytes of their characters. -/
theorem Spells.ledgerEscape {c : Char} {escaped : List Char} {written out : Bytes}
    (h : Spells written out) (he : ledgerEscape? c = some escaped) :
    Spells (Utf8.encode escaped ++ written) (Utf8.encodeChar c ++ out) := by
  unfold ledgerEscape? at he
  split at he
  · next hc =>
    subst hc
    cases he
    exact .scalar (show hexQuad [0x30, 0x30, 0x33, 0x63] = .ok (0x3C, []) from rfl) (by decide) h
  split at he
  · next hc =>
    subst hc
    cases he
    exact .scalar (show hexQuad [0x30, 0x30, 0x33, 0x65] = .ok (0x3E, []) from rfl) (by decide) h
  split at he
  · next hc =>
    subst hc
    cases he
    exact .scalar (show hexQuad [0x30, 0x30, 0x32, 0x36] = .ok (0x26, []) from rfl) (by decide) h
  split at he
  · next hc =>
    subst hc
    cases he
    exact .scalar (show hexQuad [0x32, 0x30, 0x32, 0x38] = .ok (0x2028, []) from rfl) (by decide) h
  split at he
  · next hc =>
    subst hc
    cases he
    exact .scalar (show hexQuad [0x32, 0x30, 0x32, 0x39] = .ok (0x2029, []) from rfl) (by decide) h
  · cases he

/-- What a canonical literal has for a character spells its bytes. -/
theorem Spells.escapeChar {c : Char} {written out : Bytes} (h : Spells written out) :
    Spells (Utf8.encode (escapeChar c) ++ written) (Utf8.encodeChar c ++ out) := by
  unfold Json.escapeChar standardEscape?
  split
  · next hc =>
    rcases hc with rfl | rfl
    · exact .short (e := 0x22) rfl h
    · exact .short (e := 0x5C) rfl h
  next hne =>
  rw [not_or] at hne
  split
  · next hc => exact h.control hc
  next hc =>
  cases he : ledgerEscape? c with
  | some escaped => exact h.ledgerEscape he
  | none =>
    rw [Option.getD_none, Option.getD_none, Utf8.encode_cons, Utf8.encode_nil, List.append_nil]
    exact h.plain_append (isPlain_encodeChar hc hne.1 hne.2)

/-- A canonical literal spells its text. -/
theorem spells_escapeText (cs : List Char) :
    Spells (Utf8.encode (escapeText cs)) (Utf8.encode cs) := by
  rw [escapeText_eq]
  induction cs with
  | nil => exact .nil
  | cons c cs ih =>
    rw [List.flatMap_cons, Utf8.encode_append, Utf8.encode_cons]
    exact ih.escapeChar

end StorageProof.Json
