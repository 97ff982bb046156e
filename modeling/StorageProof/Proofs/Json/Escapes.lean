import Mathlib.Data.Bool.AllAny
import StorageProof.Proofs.Json.Canonical
import StorageProof.Proofs.Lookup

/-!
# One table of escapes

A string is written in pieces: the serializer cuts it at every character with a standard escape, and
what lies between goes to the ledger's formatter, which runs over the characters of its fragment,
copies bytes from where the last escape ended, and never reaches outside the fragment. However it is
cut, what is written is the image of the string under one table, character by character, so that
canonical text has no controls and none of the five characters that a ledger escapes.
-/

namespace StorageProof.Json

/-! ## The table -/

/-- The characters that a ledger escapes though JSON does not require it. -/
def ledgerEscapes : List (Char × String) :=
  [('<', "\\u003c"), ('>', "\\u003e"), ('&', "\\u0026"), ('\u2028', "\\u2028"),
    ('\u2029', "\\u2029")]

/-- The characters with an escape of two characters. -/
def shortEscapes : List (Char × String) :=
  [('"', "\\\""), ('\\', "\\\\"), ('\x08', "\\b"), ('\t', "\\t"), ('\n', "\\n"), ('\x0c', "\\f"),
    ('\r', "\\r")]

/-- The two digits of a control without a short escape. -/
def controlDigits (n : Nat) : List Char :=
  let digit (n : Nat) := "0123456789abcdef".toList.getD n '0'
  [digit (n / 16), digit (n % 16)]

/-- What a ledger writes for a character, apart from the standard escapes. -/
def ledgerImage (c : Char) : List Char :=
  match ledgerEscapes.lookup c with
  | some escape => escape.toList
  | none => [c]

/-- What canonical text has for a character of a string. -/
def image (c : Char) : List Char :=
  match (shortEscapes ++ ledgerEscapes).lookup c with
  | some escape => escape.toList
  | none => if c.toNat < 0x20 then "\\u00".toList ++ controlDigits c.toNat else [c]

/-- What holds of the first characters by their numbers holds of every one of them. -/
theorem forall_char_lt {bound : Nat} {P : Char → Prop} (h : ∀ n < bound, P (Char.ofNat n)) :
    ∀ c : Char, c.toNat < bound → P c := by
  intro c hc
  have hn := h c.toNat hc
  rwa [Char.ofNat_toNat] at hn

/-- The five characters, and no other one, have an escape besides the standard ones. -/
theorem ledgerEscape?_getD (c : Char) : (ledgerEscape? c).getD [c] = ledgerImage c := by
  by_cases h : c ∈ ledgerEscapes.map Prod.fst
  · have hall : ∀ c ∈ ledgerEscapes.map Prod.fst, (ledgerEscape? c).getD [c] = ledgerImage c :=
      List.all_iff_forall_prop.mp (by decide)
    exact hall c h
  · rw [ledgerImage, lookup_eq_none_iff_not_mem.mpr h]
    simp only [ledgerEscapes, List.map_cons, List.map_nil, List.mem_cons, List.not_mem_nil,
      or_false, not_or] at h
    obtain ⟨hless, hgreater, hand, hline, hparagraph⟩ := h
    simp only [ledgerEscape?, if_neg, hless, hgreater, hand, hline, hparagraph, Option.getD_none,
      not_false_eq_true]

/-- A canonical literal has the image of each of its characters. -/
theorem escapeChar_eq_image (c : Char) : escapeChar c = image c := by
  by_cases hcontrol : c.toNat < 0x20
  · exact forall_char_lt (P := fun c => escapeChar c = image c) (by decide) c hcontrol
  by_cases hquote : c = '"'
  · subst hquote
    decide
  by_cases hslash : c = '\\'
  · subst hslash
    decide
  have hstandard : standardEscape? c = none := by
    rw [standardEscape?, if_neg (by simp [hquote, hslash]), if_neg hcontrol]
  have hshort : shortEscapes.lookup c = none := by
    have hall : ∀ c ∈ shortEscapes.map Prod.fst, c.toNat < 0x20 ∨ c = '"' ∨ c = '\\' :=
      List.all_iff_forall_prop.mp (by decide)
    refine lookup_eq_none_iff_not_mem.mpr fun hmem => ?_
    rcases hall c hmem with h | h | h
    · exact hcontrol h
    · exact hquote h
    · exact hslash h
  rw [escapeChar, hstandard, Option.getD_none, ledgerEscape?_getD, image, List.lookup_append,
    hshort, Option.none_or, if_neg hcontrol, ledgerImage]

/-! ## Fragments -/

/-- The bytes from one position up to another, if both are within. -/
def slice? (bytes : Bytes) (start stop : Nat) : Option Bytes :=
  if start ≤ stop ∧ stop ≤ bytes.length then some ((bytes.take stop).drop start) else none

/-- Writes the bytes of a fragment from `start` on, where `position` is that of the characters left:
every escape is written after the bytes that stand between it and the one before. -/
def writeFrom? (bytes : Bytes) (start position : Nat) : List Char → Option Bytes
  | [] => slice? bytes start bytes.length
  | c :: rest =>
    let next := position + (Utf8.encodeChar c).length
    match ledgerEscape? c with
    | none => writeFrom? bytes start next rest
    | some escaped => do
      let pending ← slice? bytes start position
      let written ← writeFrom? bytes next next rest
      return pending ++ Utf8.encode escaped ++ written

def writeFragment? (cs : List Char) : Option Bytes := writeFrom? (Utf8.encode cs) 0 0 cs

theorem slice?_append (before run after : Bytes) :
    slice? (before ++ run ++ after) before.length (before ++ run).length = some run := by
  have hwithin : before.length ≤ (before ++ run).length ∧
      (before ++ run).length ≤ (before ++ run ++ after).length := by
    simp only [List.length_append]
    omega
  rw [slice?, if_pos hwithin, List.take_left, List.drop_left]

/-- What is pending is the run of characters since the last escape, which lies in the fragment. -/
theorem writeFrom?_append (before : Bytes) (run rest : List Char) :
    writeFrom? (before ++ Utf8.encode run ++ Utf8.encode rest) before.length
        (before ++ Utf8.encode run).length rest =
      some (Utf8.encode (escapeRuns ledgerEscape? id run.reverse rest)) := by
  induction rest generalizing before run with
  | nil =>
    have hslice := slice?_append before (Utf8.encode run) []
    rw [List.append_nil] at hslice
    rw [writeFrom?, Utf8.encode_nil, List.append_nil, hslice, escapeRuns, List.reverse_reverse, id]
  | cons c rest ih =>
    have hnext : (before ++ Utf8.encode run).length + (Utf8.encodeChar c).length =
        (before ++ Utf8.encode run ++ Utf8.encodeChar c).length := List.length_append.symm
    rw [writeFrom?, escapeRuns, Utf8.encode_cons]
    simp only [hnext]
    cases hescape : ledgerEscape? c with
    | none =>
      have hrun := ih before (run ++ [c])
      simpa using hrun
    | some escaped =>
      have hpending := slice?_append before (Utf8.encode run)
        (Utf8.encodeChar c ++ Utf8.encode rest)
      have hrest := ih (before ++ Utf8.encode run ++ Utf8.encodeChar c) []
      simp only [Utf8.encode_nil, List.append_nil, List.append_assoc] at hpending hrest ⊢
      simp only [hpending, hrest]
      simp

/-- The bytes that the loop writes for a fragment. -/
theorem writeFragment?_eq (cs : List Char) :
    writeFragment? cs = some (Utf8.encode (escapeFragment cs)) := by
  have h := writeFrom?_append [] [] cs
  simpa [writeFragment?, escapeFragment] using h

theorem escapeFragment_eq_image (cs : List Char) : escapeFragment cs = cs.flatMap ledgerImage := by
  rw [escapeFragment_eq]
  simp only [ledgerEscape?_getD]

/-- However a text is cut, its fragments are written as the text is. -/
theorem mapM_writeFragment? (fragments : List (List Char)) :
    ∃ written, fragments.mapM writeFragment? = some written ∧
      written.flatten = Utf8.encode (fragments.flatten.flatMap ledgerImage) := by
  induction fragments with
  | nil => exact ⟨[], rfl, rfl⟩
  | cons cs fragments ih =>
    obtain ⟨written, hmap, hwritten⟩ := ih
    refine ⟨Utf8.encode (escapeFragment cs) :: written, ?_, ?_⟩
    · simp [writeFragment?_eq, hmap]
    · simp [hwritten, escapeFragment_eq_image]

/-! ## Pieces -/

/-- What the serializer writes at a time: a run of characters without standard escapes, or one
character by its standard escape. -/
inductive Piece
  | fragment (cs : List Char) (plain : ∀ c ∈ cs, standardEscape? c = none)
  | escape (c : Char) (escaped : List Char) (standard : standardEscape? c = some escaped)

namespace Piece

def chars : Piece → List Char
  | fragment cs _ => cs
  | escape c _ _ => [c]

def write? : Piece → Option Bytes
  | fragment cs _ => writeFragment? cs
  | escape _ escaped _ => some (Utf8.encode escaped)

theorem write?_eq (piece : Piece) :
    piece.write? = some (Utf8.encode (piece.chars.flatMap image)) := by
  cases piece with
  | fragment cs plain =>
    have himage : cs.flatMap ledgerImage = cs.flatMap image := by
      refine List.flatMap_congr fun c hc => ?_
      rw [← escapeChar_eq_image, escapeChar, plain c hc, ← ledgerEscape?_getD, Option.getD_none]
    rw [write?, writeFragment?_eq, escapeFragment_eq_image, himage, chars]
  | escape c escaped standard =>
    rw [write?, chars, List.flatMap_singleton, ← escapeChar_eq_image, escapeChar, standard,
      Option.getD_some]

/-- Wherever the serializer cuts, it writes the image of each character. -/
theorem mapM_write? (pieces : List Piece) :
    ∃ written, pieces.mapM write? = some written ∧
      written.flatten = Utf8.encode ((pieces.flatMap chars).flatMap image) := by
  induction pieces with
  | nil => exact ⟨[], rfl, rfl⟩
  | cons piece pieces ih =>
    obtain ⟨written, hmap, hwritten⟩ := ih
    refine ⟨Utf8.encode (piece.chars.flatMap image) :: written, ?_, ?_⟩
    · simp [write?_eq, hmap]
    · simp [hwritten]

end Piece

/-! ## What canonical text is free of -/

/-- A character that can stand in canonical text. -/
def IsSafe (c : Char) : Prop := 0x20 ≤ c.toNat ∧ c ∉ ledgerEscapes.map Prod.fst

instance (c : Char) : Decidable (IsSafe c) := inferInstanceAs (Decidable (_ ∧ _))

theorem isSafe_image (c : Char) : ∀ d ∈ image c, IsSafe d := by
  rw [image]
  split
  · next escape h =>
    have hall : ∀ entry ∈ shortEscapes ++ ledgerEscapes, entry.2.toList.all (IsSafe ·) := by decide
    exact List.all_iff_forall_prop.mp (hall (c, escape) (mem_of_lookup_eq_some h))
  · next h =>
    split
    · next hcontrol =>
      have hall : ∀ n < 0x20, ("\\u00".toList ++ controlDigits n).all (IsSafe ·) := by decide
      exact List.all_iff_forall_prop.mp (hall c.toNat hcontrol)
    · next hcontrol =>
      rw [List.lookup_append, Option.or_eq_none_iff] at h
      have hledger := lookup_eq_none_iff_not_mem.mp h.2
      intro d hd
      rw [List.mem_singleton] at hd
      subst hd
      exact ⟨by omega, hledger⟩

theorem isSafe_literal (s : String) : ∀ c ∈ literal s, IsSafe c := by
  rw [literal, escapeText_eq, funext escapeChar_eq_image, List.forall_mem_append,
    List.forall_mem_cons]
  refine ⟨⟨by decide, fun c hc => ?_⟩, List.all_iff_forall_prop.mp (by decide)⟩
  obtain ⟨d, -, hd⟩ := List.mem_flatMap.mp hc
  exact isSafe_image d c hd

theorem isSafe_of_isDigit {c : Char} (h : c.isDigit = true) : IsSafe c := by
  have hrange := toNat_of_isDigit h
  exact forall_char_lt (P := fun c => c.isDigit = true → IsSafe c) (by decide) c
    (show c.toNat < 58 by omega) h

theorem isSafe_itemChars {items : List Value} (h : ∀ v ∈ items, ∀ c ∈ v.chars, IsSafe c) :
    ∀ c ∈ itemChars items, IsSafe c := by
  induction items with
  | nil => simp [itemChars]
  | cons v items ih =>
    obtain ⟨hv, hitems⟩ := List.forall_mem_cons.mp h
    cases items with
    | nil => simpa only [itemChars] using hv
    | cons w items =>
      have hcomma : IsSafe ',' := by decide
      rw [itemChars, List.forall_mem_append, List.forall_mem_cons]
      · exact ⟨hv, hcomma, ih hitems⟩
      · exact List.cons_ne_nil w items

theorem isSafe_memberChars {members : List (String × Value)}
    (h : ∀ m ∈ members, ∀ c ∈ m.2.chars, IsSafe c) : ∀ c ∈ memberChars members, IsSafe c := by
  induction members with
  | nil => simp [memberChars]
  | cons m members ih =>
    obtain ⟨hm, hmembers⟩ := List.forall_mem_cons.mp h
    have hcolon : IsSafe ':' := by decide
    have hmember : ∀ c ∈ literal m.1 ++ ':' :: m.2.chars, IsSafe c := by
      rw [List.forall_mem_append, List.forall_mem_cons]
      exact ⟨isSafe_literal m.1, hcolon, hm⟩
    cases members with
    | nil => simpa only [memberChars] using hmember
    | cons n members =>
      have hcomma : IsSafe ',' := by decide
      rw [memberChars, List.forall_mem_append, List.forall_mem_cons]
      · exact ⟨hmember, hcomma, ih hmembers⟩
      · exact List.cons_ne_nil n members

theorem isSafe_integer (n : Int) : ∀ c ∈ (Value.integer n).chars, IsSafe c := by
  intro c hc
  rw [Value.chars, Int.toString_eq_repr, Int.repr_eq_if] at hc
  split at hc
  · rw [Nat.toList_repr] at hc
    exact isSafe_of_isDigit (isDigit_of_mem_toDigits hc)
  · rw [String.toList_append, Nat.toList_repr, List.mem_append] at hc
    rcases hc with hc | hc
    · have hminus : ∀ c ∈ "-".toList, IsSafe c := List.all_iff_forall_prop.mp (by decide)
      exact hminus c hc
    · exact isSafe_of_isDigit (isDigit_of_mem_toDigits hc)

/-- Canonical text has no controls and none of the five characters. -/
theorem isSafe_chars (v : Value) : ∀ c ∈ v.chars, IsSafe c := by
  induction v using Value.induct with
  | null =>
    rw [Value.chars]
    exact List.all_iff_forall_prop.mp (by decide)
  | boolean b => cases b <;> rw [Value.chars] <;> exact List.all_iff_forall_prop.mp (by decide)
  | integer n => exact isSafe_integer n
  | text s =>
    rw [Value.chars]
    exact isSafe_literal s
  | array items ih =>
    rw [Value.chars, List.forall_mem_append, List.forall_mem_cons]
    exact ⟨⟨by decide, isSafe_itemChars ih⟩, List.all_iff_forall_prop.mp (by decide)⟩
  | object members ih =>
    rw [Value.chars, List.forall_mem_append, List.forall_mem_cons]
    exact ⟨⟨by decide, isSafe_memberChars ih⟩, List.all_iff_forall_prop.mp (by decide)⟩

/-- The bytes of a character that is no control are none either. -/
theorem le_of_mem_encodeChar_of_le {c : Char} (hc : 0x20 ≤ c.toNat) :
    ∀ b ∈ Utf8.encodeChar c, 0x20 ≤ b := by
  by_cases hquote : c = '"'
  · subst hquote
    exact List.all_iff_forall_prop.mp (by decide)
  by_cases hslash : c = '\\'
  · subst hslash
    exact List.all_iff_forall_prop.mp (by decide)
  intro b hb
  have hplain := isPlain_encodeChar (by omega) hquote hslash b hb
  simp only [isPlain, Bool.and_eq_true, decide_eq_true_eq] at hplain
  exact hplain.1.1

/-- Canonical bytes have no control among them. -/
theorem le_of_mem_canonicalBytes (v : Value) : ∀ b ∈ v.canonicalBytes, 0x20 ≤ b := by
  intro b hb
  obtain ⟨c, hc, hmem⟩ := List.mem_flatMap.mp hb
  exact le_of_mem_encodeChar_of_le (isSafe_chars v c hc).1 b hmem

/-- However a string is cut into fragments, the loop over bytes writes it as the ledger's table has
it; however the serializer cuts a string at standard escapes, it writes the image of every
character, which is what stands between the quotes of its canonical literal. The canonical bytes of
a value are always read back as text, which has no control and none of the five characters. -/
theorem written_by_table :
    (∀ cs : List Char, writeFragment? cs = some (Utf8.encode (escapeFragment cs))) ∧
    (∀ fragments : List (List Char), ∃ written,
      fragments.mapM writeFragment? = some written ∧
        written.flatten = Utf8.encode (fragments.flatten.flatMap ledgerImage)) ∧
    (∀ pieces : List Piece, ∃ written,
      pieces.mapM Piece.write? = some written ∧
        written.flatten = Utf8.encode ((pieces.flatMap Piece.chars).flatMap image)) ∧
    (∀ s : String,
      (Value.text s).canonical = String.ofList ('"' :: s.toList.flatMap image ++ ['"'])) ∧
    ∀ v : Value,
      Utf8.toString? v.canonicalBytes = some v.canonical ∧
      (∀ b ∈ v.canonicalBytes, 0x20 ≤ b) ∧
      ∀ c ∈ v.canonical.toList, 0x20 ≤ c.toNat ∧ c ∉ ['<', '>', '&', '\u2028', '\u2029'] := by
  refine ⟨writeFragment?_eq, mapM_writeFragment?, Piece.mapM_write?, ?_, ?_⟩
  · intro s
    rw [Value.canonical, Value.chars, literal, escapeText_eq, funext escapeChar_eq_image]
  · intro v
    refine ⟨?_, le_of_mem_canonicalBytes v, ?_⟩
    · rw [← v.ofString_canonical, Utf8.toString?_ofString]
    · rw [Value.canonical, String.toList_ofList]
      exact isSafe_chars v

/-- A fragment of which two characters have several bytes, one of which has an escape. -/
example : writeFragment? "é<\u2028>".toList = some (Utf8.ofString "é\\u003c\\u2028\\u003e") := by
  decide

end StorageProof.Json
