import StorageProof.Json.Skip

/-!
# Records in JSON

A record has named fields, all of them texts: either any text, or the name of a variant, which may also be
written as an object with that one key and the value null. A record is read from an object, whose unknown
members are passed over and whose known ones may come in any order and stand under an alias, or from an
array of the fields in their order. A field may refuse the text it is given as soon as it is read.
-/

namespace StorageProof.Json

/-- How the text of a field is written. -/
inductive Form
  | text
  | variant
  deriving DecidableEq, Repr

structure Field where
  key : String
  aliases : List String := []
  form : Form := .text
  refusal? : String → Option String := fun _ => none

/-- Whether a key names the field. -/
def Field.answersTo (f : Field) (key : String) : Bool := key == f.key || f.aliases.contains key

/-- A record: what it is called and its fields in order. -/
structure Shape where
  name : String
  fields : List Field

/-- What a record is called where something else stands in its place. -/
def Shape.expected (s : Shape) : String := "struct " ++ s.name

/-- What a record is called where an array in its place is too short. -/
def Shape.expectedLength (s : Shape) : String :=
  let n := s.fields.length
  let plural := if n = 1 then "" else "s"
  s!"{s.expected} with {n} element{plural}"

/-- Lifts a problem of syntax. -/
def orFault {α : Type} : Except SyntaxFault α → Except Fault α
  | .ok a => .ok a
  | .error e => .error (.syntaxError e)

theorem orFault_eq_ok {α : Type} {x : Except SyntaxFault α} {a : α} :
    orFault x = .ok a ↔ x = .ok a := by
  cases x <;> simp [orFault]

/-- The fault of a value that is not of the expected type; a malformed scalar is reported as such. -/
def wrongType {α : Type} (expected : String) (s : Bytes) : Except Fault α :=
  match foundAt s with
  | .error e => .error (.syntaxError e)
  | .ok found => .error (.wrongType found expected)

def takeColon (s : Bytes) : Except SyntaxFault Bytes :=
  match skipSpace s with
  | [] => .error .endInObject
  | b :: rest => if b = 0x3A then .ok rest else .error .expectedColon

theorem length_takeColon {s rest : Bytes} (h : takeColon s = .ok rest) : rest.length < s.length := by
  unfold takeColon at h
  have hs := length_skipSpace_le s
  split at h
  · simp at h
  · next b r hb =>
    rw [hb, List.length_cons] at hs
    split at h
    · simp only [Except.ok.injEq] at h
      rw [← h]; omega
    · simp at h

def takeNull (s : Bytes) : Except Fault Bytes :=
  match skipSpace s with
  | [] => .error (.syntaxError .endInValue)
  | b :: rest => if b = 0x6E then orFault (takeWord ull rest) else wrongType "unit" (b :: rest)

theorem length_takeNull {s rest : Bytes} (h : takeNull s = .ok rest) : rest.length < s.length := by
  unfold takeNull at h
  have hs := length_skipSpace_le s
  split at h
  · simp at h
  · next b r hb =>
    rw [hb, List.length_cons] at hs
    split at h
    · have := length_takeWord_le (orFault_eq_ok.1 h)
      omega
    · unfold wrongType at h
      split at h <;> simp at h

/-- A text that the field takes, from within the quotes on. -/
def Field.readText (f : Field) (s : Bytes) : Except Fault (String × Bytes) :=
  match readString s with
  | .error e => .error (.syntaxError e)
  | .ok (text, rest) =>
    match f.refusal? text with
    | some reason => .error (.refused reason)
    | none => .ok (text, rest)

theorem Field.length_readText {f : Field} {s rest : Bytes} {text : String}
    (h : f.readText s = .ok (text, rest)) : rest.length < s.length := by
  unfold Field.readText at h
  split at h
  · simp at h
  · next hs =>
    split at h
    · simp at h
    · simp only [Except.ok.injEq, Prod.mk.injEq] at h
      rw [← h.2]; exact length_readString hs

/-- The name of a variant that is written as an object, from within its brace on. -/
def Field.readVariantObject (f : Field) (s : Bytes) : Except Fault (String × Bytes) :=
  match skipSpace s with
  | [] => .error (.syntaxError .endInObject)
  | b :: rest =>
    if b = 0x22 then do
      let (text, rest) ← f.readText rest
      let rest ← orFault (takeColon rest)
      let rest ← takeNull rest
      match skipSpace rest with
      | [] => .error (.syntaxError .endInObject)
      | c :: rest => if c = 0x7D then .ok (text, rest) else .error (.syntaxError .expectedValue)
    else if b = 0x7D then .error (.syntaxError .expectedValue)
    else .error (.syntaxError .keyMustBeText)

theorem Field.length_readVariantObject {f : Field} {s rest : Bytes} {text : String}
    (h : f.readVariantObject s = .ok (text, rest)) : rest.length < s.length := by
  unfold Field.readVariantObject at h
  have hs := length_skipSpace_le s
  split at h
  · simp at h
  · next b r hb =>
    rw [hb, List.length_cons] at hs
    split at h
    · cases ht : f.readText r with
      | error e => simp [ht, bind, Except.bind] at h
      | ok p =>
        obtain ⟨text', r1⟩ := p
        have h1 := Field.length_readText ht
        simp only [ht, bind, Except.bind] at h
        cases hc : orFault (takeColon r1) with
        | error e => simp [hc] at h
        | ok r2 =>
          have h2 := length_takeColon (orFault_eq_ok.1 hc)
          simp only [hc] at h
          cases hn : takeNull r2 with
          | error e => simp [hn] at h
          | ok r3 =>
            have h3 := length_takeNull hn
            have h4 := length_skipSpace_le r3
            simp only [hn] at h
            split at h
            · simp at h
            · next c r4 hc4 =>
              rw [hc4, List.length_cons] at h4
              split at h
              · simp only [Except.ok.injEq, Prod.mk.injEq] at h
                rw [← h.2]; omega
              · simp at h
    · split at h <;> simp at h

def Field.read (f : Field) (s : Bytes) : Except Fault (String × Bytes) :=
  match skipSpace s with
  | [] => .error (.syntaxError .endInValue)
  | b :: rest =>
    if b = 0x22 then f.readText rest
    else match f.form with
      | .text => wrongType "a string" (b :: rest)
      | .variant =>
        if b = 0x7B then f.readVariantObject rest else .error (.syntaxError .expectedValue)

theorem Field.length_read {f : Field} {s rest : Bytes} {text : String}
    (h : f.read s = .ok (text, rest)) : rest.length < s.length := by
  unfold Field.read at h
  have hs := length_skipSpace_le s
  split at h
  · simp at h
  · next b r hb =>
    rw [hb, List.length_cons] at hs
    split at h
    · have := Field.length_readText h
      omega
    · split at h
      · unfold wrongType at h
        split at h <;> simp at h
      · split at h
        · have := Field.length_readVariantObject h
          omega
        · simp at h

/-- The fields of a record with the texts read for them so far. -/
abbrev Slots := List (Field × Option String)

/-- The slots of a record before anything is read. -/
def Shape.slots (s : Shape) : Slots := s.fields.map (·, none)

/-- The first slot that a key names, with its text if it has one. -/
def Slots.find? (slots : Slots) (key : String) : Option (Field × Option String) :=
  List.find? (fun p => p.1.answersTo key) slots

/-- Gives the first slot that a key names its text. -/
def Slots.fill (key text : String) : Slots → Slots
  | [] => []
  | (f, old) :: rest =>
    if f.answersTo key then (f, some text) :: rest else (f, old) :: Slots.fill key text rest

/-- The texts of all slots, or the first field that has none. -/
def Slots.texts : Slots → Except Fault (List String)
  | [] => .ok []
  | (f, none) :: _ => .error (.missingField f.key)
  | (_, some text) :: rest => (Slots.texts rest).map (text :: ·)

/-- A member of a record, from within the quotes of its key on. -/
def readMember (slots : Slots) (s : Bytes) : Except Fault (Slots × Bytes) :=
  match readString s with
  | .error e => .error (.syntaxError e)
  | .ok (key, rest) =>
    match slots.find? key with
    | some (f, some _) => .error (.duplicateField f.key)
    | some (f, none) =>
      match takeColon rest with
      | .error e => .error (.syntaxError e)
      | .ok rest =>
        match f.read rest with
        | .error e => .error e
        | .ok (text, rest) => .ok (slots.fill key text, rest)
    | none =>
      match takeColon rest with
      | .error e => .error (.syntaxError e)
      | .ok rest =>
        match skipValue rest with
        | .error e => .error (.syntaxError e)
        | .ok rest => .ok (slots, rest)

theorem length_readMember {slots slots' : Slots} {s rest : Bytes}
    (h : readMember slots s = .ok (slots', rest)) : rest.length < s.length := by
  unfold readMember at h
  split at h
  · simp at h
  · next key r hr =>
    have h1 := length_readString hr
    split at h
    · simp at h
    · split at h
      · simp at h
      · next r1 hc =>
        have h2 := length_takeColon hc
        split at h
        · simp at h
        · next hf =>
          have h3 := Field.length_read hf
          simp only [Except.ok.injEq, Prod.mk.injEq] at h
          rw [← h.2]; omega
    · split at h
      · simp at h
      · next r1 hc =>
        have h2 := length_takeColon hc
        split at h
        · simp at h
        · next hv =>
          have h3 := length_skipOpen_le hv
          simp only [Except.ok.injEq, Prod.mk.injEq] at h
          rw [← h.2]; omega

/-- Where the members of a record go on: after its closing brace, or within the quotes of a key. -/
inductive Turn
  | done (rest : Bytes)
  | key (rest : Bytes)

/-- What follows a member of a record, or its opening brace if `first`. -/
def nextKey (first : Bool) (s : Bytes) : Except SyntaxFault Turn :=
  match skipSpace s with
  | [] => .error .endInObject
  | b :: rest =>
    if b = 0x7D then .ok (.done rest)
    else if first then if b = 0x22 then .ok (.key rest) else .error .keyMustBeText
    else if b = 0x2C then
      match skipSpace rest with
      | [] => .error .endInValue
      | c :: rest =>
        if c = 0x22 then .ok (.key rest)
        else if c = 0x7D then .error .trailingComma
        else .error .keyMustBeText
    else .error .expectedObjectCommaOrEnd

theorem length_nextKey {first : Bool} {s rest : Bytes} (h : nextKey first s = .ok (.key rest)) :
    rest.length < s.length := by
  unfold nextKey at h
  have hs := length_skipSpace_le s
  split at h
  · simp at h
  · next b r hb =>
    rw [hb, List.length_cons] at hs
    split at h
    · simp at h
    · split at h
      · split at h
        · simp only [Except.ok.injEq, Turn.key.injEq] at h
          rw [← h]; omega
        · simp at h
      · split at h
        · have ht := length_skipSpace_le r
          split at h
          · simp at h
          · next c r' hc =>
            rw [hc, List.length_cons] at ht
            split at h
            · simp only [Except.ok.injEq, Turn.key.injEq] at h
              rw [← h]; omega
            · split at h <;> simp at h
        · simp at h

/-- The members of a record up to its closing brace; `first` tells that none has been read yet. -/
def readMembers (slots : Slots) (first : Bool) (s : Bytes) : Except Fault (Slots × Bytes) :=
  match _h : nextKey first s with
  | .error e => .error (.syntaxError e)
  | .ok (.done rest) => .ok (slots, rest)
  | .ok (.key rest) =>
    match _k : readMember slots rest with
    | .error e => .error e
    | .ok (slots, rest) => readMembers slots false rest
termination_by s.length
decreasing_by
  have := length_nextKey _h
  have := length_readMember _k
  omega

/-- Where the next item of a list begins, after `index` of them; nothing at the end of the list. -/
def nextItem (index : Nat) (s : Bytes) : Except SyntaxFault (Option Bytes) :=
  match skipSpace s with
  | [] => .error .endInList
  | b :: rest =>
    if b = 0x5D then .ok none
    else if index = 0 then .ok (some (b :: rest))
    else if b = 0x2C then
      match skipSpace rest with
      | [] => .error .endInValue
      | c :: rest => if c = 0x5D then .error .trailingComma else .ok (some (c :: rest))
    else .error .expectedListCommaOrEnd

/-- The fields of a record in their order, up to the last; `index` of them have been read. -/
def readItems (shape : Shape) (index : Nat) : List Field → Bytes → Except Fault (List String × Bytes)
  | [], s => .ok ([], s)
  | f :: fields, s =>
    match nextItem index s with
    | .error e => .error (.syntaxError e)
    | .ok none => .error (.wrongLength index shape.expectedLength)
    | .ok (some s) => do
      let (text, rest) ← f.read s
      let (texts, rest) ← readItems shape (index + 1) fields rest
      return (text :: texts, rest)

/-- The bytes after the closing bracket of an array whose items have all been read. -/
def takeListEnd (s : Bytes) : Except SyntaxFault Bytes :=
  match skipSpace s with
  | [] => .error .endInList
  | b :: rest =>
    if b = 0x5D then .ok rest
    else if b = 0x2C then
      match skipSpace rest with
      | c :: _ => if c = 0x5D then .error .trailingComma else .error .trailingCharacters
      | [] => .error .trailingCharacters
    else .error .trailingCharacters

/-- A record, and the bytes after it. -/
def Shape.readValue (shape : Shape) (s : Bytes) : Except Fault (List String × Bytes) :=
  match skipSpace s with
  | [] => .error (.syntaxError .endInValue)
  | b :: rest =>
    if b = 0x7B then do
      let (slots, rest) ← readMembers shape.slots true rest
      let texts ← slots.texts
      return (texts, rest)
    else if b = 0x5B then do
      let (texts, rest) ← readItems shape 0 shape.fields rest
      let rest ← orFault (takeListEnd rest)
      return (texts, rest)
    else wrongType shape.expected (b :: rest)

/-- Only white space may follow a document. -/
def takeEnd (s : Bytes) : Except SyntaxFault Unit :=
  match skipSpace s with
  | [] => .ok ()
  | _ :: _ => .error .trailingCharacters

/-- The texts of the fields of a record, from a document that holds nothing else. -/
def Shape.read (shape : Shape) (s : Bytes) : Except Fault (List String) := do
  let (texts, rest) ← shape.readValue s
  orFault (takeEnd rest)
  return texts

/-- The text that a document holds and nothing else, unless the field refuses it. -/
def Field.readDocument (f : Field) (s : Bytes) : Except Fault String := do
  let (text, rest) ← f.read s
  orFault (takeEnd rest)
  return text

end StorageProof.Json
