import StorageProof.Ledger.Answer
import StorageProof.Call.Basic
import StorageProof.Proofs.Agreement
import StorageProof.Proofs.ProofBlob
import StorageProof.Proofs.PublicInput

/-!
# Answers that decode

An agreement comes out of every answer that holds its canonical text in an envelope, and a proof out
of every answer that holds its canonical text, with any blanks around it. The envelope may be
written in any way.
-/

namespace StorageProof

def AreBlanks (cs : List Char) : Prop := ∀ c ∈ cs, Text.isBlank c = true

theorem areBlanks_nil : AreBlanks [] := fun _ h => absurd h List.not_mem_nil

/-- An answer that holds a text between blanks. -/
inductive Holds : Bytes → String → Prop
  | intro {before after : List Char} {text : String} (hb : AreBlanks before)
      (ha : AreBlanks after) :
      Holds (Utf8.encode (before ++ text.toList ++ after)) text

/-- An answer that holds a text in an envelope between blanks. -/
inductive Envelops : Bytes → String → Prop
  | intro {before inner after : List Char} {text : String} (hb : AreBlanks before)
      (ha : AreBlanks after)
      (h : Json.SpellsMembers (Utf8.encode inner) [("sla", text)]) :
      Envelops (Utf8.encode (before ++ ('\x7b' :: inner ++ ['\x7d']) ++ after)) text

/-- What stands in braces between blanks is what trimming leaves. -/
theorem trim_ofList_braces {before inner after : List Char} (hb : AreBlanks before)
    (ha : AreBlanks after) :
    Text.trim (String.ofList (before ++ ('\x7b' :: inner ++ ['\x7d']) ++ after)) =
      String.ofList ('\x7b' :: inner ++ ['\x7d']) := by
  have hfirst : ∀ c ∈ ('\x7b' :: inner ++ ['\x7d']).head?, Text.isBlank c = false := by
    intro c hc
    cases hc
    decide
  have hlast : ∀ c ∈ ('\x7b' :: inner ++ ['\x7d']).getLast?, Text.isBlank c = false := by
    intro c hc
    rw [List.getLast?_concat] at hc
    cases hc
    decide
  rw [Text.trim, String.toList_ofList, Text.trimList_between hb ha hfirst hlast]

/-- What stands between blanks in an answer, given in braces. -/
theorem trim_braces {before inner after : List Char} (hb : AreBlanks before)
    (ha : AreBlanks after) :
    Text.trim (Utf8.lossy (Utf8.encode (before ++ ('\x7b' :: inner ++ ['\x7d']) ++ after))) =
      String.ofList ('\x7b' :: inner ++ ['\x7d']) := by
  rw [Utf8.lossy_encode, trim_ofList_braces hb ha]

theorem ofList_braces_ne {inner : List Char} :
    String.ofList ('\x7b' :: inner ++ ['\x7d']) ≠ "" := by
  rw [Ne, ← String.toList_eq_nil_iff, String.toList_ofList]
  exact List.cons_ne_nil _ _

/-- An object of texts in canonical form stands in braces. -/
theorem Json.exists_braces (members : List (String × String)) :
    ∃ inner, (Json.objectOfTexts members).canonical.toList = '\x7b' :: inner ++ ['\x7d'] := by
  refine ⟨Json.memberChars (members.map fun p => (p.1, .text p.2)), ?_⟩
  rw [Json.Value.canonical, String.toList_ofList, Json.objectOfTexts, Json.Value.chars]

theorem holds_ofString (text : String) : Holds (Utf8.ofString text) text := by
  have h := @Holds.intro [] [] text areBlanks_nil areBlanks_nil
  rw [List.nil_append, List.append_nil] at h
  exact h

theorem envelops_canonical (text : String) :
    Envelops (Json.objectOfTexts [("sla", text)]).canonicalBytes text := by
  have h := @Envelops.intro [] _ [] text areBlanks_nil areBlanks_nil
    (Json.spellsMembers_canonical ("sla", text) [])
  rw [List.nil_append, List.append_nil] at h
  exact h

theorem readEnvelope_of_spells {s : Bytes} {text : String}
    (h : Json.SpellsObject s [("sla", text)]) :
    readEnvelope s = .ok text := by
  have ht : Json.Takes envelopeShape.slots [("sla", text)] [({ key := "sla" }, some text)] :=
    .cons (f := { key := "sla" }) rfl rfl .nil
  have hs : Json.Slots.texts [({ key := "sla" }, some text)] = .ok [text] := rfl
  simp only [readEnvelope, Json.Shape.read_of_spells h ht hs, List.headD_cons]

theorem isAllBlank_canonical (members : List (String × String)) :
    Text.isAllBlank (Json.objectOfTexts members).canonical = false := by
  obtain ⟨inner, hinner⟩ := Json.exists_braces members
  rw [Text.isAllBlank, hinner]
  simp only [List.cons_append, List.all_cons, Bool.and_eq_false_imp]
  intro h
  exact absurd h (by decide)

/-- An agreement comes out of every answer with its canonical text in an envelope. -/
theorem Agreement.ofAnswer_of_envelops {a : Agreement} {output : Output}
    (h : Envelops output.stdout a.canonical) (id : Identifier) :
    Agreement.ofAnswer id output.text = .ok a := by
  rw [Output.text]
  generalize output.stdout = stdout at h
  obtain @⟨before, inner, after, _, hb, ha, hm⟩ := h
  have hobject : Json.SpellsObject (Utf8.ofString (String.ofList ('\x7b' :: inner ++ ['\x7d'])))
      [("sla", a.canonical)] := by
    have h := Json.SpellsObject.intro Json.areSpaces_nil hm Json.areSpaces_nil
    rw [Utf8.ofString, String.toList_ofList, List.cons_append, Utf8.encode_cons, Utf8.encode_append]
    exact h
  have hblank : Text.isAllBlank a.canonical = false := isAllBlank_canonical a.members
  rw [Agreement.ofAnswer, trim_braces hb ha, if_neg ofList_braces_ne,
    readEnvelope_of_spells hobject]
  simp only [bind, Except.bind, hblank, Bool.false_eq_true, if_false]
  have hbytes : Utf8.ofString a.canonical = a.canonicalBytes := a.toJson.ofString_canonical
  rw [hbytes, a.parse_canonicalBytes]

/-- The canonical text of a proof with blanks around it tells that there is no proof if the proof is
empty, and is read as the proof otherwise. -/
theorem ProofBlob.ofAnswer_between (p : ProofBlob) (id : Identifier) {before after : List Char}
    (hb : AreBlanks before) (ha : AreBlanks after) :
    ProofBlob.ofAnswer id (String.ofList (before ++ p.canonical.toList ++ after)) =
      if p.bytes = [] then .error (.commitNotFound id.text) else .ok p := by
  obtain ⟨inner, hinner⟩ := Json.exists_braces p.members
  have hinner : p.canonical.toList = '\x7b' :: inner ++ ['\x7d'] := hinner
  have hcanonical : String.ofList ('\x7b' :: inner ++ ['\x7d']) = p.canonical := by
    rw [← hinner, String.ofList_toList]
  have hbytes : Utf8.ofString p.canonical = p.toJson.canonicalBytes := p.toJson.ofString_canonical
  rw [hinner, ProofBlob.ofAnswer, trim_ofList_braces hb ha, if_neg ofList_braces_ne, hcanonical,
    hbytes, parse_of_spells p.spells_canonicalBytes]
  simp only [bind, Except.bind, isEmpty, List.isEmpty_iff]
  rfl

/-- A proof that is not empty comes out of every answer with its canonical text. -/
theorem ProofBlob.ofAnswer_of_holds {p : ProofBlob} (hp : p.bytes ≠ []) {output : Output}
    (h : Holds output.stdout p.canonical) (id : Identifier) :
    ProofBlob.ofAnswer id output.text = .ok p := by
  rw [Output.text]
  generalize output.stdout = stdout at h
  obtain @⟨before, after, _, hb, ha⟩ := h
  rw [Utf8.lossy_encode, p.ofAnswer_between id hb ha, if_neg hp]

end StorageProof
