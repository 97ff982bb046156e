import StorageProof.Proofs.Json.Canonical
import StorageProof.Proofs.Ledger.Answer
import StorageProof.Proofs.Ledger.Questions
import StorageProof.Proofs.Text.Utf8

/-!
# Envelopes

An envelope takes nothing from the text in it and adds nothing to it. Blanks of two kinds stand
around its braces: white space of the document, which is trimmed off with any other blanks since all
of it is blank, and what Unicode calls blank besides. What is left are the braces with the same
members between them, of which only the one that gives the text counts.
-/

namespace StorageProof

/-! ## An object as text -/

namespace Json

/-- The last byte of an object closes it. -/
theorem WritesMembers.exists_concat {first : Bool} {t : Bytes} {members : List (String × Bytes)}
    (h : WritesMembers first t members) : ∃ body, t = body ++ [0x7D] := by
  induction h with
  | close _ => exact ⟨_, rfl⟩
  | @member _ s l v _ _ _ _ _ _ _ ih =>
    obtain ⟨body, rfl⟩ := ih
    exact ⟨s ++ (l ++ (v ++ body)), by simp⟩

/-- A text that is an object has it in braces between blanks, and the braces have its members. -/
theorem WritesObject.exists_braces {cs : List Char} {members : List (String × Bytes)}
    (h : WritesObject (Utf8.encode cs) members) :
    ∃ before inner after, cs = before ++ ('\x7b' :: inner ++ ['\x7d']) ++ after ∧
      AreBlanks before ∧ AreBlanks after ∧
      WritesObject (Utf8.encode ('\x7b' :: inner ++ ['\x7d'])) members := by
  generalize hdoc : Utf8.encode cs = doc at h
  obtain @⟨a, t, b, _, ha, ht, hb⟩ := h
  obtain ⟨body, rfl⟩ := ht.exists_concat
  obtain ⟨before, rfl, hbefore⟩ := ha.exists_encode
  obtain ⟨after, rfl, hafter⟩ := hb.exists_encode
  -- Both braces are bytes of their own, so the text can be cut there.
  have hclose :
      Utf8.encode cs = (Utf8.encode before ++ 0x7B :: body) ++ 0x7D :: Utf8.encode after := by
    rw [hdoc]
    simp
  obtain ⟨ds, es, rfl, hds, hes⟩ := Utf8.exists_of_encode_eq_append (by decide) hclose
  have hafter' : es = '\x7d' :: after := Utf8.encode_injective hes.symm
  have hopen : Utf8.encode ds = Utf8.encode (before ++ ['\x7b']) ++ body := by
    rw [← hds, Utf8.encode_append, List.append_assoc]
    rfl
  obtain ⟨inner, rfl, rfl⟩ := Utf8.exists_of_encode_eq_encode_append hopen
  refine ⟨before, inner, after, ?_, hbefore, hafter, ?_⟩
  · simp [hafter']
  · have hbraces := WritesObject.intro areSpaces_nil ht areSpaces_nil
    rw [List.nil_append, List.append_nil] at hbraces
    rw [List.cons_append, Utf8.encode_cons, Utf8.encode_append]
    exact hbraces

end Json

open Json

/-! ## The text in an envelope -/

/-- An object whose members give a text is an envelope of it. -/
theorem readEnvelope_of_givesText {doc : Bytes} {members : List (String × Bytes)} {text : String}
    (h : WritesObject doc members) (ht : GivesText ["sla"] members text) :
    readEnvelope doc = .ok text := by
  have hgiven : Field.GivenIn { key := "sla" } members text := (Field.givenIn_iff rfl).mpr ⟨ht, rfl⟩
  exact readEnvelope_eq_ok_iff.mpr (h.presents_iff.mpr (.cons hgiven .nil))

/-- An answer with an envelope between blanks comes to what the text in the envelope comes to. -/
theorem Agreement.ofAnswer_of_givesText (id : Identifier) {before doc after : List Char}
    {members : List (String × Bytes)} {text : String} (hb : AreBlanks before) (ha : AreBlanks after)
    (h : WritesObject (Utf8.encode doc) members) (ht : GivesText ["sla"] members text) :
    ofAnswer id (String.ofList (before ++ doc ++ after)) =
      if Text.isAllBlank text then .error (Question.agreement.absent id)
      else parse (Utf8.ofString text) := by
  obtain ⟨s, inner, s', rfl, hs, hs', hbraces⟩ := h.exists_braces
  have hbefore : AreBlanks (before ++ s) := List.forall_mem_append.mpr ⟨hb, hs⟩
  have hafter : AreBlanks (s' ++ after) := List.forall_mem_append.mpr ⟨hs', ha⟩
  have htrim := @trim_ofList_braces (before ++ s) inner (s' ++ after) hbefore hafter
  have hanswer : before ++ (s ++ ('\x7b' :: inner ++ ['\x7d']) ++ s') ++ after =
      before ++ s ++ ('\x7b' :: inner ++ ['\x7d']) ++ (s' ++ after) := by
    simp only [List.append_assoc]
  have hread : readEnvelope (Utf8.ofString (String.ofList ('\x7b' :: inner ++ ['\x7d']))) =
      .ok text := by
    rw [Utf8.ofString, String.toList_ofList]
    exact readEnvelope_of_givesText hbraces ht
  rw [ofAnswer, hanswer, htrim, if_neg ofList_braces_ne, hread]
  rfl

theorem Agreement.parse_ofString_canonical (a : Agreement) :
    parse (Utf8.ofString a.canonical) = .ok a := by
  rw [canonical, a.toJson.ofString_canonical]
  exact a.parse_canonicalBytes

theorem givesText_envelope (text : String) :
    ∃ members, WritesObject (objectOfTexts [("sla", text)]).canonicalBytes members ∧
      GivesText ["sla"] members text :=
  ⟨_, writesObject_canonicalBytes [("sla", .text text)], _, rfl, writes_canonicalBytes_text text⟩

/-- An agreement comes out of every envelope of its canonical text, whatever blanks stand around the
envelope: the text may be escaped in any way, other members may stand beside it, and white space
between tokens. The canonical envelope is one of these. -/
theorem Agreement.envelope_transparent (a : Agreement) (id : Identifier) {before after : List Char}
    (hb : AreBlanks before) (ha : AreBlanks after) :
    (∀ doc members, WritesObject (Utf8.encode doc) members →
      GivesText ["sla"] members a.canonical →
      ofAnswer id (String.ofList (before ++ doc ++ after)) = .ok a) ∧
    ofAnswer id (String.ofList
      (before ++ (objectOfTexts [("sla", a.canonical)]).canonical.toList ++ after)) = .ok a := by
  have hblank : Text.isAllBlank a.canonical = false := isAllBlank_canonical a.members
  have hout {doc : List Char} {members : List (String × Bytes)}
      (h : WritesObject (Utf8.encode doc) members) (ht : GivesText ["sla"] members a.canonical) :
      ofAnswer id (String.ofList (before ++ doc ++ after)) = .ok a := by
    rw [ofAnswer_of_givesText id hb ha h ht, hblank, if_neg Bool.false_ne_true,
      a.parse_ofString_canonical]
  refine ⟨fun doc members => hout, ?_⟩
  obtain ⟨members, h, ht⟩ := givesText_envelope a.canonical
  have hbytes : Utf8.encode (objectOfTexts [("sla", a.canonical)]).canonical.toList =
      (objectOfTexts [("sla", a.canonical)]).canonicalBytes := Value.ofString_canonical _
  rw [← hbytes] at h
  exact hout h ht

/-- An agreement with a quote in it. -/
def quotedAgreement : Agreement := ⟨"a\"b", .ssim, "C1"⟩

/-- An envelope with another member before its text, an escape in the key, and an escape that none
is needed for in the text. -/
def looseEnvelope : String :=
  " \x7b\"x\":[ ] ,\"\\u0073la\": \"\\u007b\\\"Url\\\":\\\"a\\\\\\\"b\\\",\\\"ProofType\\\":" ++
    "\\\"SsimZksnark\\\",\\\"PublicInputs\\\":\\\"C1\\\"\x7d\" \x7d\n"

theorem looseEnvelope_givesText :
    ∃ members, WritesObject (Utf8.encode looseEnvelope.toList) members ∧
      GivesText ["sla"] members quotedAgreement.canonical := by
  have hspace : AreSpaces [0x20] := by simp [AreSpaces, isSpace]
  have hline : AreSpaces [0x0A] := by simp [AreSpaces, isSpace]
  have hextra : WellFormed .value [0x5B, 0x20, 0x5D] := .container (c := .list) (.close hspace)
  have hname : Spells (0x5C :: 0x75 :: ([0x30, 0x30, 0x37, 0x33] ++ Utf8.ofString "la"))
      (Utf8.encodeChar (Char.ofNat 0x73) ++ Utf8.ofString "la") :=
    .scalar rfl (by decide) (spells_plain (by decide +kernel))
  have hcanonical : quotedAgreement.canonical.toList =
      Char.ofNat 0x7B :: quotedAgreement.canonical.toList.tail := by decide +kernel
  have htext : Spells (0x5C :: 0x75 :: ([0x30, 0x30, 0x37, 0x62] ++
      Utf8.encode (escapeText quotedAgreement.canonical.toList.tail)))
      (Utf8.ofString quotedAgreement.canonical) := by
    rw [Utf8.ofString, hcanonical, Utf8.encode_cons]
    exact .scalar rfl (by decide) (spells_escapeText _)
  have hwrites : Form.text.Writes _ quotedAgreement.canonical := .literal htext
  have hkey : WritesKey _ "sla" := .intro areSpaces_nil hname areSpaces_nil hspace
  have hx : WritesKey _ "x" :=
    .intro areSpaces_nil (spells_plain (by decide +kernel)) areSpaces_nil areSpaces_nil
  have hmembers := WritesMembers.member .first hx hextra
    (.member (.comma hspace) hkey hwrites.wellFormed (.close hspace))
  have hobject := WritesObject.intro hspace hmembers hline
  exact ⟨_, Eq.subst (motive := (WritesObject · _)) (by decide +kernel) hobject, _, rfl, hwrites⟩

theorem envelope_transparent_loose :
    AreBlanks ['\u3000'] ∧ AreBlanks ['\u2028', '\t'] ∧
    Agreement.ofAnswer (.derive [])
      (String.ofList (['\u3000'] ++ looseEnvelope.toList ++ ['\u2028', '\t'])) =
        .ok quotedAgreement := by
  have hb : AreBlanks ['\u3000'] := by simp [AreBlanks]; decide
  have ha : AreBlanks ['\u2028', '\t'] := by simp [AreBlanks]; decide
  obtain ⟨_, h, ht⟩ := looseEnvelope_givesText
  exact ⟨hb, ha, (quotedAgreement.envelope_transparent (.derive []) hb ha).1 _ _ h ht⟩

end StorageProof
