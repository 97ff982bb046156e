import StorageProof.Ledger.Account
import StorageProof.Proofs.Ledger.Answer

/-!
# Proofs on their way through the ledger

A proof is handed to the ledger as its canonical text. This is one member with the padded Base64
text of the bytes, in which nothing has to be escaped, and what the ledger hands back of it is read
as the same bytes.
-/

namespace StorageProof

namespace Json

/-- A text without characters that need an escape stands in a literal as it is. -/
theorem literal_of_plain {cs : List Char} (h : ∀ c ∈ cs, escapeChar c = [c]) :
    literal (String.ofList cs) = '"' :: cs ++ ['"'] := by
  have hcs : escapeText cs = cs := by
    rw [escapeText_eq]
    induction cs with
    | nil => rfl
    | cons c cs ih =>
      rw [List.flatMap_cons, h c List.mem_cons_self, ih fun d hd => h d (List.mem_cons_of_mem c hd)]
      rfl
  rw [literal, String.toList_ofList, hcs]

end Json

namespace Base64

theorem escapeChar_standard : ∀ n < 64,
    Json.escapeChar (standard.symbol n) = [standard.symbol n] := by decide

/-- No character of a padded text needs an escape. -/
theorem escapeChar_encode (bytes : Bytes) :
    ∀ c ∈ encode standard bytes, Json.escapeChar c = [c] := by
  intro c hc
  rcases mem_encode hc with rfl | ⟨n, hn, rfl⟩
  · decide
  · exact escapeChar_standard n hn

end Base64

namespace ProofBlob

/-- The canonical text of a proof is one member, the padded Base64 text of the bytes. -/
theorem canonical_eq (p : ProofBlob) :
    p.canonical =
      "\x7b\"proof\":\"" ++ String.ofList (Base64.encode Base64.standard p.bytes) ++ "\"\x7d" := by
  have hkey : Json.literal "proof" = ['"', 'p', 'r', 'o', 'o', 'f', '"'] := by decide
  apply String.toList_inj.mp
  rw [canonical, toJson, Json.Value.canonical, Json.Value.chars, Json.memberChars, Json.Value.chars,
    Json.literal_of_plain (Base64.escapeChar_encode p.bytes), hkey]
  simp

/-- Every proof is written, and read back as it was. What is handed to the ledger is this text, and
an answer with it between blanks gives the proof, or tells that there is none if it has no bytes. -/
theorem wire_roundTrip (p : ProofBlob) (account : Account) (id : Identifier)
    {before after : List Char} (hb : AreBlanks before) (ha : AreBlanks after) :
    Utf8.toString? p.toJson.canonicalBytes = some p.canonical ∧
    p.canonical =
      "\x7b\"proof\":\"" ++ String.ofList (Base64.encode Base64.standard p.bytes) ++ "\"\x7d" ∧
    ProofBlob.parse (Utf8.ofString p.canonical) = .ok p ∧
    ∃ json, (account.commitCall id p).args =
        ["tx", "sla", "commitProof", id.text, json, "--yes", "--from", account.signer] ∧
      ProofBlob.ofAnswer id (String.ofList (before ++ json.toList ++ after)) =
        if p.bytes = [] then .error (.commitNotFound id.text) else .ok p := by
  have hbytes : Utf8.ofString p.canonical = p.toJson.canonicalBytes := p.toJson.ofString_canonical
  have hparse : ProofBlob.parse (Utf8.ofString p.canonical) = .ok p := by
    rw [hbytes, parse_of_spells p.spells_canonicalBytes]
  refine ⟨?_, p.canonical_eq, hparse, p.canonical, rfl, p.ofAnswer_between id hb ha⟩
  rw [← hbytes, Utf8.toString?_ofString]

theorem wire_roundTrip_two_bytes :
    AreBlanks [' '] ∧ AreBlanks ['\n'] ∧
    (ProofBlob.mk [0xfb, 0xff]).canonical = "\x7b\"proof\":\"+/8=\"\x7d" ∧
    ProofBlob.parse (Utf8.ofString (ProofBlob.mk [0xfb, 0xff]).canonical) = .ok ⟨[0xfb, 0xff]⟩ ∧
    ∃ json, (Account.commitCall ⟨⟨"slad"⟩, "alice"⟩ (.derive []) ⟨[0xfb, 0xff]⟩).args[4]? = some json ∧
      ProofBlob.ofAnswer (.derive []) (String.ofList ([' '] ++ json.toList ++ ['\n'])) =
        .ok ⟨[0xfb, 0xff]⟩ := by
  have hb : AreBlanks [' '] := by simp [AreBlanks]; decide
  have ha : AreBlanks ['\n'] := by simp [AreBlanks]; decide
  obtain ⟨_, hcanonical, hparse, json, hargs, hanswer⟩ :=
    wire_roundTrip ⟨[0xfb, 0xff]⟩ ⟨⟨"slad"⟩, "alice"⟩ (.derive []) hb ha
  refine ⟨hb, ha, ?_, hparse, json, ?_, hanswer⟩
  · rw [hcanonical]
    decide
  · rw [hargs]
    rfl

end ProofBlob

end StorageProof
