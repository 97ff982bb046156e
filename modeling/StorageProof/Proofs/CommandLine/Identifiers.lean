import StorageProof.CommandLine.Outcome
import StorageProof.Proofs.Identifier

/-!
# Identifiers on the command line

Four commands are about one agreement, whose identifier is the value of an option. As a word of its
own the identifier is taken as that value unless it begins with a hyphen, which one identifier in
sixty-four does; behind an equals sign every identifier is taken.
-/

namespace StorageProof.CommandLine

/-- The commands about one agreement. -/
inductive Inquiry
  | mine
  | verify
  | showAgreement
  | showProof
  deriving DecidableEq, Repr

namespace Inquiry

def verb : Inquiry → Verb
  | mine => .mine
  | verify => .verify
  | showAgreement => .showAgreement
  | showProof => .showProof

def errand (text : String) : Inquiry → Errand
  | mine => .mine text
  | verify => .verify text
  | showAgreement => .showAgreement text
  | showProof => .showProof text

/-- The request about an agreement that replaces no settings. -/
def request (c : Inquiry) (text : String) : Request := { command := .errand (c.errand text) }

end Inquiry

/-! ## The looks of an identifier -/

theorem text_ne_hyphen (id : Identifier) : id.text.toList ≠ ['-'] := by
  intro h
  have hsome := id.isSome_digest
  have htext : id.text = "-" := by rw [← String.ofList_toList (s := id.text), h]
  rw [htext] at hsome
  revert hsome
  decide

/-- By its looks an identifier is a value if and only if it does not begin with a hyphen. -/
theorem wordKind_text (id : Identifier) :
    wordKind id.text = .plain ↔ id.text.toList.head? ≠ some '-' := by
  have hne := text_ne_hyphen id
  unfold wordKind
  generalize id.text.toList = cs at hne
  unfold WordKind.ofChars
  split
  · simp
  · simp
  · simp
  · next hmark hlong hletters =>
    refine ⟨fun _ h => ?_, fun _ => rfl⟩
    cases cs with
    | nil => cases h
    | cons c cs =>
      cases h
      cases cs with
      | nil => exact hne rfl
      | cons d cs => exact hletters d cs rfl

/-! ## The option -/

theorem switch?_sla (c : Inquiry) : switch? (some c.verb) "sla" = some .identifier := by
  cases c <;> decide

/-- The option takes the next word if that looks like a value. -/
theorem scan_detached (c : Inquiry) (value : String) :
    scan (some c.verb) [] ["--sla", value] =
      if wordKind value = .plain then .ok ([(.identifier, value)], []) else .error .misuse := by
  have hword : wordKind "--sla" = .long "sla" none := by decide
  rw [scan, hword]
  simp only [switch?_sla, Switch.takesValue, if_true]
  by_cases h : wordKind value = .plain
  · rw [if_pos h, if_pos h]
    rfl
  · rw [if_neg h, if_neg h]

/-- The option takes what stands behind an equals sign. -/
theorem scan_joined (c : Inquiry) (value : String) :
    scan (some c.verb) [] ["--sla=" ++ value] = .ok ([(.identifier, value)], []) := by
  have hword : wordKind ("--sla=" ++ value) = .long "sla" (some value) := by
    simp [wordKind, WordKind.ofChars, valueOf?]
  rw [scan, hword]
  simp only [switch?_sla, Switch.takesValue, if_true]
  rfl

/-! ## The request -/

/-- The words behind the command decide what is asked for. -/
theorem ofWords_verb (c : Inquiry) (words : List String) :
    Request.ofWords (c.verb.name :: words) =
      (scan (some c.verb) [] words >>= fun p =>
        (Command.ofGiven? p.1 c.verb).elim (.error .misuse) fun command =>
          .ok (.ofGiven [] p.1 command)) := by
  have hplain : wordKind c.verb.name = .plain := by cases c <;> decide
  have hscan : scan none [] (c.verb.name :: words) = .ok ([], c.verb.name :: words) := by
    rw [scan, hplain]
    rfl
  rw [Request.ofWords, hscan]
  dsimp only [bind, Except.bind]
  split
  · next h =>
    rw [Verb.ofName?_name] at h
    cases h
  · next verb h =>
    rw [Verb.ofName?_name] at h
    cases h
    rcases scan (some c.verb) [] words with e | ⟨behind, rest⟩
    · rfl
    · dsimp only
      cases Command.ofGiven? behind c.verb with
      | none => rfl
      | some command => rfl

theorem ofGiven?_identifier (c : Inquiry) (value : String) :
    Command.ofGiven? [(.identifier, value)] c.verb = some (.errand (c.errand value)) := by
  cases c <;> rfl

theorem ofWords_of_scan {c : Inquiry} {words : List String} {value : String}
    (h : scan (some c.verb) [] words = .ok ([(.identifier, value)], [])) :
    Request.ofWords (c.verb.name :: words) = .ok (c.request value) := by
  rw [ofWords_verb, h]
  show (Command.ofGiven? [(Switch.identifier, value)] c.verb).elim _ _ = _
  rw [ofGiven?_identifier]
  rfl

/-- Behind an equals sign every identifier is taken. -/
theorem ofWords_joined (c : Inquiry) (id : Identifier) :
    Request.ofWords [c.verb.name, "--sla=" ++ id.text] = .ok (c.request id.text) :=
  ofWords_of_scan (scan_joined c id.text)

theorem ofWords_detached (c : Inquiry) (id : Identifier) :
    Request.ofWords [c.verb.name, "--sla", id.text] =
      if id.text.toList.head? = some '-' then .error .misuse else .ok (c.request id.text) := by
  by_cases h : id.text.toList.head? = some '-'
  · have hkind : wordKind id.text ≠ .plain := fun hp => (wordKind_text id).mp hp h
    rw [if_pos h, ofWords_verb, scan_detached, if_neg hkind]
    rfl
  · have hkind : wordKind id.text = .plain := (wordKind_text id).mpr h
    have hscan := scan_detached c id.text
    rw [if_pos hkind] at hscan
    rw [if_neg h, ofWords_of_scan hscan]

/-- A command about one agreement is refused as no request, with nothing done, if the identifier
that is the next word behind the option begins with a hyphen. Otherwise it is what is asked for,
with a text that names that very identifier. -/
theorem answer_detached {σ : Type} (c : Inquiry) (id : Identifier) (home : Path)
    (runner : (poll : Nat) → Runner σ) (site : Site σ) :
    (id.text.toList.head? = some '-' →
      answer [c.verb.name, "--sla", id.text] home runner site = (Stop.misuse.outcome, site)) ∧
    (id.text.toList.head? ≠ some '-' →
      Request.ofWords [c.verb.name, "--sla", id.text] = .ok (c.request id.text) ∧
      answer [c.verb.name, "--sla", id.text] home runner site =
        (c.request id.text).outcome home runner site ∧
      Work.identifier id.text site = (.ok id, site)) := by
  have hwords := ofWords_detached c id
  constructor
  · intro h
    rw [if_pos h] at hwords
    simp only [answer, hwords]
  · intro h
    rw [if_neg h] at hwords
    refine ⟨hwords, by simp only [answer, hwords], ?_⟩
    simp only [Work.identifier, Identifier.parse_text]
    rfl

/-- An agreement may be published under an identifier that none of the commands takes as a word of
its own. -/
theorem hyphen_refused :
    let a : Agreement := ⟨"v73.ts", .phashMerkle, "C1"⟩
    a.identifier.text = "-QxVqAdqzs5ON623YoT6-XU-L_rt9lTJ08H_OEOlZzQ=" ∧
      Request.ofWords ["mine", "--sla", a.identifier.text] = .error .misuse ∧
      Request.ofWords ["verify", "--sla", a.identifier.text] = .error .misuse ∧
      Request.ofWords ["show-agreement", "--sla", a.identifier.text] = .error .misuse ∧
      Request.ofWords ["show-proof", "--sla", a.identifier.text] = .error .misuse := by
  intro a
  have htext : a.identifier.text = "-QxVqAdqzs5ON623YoT6-XU-L_rt9lTJ08H_OEOlZzQ=" := by
    decide +kernel
  have hhyphen : a.identifier.text.toList.head? = some '-' := by
    rw [htext]
    decide
  have hrefused := fun c => (ofWords_detached c a.identifier).trans (if_pos hhyphen)
  exact ⟨htext, hrefused .mine, hrefused .verify, hrefused .showAgreement, hrefused .showProof⟩

end StorageProof.CommandLine
