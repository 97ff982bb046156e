import StorageProof.Base64.Lemmas
import StorageProof.Failure
import StorageProof.Json.Record
import StorageProof.Json.Value
import StorageProof.Sha256
import StorageProof.Text.Blank

/-!
# Identifiers

An agreement is known by the SHA-256 digest of its canonical text, in padded Base64 that is safe in a
locator. Two identifiers are equal if and only if their texts are, and a text is an identifier if and only
if it stands for thirty-two bytes.
-/

namespace StorageProof

/-- The bytes of an identifier's text, if they are as many as a digest has. -/
def digestOfText? (text : String) : Option Bytes :=
  (Base64.decode? Base64.urlSafe text).filter fun s => s.length == 32

structure Identifier where
  text : String
  isSome_digest : (digestOfText? text).isSome

namespace Identifier

instance : DecidableEq Identifier := fun a b =>
  if h : a.text = b.text then .isTrue (by cases a; cases b; simp_all)
  else .isFalse (by intro e; exact h (congrArg text e))

@[ext] theorem ext {a b : Identifier} (h : a.text = b.text) : a = b := by
  cases a; cases b; simp_all

def digest (id : Identifier) : Bytes := (digestOfText? id.text).get id.isSome_digest

def textOfDigest (digest : Bytes) : String :=
  String.ofList (Base64.encode Base64.urlSafe digest)

theorem digestOfText?_textOfDigest {digest : Bytes} (h : digest.length = 32) :
    digestOfText? (textOfDigest digest) = some digest := by
  simp [digestOfText?, textOfDigest, Base64.decode?, Utf8.ofString,
    Base64.decode_encode Base64.urlSafe_lawful, Except.toOption, h]

/-- The identifier of the agreement with the given canonical bytes. -/
def derive (canonical : Bytes) : Identifier where
  text := textOfDigest (Sha256.digest canonical)
  isSome_digest := by rw [digestOfText?_textOfDigest (Sha256.length_digest canonical)]; rfl

/-- The identifier that a text names, but for blanks around it. -/
def parse (s : String) : Except Failure Identifier :=
  let text := Text.trim s
  if h : (digestOfText? text).isSome then .ok ⟨text, h⟩ else .error (.invalidIdentifier text)

/-- A text that must be an identifier. -/
def field : Json.Field where
  key := ""
  refusal? s := match parse s with
    | .ok _ => none
    | .error e => some e.message

def ofJson (s : Bytes) : Except Json.Fault Identifier := do
  let text ← field.readDocument s
  match parse text with
  | .ok id => return id
  | .error e => .error (.refused e.message)

def toJson (id : Identifier) : Json.Value := .text id.text

/-- The order of identifiers, which is the order of their texts. -/
def compareText (a b : Identifier) : Ordering := compare a.text b.text

end Identifier

end StorageProof
