import StorageProof.Failure
import StorageProof.Hex
import StorageProof.Json.Record
import StorageProof.Json.Value

/-!
# Merkle public inputs

The statement that is proven beside a proof of storage: a challenged leaf, the root of the tree and the
path between them, each in hexadecimal.
-/

namespace StorageProof

structure PublicInput where
  leaf : String
  root : String
  path : String
  deriving DecidableEq, Repr

namespace PublicInput

/-- How public inputs are written. Each field has a capitalised alias. -/
def shape : Json.Shape where
  name := "ZkPublicInput"
  fields := [
    { key := "leaf", aliases := ["Leaf"] },
    { key := "root", aliases := ["Root"] },
    { key := "auth_path", aliases := ["Path"] }]

/-- The fields with their names, in order. -/
def members (p : PublicInput) : List (String × String) :=
  [("leaf", p.leaf), ("root", p.root), ("auth_path", p.path)]

/-- Refuses the first field that is not hexadecimal. -/
def checkHex : List (String × String) → Except Failure Unit
  | [] => .ok ()
  | (name, text) :: rest =>
    match Hex.decode (Utf8.ofString text) with
    | .error fault => .error (.malformedPublicInput s!"{name}: {fault.message}")
    | .ok _ => checkHex rest

def ofTexts : List String → PublicInput
  | [leaf, root, path] => ⟨leaf, root, path⟩
  | _ => ⟨"", "", ""⟩

/-- Reads a public input. The document is read as a whole before its fields are checked. -/
def parse (s : Bytes) : Except Failure PublicInput :=
  match shape.read s with
  | .error fault => .error (.malformedPublicInput fault.message)
  | .ok texts =>
    let p := ofTexts texts
    match checkHex p.members with
    | .error e => .error e
    | .ok () => .ok p

def toJson (p : PublicInput) : Json.Value := .object (p.members.map fun m => (m.1, .text m.2))

end PublicInput

end StorageProof
