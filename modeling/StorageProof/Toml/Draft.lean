import StorageProof.Toml.Value

/-!
# Tables in the making

A table comes about in one of three ways: by a header or braces of its own, as a step on the way to another
header, or as a step of a dotted key. The way decides who may add to it: a dotted key only to what dotted keys
have made, a header to what lay on the way to other headers, and nobody to what has been finished.
-/

namespace StorageProof.Toml

inductive Origin
  | header
  | passed
  | dotted
  deriving DecidableEq, Repr

/-- A value, a table or an array of tables, the last of which is in the making. -/
inductive Draft
  | value (v : Value)
  | table (origin : Origin) (members : List (String × Draft))
  | tables (rows : List (List (String × Draft)))

/-- The members of a table in the making. -/
abbrev Members := List (String × Draft)

namespace Draft

mutual

def toValue : Draft → Value
  | value v => v
  | table _ members => .table (valuesOf members)
  | tables rows => .array (tablesOf rows)

def valuesOf : List (String × Draft) → List (String × Value)
  | [] => []
  | (key, draft) :: rest => (key, toValue draft) :: valuesOf rest

def tablesOf : List (List (String × Draft)) → List Value
  | [] => []
  | members :: rest => .table (valuesOf members) :: tablesOf rest

end

end Draft

namespace Members

/-- The members with another draft under a key that they have. -/
def replace (ms : Members) (key : String) (d : Draft) : Members :=
  ms.map fun m => if m.1 = key then (key, d) else m

def without (ms : Members) (key : String) : Members := ms.filter (·.1 ≠ key)

/-- Changes the table that a path leads to, starting from members of the given origin. Tables that are missing
are made on the way, by a dotted key or in passing; in an array of tables the way leads through the last. -/
def changeAt {α : Type} (dotted : Bool) (f : Origin → Members → Option (Members × α)) :
    List String → Origin → Members → Option (Members × α)
  | [], origin, ms => f origin ms
  | key :: path, _, ms =>
    match ms.lookup key with
    | none => do
      let origin := if dotted then Origin.dotted else Origin.passed
      let (inner, a) ← changeAt dotted f path origin []
      some (ms ++ [(key, .table origin inner)], a)
    | some (.value _) => none
    | some (.table origin inner) =>
      if dotted ∧ origin = .header then none
      else do
        let (inner, a) ← changeAt dotted f path origin inner
        some (ms.replace key (.table origin inner), a)
    | some (.tables rows) =>
      match rows.getLast? with
      | none => none
      | some row => do
        let (row, a) ← changeAt dotted f path .header row
        some (ms.replace key (.tables (rows.dropLast ++ [row])), a)

/-- Adds a value under a key whose steps are given apart from its last part. Only a key without steps may add
to a table that dotted keys have not made. -/
def insert (ms : Members) (path : List String) (key : String) (v : Value) : Option Members :=
  (changeAt true (fun origin inner =>
    if (origin = .dotted ↔ path.isEmpty) ∨ (inner.lookup key).isSome then none
    else some (inner ++ [(key, .value v)], ())) path .header ms).map (·.1)

end Members

/-- A document in the making: what has been closed, and the table that is being filled, with its path. No path
stands for the document itself, before the first header. -/
structure Outline where
  closed : Members := []
  path : List String := []
  isRow : Bool := false
  current : Members := []

namespace Outline

def parentPath (path : List String) : List String := path.dropLast

def lastKey (path : List String) : String := path.getLastD ""

/-- The members with the current table put in its place. -/
def close (o : Outline) : Option Members :=
  if o.path.isEmpty then some o.current
  else
    let key := lastKey o.path
    (Members.changeAt false (fun _ ms =>
      if o.isRow then
        match ms.lookup key with
        | none => some (ms ++ [(key, .tables [o.current])], ())
        | some (.tables rows) => some (ms.replace key (.tables (rows ++ [o.current])), ())
        | some _ => none
      else some (ms ++ [(key, .table .header o.current)], ())) (parentPath o.path) .header o.closed).map
        (·.1)

/-- Goes on to a table with a header of its own. What headers have passed through on their way is taken up
again; any other table that has the path already is finished. -/
def openTable (o : Outline) (path : List String) : Option Outline := do
  let ms ← o.close
  let key := lastKey path
  let (closed, current) ← Members.changeAt false (fun _ ms =>
    match ms.lookup key with
    | none => some (ms, [])
    | some (.table .passed inner) => some (ms.without key, inner)
    | some _ => none) (parentPath path) .header ms
  some ⟨closed, path, false, current⟩

/-- Goes on to a further table of an array of tables. -/
def openRow (o : Outline) (path : List String) : Option Outline := do
  let ms ← o.close
  let key := lastKey path
  let (closed, _) ← Members.changeAt false (fun _ ms =>
    match ms.lookup key with
    | none => some (ms ++ [(key, .tables [])], ())
    | some (.tables _) => some (ms, ())
    | some _ => none) (parentPath path) .header ms
  some ⟨closed, path, true, []⟩

/-- Adds a value to the current table. -/
def insert (o : Outline) (key : List String) (v : Value) : Option Outline :=
  (o.current.insert key.dropLast (lastKey key) v).map ({ o with current := · })

end Outline

end StorageProof.Toml
