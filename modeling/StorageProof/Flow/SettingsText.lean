import StorageProof.Files.FileSystem
import StorageProof.Flow.Settings
import StorageProof.Toml.Document

/-!
# Settings as text

Settings are written as a TOML table with nine keys, one of which holds the names of the tools. What is not
written has its default. The first key, in the order of the document, that is unknown or has a value of the
wrong kind is what a failure speaks of.
-/

namespace StorageProof

inductive SettingsFault
  | malformed
  | wrongKind (found expected : String)
  | outOfRange (value : Int) (expected : String)
  | unknownKey (key : String) (known : List String)
  deriving DecidableEq, Repr

namespace SettingsFault

/-- What follows the last line feed of a text. -/
def lastLine (text : String) : String :=
  String.ofList (text.toList.reverse.takeWhile (· ≠ '\n')).reverse

/-- The wording of a fault. Only the last line of it is kept, and it ends its line. -/
def message : SettingsFault → String
  | malformed => "toml syntax"
  | wrongKind found expected => lastLine s!"invalid type: {found}, expected {expected}" ++ "\n"
  | outOfRange value expected =>
    "invalid value: integer " ++ Text.ticked (toString value) ++ s!", expected {expected}\n"
  | unknownKey key known =>
    lastLine s!"unknown field {Text.ticked key}, expected one of {alternatives known}" ++ "\n"

/-- The failure for a text, or for a file with that text. -/
def failure (source : Option Path) (fault : SettingsFault) : Failure :=
  match source with
  | none => .config fault.message
  | some p => .config s!"{p.text}: {fault.message}"

end SettingsFault

namespace Toml.Value

def asText (expected : String) : Value → Except SettingsFault String
  | text value => .ok value
  | v => .error (.wrongKind v.describe expected)

def asPath (v : Value) : Except SettingsFault Path := (v.asText "path string").map (⟨·⟩)

def asName (v : Value) : Except SettingsFault String := v.asText "a string"

/-- An integer of at least zero and below a bound. -/
def asNatural (bound : Nat) (expected : String) : Value → Except SettingsFault Nat
  | integer n => if 0 ≤ n ∧ n < bound then .ok n.toNat else .error (.outOfRange n expected)
  | v => .error (.wrongKind v.describe expected)

/-- An integer of thirty-two bits. -/
def asWord (v : Value) : Except SettingsFault UInt32 := (v.asNatural UInt32.size "u32").map (·.toUInt32)

/-- An integer of sixty-four bits. -/
def asLongWord (v : Value) : Except SettingsFault UInt64 := (v.asNatural UInt64.size "u64").map (·.toUInt64)

end Toml.Value

namespace Tools

def keys : List String := ["extract_frame", "phash", "zkp", "ledger"]

/-- The names with one of them written. -/
def assign (t : Tools) (member : String × Toml.Value) : Except SettingsFault Tools :=
  let (key, v) := member
  match key with
  | "extract_frame" => return { t with extractFrame := ← v.asName }
  | "phash" => return { t with phash := ← v.asName }
  | "zkp" => return { t with zkp := ← v.asName }
  | "ledger" => return { t with ledger := ← v.asName }
  | key => .error (.unknownKey key keys)

/-- The key under which a moment keeps its text. -/
def momentKey : String := "$__toml_private_datetime"

/-- The names that a value holds: a table, or an array that lists the names in order and may be too short or
too long. -/
def ofValue : Toml.Value → Except SettingsFault Tools
  | .table members => members.foldlM assign {}
  | .array values => (keys.zip values).foldlM assign {}
  | .moment => .error (.unknownKey momentKey keys)
  | v => .error (.wrongKind v.describe "struct ToolsConfig")

end Tools

namespace Settings

def keys : List String :=
  ["work_dir", "bin_dir", "signer", "reward", "frame_offset", "frame_count", "crs_file",
    "poll_interval_ms", "tools"]

/-- The settings with one of them written. -/
def assign (s : Settings) (member : String × Toml.Value) : Except SettingsFault Settings :=
  let (key, v) := member
  match key with
  | "work_dir" => return { s with workDir := ← v.asPath }
  | "bin_dir" => return { s with toolDir := some (← v.asPath) }
  | "signer" => return { s with signer := ← v.asName }
  | "reward" => return { s with reward := ← v.asName }
  | "frame_offset" => return { s with frameOffset := ← v.asWord }
  | "frame_count" => return { s with frameCount := ← v.asWord }
  | "crs_file" => return { s with parameterFile := some (← v.asPath) }
  | "poll_interval_ms" => return { s with pollMillis := ← v.asLongWord }
  | "tools" => return { s with tools := ← Tools.ofValue v }
  | key => .error (.unknownKey key keys)

def ofTable (home : Path) (members : List (String × Toml.Value)) : Except SettingsFault Settings :=
  members.foldlM assign (ofHome home)

def parse (home : Path) (text : String) : Except SettingsFault Settings :=
  match Toml.parse? text with
  | some members => ofTable home members
  | none => .error .malformed

def readText (p : Path) (fs : FileSystem) : Except Failure String :=
  let context := s!"read config {p.text}"
  match fs.read p with
  | .error e => .error (.io context e)
  | .ok bytes =>
    match Utf8.toString? bytes with
    | some text => .ok text
    | none => .error (.io context (.words "stream did not contain valid UTF-8"))

def load (home p : Path) (fs : FileSystem) : Except Failure Settings := do
  let text ← readText p fs
  match parse home text with
  | .ok s => return s
  | .error fault => .error (fault.failure (some p))

end Settings

end StorageProof
