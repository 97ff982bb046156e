import StorageProof.Files.FileSystem
import StorageProof.Shell.Syntax

/-!
# The machine that scripts run on

The state of a running script: files, a clock, open descriptors, variables, and a log of everything that has been
written and when. Only waiting takes time. A machine may have a deadline, at which whatever would wait longer
stops where it is.
-/

namespace StorageProof.Shell

inductive Stream
  /-- Something that keeps what is written to it. -/
  | sink (number : Nat)
  /-- A text to be read. -/
  | source (number : Nat)
  /-- A file that is read from its beginning or written at its end. -/
  | file (place : Location)
  /-- Nothing to read, and a place for what nobody wants. -/
  | nothing
  /-- Zero bytes without end. -/
  | zeros
  deriving DecidableEq, Repr

structure Written where
  time : Nat
  sink : Nat
  text : Text
  deriving DecidableEq, Repr

/-- Something in the background: its number, and when it ends, if it ends. -/
structure Job where
  number : Nat
  finish : Option Nat
  status : Nat
  deriving DecidableEq, Repr

/-- The state of a running script. -/
structure Machine where
  files : FileSystem
  now : Nat := 0
  deadline : Option Nat := none
  /-- The newest first. -/
  log : List Written := []
  /-- How many sinks there are. -/
  sinks : Nat := 2
  /-- What is left of each source. -/
  sources : List Text := []
  /-- The sinks that are held open in the background, and until when, if there is an end. -/
  holds : List (Nat × Option Nat) := []
  jobs : List Job := []
  descriptors : List (Nat × Stream) := [(0, .nothing), (1, .sink 0), (2, .sink 1)]
  store : List (Text × Text) := []
  exported : List Text := []
  readOnly : List Text := []
  /-- The numbered parameters. -/
  words : List Text := []
  /-- The name that messages begin with. -/
  name : Text := []
  functions : List (Text × Command) := []
  status : Nat := 0
  line : Nat := 1
  number : Nat := 1000
  numbers : Nat := 1001
  /-- The directory that relative paths start from, itself relative. -/
  directory : String := ""
  /-- What is to be done at the end. -/
  atExit : Option Text := none
  /-- The signals that are ignored. -/
  ignored : List Nat := []
  /-- What is to be done at other signals. -/
  handlers : List (Nat × Text) := []
  /-- The signals that have come and for which something is to be done. -/
  pending : List Nat := []
  /-- The variables that a function has for itself, with their values outside it. -/
  locals : List (Text × Option Text) := []
  /-- How many loops are running. -/
  loops : Nat := 0
  /-- Whether a failure ends the script. -/
  strict : Bool := false
  /-- Whether a missing parameter ends the script. -/
  careful : Bool := false

/-- Why a script does not go on with its next command. -/
inductive Departure
  | leave (loops : Nat)
  | again (loops : Nat)
  | back
  | exit
  | killed (signal : Nat)
  /-- The deadline has come. -/
  | stopped
  /-- It goes on for ever. -/
  | endless
  deriving DecidableEq, Repr

/-- Something that a script does. -/
abbrev Act (α : Type) := ExceptT Departure (StateM Machine) α

namespace Act

def depart {α : Type} (d : Departure) : Act α := fun m => (.error d, m)

/-- The result or the departure of something. -/
def attempt {α : Type} (a : Act α) : Act (Except Departure α) := fun m =>
  let (result, m) := a m
  (.ok result, m)

def setStatus (n : Nat) : Act Unit := modify fun m => { m with status := n }

/-- Lets time pass, in milliseconds, up to the deadline. -/
def pass (duration : Nat) : Act Unit := do
  let m ← get
  match m.deadline with
  | some deadline =>
    if deadline < m.now + duration then
      set { m with now := deadline }
      depart .stopped
    else set { m with now := m.now + duration }
  | none => set { m with now := m.now + duration }

/-- Lets time pass until an instant, which may never come. -/
def passUntil : Option Nat → Act Unit
  | some instant => do pass (instant - (← get).now)
  | none => do
    match (← get).deadline with
    | some deadline =>
      modify fun m => { m with now := deadline }
      depart .stopped
    | none => depart .endless

/-- What a descriptor leads to. -/
def stream? (descriptor : Nat) : Act (Option Stream) := do return (← get).descriptors.lookup descriptor

def writeTo (s : Stream) (t : Text) : Act Unit := modify fun m =>
  match s with
  | .sink n => if t.isEmpty then m else { m with log := ⟨m.now, n, t⟩ :: m.log }
  | .file place =>
    match m.files.entryAt? place with
    | some (.file bytes executable holder) =>
      { m with files := m.files.put place (.file (bytes ++ Text.toBytes t) executable holder) }
    | _ => m
  | _ => m

def write (descriptor : Nat) (t : Text) : Act Unit := do
  match ← stream? descriptor with
  | some s => writeTo s t
  | none => return ()

def print (t : Text) : Act Unit := write 1 t

/-- Writes a line to standard error. -/
def report (message : String) : Act Unit := write 2 (Text.ofString message ++ ['\n'])

/-- Writes a line of the shell itself to standard error: name, line, complaint. -/
def complain (message : String) : Act Unit := do
  let m ← get
  report s!"{Text.toString m.name}: {m.line}: {message}"

/-- Complains, and departs if the shell is not at a prompt, which it never is. -/
def refuse {α : Type} (message : String) : Act α := do
  complain message
  setStatus 2
  depart .exit

end Act

/-- The text that has been written to a sink, in the order of time. -/
def Machine.written (m : Machine) (sink : Nat) : Text :=
  ((m.log.reverse.filter (·.sink = sink)).mergeSort fun a b => decide (a.time ≤ b.time)).flatMap (·.text)

/-- When the last holder of a sink lets it go, if ever; nothing is earlier than `from'`. -/
def Machine.heldUntil (m : Machine) (sink : Nat) (from' : Nat) : Option Nat :=
  (m.holds.filter (·.1 = sink)).foldl (fun latest (_, finish) =>
    match latest, finish with
    | some a, some b => some (max a b)
    | _, _ => none) (some from')

def Machine.valueOf? (m : Machine) (name : Text) : Option Text := m.store.lookup name

def Machine.assign (m : Machine) (name value : Text) : Machine :=
  { m with store := (name, value) :: m.store.filter (·.1 ≠ name) }

/-- Puts a variable back to a value, or takes it away. -/
def Machine.restore (m : Machine) (name : Text) : Option Text → Machine
  | some value => m.assign name value
  | none => { m with store := m.store.filter (·.1 ≠ name) }

/-- Whether the directories of the utilities are among those that programs are looked up in. -/
def Machine.findsUtilities (m : Machine) : Bool :=
  match m.valueOf? "PATH".toList with
  | some directories =>
    (Text.splitOnto (· == ':') [] directories).any fun d => d == "/bin".toList || d == "/usr/bin".toList
  | none => true

/-- The path that a text names. -/
def Machine.path (m : Machine) (t : Text) : Path :=
  let p : Path := ⟨Text.toString t⟩
  if p.isAbsolute ∨ m.directory = "" ∨ p.text = "" then p else (Path.mk m.directory).join p.text

/-- Opens a source with a text in it. -/
def Machine.openSource (m : Machine) (t : Text) : Stream × Machine :=
  (.source m.sources.length, { m with sources := m.sources ++ [t] })

inductive Content
  | text (t : Text)
  | zeros

namespace Act

/-- Takes everything there is to read from a stream. -/
def drain (s : Option Stream) : Act Content := do
  let m ← get
  match s with
  | some (.source n) =>
    set { m with sources := m.sources.set n [] }
    return .text (m.sources.getD n [])
  | some (.file place) =>
    match m.files.entryAt? place with
    | some (.file bytes _ _) => return .text (Text.ofBytes bytes)
    | _ => return .text []
  | some .zeros => return .zeros
  | _ => return .text []

/-- Takes everything there is to read from standard input. -/
def drainInput : Act Content := do drain (← stream? 0)

/-- Takes everything there is to read from the file with a name. -/
def readNamed (name : Text) : Act (Except SystemError Content) := do
  let m ← get
  match Text.toString name with
  | "-" | "/dev/stdin" => return .ok (← drainInput)
  | "/dev/null" => return .ok (.text [])
  | "/dev/zero" => return .ok .zeros
  | _ =>
    match m.files.read (m.path name) with
    | .ok bytes => return .ok (.text (Text.ofBytes bytes))
    | .error e => return .error e

/-- Changes the files; gives the error that the system answers with. -/
def change (f : FileSystem → Except SystemError FileSystem) : Act (Option SystemError) := do
  let m ← get
  match f m.files with
  | .ok files =>
    set { m with files }
    return none
  | .error e => return some e

end Act

end StorageProof.Shell
