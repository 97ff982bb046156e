import StorageProof.CommandLine.Vocabulary

/-!
# Requests

What the words of a command line ask for. Options may stand before the command or behind it, with their value behind
an equals sign or as the next word; a value that is a word of its own does not begin with a hyphen, unless it is
nothing else. No option is given twice in the same place. A shared option that is given in both places counts as it
is given behind the command.
-/

namespace StorageProof.CommandLine

/-- Why the words of a command line are not a request. -/
inductive Stop
  | misuse
  | help
  | version
  deriving DecidableEq, Repr

/-- The options given in one place, the last one first. -/
abbrev Given := List (Switch × String)

def Given.add (given : Given) (s : Switch) (value : String) : Except Stop Given :=
  if (given.lookup s).isSome ∨ (s.namesPath ∧ value = "") then .error .misuse
  else .ok ((s, value) :: given)

/-- Why a name that is not that of an option ends the reading. -/
def stopOf (place : Option Verb) (name : String) (value : Option String) : Stop :=
  if value.isSome then .misuse
  else if name = "help" then .help
  else if name = "version" ∧ place = none then .version
  else .misuse

/-- Why letters behind a single hyphen end the reading. -/
def stopOfLetter (place : Option Verb) (first : Char) : Stop :=
  if first = 'h' then .help
  else if first = 'V' ∧ place = none then .version
  else .misuse

/-- Reads options up to the command, or up to the end if the command has been read. -/
def scan (place : Option Verb) (given : Given) : List String → Except Stop (Given × List String)
  | [] => .ok (given, [])
  | word :: rest =>
    match wordKind word with
    | .plain => if place = none then .ok (given, word :: rest) else .error .misuse
    | .mark => if rest = [] then .ok (given, []) else .error .misuse
    | .letters first => .error (stopOfLetter place first)
    | .long name value =>
      match switch? place name, value, rest with
      | none, value, _ => .error (stopOf place name value)
      | some s, some value, rest =>
        if s.takesValue then do scan place (← given.add s value) rest else .error .misuse
      | some s, none, [] =>
        if s.takesValue then .error .misuse else do return (← given.add s "", [])
      | some s, none, next :: rest =>
        if s.takesValue then
          if wordKind next = .plain then do scan place (← given.add s next) rest else .error .misuse
        else do scan place (← given.add s "") (next :: rest)

/-- The commands that need settings, each with what it is about. -/
inductive Errand
  | publish (source target : String)
  | mine (id : String)
  | verify (id : String)
  | setup (force : Bool)
  | showAgreement (id : String)
  | showProof (id : String)
  deriving DecidableEq, Repr

inductive Command
  | errand (e : Errand)
  | identify (file : Path)
  deriving DecidableEq, Repr

/-- The command with options of its own, unless one that is required is missing. -/
def Command.ofGiven? (given : Given) : Verb → Option Command
  | .publish => do return .errand (.publish (← given.lookup .source) (← given.lookup .target))
  | .mine => do return .errand (.mine (← given.lookup .identifier))
  | .verify => do return .errand (.verify (← given.lookup .identifier))
  | .setup => some (.errand (.setup (given.lookup .force).isSome))
  | .showAgreement => do return .errand (.showAgreement (← given.lookup .identifier))
  | .showProof => do return .errand (.showProof (← given.lookup .identifier))
  | .identify => do return .identify ⟨← given.lookup .agreement⟩

/-- What the program is asked for: a command, a file of settings, and what replaces settings. -/
structure Request where
  settings : Option Path := none
  workDir : Option Path := none
  toolDir : Option Path := none
  signer : Option String := none
  command : Command
  deriving DecidableEq, Repr

namespace Request

/-- The request for a command with options given before and behind it. -/
def ofGiven (before behind : Given) (command : Command) : Request :=
  let value (s : Switch) : Option String := (behind.lookup s).or (before.lookup s)
  { settings := (value .settings).map Path.mk
    workDir := (value .workDir).map Path.mk
    toolDir := (value .toolDir).map Path.mk
    signer := value .signer
    command }

def ofWords (words : List String) : Except Stop Request := do
  match ← scan none [] words with
  | (_, []) => .error .misuse
  | (before, name :: rest) =>
    match Verb.ofName? name with
    | none => .error .misuse
    | some verb =>
      let (behind, _) ← scan (some verb) [] rest
      match Command.ofGiven? behind verb with
      | none => .error .misuse
      | some command => return ofGiven before behind command

end Request

end StorageProof.CommandLine
