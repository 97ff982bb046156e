import StorageProof.Files.Path

/-!
# The words of the command line

The program knows seven commands, four options that every command shares, and the options that a command has of its
own. An option is written with two hyphens before its name, and all but one of them take a value.
-/

namespace StorageProof.CommandLine

inductive Switch
  | settings
  | workDir
  | toolDir
  | signer
  | source
  | target
  | identifier
  | agreement
  | force
  deriving DecidableEq, Repr

namespace Switch

def name : Switch → String
  | settings => "config"
  | workDir => "work"
  | toolDir => "bin-dir"
  | signer => "from"
  | source => "input"
  | target => "output"
  | identifier => "sla"
  | agreement => "agreement"
  | force => "force"

/-- The options that every command shares. -/
def shared : List Switch := [settings, workDir, toolDir, signer]

def takesValue : Switch → Bool
  | force => false
  | _ => true

/-- Whether the value of an option is a path. A path is never empty. -/
def namesPath : Switch → Bool
  | settings | workDir | toolDir | agreement => true
  | _ => false

end Switch

inductive Verb
  | publish
  | mine
  | verify
  | setup
  | showAgreement
  | showProof
  | identify
  deriving DecidableEq, Repr

namespace Verb

def all : List Verb := [publish, mine, verify, setup, showAgreement, showProof, identify]

def name : Verb → String
  | publish => "publish"
  | mine => "mine"
  | verify => "verify"
  | setup => "setup"
  | showAgreement => "show-agreement"
  | showProof => "show-proof"
  | identify => "identify"

def ofName? (s : String) : Option Verb := all.find? (·.name == s)

@[simp] theorem ofName?_name (v : Verb) : ofName? v.name = some v := by cases v <;> decide

/-- The options that a command has of its own. Those of them that take a value are required. -/
def own : Verb → List Switch
  | publish => [.source, .target]
  | mine | verify | showAgreement | showProof => [.identifier]
  | setup => [.force]
  | identify => [.agreement]

end Verb

/-- The options that are known before any command, or behind one. -/
def known : Option Verb → List Switch
  | none => Switch.shared
  | some v => v.own ++ Switch.shared

/-- The option with a name, where it is known. -/
def switch? (place : Option Verb) (name : String) : Option Switch := (known place).find? (·.name == name)

inductive WordKind
  /-- A name or a value; a single hyphen is one too. -/
  | plain
  /-- The mark behind which there are no options any more. -/
  | mark
  /-- Letters behind a single hyphen. -/
  | letters (first : Char)
  /-- A name behind two hyphens, perhaps with an equals sign and a value behind it. -/
  | long (name : String) (value : Option String)
  deriving DecidableEq, Repr

/-- What follows the first equals sign of a text, if there is one. -/
def valueOf? (cs : List Char) : Option String :=
  match cs.dropWhile (· ≠ '=') with
  | [] => none
  | _ :: value => some (String.ofList value)

/-- What a word is by its looks. -/
def WordKind.ofChars : List Char → WordKind
  | ['-', '-'] => .mark
  | '-' :: '-' :: rest => .long (String.ofList (rest.takeWhile (· ≠ '='))) (valueOf? rest)
  | '-' :: first :: _ => .letters first
  | _ => .plain

def wordKind (word : String) : WordKind := WordKind.ofChars word.toList

end StorageProof.CommandLine
