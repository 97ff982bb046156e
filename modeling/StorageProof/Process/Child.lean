import StorageProof.Process.Timeline
import StorageProof.Shell.Evaluation

/-!
# Child processes

What happens when a program is started: where it is looked for, why it may not start, and what it does. A program
is the shell, a utility, or a file that is marked as a program and holds a script.
-/

namespace StorageProof

inductive Program
  | shell
  | utility (run : List Shell.Text → Shell.Act Nat)
  | script (text : Shell.Text)

namespace Program

/-- The program that stands in a file. -/
def ofEntry : Entry → Except SystemError Program
  | .directory => .error .accessDenied
  | .file bytes executable _ =>
    if !executable then .error .accessDenied
    else if "#!".toList.isPrefixOf (Shell.Text.ofBytes bytes) then
      match Shell.Act.scriptOf? bytes with
      | some text => .ok (.script text)
      | none => .error .notFound
    else .error .notAProgram

/-- The program with a name: a bare one is looked up among the utilities, and any other is a path. -/
def find (fs : FileSystem) (p : Path) : Except SystemError Program :=
  let utility? := match Shell.Utility.nameOfPath? p.text with
    | some name => Shell.Utility.find? name
    | none => if p.text.contains '/' then none else Shell.Utility.find? p.text
  if Shell.Act.isShell p.text then .ok .shell
  else match utility? with
    | some run => .ok (.utility run)
    | none =>
      if p.text.contains '/' then do ofEntry (← fs.inspect p)
      else .error .notFound

/-- The largest number of bytes of an argument. -/
def maxArgument : Nat := 131071

/-- The program of a call, or why it does not start. -/
def ofCall (fs : FileSystem) (call : Call) : Except SystemError Program :=
  let texts := call.program.text :: call.args
  if texts.any fun t => t.contains '\x00' then .error (.words "nul byte found in provided data")
  else do
    let program ← find fs call.program
    if call.args.any fun t => maxArgument < t.utf8ByteSize then .error (.number 7)
    else return program

end Program

/-- A child that has been followed up to its end, or up to a deadline. -/
structure Child where
  machine : Shell.Machine
  ending : Option Exit

namespace Child

/-- How many steps a child may take before it is taken to go on for ever. -/
def patience : Nat := 5000

def act (program : Program) (call : Call) : Shell.Act Unit := do
  let name := Shell.Text.ofString call.program.text
  let args := call.args.map Shell.Text.ofString
  match program with
  | .utility run => Shell.Act.setStatus (← run args)
  | .script text =>
    modify fun m => { m with name, words := args }
    Shell.runToEnd patience { rest := text }
  | .shell =>
    match ← Shell.Startup.ofArguments name false args with
    | .ok startup =>
      modify fun m => { m with name := startup.name, words := startup.words, strict := startup.strict }
      Shell.runToEnd patience { rest := startup.script }
    | .error reason =>
      Shell.Act.report s!"{call.program.text}: 0: {reason}"
      Shell.Act.setStatus 2

/-- The variables that every child is given. -/
def environment (home : Path) : List (Shell.Text × Shell.Text) :=
  [("HOME".toList, Shell.Text.ofString home.text), ("PATH".toList, "/usr/bin:/bin".toList)]

/-- Follows a child, up to a deadline if there is one. -/
def follow (home : Path) (fs : FileSystem) (program : Program) (call : Call) (deadline : Option Nat) :
    Child :=
  let store := environment home
  let start : Shell.Machine := { files := fs, deadline, store, exported := store.map (·.1) }
  let (result, machine) := act program call start
  let ending : Option Exit := match result with
    | .error .stopped | .error .endless => none
    | .error (.killed _) => some .signal
    | _ => some (.code (machine.status % 256 : Nat))
  ⟨machine, ending⟩

def timeline (c : Child) : Timeline :=
  let m := c.machine
  { ending := c.ending.map (m.now, ·)
    stdout := Shell.Text.toBytes (m.written 0)
    stderr := Shell.Text.toBytes (m.written 1)
    stdoutClosed := c.ending.bind fun _ => m.heldUntil 0 m.now
    stderrClosed := c.ending.bind fun _ => m.heldUntil 1 m.now }

/-- Whether everything that a child has started is over by a time. -/
def isOver (c : Child) (time : Nat) : Bool :=
  c.ending.isSome && decide (c.machine.now ≤ time) &&
    c.machine.jobs.all fun job => job.finish.any fun finish => decide (finish ≤ time)

end Child

end StorageProof
