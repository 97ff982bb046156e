import StorageProof.Shell.Arithmetic
import StorageProof.Shell.Condition
import StorageProof.Shell.Expansion
import StorageProof.Shell.Reader
import StorageProof.Shell.Utility

/-!
# Running scripts

A script runs line by line. What is run in a subshell or as a process of its own keeps what it does to the files,
the clock and the log, and nothing else. The recursion is bounded by a number of steps that only a script without
end can use up; such a script is taken to go on for ever.
-/

namespace StorageProof.Shell

namespace Act

/-- The machine after a process: its effects on the world, and otherwise the machine before it. -/
def rejoin (before after : Machine) : Machine :=
  { before with
    files := after.files, now := after.now, log := after.log, sinks := after.sinks
    sources := after.sources, holds := after.holds, numbers := after.numbers }

/-- Runs something in a subshell; gives the departure that ends more than the subshell. -/
def subshell (a : Act Unit) : Act Unit := do
  let before ← get
  let result ← attempt a
  let after ← get
  set { rejoin before after with status := after.status }
  match result with
  | .error (.killed n) => depart (.killed n)
  | .error .stopped => depart .stopped
  | .error .endless => depart .endless
  | _ => return ()

/-- Runs something with other descriptors and puts the old ones back. -/
def withDescriptors (f : List (Nat × Stream) → List (Nat × Stream)) (a : Act Unit) : Act Unit := do
  let before := (← get).descriptors
  modify fun m => { m with descriptors := f before }
  let result ← attempt a
  modify fun m => { m with descriptors := before }
  match result with
  | .ok () => return ()
  | .error d => depart d

/-- The descriptors with one of them leading elsewhere. -/
def redirectTo (descriptor : Nat) (s : Stream) (ds : List (Nat × Stream)) : List (Nat × Stream) :=
  (descriptor, s) :: ds.filter (·.1 ≠ descriptor)

/-- What is written to a new sink while something runs, until nobody holds the sink any longer. -/
def capture (a : Act Unit) : Act Text := do
  let sink := (← get).sinks
  modify fun m => { m with sinks := sink + 1 }
  withDescriptors (redirectTo 1 (.sink sink)) a
  let m ← get
  passUntil (m.heldUntil sink m.now)
  let m ← get
  set { m with log := m.log.filter (·.sink ≠ sink) }
  return m.written sink

/-- Runs the body of a loop once; tells whether the loop goes on. -/
def round (body : Act Unit) : Act Bool := do
  match ← attempt body with
  | .ok () => return true
  | .error (.leave (n + 2)) => depart (.leave (n + 1))
  | .error (.leave _) => return false
  | .error (.again (n + 2)) => depart (.again (n + 1))
  | .error (.again _) => return true
  | .error d => depart d

/-- Runs a body as long as a condition says so. -/
def loopWhile (condition : Act Bool) (body : Act Unit) : (fuel : Nat) → Act Unit
  | 0 => depart .endless
  | fuel + 1 => do
    if ← condition then
      if ← round body then loopWhile condition body fuel else return ()
    else return ()

/-- Runs a body once for each word. -/
def loopOver (begin : Text → Act Unit) (body : Act Unit) : List Text → Act Unit
  | [] => return ()
  | w :: rest => do
    begin w
    if ← round body then loopOver begin body rest else return ()

/-- Counts a loop while it runs. -/
def inLoop (a : Act Unit) : Act Unit := do
  modify fun m => { m with loops := m.loops + 1 }
  let result ← attempt a
  modify fun m => { m with loops := m.loops - 1 }
  match result with
  | .ok () => return ()
  | .error d => depart d

/-- Sets a variable that may be set. -/
def assign (name value : Text) : Act Unit := do
  if (← get).readOnly.contains name then refuse s!"{Text.toString name}: is read only"
  else modify fun m => m.assign name value

/-- The words for an error of opening a file. -/
def openingError (creating : Bool) (e : SystemError) : String :=
  if e = .notFound ∨ e = .notADirectory then
    if creating then "Directory nonexistent" else "No such file"
  else Utility.wording e

def openOutput (name : Text) (appending : Bool) : Act (Except SystemError Stream) := do
  match Text.toString name with
  | "/dev/null" | "/dev/zero" => return .ok .nothing
  | "/dev/stdout" => return .ok ((← stream? 1).getD .nothing)
  | "/dev/stderr" => return .ok ((← stream? 2).getD .nothing)
  | _ =>
    let m ← get
    let p := m.path name
    match m.files.opened p with
    | .error e => return .error e
    | .ok (place, entry) =>
      if appending ∧ entry.isSome then return .ok (.file place)
      else match m.files.write p [] with
        | .error e => return .error e
        | .ok files =>
          set { m with files }
          return .ok (.file place)

def openInput (name : Text) : Act (Except SystemError Stream) := do
  match Text.toString name with
  | "/dev/null" => return .ok .nothing
  | "/dev/zero" => return .ok .zeros
  | "/dev/stdin" => return .ok ((← stream? 0).getD .nothing)
  | _ =>
    let m ← get
    match m.files.read (m.path name) with
    | .error e => return .error e
    | .ok bytes =>
      let (s, m) := m.openSource (Text.ofBytes bytes)
      set m
      return .ok s

/-- Points a descriptor at a stream, or says why there is none. -/
def point (descriptor : Nat) (creating : Bool) (name : Text) : Except SystemError Stream → Act Bool
  | .ok s => do
    modify fun m => { m with descriptors := redirectTo descriptor s m.descriptors }
    return true
  | .error e => do
    let verb := if creating then "create" else "open"
    complain s!"cannot {verb} {Text.toString name}: {openingError creating e}"
    return false

/-- The names of the signals that a script may send. -/
def signals : List (String × Nat) :=
  [("HUP", 1), ("INT", 2), ("QUIT", 3), ("ILL", 4), ("TRAP", 5), ("ABRT", 6), ("BUS", 7), ("FPE", 8),
    ("KILL", 9), ("USR1", 10), ("SEGV", 11), ("USR2", 12), ("PIPE", 13), ("ALRM", 14), ("TERM", 15),
    ("CHLD", 17), ("CONT", 18), ("STOP", 19), ("TSTP", 20), ("TTIN", 21), ("TTOU", 22), ("URG", 23),
    ("XCPU", 24), ("XFSZ", 25), ("VTALRM", 26), ("PROF", 27), ("WINCH", 28), ("POLL", 29), ("PWR", 30),
    ("SYS", 31)]

/-- The signal that a word names. -/
def signal? (t : Text) : Option Nat :=
  match Text.natural? t with
  | some n => if n < 65 then some n else none
  | none =>
    if t = "EXIT".toList then some 0
    else signals.lookup (String.ofList (if "SIG".toList.isPrefixOf t then t.drop 3 else t))

/-- What the shell says of a process that was killed. -/
def obituary (signal : Nat) : Option String :=
  [(1, "Hangup"), (3, "Quit"), (4, "Illegal instruction"), (5, "Trace/breakpoint trap"), (6, "Aborted"),
    (7, "Bus error"), (8, "Floating point exception"), (9, "Killed"), (10, "User defined signal 1"),
    (11, "Segmentation fault"), (12, "User defined signal 2"), (14, "Alarm clock"), (15, "Terminated")].lookup
      signal

/-- Sends a signal to the script itself. -/
def receive (signal : Nat) : Act Unit := do
  let m ← get
  if signal = 0 ∨ (m.ignored.contains signal ∧ signal ≠ 9) ∨ [17, 18, 23, 28].contains signal then return ()
  else if signal ≠ 9 ∧ (m.handlers.lookup signal).isSome then set { m with pending := m.pending ++ [signal] }
  else depart (.killed signal)

def kill (args : List Text) : Act Nat := do
  let (signal, targets) : Option Nat × List Text := match args with
    | ['-', 's'] :: name :: rest => (signal? name, rest)
    | ('-' :: name) :: rest => (signal? name, rest)
    | rest => (some 15, rest)
  if signal.isSome ∧ targets.isEmpty then
    complain "kill: Usage: kill [-s sigspec | -signum | -sigspec] [pid | job]... or\nkill -l [exitstatus]"
    return 2
  match signal with
  | none =>
    complain s!"kill: Illegal option -{Text.toString ((args.headD []).drop 1 |>.take 1)}"
    return 2
  | some signal =>
    let m ← get
    let mut status := 0
    for t in targets do
      match Text.natural? t with
      | some n =>
        if n = m.number then receive signal
        else if m.jobs.any (·.number = n) then
          modify fun m => { m with jobs := m.jobs.map fun job =>
            if job.number = n then { job with finish := some m.now, status := 128 + signal } else job }
        else
          complain "kill: No such process\n"
          status := 1
      | none =>
        complain s!"kill: Illegal number: {Text.toString t}"
        return 2
    return status

/-- Waits for everything in the background, or for what has the given numbers. -/
def waitAll (args : List Text) : Act Nat := do
  let m ← get
  let jobs := if args.isEmpty then m.jobs else m.jobs.filter fun job => args.contains (Text.ofNat job.number)
  if !args.isEmpty ∧ jobs.isEmpty then return 127
  for job in jobs.reverse do
    match job.finish with
    | some finish => if (← get).now < finish then passUntil (some finish)
    | none => passUntil none
  if args.isEmpty then return 0
  let status := (jobs.head?.map (·.status)).getD 127
  match obituary (status - 128) with
  | some words => report words
  | none => return status
  return status

/-- Takes a line from standard input; tells whether it was ended. -/
def takeLine : Act (Text × Bool) := do
  match ← stream? 0 with
  | some (.source n) =>
    let m ← get
    let t := m.sources.getD n []
    let line := t.takeWhile (· ≠ '\n')
    let ended := line.length < t.length
    set { m with sources := m.sources.set n (t.drop (line.length + 1)) }
    return (line, ended)
  | some .zeros => depart .endless
  | _ => return ([], false)

/-- Reads a line into variables; the last one takes what is left. -/
def readVariables (args : List Text) : Act Nat := do
  let (letters, names) := Utility.options args
  let (line, ended) ← takeLine
  let line := if letters.contains 'r' then line else Glob.unescape line
  let separators := (← get).separators
  let isSeparator (c : Char) : Bool := separators.contains c
  let rec fill : List Text → Text → Act Unit
    | [], _ => return ()
    | [name], t => assign name ((t.reverse.dropWhile isSeparator).reverse)
    | name :: rest, t => do
      assign name (t.takeWhile (!isSeparator ·))
      fill rest ((t.dropWhile (!isSeparator ·)).dropWhile isSeparator)
  fill names (line.dropWhile isSeparator)
  return if ended then 0 else 1

def printFormatted : List Text → Act Nat
  | [] => do
    complain "printf: usage: printf format [arg ...]"
    return 2
  | format :: words => do
    let (t, complaints, status) := Format.printf format words
    print t
    for c in complaints do complain s!"printf: {c}"
    return status

/-- Prints words in a format, before which no option but the end of options may stand. -/
def printf : List Text → Act Nat
  | ['-', '-'] :: words => printFormatted words
  | ('-' :: letter :: _) :: _ => do
    complain s!"printf: Illegal option -{Text.toString [letter]}"
    return 2
  | words => printFormatted words

/-- The built-in commands that need nothing but their words, by name. -/
def builtins : List (String × (List Text → Act Nat)) :=
  [("true", fun _ => return 0), ("false", fun _ => return 1),
    ("echo", fun words => do print (Format.echo words); return 0),
    ("printf", printf),
    ("test", fun words => do
      match Condition.evaluate (← get) words with
      | .ok b => return if b then 0 else 1
      | .error e =>
        complain s!"test: {e}"
        return 2),
    ("[", fun words => do
      if words.getLast? ≠ some [']'] then
        complain "[: missing ]"
        return 2
      match Condition.evaluate (← get) words.dropLast with
      | .ok b => return if b then 0 else 1
      | .error e =>
        complain s!"[: {e}"
        return 2),
    ("kill", kill), ("wait", waitAll), ("read", readVariables),
    ("cd", fun words => do
      let m ← get
      let target := words.headD ((m.valueOf? "HOME".toList).getD [])
      let p := m.path target
      if m.files.isDirectory p then
        set { m with directory := p.text }
        return 0
      else
        complain s!"cd: can't cd to {Text.toString target}"
        return 2),
    ("pwd", fun _ => do
      let m ← get
      print (Text.ofString ("/" ++ "/".intercalate FileSystem.workplace) ++
        (if m.directory = "" then [] else '/' :: Text.ofString m.directory) ++ ['\n'])
      return 0),
    ("umask", fun _ => return 0), ("ulimit", fun _ => return 0), ("hash", fun _ => return 0)]

/-- The built-in commands whose failure ends a script. -/
def specials : List String :=
  [":", ".", "break", "continue", "eval", "exec", "exit", "export", "readonly", "return", "set", "shift",
    "times", "trap", "unset"]

/-- A count that a special command takes. -/
def countOf (command : String) (args : List Text) (missing : Nat) : Act Nat := do
  match args with
  | [] => return missing
  | t :: _ =>
    match Text.natural? t with
    | some n => return n
    | none => refuse s!"{command}: Illegal number: {Text.toString t}"

/-- Sets options, and the numbered parameters if there are words. -/
def setOptions : List Text → Act Unit
  | [] => return ()
  | ['-', '-'] :: words => modify fun m => { m with words }
  | ['-', 'o'] :: _ :: rest | ['+', 'o'] :: _ :: rest => setOptions rest
  | (sign :: letters) :: rest =>
    if (sign = '-' ∨ sign = '+') ∧ !letters.isEmpty then do
      let on := sign == '-'
      modify fun m => { m with
        strict := if letters.contains 'e' then on else m.strict
        careful := if letters.contains 'u' then on else m.careful }
      setOptions rest
    else modify fun m => { m with words := (sign :: letters) :: rest }
  | words => modify fun m => { m with words }

/-- The name and the value of a word that assigns. -/
def splitAssignment (t : Text) : Text × Option Text :=
  let name := t.takeWhile (· ≠ '=')
  (name, if name.length < t.length then some (t.drop (name.length + 1)) else none)

/-- The shell commands that a program file holds; nothing if it is for something else. -/
def scriptOf? (bytes : Bytes) : Option Text :=
  let t := Text.ofBytes bytes
  if "#!".toList.isPrefixOf t then
    let first := (t.takeWhile (· ≠ '\n')).drop 2
    let words := (Text.splitOnto isBlank [] first).filter (!·.isEmpty)
    if (words.any fun w => [("sh".toList), ("dash".toList)].any fun name => ('/' :: name).isSuffixOf w || w == name)
    then some t else none
  else some t

/-- Whether a name is that of the shell itself. -/
def isShell (name : String) : Bool :=
  ["sh", "dash", "/bin/sh", "/bin/dash", "/usr/bin/sh", "/usr/bin/dash"].contains name

end Act

/-- How a process is started: name, numbered parameters, script and whether failures end it. -/
structure Startup where
  name : Text
  words : List Text
  script : Text
  strict : Bool := false

def Startup.machine (s : Startup) (m : Machine) : Machine :=
  { m with
    name := s.name, words := s.words, strict := s.strict, functions := [], status := 0, line := 1
    store := m.store.filter fun (name, _) => m.exported.contains name
    handlers := [], pending := [], locals := [], readOnly := [], number := m.numbers, numbers := m.numbers + 1, jobs := [], atExit := none, loops := 0
    careful := false }

/-- How the shell is started with words: with a script among them, or in a file. -/
def Startup.ofArguments (self : Text) : (strict : Bool) → List Text → Act (Except String Startup)
  | strict, ('-' :: 'c' :: []) :: script :: rest =>
    return .ok ⟨rest.headD self, rest.drop 1, script, strict⟩
  | _, ['-', 'e', 'c'] :: script :: rest =>
    return .ok ⟨rest.headD self, rest.drop 1, script, true⟩
  | _, ['-', 'e'] :: rest => Startup.ofArguments self true rest
  | strict, ['-', 'u'] :: rest | strict, ['-', 'x'] :: rest => Startup.ofArguments self strict rest
  | strict, name :: words => do
    match ← Act.readNamed name with
    | .ok (.text script) => return .ok ⟨name, words, script, strict⟩
    | .ok .zeros => return .ok ⟨name, words, [], strict⟩
    | .error e => return .error s!"cannot open {Text.toString name}: {Act.openingError false e}"
  | strict, [] => do
    match ← Act.drainInput with
    | .text script => return .ok ⟨self, [], script, strict⟩
    | .zeros => Act.depart .endless

mutual

/-- The marks that a word is replaced by. -/
def expand : (fuel : Nat) → Word → Act (List Mark)
  | 0, _ => Act.depart .endless
  | _, [] => return []
  | fuel + 1, piece :: rest => do
    let front ← expandPiece fuel piece
    return front ++ (← expand fuel rest)

/-- The marks that a piece is replaced by. -/
def expandPiece : (fuel : Nat) → Piece → Act (List Mark)
  | 0, _ => Act.depart .endless
  | _, .text chars quoted => return Mark.ofText quoted false chars
  | fuel + 1, .command body quoted => do
    let t ← Act.capture (enclose fuel false body)
    return Mark.ofText quoted (!quoted) ((t.reverse.dropWhile (· == '\n')).reverse.filter (· ≠ '\x00'))
  | fuel + 1, .arithmetic expression quoted => do
    let t := Mark.plain (← expand fuel expression)
    let m ← get
    match Arithmetic.evaluate t m.store with
    | .ok (n, store) =>
      set { m with store }
      return Mark.ofText quoted (!quoted) (Text.ofInt n)
    | .error e => Act.refuse s!"arithmetic expression: {e}: \"{Text.toString t}\""
  | fuel + 1, .parameter name use quoted => do
    let m ← get
    let value := m.parameter? name
    let all := name == ['@'] || name == ['*']
    match use with
    | .value =>
      if all then return m.allWords (name == ['*']) quoted
      else match value with
        | some t => return Mark.ofText quoted (!quoted) t
        | none =>
          if m.careful then Act.refuse s!"{Text.toString name}: parameter not set"
          else return Mark.ofText quoted (!quoted) []
    | .length =>
      let n := if all then m.words.length else (value.getD []).length
      return Mark.ofText quoted (!quoted) (Text.ofNat n)
    | .otherwise mark colon word =>
      let missing := match value with
        | none => true
        | some t => colon && t.isEmpty
      let own : List Mark :=
        if all then m.allWords (name == ['*']) quoted else Mark.ofText quoted (!quoted) (value.getD [])
      let replaced : Act (List Mark) := do
        return (← expand fuel word).map fun
          | .char c q _ => .char c q (!q)
          | other => other
      if mark = '+' then
        if missing then return Mark.ofText quoted (!quoted) [] else replaced
      else if !missing then return own
      else if mark = '-' then replaced
      else if mark = '=' then
        let t := Mark.plain (← expand fuel word)
        Act.assign name t
        return Mark.ofText quoted (!quoted) t
      else
        let t := Mark.plain (← expand fuel word)
        let reason := if !t.isEmpty then Text.toString t
          else if colon then "parameter not set or null" else "parameter not set"
        Act.refuse s!"{Text.toString name}: {reason}"
    | .strip fromEnd longest pattern =>
      let parts := Glob.ofText (Mark.pattern (← expand fuel pattern))
      let t := value.getD []
      return Mark.ofText quoted (!quoted)
        (if fromEnd then Glob.stripBack parts longest t else Glob.stripFront parts longest t)

/-- The fields of words. -/
def expandAll : (fuel : Nat) → List Word → Act (List Text)
  | 0, _ => Act.depart .endless
  | _, [] => return []
  | fuel + 1, w :: rest => do
    let marks ← expand fuel w
    let fields := (← get).fields marks
    return fields ++ (← expandAll fuel rest)

/-- Assigns, one after the other. -/
def assignAll : (fuel : Nat) → List (Text × Word) → Act Unit
  | 0, _ => Act.depart .endless
  | _, [] => return ()
  | fuel + 1, (name, w) :: rest => do
    Act.assign name (Mark.plain (← expand fuel w))
    assignAll fuel rest

/-- The values of assignments. -/
def expandAssignments : (fuel : Nat) → List (Text × Word) → Act (List (Text × Text))
  | 0, _ => Act.depart .endless
  | _, [] => return []
  | fuel + 1, (name, w) :: rest => do
    let value := Mark.plain (← expand fuel w)
    return (name, value) :: (← expandAssignments fuel rest)

/-- Points descriptors where redirections lead; tells whether all of them could be opened. -/
def redirect : (fuel : Nat) → List Redirection → Act Bool
  | 0, _ => Act.depart .endless
  | _, [] => return true
  | fuel + 1, (descriptor, target) :: rest => do
    let opened ← match target with
      | .input word => do
        let name := Mark.plain (← expand fuel word)
        Act.point descriptor false name (← Act.openInput name)
      | .output word appending => do
        let name := Mark.plain (← expand fuel word)
        Act.point descriptor true name (← Act.openOutput name appending)
      | .copy word => do
        let name := Mark.plain (← expand fuel word)
        if name = ['-'] then
          modify fun m => { m with descriptors := m.descriptors.filter (·.1 ≠ descriptor) }
          pure true
        else
          match ← Act.stream? ((Text.natural? name).getD 1000) with
          | some s => Act.point descriptor false name (.ok s)
          | none =>
            Act.complain s!"{Text.toString name}: Bad file descriptor"
            pure false
      | .document word => do
        let t := Mark.plain (← expand fuel word)
        let (s, m) := (← get).openSource t
        set m
        Act.point descriptor false [] (.ok s)
    if opened then redirect fuel rest else return false

/-- Runs a command; a failure that is looked at does not end a strict script. -/
def evaluate : (fuel : Nat) → (looked : Bool) → Command → Act Unit
  | 0, _, _ => Act.depart .endless
  | fuel + 1, looked, command => do
    match command with
    | .simple line assignments words redirections =>
      modify fun m => { m with line }
      let fields ← expandAll fuel words
      match fields with
      | [] =>
        Act.setStatus 0
        let before := (← get).descriptors
        let opened ← redirect fuel redirections
        modify fun m => { m with descriptors := before }
        if opened then assignAll fuel assignments else Act.setStatus 2
      | name :: args => runSimple fuel assignments (Text.toString name) name args redirections
      handlePending fuel
      judge looked
    | .pipeline negated commands =>
      match commands with
      | [single] => evaluate fuel (looked || negated) single
      | commands =>
        let input ← Act.stream? 0
        evaluatePipes fuel input (← get).now (← get).now commands
      if negated then modify fun m => { m with status := if m.status = 0 then 1 else 0 }
      else judge looked
    | .both first second =>
      evaluate fuel true first
      if (← get).status = 0 then evaluate fuel looked second
    | .either first second =>
      evaluate fuel true first
      if (← get).status ≠ 0 then evaluate fuel looked second
    | .sequence commands => for c in commands do evaluate fuel looked c
    | .background body =>
      let before ← get
      let number := before.numbers
      modify fun m => { m with numbers := number + 1 }
      let ended ← Act.attempt
        (Act.withDescriptors (Act.redirectTo 0 .nothing) (enclose fuel false body))
      let after ← get
      let finish : Option Nat := match ended with
        | .error .endless | .error .stopped => none
        | _ => some after.now
      let held := before.descriptors.filterMap fun
        | (_, .sink n) => some (n, finish)
        | _ => none
      set { after with
        now := before.now, holds := held ++ after.holds, status := 0
        jobs := ⟨number, finish, after.status⟩ :: before.jobs }
      match ended with
      | .error (.killed n) => Act.depart (.killed n)
      | _ => return ()
    | .subshell body =>
      enclose fuel looked body
      judge looked
    | .redirected line body redirections =>
      modify fun m => { m with line }
      let before := (← get).descriptors
      if ← redirect fuel redirections then
        let result ← Act.attempt (evaluate fuel looked body)
        modify fun m => { m with descriptors := before }
        match result with
        | .ok () => return ()
        | .error d => Act.depart d
      else
        modify fun m => { m with descriptors := before, status := 2 }
        judge looked
    | .conditional branches last => evaluateBranches fuel looked branches last
    | .loop whileTrue condition body =>
      Act.setStatus 0
      let holds : Act Bool := do
        let before := (← get).status
        evaluate fuel true condition
        let goesOn := ((← get).status = 0) = (whileTrue = true)
        if !goesOn then Act.setStatus before
        return goesOn
      Act.inLoop (Act.loopWhile holds (evaluate fuel looked body) fuel)
    | .each line name words body =>
      modify fun m => { m with line }
      let values ← match words with
        | some words => expandAll fuel words
        | none => do pure (← get).words
      Act.setStatus 0
      Act.inLoop (Act.loopOver (Act.assign name) (evaluate fuel looked body) values)
    | .choice line word branches =>
      modify fun m => { m with line }
      let t := Mark.plain (← expand fuel word)
      Act.setStatus 0
      evaluateChoices fuel looked t branches
    | .function name body =>
      modify fun m => { m with functions := (name, body) :: m.functions, status := 0 }

/-- Runs a command in a subshell, which sets aside for its own end what it sets aside. -/
def enclose : (fuel : Nat) → (looked : Bool) → Command → Act Unit
  | 0, _, _ => Act.depart .endless
  | fuel + 1, looked, body => Act.subshell do
    modify fun m => { m with atExit := none, handlers := [], pending := [] }
    finish fuel (← Act.attempt (evaluate fuel looked body))

/-- Does what is to be done at the signals that have come. -/
def handlePending : (fuel : Nat) → Act Unit
  | 0 => Act.depart .endless
  | fuel + 1 => do
    let m ← get
    match m.pending with
    | [] => return ()
    | signal :: rest =>
      set { m with pending := rest }
      runLines fuel { rest := (m.handlers.lookup signal).getD [], line := m.line }
      Act.setStatus m.status
      handlePending fuel

/-- Departs from a strict script after a failure that nobody looks at. -/
def judge (looked : Bool) : Act Unit := do
  let m ← get
  if m.strict ∧ !looked ∧ m.status ≠ 0 then Act.depart .exit

/-- Runs the commands of a pipeline one after the other, all from the same instant on. -/
def evaluatePipes : (fuel : Nat) → (input : Option Stream) → (start latest : Nat) → List Command → Act Unit
  | 0, _, _, _, _ => Act.depart .endless
  | _, _, _, _, [] => return ()
  | fuel + 1, input, start, latest, command :: rest => do
    let body := Act.withDescriptors
      (match input with
        | some s => Act.redirectTo 0 s
        | none => fun ds => ds.filter (·.1 ≠ 0))
      (enclose fuel false command)
    match rest with
    | [] =>
      body
      modify fun m => { m with now := max m.now latest }
    | rest =>
      let t ← Act.capture body
      let (s, m) := (← get).openSource t
      let latest := max latest m.now
      set { m with now := start }
      evaluatePipes fuel (some s) start latest rest

/-- Runs the first branch whose condition holds, or the last one. -/
def evaluateBranches : (fuel : Nat) → (looked : Bool) → List (Command × Command) → Option Command → Act Unit
  | 0, _, _, _ => Act.depart .endless
  | fuel + 1, looked, [], last =>
    match last with
    | some body => evaluate fuel looked body
    | none => Act.setStatus 0
  | fuel + 1, looked, (condition, body) :: rest, last => do
    evaluate fuel true condition
    if (← get).status = 0 then evaluate fuel looked body
    else evaluateBranches fuel looked rest last

/-- Runs the first branch with a pattern that a text matches. -/
def evaluateChoices : (fuel : Nat) → (looked : Bool) → Text → List (List Word × Command) → Act Unit
  | 0, _, _, _ => Act.depart .endless
  | _, _, _, [] => return ()
  | fuel + 1, looked, t, (patterns, body) :: rest => do
    if ← matchesAny fuel t patterns then evaluate fuel looked body
    else evaluateChoices fuel looked t rest

def matchesAny : (fuel : Nat) → Text → List Word → Act Bool
  | 0, _, _ => Act.depart .endless
  | _, _, [] => return false
  | fuel + 1, t, w :: rest => do
    let pattern := Mark.pattern (← expand fuel w)
    if Glob.accepts (Glob.ofText pattern) t then return true else matchesAny fuel t rest

/-- Runs a command that has a name, with its redirections and assignments. -/
def runSimple : (fuel : Nat) → List (Text × Word) → (command : String) → (name : Text) → List Text →
    List Redirection → Act Unit
  | 0, _, _, _, _, _ => Act.depart .endless
  | fuel + 1, assignments, command, name, args, redirections => do
    let isSpecial := Act.specials.contains command
    let before := (← get).descriptors
    if !(← redirect fuel redirections) then
      modify fun m => { m with descriptors := before, status := 2 }
      if isSpecial then Act.depart .exit
    else
      let values ← expandAssignments fuel assignments
      let m ← get
      for (name, value) in values do Act.assign name value
      if !isSpecial then modify fun m => { m with exported := values.map (·.1) ++ m.exported }
      let result ← Act.attempt (runNamed fuel isSpecial command name args)
      if !isSpecial then
        for (name, _) in values do
          modify fun m' => m'.restore name (m.valueOf? name)
        modify fun m' => { m' with exported := m.exported }
      if command ≠ "exec" then modify fun m => { m with descriptors := before }
      match result with
      | .ok () => return ()
      | .error d => Act.depart d

/-- Runs what a name stands for: a special command, a function, a built-in command or a program. -/
def runNamed : (fuel : Nat) → (isSpecial : Bool) → (command : String) → (name : Text) → List Text → Act Unit
  | 0, _, _, _, _ => Act.depart .endless
  | fuel + 1, isSpecial, command, name, args => do
    if isSpecial then runSpecial fuel command args
    else
      let m ← get
      match m.functions.lookup name with
      | some body =>
        modify fun m => { m with words := args, locals := [] }
        let result ← Act.attempt (evaluate fuel false body)
        modify fun m' => { m'.locals.foldl (fun m (name, value) => m.restore name value) m' with
          words := m.words, locals := m.locals }
        match result with
        | .ok () | .error .back => return ()
        | .error d => Act.depart d
      | none =>
        match command with
        | "command" =>
          match args with
          | ['-', 'v'] :: t :: _ =>
            let s := Text.toString t
            if (Act.builtins.lookup s).isSome ∨ Act.specials.contains s then
              Act.print (t ++ ['\n'])
              Act.setStatus 0
            else if (Utility.find? s).isSome then
              Act.print ("/usr/bin/".toList ++ t ++ ['\n'])
              Act.setStatus 0
            else Act.setStatus 127
          | t :: rest => runNamed fuel (Act.specials.contains (Text.toString t)) (Text.toString t) t rest
          | [] => Act.setStatus 0
        | "local" =>
          for t in args do
            let (name, value) := Act.splitAssignment t
            modify fun m => { m with locals := (name, m.valueOf? name) :: m.locals }
            match value with
            | some value => Act.assign name value
            | none => pure ()
          Act.setStatus 0
        | command =>
          match Act.builtins.lookup command with
          | some run => Act.setStatus (← run args)
          | none => runProgram fuel command name args

def runProgram : (fuel : Nat) → (command : String) → (name : Text) → List Text → Act Unit
  | 0, _, _, _ => Act.depart .endless
  | fuel + 1, command, name, args => do
    if Act.isShell command then
      match ← Startup.ofArguments name false args with
      | .ok startup => runProcess fuel startup
      | .error reason =>
        Act.report s!"{command}: 0: {reason}"
        Act.setStatus 2
    else if command = "env" then
      let values := args.takeWhile fun t => (Act.splitAssignment t).2.isSome
      match args.drop values.length with
      | t :: rest => runProgram fuel (Text.toString t) t rest
      | [] => Act.setStatus 0
    else if name.contains '/' then
      match (Utility.nameOfPath? command).bind Utility.find? with
      | some run => Act.setStatus (← run args)
      | none =>
        let m ← get
        match m.files.inspect (m.path name) with
        | .error e =>
          if e = .accessDenied then absent name "Permission denied" 126 else absent name "not found" 127
        | .ok .directory => absent name "Permission denied" 126
        | .ok (.file bytes executable _) =>
          if !executable then absent name "Permission denied" 126
          else match Act.scriptOf? bytes with
            | some script => runProcess fuel { name, words := args, script }
            | none => absent name "not found" 127
    else
      let m ← get
      match if m.findsUtilities then Utility.find? command else none with
      | some run => Act.setStatus (← run args)
      | none => absent name "not found" 127

/-- Says that a program cannot be run. -/
def absent (name : Text) (reason : String) (status : Nat) : Act Unit := do
  Act.complain s!"{Text.toString name}: {reason}"
  Act.setStatus status

/-- Runs a script as a process of its own. -/
def runProcess : (fuel : Nat) → Startup → Act Unit
  | 0, _ => Act.depart .endless
  | fuel + 1, startup => do
    let before ← get
    set (startup.machine before)
    let result ← Act.attempt (runToEnd fuel { rest := startup.script })
    let after ← get
    set { Act.rejoin before after with status := after.status }
    match result with
    | .error (.killed signal) =>
      match Act.obituary signal with
      | some words => Act.report words
      | none => return ()
      Act.setStatus (128 + signal)
    | .error .stopped => Act.depart .stopped
    | .error .endless => Act.depart .endless
    | _ => return ()

def runSpecial : (fuel : Nat) → (command : String) → List Text → Act Unit
  | 0, _, _ => Act.depart .endless
  | fuel + 1, command, args => do
    match command with
    | ":" | "times" => Act.setStatus 0
    | "break" =>
      let n ← Act.countOf command args 1
      let loops := (← get).loops
      Act.setStatus 0
      if loops ≠ 0 then Act.depart (.leave (min n loops))
    | "continue" =>
      let n ← Act.countOf command args 1
      let loops := (← get).loops
      Act.setStatus 0
      if loops ≠ 0 then Act.depart (.again (min n loops))
    | "exit" =>
      let n ← Act.countOf command args (← get).status
      Act.setStatus (n % 256)
      Act.depart .exit
    | "return" =>
      let n ← Act.countOf command args (← get).status
      Act.setStatus (n % 256)
      Act.depart .back
    | "shift" =>
      let n ← Act.countOf command args 1
      let m ← get
      if m.words.length < n then Act.refuse "shift: can't shift that many"
      else set { m with words := m.words.drop n, status := 0 }
    | "set" =>
      Act.setOptions args
      Act.setStatus 0
    | "export" | "readonly" =>
      for t in args do
        let (name, value) := Act.splitAssignment t
        if !isName name then Act.refuse s!"{command}: {Text.toString name}: bad variable name"
        match value with
        | some value => Act.assign name value
        | none => pure ()
        modify fun m =>
          if command = "export" then { m with exported := name :: m.exported }
          else { m with readOnly := name :: m.readOnly }
      Act.setStatus 0
    | "unset" =>
      let (_, names) := Utility.options args
      for name in names do
        if (← get).readOnly.contains name then Act.refuse s!"unset: {Text.toString name}: is read only"
      modify fun m => { m with
        store := m.store.filter fun (name, _) => !names.contains name
        functions := m.functions.filter fun (name, _) => !names.contains name
        status := 0 }
    | "trap" =>
      match args with
      | action :: signals =>
        let numbers := signals.filterMap Act.signal?
        let bad := signals.filter fun t => (Act.signal? t).isNone
        for t in bad do Act.report s!"trap: {Text.toString t}: bad trap"
        modify fun m => { m with status := if bad.isEmpty then 0 else 1 }
        if numbers.contains 0 then
          modify fun m => { m with atExit := if action = ['-'] ∨ action.isEmpty then none else some action }
        modify fun m => { m with
          ignored := (if action.isEmpty then numbers else []) ++ m.ignored.filter (!numbers.contains ·)
          handlers := (if action.isEmpty ∨ action = ['-'] then [] else numbers.map (·, action)) ++
            m.handlers.filter fun (n, _) => !numbers.contains n }
      | [] => Act.setStatus 0
    | "eval" =>
      let script := List.intercalate [' '] args
      let line := (← get).line
      Act.setStatus 0
      runLines fuel { rest := script, line }
    | "." =>
      match args with
      | [] => Act.setStatus 0
      | t :: _ =>
        match ← Act.readNamed t with
        | .ok (.text script) =>
          Act.setStatus 0
          let line := (← get).line
          let result ← Act.attempt (runLines fuel { rest := script })
          modify fun m => { m with line }
          match result with
          | .ok () | .error .back => return ()
          | .error d => Act.depart d
        | _ => Act.refuse s!".: cannot open {Text.toString t}: No such file"
    | "exec" =>
      match args with
      | [] => Act.setStatus 0
      | t :: rest =>
        let known := t.contains '/' || Act.isShell (Text.toString t) || (Utility.find? (Text.toString t)).isSome
        if known then
          runProgram fuel (Text.toString t) t rest
          Act.depart .exit
        else
          Act.complain s!"exec: {Text.toString t}: not found"
          Act.setStatus 127
          Act.depart .exit
    | _ => Act.setStatus 0

/-- Runs a script line by line. -/
def runLines : (fuel : Nat) → Source → Act Unit
  | 0, _ => Act.depart .endless
  | fuel + 1, s => do
    match readLine s with
    | .error fault =>
      modify fun m => { m with line := fault.line }
      Act.refuse fault.reason
    | .ok none => return ()
    | .ok (some (command, s)) =>
      evaluate fuel false command
      runLines fuel s

/-- Runs a script and what it has set aside for its end. -/
def runToEnd : (fuel : Nat) → Source → Act Unit
  | 0, _ => Act.depart .endless
  | fuel + 1, s => do
    finish fuel (← Act.attempt (runLines fuel s))

/-- Does what a script has set aside for its end, if it comes to its end, and departs as it did. -/
def finish : (fuel : Nat) → Except Departure Unit → Act Unit
  | 0, _ => Act.depart .endless
  | fuel + 1, result => do
    let ends := match result with
      | .ok () | .error .exit | .error .back | .error (.leave _) | .error (.again _) => true
      | _ => false
    let m ← get
    match ends, m.atExit with
    | true, some action =>
      set { m with atExit := none }
      let last ← Act.attempt (runLines fuel { rest := action })
      match last with
      | .ok () => Act.setStatus m.status
      | _ => pure ()
    | _, _ => pure ()
    match result with
    | .ok () => return ()
    | .error d => Act.depart d

end

end StorageProof.Shell
