import StorageProof.Hex
import StorageProof.Sha256
import StorageProof.Shell.Format
import StorageProof.Shell.LinePattern
import StorageProof.Shell.Machine

/-!
# Utilities

The small programs that scripts are made of. Each takes words and the machine, and ends with a status. Their
complaints begin with their own name.
-/

namespace StorageProof.Shell.Utility

/-- A name between quotes, as complaints show it. -/
def quote (t : Text) : String := "'" ++ Text.toString t ++ "'"

/-- The wording of a system error without its number. -/
def wording : SystemError → String
  | .number n => SystemError.wording n
  | .words text => text

/-- The options in front of words, each a letter, and the words after them. Two hyphens end the options. -/
def options : List Text → List Char × List Text
  | ['-', '-'] :: rest => ([], rest)
  | ('-' :: c :: letters) :: rest =>
    let (more, words) := options rest
    (c :: letters ++ more, words)
  | words => ([], words)

/-- Does something for each word, and ends with one if anything failed. -/
def each (words : List Text) (f : Text → Act Bool) : Act Nat := do
  let mut status := 0
  for w in words do
    if !(← f w) then status := 1
  return status

def failed (message : String) : Act Bool := do
  Act.report message
  return false

def missingOperand (name : String) : Act Nat := do
  Act.report s!"{name}: missing operand"
  Act.report s!"Try '{name} --help' for more information."
  return 1

/-- Prints what files hold, or standard input. -/
def cat (args : List Text) : Act Nat := do
  let (_, names) := options args
  each (if names.isEmpty then [['-']] else names) fun name => do
    match ← Act.readNamed name with
    | .ok (.text t) => Act.print t; return true
    | .ok .zeros => Act.depart .endless
    | .error e => failed s!"cat: {Text.toString name}: {wording e}"

def firstLines : (count : Nat) → Text → Text
  | 0, _ => []
  | count + 1, t =>
    let line := t.takeWhile (· ≠ '\n')
    match t.drop line.length with
    | c :: rest => line ++ c :: firstLines count rest
    | [] => line

/-- How much of a file is wanted: bytes or lines, and how many. -/
structure Amount where
  bytes : Bool := false
  count : Nat := 10
  fromStart : Bool := false

/-- The amount that options ask for, and the words after them. -/
def amount (a : Amount) : List Text → Amount × List Text
  | ['-', 'n'] :: n :: rest => amount { a with bytes := false, count := number n, fromStart := plus n } rest
  | ['-', 'c'] :: n :: rest => amount { a with bytes := true, count := number n, fromStart := plus n } rest
  | ('-' :: 'n' :: n) :: rest => amount { a with bytes := false, count := number n, fromStart := plus n } rest
  | ('-' :: 'c' :: n) :: rest => amount { a with bytes := true, count := number n, fromStart := plus n } rest
  | ('-' :: c :: n) :: rest =>
    if c.isDigit then amount { a with bytes := false, count := number (c :: n) } rest
    else (a, ('-' :: c :: n) :: rest)
  | words => (a, words)
where
  /-- A count with a factor behind it. -/
  number (t : Text) : Nat :=
    let digits := (t.dropWhile fun c => c == '+' || c == '-').takeWhile Char.isDigit
    let factor := match t.getLast? with
      | some 'k' | some 'K' => 1024
      | some 'b' => 512
      | some 'M' => 1048576
      | _ => 1
    (Text.natural? digits).getD 0 * factor
  /-- Whether a count is from the start. -/
  plus (t : Text) : Bool := t.head? == some '+'

def head (args : List Text) : Act Nat := do
  let (a, names) := amount {} args
  each (if names.isEmpty then [['-']] else names) fun name => do
    match ← Act.readNamed name with
    | .ok (.text t) =>
      Act.print (if a.bytes then t.take a.count else firstLines a.count t)
      return true
    | .ok .zeros =>
      if a.bytes then
        Act.print (List.replicate a.count '\x00')
        return true
      else Act.depart .endless
    | .error e => failed s!"head: cannot open {quote name} for reading: {wording e}"

def lastLines (count : Nat) (t : Text) : Text :=
  let ended := t.getLast? == some '\n'
  let lines := Text.lines t
  let lines := if ended then lines.dropLast else lines
  let kept := lines.drop (lines.length - count)
  List.intercalate ['\n'] kept ++ if ended ∧ !kept.isEmpty then ['\n'] else []

def tail (args : List Text) : Act Nat := do
  let (a, names) := amount {} args
  each (if names.isEmpty then [['-']] else names) fun name => do
    match ← Act.readNamed name with
    | .ok (.text t) =>
      let part :=
        if a.fromStart then
          if a.bytes then t.drop (a.count - 1) else t.drop (firstLines (a.count - 1) t).length
        else if a.bytes then t.drop (t.length - a.count)
        else lastLines a.count t
      Act.print part
      return true
    | .ok .zeros => Act.depart .endless
    | .error e => failed s!"tail: cannot open {quote name} for reading: {wording e}"

/-! ## Translating -/

/-- The characters with their escapes replaced, each told from a range sign. -/
def setChars : (fuel : Nat) → Text → List (Char × Bool)
  | 0, _ => []
  | _, [] => []
  | fuel + 1, '\\' :: c :: rest =>
    if Format.isOctal c then
      let (byte, rest) := Format.octal 3 (c :: rest)
      (byte, false) :: setChars fuel rest
    else ((Format.letterEscape? c).getD c, false) :: setChars fuel rest
  | fuel + 1, c :: rest => (c, c == '-') :: setChars fuel rest

/-- The characters of a set, its ranges written out. -/
def setRanges : (fuel : Nat) → List (Char × Bool) → List Char
  | 0, _ => []
  | _, [] => []
  | fuel + 1, (a, _) :: (_, true) :: (b, _) :: rest =>
    ((List.range (b.toNat + 1)).drop a.toNat).map Char.ofNat ++ setRanges fuel rest
  | fuel + 1, (c, _) :: rest => c :: setRanges fuel rest

/-- The named sets of characters. -/
def namedSets : List (String × List Char) :=
  let letters (first : Char) := (List.range 26).map fun i => Char.ofNat (first.toNat + i)
  let digits := "0123456789".toList
  [("[:lower:]", letters 'a'), ("[:upper:]", letters 'A'), ("[:digit:]", digits),
    ("[:alpha:]", letters 'A' ++ letters 'a'), ("[:alnum:]", digits ++ letters 'A' ++ letters 'a'),
    ("[:space:]", ['\t', '\n', '\x0b', '\x0c', '\r', ' ']), ("[:blank:]", ['\t', ' '])]

/-- The characters that a set is written for. -/
def setOf (t : Text) : List Char :=
  match namedSets.lookup (String.ofList t) with
  | some chars => chars
  | none =>
    let chars := setChars t.length t
    setRanges chars.length chars

/-- A text in which repeated characters of a set stand once. -/
def squeeze (set : List Char) : (last : Option Char) → Text → Text
  | _, [] => []
  | last, c :: rest =>
    if last = some c ∧ set.contains c then squeeze set last rest else c :: squeeze set (some c) rest

/-- What a character is replaced by. -/
def replacement (source target : List Char) (c : Char) : Char :=
  match source.idxOf? c with
  | none => c
  | some i => target.getD i (target.getLastD c)

/-- Replaces, removes or squeezes characters. -/
def tr (args : List Text) : Act Nat := do
  let (letters, sets) := options args
  let complement := letters.contains 'c' || letters.contains 'C'
  match sets with
  | [] => missingOperand "tr"
  | first :: more =>
    let deletes := letters.contains 'd'
    let squeezes := letters.contains 's'
    if more.isEmpty ∧ !deletes ∧ !squeezes then
      Act.report s!"tr: missing operand after {quote first}"
      Act.report "Two strings must be given when translating."
      Act.report "Try 'tr --help' for more information."
      return 1
    let source := setOf first
    let source := if complement then ((List.range 256).map Char.ofNat).filter (!source.contains ·) else source
    let target := more.head?.map setOf
    match ← Act.drainInput with
    | .zeros => Act.depart .endless
    | .text t =>
      let t := if deletes then t.filter (!source.contains ·)
        else match target with
          | some target => t.map (replacement source target)
          | none => t
      let squeezed := match target with
        | some target => target
        | none => source
      Act.print (if squeezes then squeeze squeezed none t else t)
      return 0

/-! ## Files -/

def rm (args : List Text) : Act Nat := do
  let (letters, names) := options args
  let force := letters.contains 'f'
  let tree := letters.contains 'r' || letters.contains 'R'
  if names.isEmpty ∧ !force then missingOperand "rm"
  else each names fun name => do
    let m ← get
    let p := m.path name
    if tree ∧ m.files.isDirectory p then
      set { m with files := m.files.removeTree p }
      return true
    else
      match ← Act.change (·.removeFile p) with
      | none => return true
      | some e =>
        if force ∧ (e = .notFound ∨ e = .notADirectory) then return true
        else failed s!"rm: cannot remove {quote name}: {wording e}"

/-- Whether a directory has something in it. -/
def isOccupied (fs : FileSystem) (p : Path) : Bool :=
  match fs.resolve p with
  | .ok at' => fs.entries.toList.any fun (l, _) => at'.isPrefixOf l && l != at'
  | .error _ => false

def rmdir (args : List Text) : Act Nat := do
  let (_, names) := options args
  each names fun name => do
    let m ← get
    let p := m.path name
    match m.files.inspect p with
    | .error e => failed s!"rmdir: failed to remove {quote name}: {wording e}"
    | .ok .directory =>
      if isOccupied m.files p then
        failed s!"rmdir: failed to remove {quote name}: {SystemError.wording 39}"
      else
        set { m with files := m.files.removeTree p }
        return true
    | .ok _ => failed s!"rmdir: failed to remove {quote name}: {wording .notADirectory}"

def mkdir (args : List Text) : Act Nat := do
  let (letters, names) := options args
  if names.isEmpty then missingOperand "mkdir"
  else each names fun name => do
    let m ← get
    let p := m.path name
    let (result, files) :=
      if letters.contains 'p' then m.files.makeDirectories p
      else match m.files.makeDirectory p with
        | .ok files => (.ok (), files)
        | .error e => (.error e, m.files)
    set { m with files }
    match result with
    | .ok () => return true
    | .error e => failed s!"mkdir: cannot create directory {quote name}: {wording e}"

/-- Where a file with a name goes: into a directory, or under another name. -/
def destination (fs : FileSystem) (source target : Path) : Path :=
  if fs.isDirectory target then target.join (source.names.getLastD "") else target

/-- The files with everything at and below a location also at another one. -/
def copyTree (fs : FileSystem) (source target : Location) : FileSystem :=
  fs.entries.toList.foldl (fun fs (l, e) =>
    if source.isPrefixOf l then fs.put (target ++ l.drop source.length) e else fs) fs

/-- Copies one file or, if asked, a tree. -/
def copyOne (tree : Bool) (name : Text) (target : Text) : Act Bool := do
  let m ← get
  let from' := m.path name
  let goal := destination m.files from' (m.path target)
  match m.files.inspect from' with
  | .error e => failed s!"cp: cannot stat {quote name}: {wording e}"
  | .ok .directory =>
    if tree then
      match m.files.resolve from', m.files.lastStep goal with
      | .ok source, .ok (.name directory last _) =>
        set { m with files := copyTree m.files source (directory ++ [last]) }
        return true
      | _, _ => failed s!"cp: cannot create directory '{goal.text}': {wording .notFound}"
    else failed s!"cp: -r not specified; omitting directory {quote name}"
  | .ok (.file bytes executable _) =>
    match m.files.resolve from', m.files.resolve goal with
    | .ok a, .ok b =>
      if a = b then failed s!"cp: {quote name} and {quote target} are the same file"
      else write m goal bytes executable
    | _, _ => write m goal bytes executable
where
  /-- Writes the copy. -/
  write (m : Machine) (goal : Path) (bytes : Bytes) (executable : Bool) : Act Bool := do
    match m.files.write goal bytes with
    | .ok files =>
      set { m with files := if executable then files.makeProgram goal else files }
      return true
    | .error e => failed s!"cp: cannot create regular file '{goal.text}': {wording e}"

def cp (args : List Text) : Act Nat := do
  let (letters, names) := options args
  match names.reverse with
  | target :: source :: more =>
    each (source :: more).reverse fun name =>
      copyOne (letters.any fun c => c == 'r' || c == 'R' || c == 'a') name target
  | [name] =>
    Act.report s!"cp: missing destination file operand after {quote name}"
    Act.report "Try 'cp --help' for more information."
    return 1
  | [] =>
    Act.report "cp: missing file operand"
    Act.report "Try 'cp --help' for more information."
    return 1

def moveOne (name target : Text) : Act Bool := do
  let m ← get
  let from' := m.path name
  let goal := destination m.files from' (m.path target)
  match m.files.inspect from', m.files.resolve from', m.files.lastStep goal with
  | .error e, _, _ => failed s!"mv: cannot stat {quote name}: {wording e}"
  | .ok _, .ok source, .ok (.name directory last _) =>
    let place := directory ++ [last]
    if source = place then
      failed s!"mv: {quote name} and {quote target} are the same file"
    else
      let files := copyTree (m.files.removeBelow place) source place
      set { m with files := files.removeBelow source }
      return true
  | _, _, _ => failed s!"mv: cannot move {quote name} to '{goal.text}': {wording .notFound}"

def mv (args : List Text) : Act Nat := do
  let (_, names) := options args
  match names.reverse with
  | target :: source :: more => each (source :: more).reverse fun name => moveOne name target
  | [name] =>
    Act.report s!"mv: missing destination file operand after {quote name}"
    Act.report "Try 'mv --help' for more information."
    return 1
  | [] =>
    Act.report "mv: missing file operand"
    Act.report "Try 'mv --help' for more information."
    return 1

/-- Makes files that are missing. -/
def touch (args : List Text) : Act Nat := do
  let (letters, names) := options args
  if names.isEmpty then
    Act.report "touch: missing file operand"
    Act.report "Try 'touch --help' for more information."
    return 1
  each names fun name => do
    let m ← get
    let p := m.path name
    match m.files.inspect p with
    | .ok _ => return true
    | .error _ =>
      if letters.contains 'c' then return true
      else match ← Act.change (·.write p []) with
        | none => return true
        | some e => failed s!"touch: cannot touch {quote name}: {wording e}"

/-- Marks files as programs. -/
def chmod (args : List Text) : Act Nat := do
  each (args.drop 1) fun name => do
    let m ← get
    let p := m.path name
    match m.files.inspect p with
    | .ok _ =>
      set { m with files := m.files.makeProgram p }
      return true
    | .error e => failed s!"chmod: cannot access {quote name}: {wording e}"

/-- Writes standard input to standard output and to files. -/
def tee (args : List Text) : Act Nat := do
  let (letters, names) := options args
  match ← Act.drainInput with
  | .zeros => Act.depart .endless
  | .text t =>
    Act.print t
    each names fun name => do
      let p := (← get).path name
      let bytes := Text.toBytes t
      match ← Act.change fun fs => if letters.contains 'a' then fs.append p bytes else fs.write p bytes with
      | none => return true
      | some e => failed s!"tee: {Text.toString name}: {wording e}"

def namesIn (fs : FileSystem) (p : Path) : List String :=
  match fs.resolve p with
  | .ok at' => (fs.entries.toList.filterMap fun (l, _) =>
      if l.length = at'.length + 1 ∧ at'.isPrefixOf l then l.getLast? else none).mergeSort fun a b =>
        decide (a ≤ b)
  | .error _ => []

def ls (args : List Text) : Act Nat := do
  let (letters, names) := options args
  let status ← each (if names.isEmpty then [['.']] else names) fun name => do
    let m ← get
    match m.files.inspect (m.path name) with
    | .ok .directory =>
      let own := if letters.contains 'a' then [".", ".."] else []
      for entry in own ++ namesIn m.files (m.path name) do
        if letters.contains 'a' || letters.contains 'A' || !entry.startsWith "." then Act.print (Text.ofString entry ++ ['\n'])
      return true
    | .ok _ =>
      Act.print (name ++ ['\n'])
      return true
    | .error e => failed s!"ls: cannot access {quote name}: {wording e}"
  return 2 * status

/-! ## Texts -/

def wc (args : List Text) : Act Nat := do
  let (letters, names) := options args
  let isSpace (c : Char) : Bool := c == ' ' || ('\t' ≤ c && c ≤ '\r')
  let counts (t : Text) : List Nat :=
    let lines := t.count '\n'
    let words := ((Text.splitOnto isSpace [] t).filter (!·.isEmpty)).length
    let all := [('l', lines), ('w', words), ('c', t.length), ('m', t.length)]
    if letters.isEmpty then [lines, words, t.length]
    else all.filterMap fun (letter, n) => if letters.contains letter then some n else none
  each (if names.isEmpty then [['-']] else names) fun name => do
    match ← Act.readNamed name with
    | .ok .zeros => Act.depart .endless
    | .ok (.text t) =>
      let numbers := counts t
      let width := if names.isEmpty ∧ numbers.length > 1 then 7
        else (numbers.map fun n => (Text.ofNat n).length).foldl max (if numbers.length > 1 then
          (Text.ofNat t.length).length else 1)
      let shown := numbers.map fun n =>
        let digits := Text.ofNat n
        List.replicate (width - digits.length) ' ' ++ digits
      Act.print (List.intercalate [' '] shown ++ (if names.isEmpty then [] else ' ' :: name) ++ ['\n'])
      return true
    | .error e => failed s!"wc: {Text.toString name}: {wording e}"

/-- Prints integers from a first to a last one. -/
def seq (args : List Text) : Act Nat := do
  let numbers := args.map fun t => (Text.natural? t).getD 0
  let (first, step, last) := match numbers with
    | [last] => (1, 1, last)
    | [first, last] => (first, 1, last)
    | first :: step :: last :: _ => (first, max 1 step, last)
    | [] => (1, 1, 0)
  let count := if last < first then 0 else (last - first) / step + 1
  Act.print ((List.range count).flatMap fun i => Text.ofNat (first + i * step) ++ ['\n'])
  return 0

/-- A path without the slashes at its end. -/
def withoutSlashes (t : Text) : Text := (t.reverse.dropWhile (· == '/')).reverse

def basename (args : List Text) : Act Nat := do
  match args with
  | [] => missingOperand "basename"
  | t :: more =>
    let t' := withoutSlashes t
    let last := (t'.reverse.takeWhile (· ≠ '/')).reverse
    let last := if t'.isEmpty ∧ !t.isEmpty then ['/'] else last
    let ending := more.headD []
    let shown := if ending.isSuffixOf last ∧ ending ≠ last then last.take (last.length - ending.length) else last
    Act.print (shown ++ ['\n'])
    return 0

def dirname (args : List Text) : Act Nat := do
  match args with
  | [] => missingOperand "dirname"
  | t :: _ =>
    let t' := withoutSlashes t
    let before := (t'.reverse.dropWhile (· ≠ '/')).reverse
    let directory := withoutSlashes before
    let shown : Text := if before.isEmpty then ['.'] else if directory.isEmpty then ['/'] else directory
    Act.print (shown ++ ['\n'])
    return 0

/-- Prints the digests of files. -/
def sha256sum (args : List Text) : Act Nat := do
  let (_, names) := options args
  each (if names.isEmpty then [['-']] else names) fun name => do
    match ← Act.readNamed name with
    | .ok .zeros => Act.depart .endless
    | .ok (.text t) =>
      Act.print (Text.ofString (Hex.toString (Sha256.digest (Text.toBytes t)) ++ "  ") ++ name ++ ['\n'])
      return true
    | .error e => failed s!"sha256sum: {Text.toString name}: {wording e}"

/-- Prints the lines that hold a pattern, or a text as it is written. -/
def grep (args : List Text) : Act Nat := do
  let (letters, words) := options args
  match words with
  | [] =>
    Act.report "Usage: grep [OPTION]... PATTERNS [FILE]..."
    Act.report "Try 'grep --help' for more information."
    return 2
  | pattern :: names =>
    let fold (t : Text) : Text := if letters.contains 'i' then t.map Char.toLower else t
    let mut found := false
    let mut missing := false
    for name in if names.isEmpty then [['-']] else names do
      match ← Act.readNamed name with
      | .ok .zeros => Act.depart .endless
      | .ok (.text t) =>
        let lines := Text.lines t
        let lines := if lines.getLast? == some [] then lines.dropLast else lines
        let search := if letters.contains 'F' then StorageProof.Text.containsList else LinePattern.search
        let hits := lines.filter fun line => search (fold pattern) (fold line) != letters.contains 'v'
        if !hits.isEmpty then found := true
        let label : Text := if 1 < names.length ∧ !letters.contains 'h' then name ++ [':'] else []
        if letters.contains 'q' then pure ()
        else if letters.contains 'l' then Act.print (if hits.isEmpty then [] else name ++ ['\n'])
        else if letters.contains 'c' then Act.print (label ++ Text.ofNat hits.length ++ ['\n'])
        else Act.print (hits.flatMap fun line => label ++ line ++ ['\n'])
      | .error e =>
        missing := true
        Act.report s!"grep: {Text.toString name}: {wording e}"
    return if missing then 2 else if found then 0 else 1

def sort (args : List Text) : Act Nat := do
  let (letters, names) := options args
  let mut all : List Text := []
  for name in if names.isEmpty then [['-']] else names do
    match ← Act.readNamed name with
    | .ok .zeros => Act.depart .endless
    | .ok (.text t) =>
      let lines := Text.lines t
      all := all ++ if lines.getLast? == some [] then lines.dropLast else lines
    | .error e =>
      Act.report s!"sort: cannot read: {Text.toString name}: {wording e}"
      return 2
  let sorted := all.mergeSort fun a b => decide (String.ofList a ≤ String.ofList b)
  let sorted := if letters.contains 'r' then sorted.reverse else sorted
  let sorted := if letters.contains 'u' then sorted.eraseDups else sorted
  Act.print (sorted.flatMap (· ++ ['\n']))
  return 0

/-- The milliseconds of a duration in seconds or a larger unit. -/
def duration? (t : Text) : Option Nat :=
  let (factor, t) := match t.getLast? with
    | some 's' => (1, t.dropLast)
    | some 'm' => (60, t.dropLast)
    | some 'h' => (3600, t.dropLast)
    | some 'd' => (86400, t.dropLast)
    | _ => (1, t)
  let whole := t.takeWhile Char.isDigit
  let fraction? := match t.drop whole.length with
    | [] => if whole.isEmpty then none else some []
    | '.' :: digits => if digits.all Char.isDigit ∧ !(whole ++ digits).isEmpty then some digits else none
    | _ => none
  fraction?.map fun fraction =>
    let n := (whole ++ fraction).foldl (fun n c => 10 * n + (c.toNat - 48)) 0
    n * factor * 1000 / Nat.pow 10 fraction.length

def sleep (args : List Text) : Act Nat := do
  if args.isEmpty then missingOperand "sleep"
  else
    match args.find? fun t => (duration? t).isNone with
    | some t =>
      if t = "infinity".toList then
        Act.passUntil none
        return 0
      Act.report s!"sleep: invalid time interval {quote t}"
      Act.report "Try 'sleep --help' for more information."
      return 1
    | none =>
      Act.pass ((args.map fun t => (duration? t).getD 0).foldl (· + ·) 0)
      return 0

/-- Prints words; escapes count only if asked for. -/
def echo (words : List Text) : Act Nat := do
  let letters := match words with
    | ('-' :: c :: letters) :: _ =>
      if (c :: letters).all fun d => d == 'n' || d == 'e' || d == 'E' then c :: letters else []
    | _ => []
  let line := List.intercalate [' '] (if letters.isEmpty then words else words.drop 1)
  let (line, goesOn) := if letters.contains 'e' then Format.expand line else (line, true)
  Act.print (line ++ if letters.contains 'n' ∨ !goesOn then [] else ['\n'])
  return 0

def printf (args : List Text) : Act Nat := do
  match args with
  | [] => missingOperand "printf"
  | format :: words =>
    let (t, complaints, _) := Format.printf format words
    Act.print t
    for c in complaints do Act.report s!"printf: {c}"
    return if complaints.isEmpty then 0 else 1

/-- The utilities by name. -/
def table : List (String × (List Text → Act Nat)) :=
  [("true", fun _ => return 0), ("false", fun _ => return 1),
    ("echo", echo), ("printf", printf),
    ("cat", cat), ("head", head), ("tail", tail), ("tr", tr), ("rm", rm), ("rmdir", rmdir),
    ("mkdir", mkdir), ("cp", cp), ("mv", mv), ("touch", touch), ("chmod", chmod), ("tee", tee), ("ls", ls),
    ("wc", wc), ("seq", seq), ("basename", basename), ("dirname", dirname), ("sha256sum", sha256sum),
    ("grep", grep), ("sort", sort), ("sleep", sleep)]

def find? (name : String) : Option (List Text → Act Nat) := table.lookup name

/-- The directories that utilities stand in. -/
def directories : List String := ["/bin/", "/usr/bin/"]

/-- The name of the utility that a path leads to. -/
def nameOfPath? (p : String) : Option String :=
  directories.findSome? fun directory =>
    if directory.isPrefixOf p then some (String.ofList (p.toList.drop directory.length)) else none

end StorageProof.Shell.Utility
