import StorageProof.Shell.Syntax

/-!
# Reading scripts

A script is read one line of commands at a time, since the commands of a line run before the next line is looked
at. The recursion is bounded by a measure of the text that is still to be read.
-/

namespace StorageProof.Shell

structure Source where
  rest : Text
  line : Nat := 1

structure SyntaxFault where
  line : Nat
  reason : String
  deriving DecidableEq, Repr

/-- Reads something from a source. -/
abbrev Read (α : Type) := StateT Source (Except SyntaxFault) α

namespace Read

def rest : Read Text := do return (← get).rest

/-- Leaves other text to be read; the line feeds that are passed over are counted. -/
def skipTo (rest : Text) (passed : Text) : Read Unit :=
  modify fun s => ⟨rest, s.line + passed.count '\n'⟩

def drop (n : Nat) : Read Unit := do
  let s ← rest
  skipTo (s.drop n) (s.take n)

def refuse {α : Type} (reason : String) : Read α := fun s => .error ⟨s.line, reason⟩

/-- Passes over characters as long as they have a property, and gives them. -/
def takeWhile (p : Char → Bool) : Read Text := do
  let s ← rest
  let front := s.takeWhile p
  skipTo (s.drop front.length) front
  return front

end Read

/-! ## Characters and words -/

/-- Space and tab. -/
def isBlank (c : Char) : Bool := c == ' ' || c == '\t'

def endsWord (c : Char) : Bool :=
  isBlank c || c == '\n' || c == ';' || c == '&' || c == '|' || c == '<' || c == '>' || c == '(' || c == ')'

def beginsName (c : Char) : Bool := c.isAlpha || c == '_'

def isOfName (c : Char) : Bool := c.isAlphanum || c == '_'

def isName : Text → Bool
  | [] => false
  | c :: rest => beginsName c && rest.all isOfName

/-- The characters that name a parameter by themselves. -/
def isSpecial (c : Char) : Bool := c.isDigit || "@*#?-$!".toList.contains c

/-- The words that have a meaning in the place of a command. -/
def reserved : List Text :=
  ["if", "then", "else", "elif", "fi", "do", "done", "case", "esac", "while", "until", "for", "\x7b",
    "\x7d"].map String.toList

/-- Whether a word cannot begin a command but ends a list of them. -/
def endsList (word : Text) : Bool :=
  (["then", "else", "elif", "fi", "do", "done", "esac", "\x7d"].map String.toList).contains word

/-- A command before others. -/
def joined (first : Command) : Command → Command
  | .sequence commands => .sequence (first :: commands)
  | command => .sequence [first, command]

/-- The text without a continued line in front. -/
def skipContinued : (fuel : Nat) → Text → Text
  | fuel + 1, '\\' :: '\n' :: rest => skipContinued fuel (rest.dropWhile isBlank)
  | _, s => s

/-- Passes over blanks, continued lines and a comment. -/
def skipBlanks : Read Unit := do
  let _ ← Read.takeWhile isBlank
  let s ← Read.rest
  let s' := skipContinued s.length s
  Read.skipTo s' (s.take (s.length - s'.length))
  match s' with
  | '#' :: _ => let _ ← Read.takeWhile (· ≠ '\n')
  | _ => return ()

/-- Passes over blanks, comments and line feeds, at most `fuel` lines of them. -/
def skipLines : (fuel : Nat) → Read Unit
  | 0 => return ()
  | fuel + 1 => do
    skipBlanks
    match ← Read.rest with
    | '\n' :: _ => do
      Read.drop 1
      skipLines fuel
    | _ => return ()

/-- The word in front, as it is written, if it is one that has no quotes. -/
def frontWord (s : Text) : Text := s.takeWhile (!endsWord ·)

/-- How the front of a text is called in a message. -/
def frontName (s : Text) : String :=
  match s with
  | [] => "end of file"
  | '\n' :: _ => "newline"
  | ';' :: ';' :: _ => "\";;\""
  | '&' :: '&' :: _ => "\"&&\""
  | '|' :: '|' :: _ => "\"||\""
  | c :: rest =>
    let word := frontWord (c :: rest)
    "\"" ++ Text.toString (if word.isEmpty then [c] else word) ++ "\""

/-- Refuses the front of the text, perhaps with what was due. -/
def unexpected {α : Type} (due : Option String) : Read α := do
  let name := frontName (← Read.rest)
  let suffix := match due with
    | some due => s!" (expecting \"{due}\")"
    | none => ""
  Read.refuse s!"Syntax error: {name} unexpected{suffix}"

def expectWord (word : String) : Read Unit := do
  if frontWord (← Read.rest) = word.toList then Read.drop word.length else unexpected (some word)

def expectChar (c : Char) : Read Unit := do
  if (← Read.rest).head? = some c then Read.drop 1 else unexpected (some (String.singleton c))

/-! ## Pieces of words -/

/-- Where pieces are read, which decides what ends them and what is quoted. -/
inductive Place
  | word
  | quotes
  | braces (quoted : Bool)
  | sum (depth : Nat)
  | document
  deriving DecidableEq, Repr

namespace Place

def isQuoted : Place → Bool
  | word => false
  | quotes => true
  | braces quoted => quoted
  | sum _ => true
  | document => true

/-- Whether the pieces of a place end before a text. -/
def isEnd : Place → Text → Bool
  | word, c :: _ => endsWord c
  | quotes, c :: _ => c == '"'
  | braces _, c :: _ => c == '\x7d'
  | sum 0, ')' :: ')' :: _ => true
  | _, _ => false

/-- Whether a backslash takes the meaning of a character away. -/
def escapes (p : Place) (c : Char) : Bool :=
  !p.isQuoted || c == '$' || c == '\\' || c == '\x60' || (c == '"' && p != .document)

/-- Whether a character stands for itself, whatever follows it. -/
def isPlain (p : Place) (c : Char) : Bool :=
  !(c == '\\' || c == '$' || c == '\x60' || c == '"' || c == '\'' || c == '(' || c == ')' || c == '\x7d' ||
    (p == .word && endsWord c))

end Place

/-- The text between backquotes, with the quoting of their characters taken away. -/
def backquoted : Text → Option (Text × Text)
  | [] => none
  | '\x60' :: rest => some ([], rest)
  | '\\' :: c :: rest =>
    (backquoted rest).map fun (t, rest) =>
      (if c = '\x60' ∨ c = '\\' ∨ c = '$' then (c :: t, rest) else ('\\' :: c :: t, rest))
  | c :: rest => (backquoted rest).map fun (t, rest) => (c :: t, rest)

/-- The lines of a here-document up to its delimiter, and what follows them. The end of the script ends it too. -/
def documentLines (delimiter : Text) (stripTabs : Bool) : (fuel : Nat) → Text → Text × Text
  | 0, s => ([], s)
  | fuel + 1, s =>
    if s.isEmpty then ([], [])
    else
      let line := s.takeWhile (· ≠ '\n')
      let rest := (s.dropWhile (· ≠ '\n')).drop 1
      let line := if stripTabs then line.dropWhile (· == '\t') else line
      if line = delimiter then ([], rest)
      else
        let ended := s.any (· == '\n')
        let (body, rest) := documentLines delimiter stripTabs fuel rest
        (line ++ (if ended then '\n' :: body else body), rest)

def Word.isQuoted (w : Word) : Bool :=
  w.any fun
    | .text _ quoted => quoted
    | _ => true

/-- The characters of a word that nothing is replaced in. -/
def Word.plainText (w : Word) : Text :=
  w.flatMap fun
    | .text chars _ => chars
    | _ => []

/-- The home directory, which a tilde stands for. -/
def homePiece : Piece := .parameter "HOME".toList .value true

/-- The name and the start of the value of a word that assigns. -/
def Word.assignment? (w : Word) : Option (Text × Word) :=
  match w with
  | .text chars false :: rest =>
    let name := chars.takeWhile (· ≠ '=')
    if isName name ∧ name.length < chars.length then
      match chars.drop (name.length + 1) with
      | [] => some (name, rest)
      | ['~'] => some (name, homePiece :: rest)
      | '~' :: '/' :: value => some (name, homePiece :: .text ('/' :: value) false :: rest)
      | value => some (name, .text value false :: rest)
    else none
  | _ => none

/-- The descriptor that a redirection is for, where it is not given. -/
def defaultDescriptor (mark : Char) : Nat := if mark = '<' then 0 else 1

mutual

/-- The pieces up to the end of their place. -/
def readPieces : (fuel : Nat) → Place → Read Word
  | 0, _ => Read.refuse "Syntax error: too long"
  | fuel + 1, p => do
    let s ← Read.rest
    if p.isEnd s then return []
    match s with
    | [] =>
      match p with
      | .word | .document => return []
      | .quotes => Read.refuse "Syntax error: Unterminated quoted string"
      | .braces _ => Read.refuse "Syntax error: Missing '\x7d'"
      | .sum _ => Read.refuse "Syntax error: Missing '))'"
    | '\\' :: '\n' :: _ =>
      Read.drop 2
      readPieces fuel p
    | '\\' :: c :: _ =>
      Read.drop 2
      let rest ← readPieces fuel p
      return (if p.escapes c then .text [c] true else .text ['\\', c] true) :: rest
    | '\\' :: [] =>
      Read.drop 1
      return [.text ['\\'] true]
    | '\'' :: _ =>
      if p.isQuoted then readPlain fuel p 1
      else
        Read.drop 1
        let chars ← Read.takeWhile (· ≠ '\'')
        if (← Read.rest).isEmpty then Read.refuse "Syntax error: Unterminated quoted string"
        Read.drop 1
        let rest ← readPieces fuel p
        return .text chars true :: rest
    | '"' :: _ =>
      if p = .document then readPlain fuel p 1
      else
        Read.drop 1
        match p with
        | .sum _ => readPieces fuel p
        | _ =>
          let inner ← readPieces fuel .quotes
          expectChar '"'
          let rest ← readPieces fuel p
          return (if inner.isEmpty then [.text [] true] else inner) ++ rest
    | '$' :: _ =>
      Read.drop 1
      let piece ← readDollar fuel p.isQuoted
      let rest ← readPieces fuel p
      return piece :: rest
    | '\x60' :: rest =>
      match backquoted rest with
      | none => Read.refuse "Syntax error: EOF in backquote substitution"
      | some (inner, rest') =>
        let line := (← get).line
        Read.skipTo rest' ((s.take (s.length - rest'.length)))
        let after ← get
        set (Source.mk inner line)
        let body ← readList fuel
        if !(← Read.rest).isEmpty then unexpected none
        set after
        let rest ← readPieces fuel p
        return .command body p.isQuoted :: rest
    | c :: _ =>
      match p with
      | .sum depth =>
        if c = '(' then readPlain fuel (.sum (depth + 1)) 1
        else if c = ')' then readPlain fuel (.sum (depth - 1)) 1
        else readPlain fuel p (s.takeWhile p.isPlain).length
      | p => readPlain fuel p (max 1 (s.takeWhile p.isPlain).length)

/-- So many characters that stand for themselves, and the pieces after them. -/
def readPlain : (fuel : Nat) → Place → (count : Nat) → Read Word
  | 0, _, _ => Read.refuse "Syntax error: too long"
  | fuel + 1, p, count => do
    let s ← Read.rest
    Read.drop count
    let rest ← readPieces fuel p
    return .text (s.take count) p.isQuoted :: rest

/-- What a dollar sign introduces. -/
def readDollar : (fuel : Nat) → (quoted : Bool) → Read Piece
  | 0, _ => Read.refuse "Syntax error: too long"
  | fuel + 1, quoted => do
    match ← Read.rest with
    | '(' :: '(' :: _ =>
      Read.drop 2
      let expression ← readPieces fuel (.sum 0)
      Read.drop 2
      return .arithmetic expression quoted
    | '(' :: _ =>
      Read.drop 1
      let body ← readList fuel
      expectChar ')'
      return .command body quoted
    | '\x7b' :: _ =>
      Read.drop 1
      readBraces fuel quoted
    | c :: _ =>
      if beginsName c then
        let name ← Read.takeWhile isOfName
        return .parameter name .value quoted
      else if isSpecial c then
        Read.drop 1
        return .parameter [c] .value quoted
      else return .text ['$'] quoted
    | [] => return .text ['$'] quoted

/-- A parameter between braces. -/
def readBraces : (fuel : Nat) → (quoted : Bool) → Read Piece
  | 0, _ => Read.refuse "Syntax error: too long"
  | fuel + 1, quoted => do
    let s ← Read.rest
    let measured := match s with
      | '#' :: c :: _ => isOfName c || isSpecial c
      | _ => false
    if measured then
      Read.drop 1
      let name ← readParameterName
      expectChar '\x7d'
      return .parameter name .length quoted
    else
      let name ← readParameterName
      let s ← Read.rest
      match s with
      | '\x7d' :: _ =>
        Read.drop 1
        return .parameter name .value quoted
      | '#' :: '#' :: _ => readStrip fuel name false true quoted
      | '#' :: _ => readStrip fuel name false false quoted
      | '%' :: '%' :: _ => readStrip fuel name true true quoted
      | '%' :: _ => readStrip fuel name true false quoted
      | ':' :: mark :: _ =>
        if "-=?+".toList.contains mark then
          Read.drop 2
          let word ← readPieces fuel (.braces quoted)
          expectChar '\x7d'
          return .parameter name (.otherwise mark true word) quoted
        else Read.refuse "Bad substitution"
      | mark :: _ =>
        if "-=?+".toList.contains mark then
          Read.drop 1
          let word ← readPieces fuel (.braces quoted)
          expectChar '\x7d'
          return .parameter name (.otherwise mark false word) quoted
        else Read.refuse "Bad substitution"
      | [] => Read.refuse "Syntax error: Missing '\x7d'"

/-- A pattern that is taken off a parameter. -/
def readStrip : (fuel : Nat) → Text → (fromEnd longest quoted : Bool) → Read Piece
  | 0, _, _, _, _ => Read.refuse "Syntax error: too long"
  | fuel + 1, name, fromEnd, longest, quoted => do
    Read.drop (if longest then 2 else 1)
    let pattern ← readPieces fuel (.braces false)
    expectChar '\x7d'
    return .parameter name (.strip fromEnd longest pattern) quoted

/-- The name of a parameter between braces. -/
def readParameterName : Read Text := do
  match ← Read.rest with
  | c :: _ =>
    if beginsName c then Read.takeWhile isOfName
    else if c.isDigit then Read.takeWhile Char.isDigit
    else if isSpecial c then do
      Read.drop 1
      return [c]
    else Read.refuse "Bad substitution"
  | [] => Read.refuse "Syntax error: Missing '\x7d'"

/-- A word; a tilde alone or before a slash at its beginning stands for the home directory. -/
def readWord : (fuel : Nat) → Read Word
  | 0 => Read.refuse "Syntax error: too long"
  | fuel + 1 => do
    let isHome := match ← Read.rest with
      | ['~'] => true
      | '~' :: c :: _ => c == '/' || endsWord c
      | _ => false
    if isHome then
      Read.drop 1
      return homePiece :: (← readPieces fuel .word)
    else readPieces fuel .word

/-- A list of at least one command. -/
def readBody : (fuel : Nat) → Read Command
  | 0 => Read.refuse "Syntax error: too long"
  | fuel + 1 => do
    let body ← readList fuel
    let atEnd := (← Read.rest).isEmpty
    match body with
    | .sequence [] => if atEnd then return body else unexpected none
    | body => return body

/-- A list of commands up to something that cannot follow a command. -/
def readList : (fuel : Nat) → Read Command
  | 0 => Read.refuse "Syntax error: too long"
  | fuel + 1 => do
    skipLines fuel
    let s ← Read.rest
    if s.isEmpty || s.head? == some ')' || ";;".toList.isPrefixOf s || endsList (frontWord s) then
      return .sequence []
    let first ← readAndOr fuel
    skipBlanks
    match ← Read.rest with
    | ';' :: ';' :: _ => return first
    | ';' :: _ =>
      Read.drop 1
      return joined first (← readList fuel)
    | '&' :: _ =>
      Read.drop 1
      return joined (.background first) (← readList fuel)
    | '\n' :: _ => return joined first (← readList fuel)
    | _ => return first

/-- Commands joined by the signs for both and either. -/
def readAndOr : (fuel : Nat) → Read Command
  | 0 => Read.refuse "Syntax error: too long"
  | fuel + 1 => do
    let first ← readPipeline fuel
    readAndOrAfter fuel first

/-- What the signs for both and either join to a command. -/
def readAndOrAfter : (fuel : Nat) → Command → Read Command
  | 0, _ => Read.refuse "Syntax error: too long"
  | fuel + 1, first => do
    skipBlanks
    match ← Read.rest with
    | '&' :: '&' :: _ =>
      Read.drop 2
      skipLines fuel
      let second ← readPipeline fuel
      readAndOrAfter fuel (.both first second)
    | '|' :: '|' :: _ =>
      Read.drop 2
      skipLines fuel
      let second ← readPipeline fuel
      readAndOrAfter fuel (.either first second)
    | _ => return first

/-- Commands joined by pipes. -/
def readPipeline : (fuel : Nat) → Read Command
  | 0 => Read.refuse "Syntax error: too long"
  | fuel + 1 => do
    skipBlanks
    if frontWord (← Read.rest) = ['!'] then
      Read.drop 1
      let commands ← readPipes fuel
      return .pipeline true commands
    else
      match ← readPipes fuel with
      | [command] => return command
      | commands => return .pipeline false commands

/-- The commands of a pipeline. -/
def readPipes : (fuel : Nat) → Read (List Command)
  | 0 => Read.refuse "Syntax error: too long"
  | fuel + 1 => do
    let command ← readCommand fuel
    skipBlanks
    match ← Read.rest with
    | '|' :: '|' :: _ => return [command]
    | '|' :: _ =>
      Read.drop 1
      skipLines fuel
      return command :: (← readPipes fuel)
    | _ => return [command]

/-- One command, with the redirections of a compound one. -/
def readCommand : (fuel : Nat) → Read Command
  | 0 => Read.refuse "Syntax error: too long"
  | fuel + 1 => do
    skipBlanks
    let line := (← get).line
    let s ← Read.rest
    let word := frontWord s
    let compound? : Option Command ← do
      if s.head? = some '(' then
        Read.drop 1
        let body ← readBody fuel
        skipBlanks
        expectChar ')'
        pure (some (.subshell body))
      else if word = ['\x7b'] then
        Read.drop 1
        let body ← readBody fuel
        expectWord "\x7d"
        pure (some body)
      else if word = "if".toList then
        Read.drop 2
        some <$> readBranches fuel []
      else if word = "while".toList ∨ word = "until".toList then
        Read.drop 5
        let condition ← readBody fuel
        expectWord "do"
        let body ← readBody fuel
        expectWord "done"
        pure (some (.loop (word = "while".toList) condition body))
      else if word = "for".toList then
        Read.drop 3
        some <$> readFor fuel line
      else if word = "case".toList then
        Read.drop 4
        some <$> readCase fuel line
      else pure none
    match compound? with
    | none => readSimple fuel line [] [] []
    | some body =>
      match ← readRedirections fuel with
      | [] => return body
      | redirections => return .redirected line body redirections

/-- The branches of a conditional, from the condition of one on. -/
def readBranches : (fuel : Nat) → List (Command × Command) → Read Command
  | 0, _ => Read.refuse "Syntax error: too long"
  | fuel + 1, before => do
    let condition ← readBody fuel
    expectWord "then"
    let body ← readBody fuel
    let branches := before ++ [(condition, body)]
    let word := frontWord (← Read.rest)
    if word = "elif".toList then
      Read.drop 4
      readBranches fuel branches
    else if word = "else".toList then
      Read.drop 4
      let last ← readBody fuel
      expectWord "fi"
      return .conditional branches (some last)
    else
      expectWord "fi"
      return .conditional branches none

/-- A loop over words, after its first word. -/
def readFor : (fuel : Nat) → (line : Nat) → Read Command
  | 0, _ => Read.refuse "Syntax error: too long"
  | fuel + 1, line => do
    skipBlanks
    let name ← Read.takeWhile isOfName
    if !isName name then Read.refuse "Syntax error: Bad for loop variable"
    skipLines fuel
    let words ← do
      if frontWord (← Read.rest) = "in".toList then
        Read.drop 2
        let words ← readWords fuel
        pure (some words)
      else pure none
    skipBlanks
    if (← Read.rest).head? = some ';' then Read.drop 1
    skipLines fuel
    expectWord "do"
    let body ← readBody fuel
    expectWord "done"
    return .each line name words body

/-- Words up to the end of the line or of the command. -/
def readWords : (fuel : Nat) → Read (List Word)
  | 0 => Read.refuse "Syntax error: too long"
  | fuel + 1 => do
    skipBlanks
    match ← Read.rest with
    | [] => return []
    | c :: _ =>
      if endsWord c then return []
      let word ← readWord fuel
      return word :: (← readWords fuel)

/-- A choice, after its first word. -/
def readCase : (fuel : Nat) → (line : Nat) → Read Command
  | 0, _ => Read.refuse "Syntax error: too long"
  | fuel + 1, line => do
    skipBlanks
    let word ← readWord fuel
    skipLines fuel
    expectWord "in"
    let branches ← readChoices fuel
    expectWord "esac"
    return .choice line word branches

def readChoices : (fuel : Nat) → Read (List (List Word × Command))
  | 0 => Read.refuse "Syntax error: too long"
  | fuel + 1 => do
    skipLines fuel
    if frontWord (← Read.rest) = "esac".toList then return []
    if (← Read.rest).head? = some '(' then Read.drop 1
    let patterns ← readPatterns fuel
    expectChar ')'
    let body ← readList fuel
    if ";;".toList.isPrefixOf (← Read.rest) then
      Read.drop 2
      return (patterns, body) :: (← readChoices fuel)
    else return [(patterns, body)]

def readPatterns : (fuel : Nat) → Read (List Word)
  | 0 => Read.refuse "Syntax error: too long"
  | fuel + 1 => do
    skipBlanks
    let pattern ← readPieces fuel .word
    if pattern.isEmpty then unexpected (some ")")
    skipBlanks
    if (← Read.rest).head? = some '|' then
      Read.drop 1
      return pattern :: (← readPatterns fuel)
    else return [pattern]

/-- A simple command, of which some has been read, newest first, or the definition of a function. -/
def readSimple : (fuel : Nat) → (line : Nat) → List (Text × Word) → List Word → List Redirection →
    Read Command
  | 0, _, _, _, _ => Read.refuse "Syntax error: too long"
  | fuel + 1, line, assignments, words, redirections => do
    skipBlanks
    let s ← Read.rest
    match ← readRedirection? fuel with
    | some redirection => readSimple fuel line assignments words (redirection :: redirections)
    | none =>
      let ended := match s with
        | c :: _ => endsWord c
        | [] => true
      if ended then
        match words, assignments, redirections, s with
        | [name], [], [], '(' :: _ =>
          Read.drop 1
          skipBlanks
          expectChar ')'
          if !isName (Word.plainText name) then Read.refuse "Syntax error: Bad function name"
          skipLines fuel
          let body ← readCommand fuel
          return .function (Word.plainText name) body
        | [], [], [], _ => unexpected none
        | _, _, _, '(' :: _ => unexpected none
        | _, _, _, _ =>
          return .simple line assignments.reverse words.reverse redirections.reverse
      else
        if words.isEmpty ∧ assignments.isEmpty ∧ redirections.isEmpty ∧ reserved.contains (frontWord s) then
          unexpected none
        let word ← readWord fuel
        match words, Word.assignment? word with
        | [], some assignment => readSimple fuel line (assignment :: assignments) words redirections
        | words, _ => readSimple fuel line assignments (word :: words) redirections

/-- The redirections after a compound command. -/
def readRedirections : (fuel : Nat) → Read (List Redirection)
  | 0 => Read.refuse "Syntax error: too long"
  | fuel + 1 => do
    skipBlanks
    match ← readRedirection? fuel with
    | some redirection => return redirection :: (← readRedirections fuel)
    | none => return []

/-- A redirection, if there is one in front. -/
def readRedirection? : (fuel : Nat) → Read (Option Redirection)
  | 0 => Read.refuse "Syntax error: too long"
  | fuel + 1 => do
    let s ← Read.rest
    let digits := s.takeWhile Char.isDigit
    match s.drop digits.length with
    | '<' :: '<' :: more =>
      let stripTabs := more.head? = some '-'
      Read.drop (digits.length + if stripTabs then 3 else 2)
      let target ← readDocument fuel stripTabs
      return some ((Text.natural? digits).getD 0, target)
    | mark :: more =>
      if mark = '<' ∨ mark = '>' then
        let descriptor := (Text.natural? digits).getD (defaultDescriptor mark)
        let second := more.head?
        let size := if (mark = '>' ∧ (second = some '>' ∨ second = some '|')) ∨ second = some '&' then 2 else 1
        Read.drop (digits.length + size)
        skipBlanks
        let word ← readWord fuel
        if word.isEmpty then unexpected none
        let target : Target :=
          if second = some '&' then .copy word
          else if mark = '<' then .input word
          else .output word (second = some '>')
        return some (descriptor, target)
      else return none
    | [] => return none

/-- A here-document: its body stands below the line that is being read, and is taken out of there. -/
def readDocument : (fuel : Nat) → (stripTabs : Bool) → Read Target
  | 0, _ => Read.refuse "Syntax error: too long"
  | fuel + 1, stripTabs => do
    skipBlanks
    let delimiter ← readPieces fuel .word
    let s ← Read.rest
    let line := s.takeWhile (· ≠ '\n')
    let below := (s.drop line.length).drop 1
    let (body, after) := documentLines (Word.plainText delimiter) stripTabs s.length below
    if Word.isQuoted delimiter then
      modify fun source => { source with rest := line ++ '\n' :: after }
      return .document [.text body true]
    else
      let source ← get
      set { source with rest := body }
      let pieces ← readPieces fuel .document
      set { source with rest := line ++ '\n' :: after }
      return .document pieces

end

/-- The commands of a line, up to its end. -/
def readRestOfLine : (fuel : Nat) → Read (List Command)
  | 0 => Read.refuse "Syntax error: too long"
  | fuel + 1 => do
    skipBlanks
    match ← Read.rest with
    | [] => return []
    | '\n' :: _ =>
      Read.drop 1
      return []
    | s =>
      let command ← readAndOr (16 * s.length + 64)
      skipBlanks
      match ← Read.rest with
      | ';' :: ';' :: _ => unexpected none
      | ';' :: _ =>
        Read.drop 1
        return command :: (← readRestOfLine fuel)
      | '&' :: _ =>
        Read.drop 1
        return .background command :: (← readRestOfLine fuel)
      | [] => return [command]
      | '\n' :: _ =>
        Read.drop 1
        return [command]
      | _ => unexpected none

/-- The next line of commands, and the source after it; nothing at the end of the script. -/
def readLine (s : Source) : Except SyntaxFault (Option (Command × Source)) := do
  let (_, s) ← (skipLines (s.rest.length + 1)).run s
  if s.rest.isEmpty then return none
  let (commands, s) ← (readRestOfLine (s.rest.length + 1)).run s
  return some (.sequence commands, s)

end StorageProof.Shell
