import Std.Data.ExtTreeMap
import StorageProof.Failure
import StorageProof.Files.Path

/-!
# The file system

Files and directories by their location, which is the list of names from the root. Relative paths start at
one fixed directory. A path is followed name by name, and every name but the last must be a directory;
each operation fails with the error number that the system gives in its place. There are no links, so two
locations are never the same file. A file may be locked, and the lock belongs to the file and not to its
name: it is gone when the file is.
-/

namespace StorageProof

/-- The names from the root. -/
abbrev Location := List String

inductive Entry
  | directory
  | file (bytes : Bytes) (executable : Bool) (holder : Option Nat)
  deriving DecidableEq, Repr

def Entry.isDirectory : Entry → Bool
  | .directory => true
  | .file .. => false

def Entry.isNonEmptyFile : Entry → Bool
  | .directory => false
  | .file bytes _ _ => !bytes.isEmpty

/-- The entries by location, and how many locks have been taken so far. -/
structure FileSystem where
  entries : Std.ExtTreeMap Location Entry
  locks : Nat := 0

namespace FileSystem

/-- The directory that relative paths start from. -/
def workplace : Location := ["srv", "jobs"]

/-- A file system with the starting directory alone. -/
def empty : FileSystem where
  entries := .ofList [([], Entry.directory), (["srv"], Entry.directory), (workplace, Entry.directory)]

def entryAt? (fs : FileSystem) (at' : Location) : Option Entry := fs.entries[at']?

def put (fs : FileSystem) (at' : Location) (e : Entry) : FileSystem :=
  { fs with entries := fs.entries.insert at' e }

def drop (fs : FileSystem) (at' : Location) : FileSystem :=
  { fs with entries := fs.entries.erase at' }

@[simp] theorem entryAt?_put (fs : FileSystem) (a b : Location) (e : Entry) :
    (fs.put a e).entryAt? b = if a = b then some e else fs.entryAt? b := by
  simp [entryAt?, put, Std.ExtTreeMap.getElem?_insert]

@[simp] theorem entryAt?_drop (fs : FileSystem) (a b : Location) :
    (fs.drop a).entryAt? b = if a = b then none else fs.entryAt? b := by
  simp [entryAt?, drop, Std.ExtTreeMap.getElem?_erase]

@[ext] theorem ext {a b : FileSystem} (h : ∀ l, a.entryAt? l = b.entryAt? l) (hl : a.locks = b.locks) :
    a = b := by
  cases a; cases b
  simp only [mk.injEq]
  exact ⟨Std.ExtTreeMap.ext_getElem? h, hl⟩

/-! ## Following paths -/

/-- The largest number of bytes in a name. -/
def maxName : Nat := 255

/-- The largest number of bytes in a path. -/
def maxPath : Nat := 4095

/-- The location that names lead to. Wherever there is a name to follow, a directory must stand. -/
def walk (fs : FileSystem) : Location → List String → Except SystemError Location
  | at', [] => .ok at'
  | at', name :: rest =>
    match fs.entryAt? at' with
    | none => .error .notFound
    | some (.file ..) => .error .notADirectory
    | some .directory =>
      if name = "." then walk fs at' rest
      else if name = ".." then walk fs at'.dropLast rest
      else if maxName < name.utf8ByteSize then .error .nameTooLong
      else walk fs (at' ++ [name]) rest

/-- Where the names of a path start. -/
def start (p : Path) : Location := if p.isAbsolute then [] else workplace

/-- Refuses a path that no file can have. -/
def checkPath (p : Path) : Except SystemError Unit :=
  if p.text.toList.contains '\x00' then .error (.words "file name contained an unexpected NUL byte")
  else if p.text = "" then .error .notFound
  else if maxPath < p.text.utf8ByteSize then .error .nameTooLong
  else .ok ()

/-- The location of a path. A slash at its end asks for a directory. -/
def resolve (fs : FileSystem) (p : Path) : Except SystemError Location := do
  checkPath p
  fs.walk (start p) (p.names ++ if p.endsInSlash then ["."] else [])

/-- The last step of a path: a name in a directory, perhaps with a slash behind it, or no name at all. -/
inductive LastStep
  | name (directory : Location) (name : String) (slash : Bool)
  | noName

/-- The last step of a path, whose other steps must all be directories. -/
def lastStep (fs : FileSystem) (p : Path) : Except SystemError LastStep := do
  checkPath p
  match p.names.reverse with
  | [] => return .noName
  | last :: before =>
    let directory ← fs.walk (start p) (before.reverse ++ ["."])
    if last = "." ∨ last = ".." then return .noName
    else return .name directory last p.endsInSlash

/-- Refuses a name that no file can have. -/
def checkName (name : String) : Except SystemError Unit :=
  if maxName < name.utf8ByteSize then .error .nameTooLong else .ok ()

/-! ## Operations -/

/-- What stands at a path. -/
def inspect (fs : FileSystem) (p : Path) : Except SystemError Entry := do
  let at' ← fs.resolve p
  match fs.entryAt? at' with
  | some e => return e
  | none => .error .notFound

def isDirectory (fs : FileSystem) (p : Path) : Bool :=
  match fs.inspect p with
  | .ok e => e.isDirectory
  | .error _ => false

def isNonEmptyFile (fs : FileSystem) (p : Path) : Bool :=
  match fs.inspect p with
  | .ok e => e.isNonEmptyFile
  | .error _ => false

def read (fs : FileSystem) (p : Path) : Except SystemError Bytes := do
  match ← fs.inspect p with
  | .file bytes _ _ => return bytes
  | .directory => .error .isADirectory

/-- The location at which a file can be opened for writing, and what stands there. -/
def opened (fs : FileSystem) (p : Path) : Except SystemError (Location × Option Entry) := do
  match ← fs.lastStep p with
  | .noName => .error .isADirectory
  | .name directory name slash =>
    if slash then .error .isADirectory
    else
      checkName name
      let at' := directory ++ [name]
      match fs.entryAt? at' with
      | some .directory => .error .isADirectory
      | e => return (at', e)

/-- Writes a file from its beginning. A file that exists keeps its lock. -/
def write (fs : FileSystem) (p : Path) (bytes : Bytes) : Except SystemError FileSystem := do
  let (at', e) ← fs.opened p
  match e with
  | some (.file _ executable holder) => return fs.put at' (.file bytes executable holder)
  | _ => return fs.put at' (.file bytes false none)

def append (fs : FileSystem) (p : Path) (bytes : Bytes) : Except SystemError FileSystem := do
  let (at', e) ← fs.opened p
  match e with
  | some (.file old executable holder) => return fs.put at' (.file (old ++ bytes) executable holder)
  | _ => return fs.put at' (.file bytes false none)

def removeFile (fs : FileSystem) (p : Path) : Except SystemError FileSystem := do
  match ← fs.lastStep p with
  | .noName => .error .isADirectory
  | .name directory name slash =>
    checkName name
    let at' := directory ++ [name]
    match fs.entryAt? at' with
    | none => .error .notFound
    | some .directory => .error .isADirectory
    | some (.file ..) => if slash then .error .notADirectory else return fs.drop at'

def makeDirectory (fs : FileSystem) (p : Path) : Except SystemError FileSystem := do
  match ← fs.lastStep p with
  | .noName => .error .alreadyExists
  | .name directory name _ =>
    checkName name
    let at' := directory ++ [name]
    match fs.entryAt? at' with
    | some _ => .error .alreadyExists
    | none => return fs.put at' .directory

/-- Makes the first of a list of directories, each of which lies in the next, and those it lies in as far
as they are missing. -/
def makeDirectoriesOf (fs : FileSystem) : List Path → Except SystemError Unit × FileSystem
  | [] => (.error (.words "failed to create whole tree"), fs)
  | p :: parents =>
    if p.text = "" then (.ok (), fs)
    else match fs.makeDirectory p with
      | .ok fs => (.ok (), fs)
      | .error e =>
        if e = .notFound then
          match makeDirectoriesOf fs parents with
          | (.error e, fs) => (.error e, fs)
          | (.ok (), fs) =>
            match fs.makeDirectory p with
            | .ok fs => (.ok (), fs)
            | .error e => (if fs.isDirectory p then .ok () else .error e, fs)
        else (if fs.isDirectory p then .ok () else .error e, fs)

/-- Makes a directory and those it lies in, as far as they are missing. -/
def makeDirectories (fs : FileSystem) (p : Path) : Except SystemError Unit × FileSystem :=
  if p.text = "" then (.ok (), fs) else fs.makeDirectoriesOf p.ancestors

/-- Makes the directory that a path lies in, unless that is where relative paths start. -/
def makeParent (fs : FileSystem) (p : Path) : Except SystemError Unit × FileSystem :=
  match p.parent? with
  | some parent => fs.makeDirectories parent
  | none => (.ok (), fs)

/-- Removes what stands at a location and below it. -/
def removeBelow (fs : FileSystem) (at' : Location) : FileSystem :=
  { fs with entries := fs.entries.filter fun l _ => !at'.isPrefixOf l }

/-- Removes a file or a directory with all that is in it, if there is one. -/
def removeTree (fs : FileSystem) (p : Path) : FileSystem :=
  match fs.resolve p with
  | .ok at' => fs.removeBelow at'
  | .error _ => fs

/-- Marks a file as a program. -/
def makeProgram (fs : FileSystem) (p : Path) : FileSystem :=
  match fs.resolve p with
  | .error _ => fs
  | .ok at' =>
    match fs.entryAt? at' with
    | some (.file bytes _ holder) => fs.put at' (.file bytes true holder)
    | _ => fs

/-- The files and directories below the starting directory by their relative path, a directory with a slash
behind it and without bytes. -/
def listing (fs : FileSystem) : List (List String × Option Bytes) :=
  fs.entries.toList.filterMap fun (at', e) =>
    if workplace.isPrefixOf at' ∧ at' ≠ workplace then
      match e with
      | .directory => some (at'.drop workplace.length, none)
      | .file bytes _ _ => some (at'.drop workplace.length, some bytes)
    else none

end FileSystem

end StorageProof
