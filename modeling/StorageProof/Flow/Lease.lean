import StorageProof.Call.Runner

/-!
# Leases on working directories

Intermediate files have fixed names, so two runs in one directory would overwrite each other's. A run holds
a lock on one file of its directory for as long as it lasts. The lock is the file's and not the name's:
whoever removes the file takes the lock away with it.
-/

namespace StorageProof

/-- A working directory held by one run, by a lock with a number of its own. -/
structure Lease where
  root : Path
  lockFile : Location
  lock : Nat
  deriving DecidableEq, Repr

namespace Lease

def lockName : String := ".vidproof.lock"

/-- What the holder writes into the file with the lock. -/
def mark : Bytes := Utf8.ofString "1\n"

def file (l : Lease) (name : String) : Path := l.root.join name

def frames (l : Lease) : Path := l.file "scaled-frames.txt"

def hashes (l : Lease) : Path := l.file "phashes.txt"

/-- The proof that the proving engine makes. -/
def proof (l : Lease) : Path := l.file "zkpor_proof.dat"

/-- The witness that the proving engine makes beside the proof. -/
def witness (l : Lease) : Path := l.file "zkpor_witness.dat"

/-- The proof that the ledger has handed back. -/
def committedProof (l : Lease) : Path := l.file "zkpor_committed_proof.dat"

/-- The public inputs that a proof is checked against. -/
def publicInputs (l : Lease) : Path := l.file "zkpor_public_inputs.json"

def agreement (l : Lease) : Path := l.file "agreement.json"

/-- The lock on a file, if there is a file and a lock on it. -/
def holder? (fs : FileSystem) (at' : Location) : Option Nat :=
  match fs.entryAt? at' with
  | some (.file _ _ holder) => holder
  | _ => none

/-- The files with a lock taken on the file at a location. -/
def locked (fs : FileSystem) (at' : Location) : FileSystem :=
  { fs.put at' (.file mark false (some fs.locks)) with locks := fs.locks + 1 }

/-- Takes the lock of a directory that exists, without waiting. -/
def take (root : Path) (fs : FileSystem) : Except Failure Lease × FileSystem :=
  let p := root.join lockName
  match fs.opened p with
  | .error e => (.error (.io s!"open {p.text}" e), fs)
  | .ok (at', _) =>
    if (holder? fs at').isSome then (.error (.workDirBusy root.text), fs)
    else (.ok ⟨root, at', fs.locks⟩, locked fs at')

/-- Makes a directory where it is missing, and takes its lock. -/
def acquireIn (root : Path) (fs : FileSystem) : Except Failure Lease × FileSystem :=
  match fs.makeDirectories root with
  | (.error e, fs) => (.error (.io s!"create work dir {root.text}" e), fs)
  | (.ok (), fs) => take root fs

/-- The files after the lock is given up. A lock that has gone with its file stays gone. -/
def releaseIn (l : Lease) (fs : FileSystem) : FileSystem :=
  match fs.entryAt? l.lockFile with
  | some (.file bytes executable (some lock)) =>
    if lock = l.lock then fs.put l.lockFile (.file bytes executable none) else fs
  | _ => fs

variable {σ : Type}

def acquire (root : Path) : Action σ Lease := fun s =>
  let (result, fs) := acquireIn root s.files
  (result, { s with files := fs })

def release (l : Lease) (s : Site σ) : Site σ := { s with files := l.releaseIn s.files }

end Lease

end StorageProof
