import StorageProof.Files.FileSystem

/-!
# Edits

Changes that somebody makes to the files from outside: a file is written with the directories it lies in, a
file or a tree is removed, a directory is made in the place of a file. An edit that the system refuses is left
out.
-/

namespace StorageProof

inductive Edit
  | write (path : Path) (bytes : Bytes)
  | remove (path : Path)
  | directory (path : Path)
  deriving DecidableEq, Repr

namespace FileSystem

/-- The files with a file written, or as they were if that is refused. -/
def overwrite (fs : FileSystem) (p : Path) (bytes : Bytes) : FileSystem :=
  match fs.write p bytes with
  | .ok fs => fs
  | .error _ => fs

def edit (fs : FileSystem) : Edit → FileSystem
  | .write p bytes => (fs.makeParent p).2.overwrite p bytes
  | .remove p => fs.removeTree p
  | .directory p =>
    match fs.removeFile p with
    | .ok fs => (fs.makeDirectories p).2
    | .error _ => (fs.makeDirectories p).2

/-- The files after edits, the first one first. -/
def edits (fs : FileSystem) (es : List Edit) : FileSystem := es.foldl edit fs

end FileSystem

end StorageProof
