import StorageProof.CommandLine.Outcome
import StorageProof.Files.Edit

/-!
# The program

Takes the files below the current directory, does what the words of the command line ask for, and leaves the files as
they are after it. A file that begins like a script counts as a program; the ledger's tool, the sampler, the hasher
and the proving engine are such files.
-/

namespace StorageProof.Outside

/-- Takes a file, or a directory with all that is in it. -/
partial def take (directory : String) (fs : FileSystem) (found : IO.FS.DirEntry) : IO FileSystem := do
  let name := directory ++ found.fileName
  if ← found.path.isDir then
    (← found.path.readDir).foldlM (take (name ++ "/")) (fs.edit (.directory ⟨name⟩))
  else
    let bytes := (← IO.FS.readBinFile found.path).toList
    let fs := fs.edit (.write ⟨name⟩ bytes)
    return if (Utf8.ofString "#!").isPrefixOf bytes then fs.makeProgram ⟨name⟩ else fs

/-- Leaves what has changed, a directory before what lies in it. -/
def leave (before after : FileSystem) : IO Unit := do
  let old := before.listing
  let new := after.listing
  for (names, content) in old do
    if content.isSome ∧ (new.lookup names).isNone then IO.FS.removeFile ("/".intercalate names)
  for (names, content) in new do
    if old.lookup names ≠ some content then
      match content with
      | none => IO.FS.createDirAll ("/".intercalate names)
      | some bytes => IO.FS.writeBinFile ("/".intercalate names) ⟨bytes.toArray⟩

end StorageProof.Outside

def main (words : List String) : IO UInt32 := do
  let home := (← IO.getEnv "HOME").getD ""
  let before ← (← (← IO.currentDir).readDir).foldlM (StorageProof.Outside.take "") .empty
  let (outcome, after) := StorageProof.CommandLine.run words ⟨home⟩ before
  StorageProof.Outside.leave before after
  IO.print outcome.stdout
  IO.eprint outcome.stderr
  return outcome.code.toUInt32
