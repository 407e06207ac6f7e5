import Coprocess.Execution

/-!
# The command line

* `surroundings`: what the run of a command line finds;
* `settle`: leaves on the disk what a run has created;
* `main`: carries out a command line.

Nothing is decided here: `Coprocess.execute` says what a run writes and with which code it ends.
-/

namespace Coprocess

/-- The code of the error that a directory cannot be read as a file. -/
def directoryError : UInt32 := 21

/-- What is at a path, if something can be read there. -/
def probe (path : Bytes) : IO (Option (Bytes × Node)) := do
  try
    let content ← IO.FS.readBinFile (Utf8.lossyString path)
    return some (path, .file content.toList)
  catch
    | .inappropriateType _ code _ =>
      return if code = directoryError then some (path, .directory) else none
    | _ => return none

/-- What a run finds. Devices are not looked at beforehand, because reading them need not end. -/
def surroundings (args : List Bytes) : IO Surroundings := do
  let bindings ← heededNames.mapM fun name => return (name, ← IO.getEnv name)
  let lookup (name : String) : Option String := (bindings.lookup name).join
  let (readsInput, paths) := needs args lookup
  let device (path : Bytes) : Bool := (Bytes.ofString "/dev/").isPrefixOf path
  let found ← (paths.filter (!device ·)).filterMapM probe
  let current := FileTree.place [] (Bytes.ofString (← IO.currentDir).toString)
  let input ← if readsInput then (← IO.getStdin).readBinToEnd else pure .empty
  return { tree := .ofFound current found, input := input.toList, lookup }

/-- Creates on the disk the files and directories that a run has added to what it found. -/
def settle (before after : FileTree) : IO Unit :=
  (after.createdSince before).forM fun (place, node) => do
    let path := Utf8.lossyString (FileTree.pathTo place)
    match node with
    | .directory => IO.FS.createDirAll path
    | _ => discard (IO.FS.Handle.mk path .append)

/-- Writes bytes to a stream. -/
def emit (stream : IO.FS.Stream) (content : Bytes) : IO Unit := do
  stream.write ⟨content.toArray⟩
  stream.flush

end Coprocess

open Coprocess in
/-- Carries out a command line. A run that does not end is waited for. -/
def main (words : List String) : IO UInt32 := do
  let args := words.map Bytes.ofString
  let found ← surroundings args
  match execute args found with
  | some ended =>
    settle found.tree ended.tree
    emit (← IO.getStdout) ended.output
    emit (← IO.getStderr) ended.errors
    return ended.code.toUInt32
  | none =>
    repeat IO.sleep 1000
    return 0
