/-
The command line. It gathers what a run looks at, and carries out what the run asks for: the
output, the exit code, the directories and the logs that are new. The ledger of a server lives as
long as the run does.
-/
import ShapeLedger.Program

namespace ShapeLedger.CommandLine

open Files Ledger

/-- The error number of a read from a directory. -/
def directoryNumber : UInt32 := 21

/-- What stands at a path, if anything can be read there. -/
def entryAt (p : Path) : IO (Option (Entry Contents)) := do
  try
    return some (.file (.bytes (← IO.FS.readBinFile p.toString).toList))
  catch
    | .inappropriateType _ number _ =>
      return if number = directoryNumber then some .directory else none
    | _ => return none

/-- Adds what stands at a path to a working directory. -/
def load (disk : Disk) (p : Path) : IO Disk := do
  if p.isEmpty then return disk
  match ← entryAt p with
  | some e => return disk.put (Directory.destination p) e
  | none => return disk

/-- What a run is given. -/
def gather (words : List String) : IO Program.Input := do
  let above := (Path.ofString (toString (← IO.currentDir))).names
  let disk ← ((Program.filesRead words).flatMap Path.lineage).foldlM load ⟨above, []⟩
  let stdin ← if Program.readsStdin words then (← IO.getStdin).readBinToEnd else pure .empty
  let database ← IO.getEnv Program.databaseVariable
  let colours ← IO.getEnv Program.colourVariable
  return ⟨words, stdin.toList, disk, { database, colours }⟩

/-- Makes a directory or a log that a run has added. -/
def settle (before : Disk) (added : Location × Entry Contents) : IO Unit := do
  let name := "/".intercalate added.1
  match before.entry? added.1, added.2 with
  | none, .directory => IO.FS.createDirAll name
  | none, .file (.bytes b) => IO.FS.writeBinFile name ⟨b.toArray⟩
  | _, _ => return ()

end ShapeLedger.CommandLine

def main (words : List String) : IO UInt32 := do
  let input ← ShapeLedger.CommandLine.gather words
  let (outcome, disk) := ShapeLedger.Program.run input
  disk.entries.reverse.forM (ShapeLedger.CommandLine.settle input.disk)
  (← IO.getStdout).putStr outcome.stdout
  (← IO.getStderr).putStr outcome.stderr
  return outcome.exitCode.toUInt32
