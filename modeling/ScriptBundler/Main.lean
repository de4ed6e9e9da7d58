import ScriptBundler.Command.Run

/-!
# The program

Reads the files below the directory of the run, runs the command line on them,
and writes what has changed.
-/

namespace ScriptBundler

/-- The files below a directory, with their times.  The seconds of a time before the
epoch are read as zero. -/
partial def readTree (path : String) (location : Location) :
    IO (List (Location × FileEntry)) := do
  let mut found := []
  for entry in ← (← IO.FS.realPath path).readDir do
    let place := location ++ [entry.fileName]
    let info ← entry.path.metadata
    match info.type with
    | .dir =>
        let below ← readTree (FilePath.join path entry.fileName) place
        found := found ++ (place, .directory) :: below
    | .file =>
        let content ← IO.FS.readBinFile entry.path
        let modified := Timestamp.ofParts info.modified.sec.toNat info.modified.nsec.toNat
        found := found ++ [(place, .file content.toList modified)]
    | _ => pure ()
  return found

def ancestors (location : Location) : List (Location × FileEntry) :=
  (List.range location.length).map (fun n => (location.take (n + 1), .directory))

/-- The files that a command in a directory can see. -/
def snapshot (workDir : Location) (path : String) : IO Files := do
  let location := FilePath.components path
  let below ← try readTree path location catch _ => pure []
  let above := ancestors workDir ++ (if below.isEmpty then [] else ancestors location)
  return ⟨above.eraseDups ++ below, workDir, ⟨0, 0⟩⟩

def pathOf (location : Location) : String :=
  "/" ++ "/".intercalate location

/-- Write what was made or changed. -/
def writeBack (before after : Files) : IO Unit := do
  for (location, entry) in after.entries do
    if before.at? location != some entry then
      match entry with
      | .directory => IO.FS.createDirAll (pathOf location)
      | .file content _ => IO.FS.writeBinFile (pathOf location) ⟨content.toArray⟩

def runDirectory (args : List String) (cwd : String) : String :=
  match Invocation.parse args with
  | .ok invocation => FilePath.join cwd (invocation.settings.cwd.getD "")
  | .error _ => cwd

end ScriptBundler

open ScriptBundler

def main (args : List String) : IO UInt32 := do
  let cwd := (← IO.currentDir).toString
  let start ← IO.monoMsNow
  let files ← snapshot (FilePath.components cwd) (runDirectory args cwd)
  let outcome := Invocation.run args cwd files
  writeBack files outcome.files
  let stop ← IO.monoMsNow
  IO.print (outcome.output (stop - start))
  for note in outcome.notes do
    IO.eprintln note
  for reason in outcome.failure do
    IO.eprintln ("Error: " ++ reason)
  return UInt32.ofNat outcome.exitCode
