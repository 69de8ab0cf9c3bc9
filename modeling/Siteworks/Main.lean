import Siteworks.CommandLine.Run

/-!
# The program

Loads what a command may read into a file system, runs the command on it, and brings the disk to
the state that the run ends in. Symbolic links, and what scaffolds leave behind, are not loaded,
because no command makes anything of them.
-/

namespace Siteworks

/-- Read a stream to its end, behind what has been read. -/
partial def readStream (stream : IO.FS.Stream) (read : ByteArray) : IO ByteArray := do
  let chunk ← stream.read 65536
  if chunk.isEmpty then return read
  readStream stream (read ++ chunk)

/-- Load the file or directory at a place on the disk, if there is one, into the file system. -/
partial def load (fs : FileSystem) (place : Place) : IO FileSystem := do
  let path := "/" ++ "/".intercalate place
  let entries ← try some <$> (do (← IO.FS.realPath path).readDir) catch _ => pure none
  match entries with
  | some entries =>
    let kept := entries.filter fun entry => !Scaffold.excludedNames.contains entry.fileName
    let fs := fs.put place .directory
    kept.foldlM (fun fs entry => do
      let linked := (← entry.path.symlinkMetadata).type == .symlink
      if linked then pure fs else load fs (place ++ [entry.fileName])) fs
  | none =>
    try
      let bytes ← IO.FS.readBinFile path
      return fs.put place (.file (.plain ⟨bytes.toList⟩))
    catch _ => return fs

/-- Load what a path leads to, below the directories on the way to it. -/
def loadPath (fs : FileSystem) (path : String) : IO FileSystem := do
  let segments := (Path.ofString path).segments
  let whole := if (Path.ofString path).isAbsolute then segments else fs.workingDirectory ++ segments
  let place := whole.foldl (fun place segment =>
    if segment = "" ∨ segment = "." then place
    else if segment = ".." then place.dropLast
    else place ++ [segment]) []
  load (fs.makeWay place.dropLast) place

/-- Bring one place on the disk to its new state. -/
def store (change : Place × Option Node) : IO Unit := do
  let path := "/" ++ "/".intercalate change.1
  match change.2 with
  | some .directory => IO.FS.createDirAll path
  | some (.file content) => IO.FS.writeBinFile path (ByteArray.mk content.data.bytes.toArray)
  | _ => pure ()

/-- The paths that a command reads or changes. -/
def pathsOf : CommandLine.Command → List String
  | .validate spec | .repair spec => [spec]
  | .generate options => [options.spec, options.scaffolds, options.output]

/-- Run a command on the disk; answers the exit status. -/
def runOnDisk (arguments : List String) : IO UInt32 := do
  let environment : CommandLine.Environment :=
    ⟨← IO.getEnv "SITEGEN_SCAFFOLD", ← IO.getEnv "SITEGEN_OUT"⟩
  let paths := match CommandLine.readCommand arguments environment with
    | .ok command => pathsOf command
    | .error _ => []
  let bytes ← if "-" ∈ paths then readStream (← IO.getStdin) .empty else pure .empty
  let current := (Path.ofString (← IO.currentDir).toString).segments.filter (· ≠ "")
  let files ← paths.foldlM loadPath (FileSystem.empty.enter current)
  let outcome := CommandLine.run ⟨arguments, environment, ⟨bytes.toList⟩, files⟩
  (files.changes outcome.files).forM store
  (← IO.getStdout).putStr outcome.printed.output
  let complaints ← IO.getStderr
  match outcome.ending with
  | .success => pure ()
  | .usage => complaints.putStr CommandLine.helpText
  | .failure message => complaints.putStrLn ("Error: " ++ message)
  return UInt32.ofNat outcome.ending.status

end Siteworks

def main (arguments : List String) : IO UInt32 := Siteworks.runOnDisk arguments
