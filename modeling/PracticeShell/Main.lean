import PracticeShell.Program
import Std.Time.DateTime.Timestamp

/-!
# The command line

`main` reads the words, the variables, the clock and the files that the program may need, does what
`Program.begin` and `Play.take` say, and carries their changes out: texts to the screen, files to
the disk.
-/

namespace PracticeShell.CommandLine

/-- The seconds since the first moment of 1970. -/
def now : IO Int := return (← Std.Time.Timestamp.now).toSecondsSinceUnixEpoch.val

/-- Writes pieces of text. Only a screen is given colours. -/
def display (pieces : List String) : IO Unit := do
  let stdout ← IO.getStdout
  let isScreen ← stdout.isTty
  pieces.forM fun text => stdout.putStr (if isScreen then text else Look.strip text)
  stdout.flush

/-- The variables for settings that are set. -/
def settingVariables : IO Settings.Variables := do
  let found ← Settings.names.mapM fun name => do
    let name := Settings.fullName name
    return (← IO.getEnv name).map fun value => (name, value)
  return found.filterMap id

/-- Adds the file at a path, if it can be read. -/
def addFile (d : Disk) (path : String) : IO Disk := do
  try return ((d.put path (← IO.FS.readBinFile path)).toOption).getD d
  catch _ => return d

/-- Adds the files in a directory. -/
def addDirectory (d : Disk) (path : String) : IO Disk := do
  try
    let entries ← (← IO.FS.realPath path).readDir
    entries.foldlM (fun d entry => addFile d (Path.join path entry.fileName)) d
  catch _ => return d

/-- What the program finds when it is started for an errand. -/
def surroundings (errand : Errand) : IO Surroundings := do
  let root := (← IO.currentDir).toString
  let s : Surroundings :=
    ⟨Settings.ofVariables root (← settingVariables), .empty (Path.segments root), ← now⟩
  let disk ← (Program.filesOn s errand).foldlM addFile s.disk
  let disk ← addDirectory disk s.settings.locations.adventures
  return { s with disk := ← addDirectory disk s.settings.locations.progress }

/-- Carries out what has changed on a disk. -/
def carryOut (old new : Disk) : IO Unit := do
  for (place, bytes) in new.newer old do
    IO.FS.createDirAll (Path.ofSegments place.dropLast)
    IO.FS.writeBinFile (Path.ofSegments place) bytes
  for place in new.gone old do
    IO.FS.removeFile (Path.ofSegments place)

/-- Waits for a line. -/
def readKeyboard : IO Keyboard := do
  let line ← (← IO.getStdin).getLine
  if line.isEmpty then return .endOfInput
  let line := String.ofList (Text.Lines.withoutFinal line.toList)
  return if line = "\x03" then .interrupt else .line line

/-- Plays until the play has ended. -/
partial def playOn (s : Surroundings) (p : Play) : IO UInt32 := do
  let (written, p) := p.takeWritten
  display written
  if p.hasEnded then return 0
  let input ← readKeyboard
  let p := p.setTime (← now)
  let old := (Program.reportOf s p).disk
  let (fault, p) : Option Play.Fault × Play := match Play.take input p with
    | .ok () p => (none, p)
    | .error fault p => (some fault, p)
  carryOut old (Program.reportOf s p).disk
  match fault with
  | none => playOn s p
  | some fault =>
    display p.takeWritten.1
    IO.eprintln (Program.Fault.play fault).message
    return 1

/-- Does what the program is started for. -/
def run (errand : Errand) : IO UInt32 := do
  let s ← surroundings errand
  match Program.begin s errand with
  | .error fault =>
    IO.eprintln fault.message
    return 1
  | .ok (.playing p) =>
    carryOut s.disk (Program.reportOf s p).disk
    playOn s p
  | .ok (.finished report) =>
    carryOut s.disk report.disk
    display report.written
    return report.exitCode.toUInt32

end PracticeShell.CommandLine

open PracticeShell in
/-- Starts the program with words. -/
def main (words : List String) : IO UInt32 := do
  match Errand.ofWords words with
  | .ok errand => CommandLine.run errand
  | .error (.shows text) =>
    IO.println text
    return 0
  | .error (.refused page cause) =>
    IO.eprintln (Usage.refusedText page cause)
    return Usage.refusedCode.toUInt32
