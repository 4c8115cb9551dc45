import CloudDrive.CommandLine.Run
import Std.Time.DateTime.Timestamp

/-!
# The program

Reads the files that a run needs, and writes what its report says.
-/

namespace CloudDrive.CommandLine

/-- The bytes of a file, or why they cannot be had. -/
def readFile (path : String) : IO (Except String ByteArray) := do
  try
    return .ok (← IO.FS.readBinFile path)
  catch e =>
    return .error (toString e)

/-- The files that an invocation names. -/
def Invocation.files (i : Invocation) : List String :=
  match i.action with
  | .upload _ files => i.fixture :: files
  | _ => [i.fixture]

/-- The time of the machine. -/
def machineTime : IO Instant := do
  return .ofEpoch (← Std.Time.Timestamp.now).toNanosecondsSinceUnixEpoch.val.toNat

/-- What a run finds on the machine. -/
def surroundings (i : Invocation) : IO Surroundings := do
  let found ← i.files.mapM fun path => return (path, ← readFile path)
  let read (path : String) : Except String ByteArray :=
    ((found.find? (·.1 == path)).map (·.2)).getD (.error "not read")
  return { read, now := ← machineTime }

/-- The fixture written if the report says so; the report tells if it cannot be. -/
def save (i : Invocation) (r : Report) : IO Report := do
  match r.saved with
  | none => return r
  | some text =>
    try
      IO.FS.writeFile i.fixture text
      return r
    catch _ =>
      return r.withoutSaving i.fixture

/-- A run of the program, and its exit code. -/
def perform (i : Invocation) : IO UInt32 := do
  let r := run (← surroundings i) i
  r.output.forM IO.println
  let r ← save i r
  r.notes.forM IO.eprintln
  r.error.forM fun message => IO.eprintln ("Error: " ++ message)
  return r.exitCode.toUInt32

end CloudDrive.CommandLine

open CloudDrive.CommandLine in
/-- Does what the arguments ask for; the exit code is 2 if they are refused. -/
def main (arguments : List String) : IO UInt32 := do
  match parse arguments with
  | .error e =>
    IO.eprintln ("error: " ++ e.message)
    return 2
  | .ok .help =>
    IO.println helpText
    return 0
  | .ok .version =>
    IO.println versionText
    return 0
  | .ok (.run i) => perform i
