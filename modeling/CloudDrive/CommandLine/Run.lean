import CloudDrive.CommandLine.Arguments
import CloudDrive.CommandLine.Layout
import CloudDrive.Flight
import CloudDrive.Session.Command
import CloudDrive.Store.Fixture
import CloudDrive.Wire.Operations

/-!
# Runs of the program

A run loads a store from its fixture, lets a session do one action on it, and prints what came of
it. It is a function of its arguments, of the files that it can read and of the time; the report
says what is printed, and what the fixture becomes.

* `run`: the report of an invocation.
* `saved_run_of_not_write`: without the option to write, the fixture stays as it is.
-/

namespace CloudDrive.CommandLine

open Store (Catalog)

/-- What a run finds. -/
structure Surroundings where
  /-- The bytes of a file, or why they cannot be had. -/
  read : String → Except String ByteArray
  /-- The time of the run. -/
  now : Instant

/-- What a run comes to. -/
structure Report where
  /-- The lines printed. -/
  output : List String
  /-- The remarks besides. -/
  notes : List String
  /-- The text that the fixture is to have, if it is written. -/
  saved : Option String
  /-- Why the run failed, if it did. -/
  error : Option String
  deriving Inhabited

namespace Report

/-- The exit code of the program. -/
def exitCode (r : Report) : Nat := if r.error.isSome then 1 else 0

/-- The remark that the fixture is written. -/
def writtenNote (fixture : String) : String := "Wrote " ++ fixture

/-- The report if the fixture cannot be written. -/
def withoutSaving (r : Report) (fixture : String) : Report :=
  { r with
    notes := r.notes.filter (· != writtenNote fixture)
    saved := none
    error := some ("Failed to write fixture " ++ fixture) }

end Report

/-! ## Shells -/

/-- A session at work, and the remarks made so far. -/
structure Shell where
  world : World Session
  notes : List String

/-- Work in a shell, which fails with a message. -/
abbrev Work := ExceptT String (StateM Shell)

namespace Work

/-- The session as it is. -/
def session : Work Session := return (← get).world.state

/-- The session changed at once. -/
def change (f : Session → Session) : Work Unit :=
  modify fun sh => { sh with world := { sh.world with state := f sh.world.state } }

/-- A command of the session; its refusal is the failure. -/
def ask (command : Session.Command) : Work Session.Answer := do
  let (reply, world) := command.program.finish (← get).world
  modify ({ · with world })
  match reply with
  | .ok answer => return answer
  | .error e => throw e.message

/-- Remarks made. -/
def note (notes : List String) : Work Unit :=
  modify fun sh => { sh with notes := sh.notes ++ notes }

/-! ## Actions -/

/-- A directory shown, and those of the names selected that are visible in it. -/
def select (directory : String) (names : List String) : Work Unit := do
  discard (ask (.navigate directory))
  let (count, s) := (← session).selectNames names
  change fun _ => s
  if count < names.length then
    let missing := names.filter (! s.selection.contains ·)
    note (missing.map fun name => "warning: " ++ name ++ " not found in " ++ directory)

end Work

/-- The name under which a local file is uploaded: the last component of its path. -/
def localName? (path : String) : Option String :=
  match ((Path.components path.toList).filter (· != ['.'])).getLast? with
  | none => none
  | some name => if name = ['.', '.'] then none else some (String.ofList name)

/-- A local file, ready for its upload. -/
def localFile (read : String → Except String ByteArray) (path : String) :
    Except String Remote.UploadFile :=
  match localName? path with
  | none => .error ("Invalid file name: " ++ path)
  | some name =>
    match read path with
    | .error _ => .error ("Failed to read " ++ path)
    | .ok bytes => .ok ⟨name, bytes.toList⟩

/-- An action carried out by the session. -/
def Action.work (read : String → Except String ByteArray) : Action → Work Unit
  | .list path all search => do
    discard (Work.ask (.navigate path))
    Work.change (·.setOptions { search, showHidden := all })
  | .createDirectory parent name => do
    discard (Work.ask (.navigate parent))
    discard (Work.ask (.createDirectory name))
  | .move directory target names => do
    Work.select directory names
    discard (Work.ask (.moveTo target))
  | .trash directory names => do
    Work.select directory names
    discard (Work.ask .trash)
  | .restore names => do
    Work.select (← Work.session).config.trashPath names
    discard (Work.ask .restore)
  | .purge names => do
    Work.select (← Work.session).config.trashPath names
    discard (Work.ask .deletePermanently)
  | .rename directory name newName => do
    discard (Work.ask (.navigate directory))
    if (← Work.ask (.rename name newName)) = .unchanged then
      Work.note [name ++ " already has that name"]
  | .upload directory paths => do
    discard (Work.ask (.navigate directory))
    match paths.mapM (localFile read) with
    | .error message => throw message
    | .ok files => discard (Work.ask (.upload files))

/-! ## Reports -/

/-- Does the action only look at the store? -/
def Action.isRead : Action → Bool
  | .list _ _ _ => true
  | _ => false

/-- What a run prints when its action is done. -/
def outcomeLines (i : Invocation) (s : Session) : List String :=
  match i.action.isRead, i.json with
  | true, true => [(Json.arr (s.visible.map (·.toJson))).pretty]
  | true, false => listingLines s.path s.visible
  | false, true => [(Json.arr (s.ledger.tasks.map (·.toJson))).pretty]
  | false, false => ledgerLines s.ledger.tasks s.notice

/-- Why a run fails whose action is done: some of its tasks failed. -/
def failedTasks? (tasks : List Task) : Option String :=
  let failed := tasks.countP (·.status == .failed)
  if failed = 0 then none else some (Nat.repr failed ++ " task(s) failed")

/-- Is the fixture written? An action that only looks at the store never is. -/
def Invocation.isWritten (i : Invocation) : Bool := i.write && ! i.action.isRead

/-- The report when the action is done. -/
def Report.ofShell (i : Invocation) (sh : Shell) : Report :=
  { output := outcomeLines i sh.world.state
    notes := sh.notes ++ if i.isWritten then [writtenNote i.fixture] else []
    saved := if i.isWritten then some sh.world.store.catalog.toText else none
    error := failedTasks? sh.world.state.ledger.tasks }

/-- A shell over the store of a catalog, at a time. -/
def Shell.start (catalog : Catalog) (now : Instant) : Shell :=
  { world := { state := .start {} now, store := .ofCatalog catalog now, slept := 0 }, notes := [] }

/-- The report of a run. -/
def run (around : Surroundings) (i : Invocation) : Report :=
  match Catalog.ofFile (around.read i.fixture) with
  | .error _ =>
    { output := []
      notes := []
      saved := none
      error := some ("Failed to load fixture " ++ i.fixture) }
  | .ok catalog =>
    match (i.action.work around.read).run (Shell.start catalog around.now) with
    | (.ok _, sh) => .ofShell i sh
    | (.error message, sh) =>
      { output := [], notes := sh.notes, saved := none, error := some message }

/-! ## Lemmas -/

/-- Without the option to write, the fixture stays as it is. -/
theorem saved_run_of_not_write (around : Surroundings) {i : Invocation} (h : i.isWritten = false) :
    (run around i).saved = none := by
  unfold run
  split
  · rfl
  · split
    · simp [Report.ofShell, h]
    · rfl

end CloudDrive.CommandLine
